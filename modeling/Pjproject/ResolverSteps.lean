import Pjproject.DnsCacheLife
import Pjproject.ResolverTokens

/-! What every step of the resolver does to the places of the nodes and to the callbacks. -/
namespace Pjproject.Dns

structure Sound (role : Nat → Role) (resv : Resolver) : Prop where
  placed : Placed role resv
  tokens : Tokens role resv
  cached : Held none resv.cache

/- A query is taken out. -/

variable {role : Nat → Role} {resv resv' : Resolver} {q node : Nat} {delivery : Delivery}

theorem takeOutWaiting (placed : Placed role resv)
    (head : role q = .head) (status : DnsStatus) (pkt : Option Packet) (n : Nat) :
    Waiting (outRole role resv q) (resv.takeOut q status pkt) n ↔ Waiting role resv n := by
  have deliveries : (resv.takeOut q status pkt).deliveries =
      ⟨q,status,pkt,q :: (resv.queries q).children⟩ :: resv.deliveries := rfl
  have inside : n ∈ q :: (resv.queries q).children → Waiting role resv n := by
    intro member
    rcases List.mem_cons.mp member with rfl | member
    · exact .inl head
    · exact .inr (.inl ⟨q,(placed.child n q).mpr ⟨head,member⟩⟩)
  unfold Waiting
  rw [deliveries]
  constructor
  · rintro (isHead | ⟨p,isChild⟩ | ⟨d,member,left⟩)
    · unfold outRole at isHead
      split at isHead
      · cases isHead
      · exact .inl isHead
    · unfold outRole at isChild
      split at isChild
      · cases isChild
      · exact .inr (.inl ⟨p,isChild⟩)
    · rcases List.mem_cons.mp member with rfl | member
      · exact inside left
      · exact .inr (.inr ⟨d,member,left⟩)
  · intro waits
    by_cases moved : n ∈ q :: (resv.queries q).children
    · exact .inr (.inr ⟨_,List.mem_cons_self,moved⟩)
    · have same : outRole role resv q n = role n := if_neg moved
      rw [same]
      exact waits.imp_right fun rest => rest.imp_right fun ⟨d,member,left⟩ =>
        ⟨d,List.mem_cons_of_mem _ member,left⟩

theorem takeOutOwner (placed : Placed role resv) (head : role q = .head)
    (n : Nat) : owner (outRole role resv q) n = owner role n := by
  by_cases moved : n ∈ q :: (resv.queries q).children
  · simp only [owner,outRole,if_pos moved]
    rcases List.mem_cons.mp moved with rfl | member
    · rw [head]
    · rw [(placed.child n q).mpr ⟨head,member⟩]
  · simp only [owner,outRole,if_neg moved]

theorem takeOutQuery (resv : Resolver) (q : Nat) (status : DnsStatus) (pkt : Option Packet) (n : Nat) :
    ((resv.takeOut q status pkt).queries n).cb = (resv.queries n).cb ∧
      ((resv.takeOut q status pkt).queries n).key = (resv.queries n).key := by
  have queries : (resv.takeOut q status pkt).queries n =
      if n = q then { resv.queries q with timerId := false } else resv.queries n := Function.update_apply _ _ _ n
  rw [queries]
  split
  · rename_i same
    rw [same]
    exact ⟨rfl,rfl⟩
  · exact ⟨rfl,rfl⟩

theorem Sound.takeOut (sound : Sound role resv) (head : role q = .head)
    (status : DnsStatus) (pkt : Option Packet) : Sound (outRole role resv q) (resv.takeOut q status pkt) := by
  have placed' := sound.placed.takeOut head status pkt
  have waiting := takeOutWaiting sound.placed head status pkt
  have query := takeOutQuery resv q status pkt
  refine ⟨placed',?_,sound.cached⟩
  refine sound.tokens.still placed' ?_ ?_ ?_ ?_ rfl rfl rfl (Nat.le_refl _)
  · intro n t used has
    rw [(query n).1] at has
    refine ⟨?_,has,by rw [takeOutOwner sound.placed head,(query _).2]⟩
    intro unused
    refine used ?_
    unfold outRole
    split
    · rename_i moved
      rcases List.mem_cons.mp moved with rfl | member
      · rw [head] at unused
        cases unused
      · rw [(sound.placed.child n q).mpr ⟨head,member⟩] at unused
        cases unused
    · exact unused
  · exact fun n _ _ waits => (waiting n).mp waits
  · intro n t waits has
    exact ⟨(waiting n).mpr waits,by rw [(query n).1,has]⟩
  · intro n t has
    rw [(query n).1] at has
    exact .inl has

theorem Sound.keep (sound : Sound role resv) (placed' : Placed role resv') (cached' : Held none resv'.cache)
    (deliveries : resv'.deliveries = resv.deliveries)
    (query : ∀ n, (resv'.queries n).cb = (resv.queries n).cb ∧ (resv'.queries n).key = (resv.queries n).key)
    (asked : resv'.asked = resv.asked) (cancelled : resv'.cancelled = resv.cancelled) (calls : resv'.calls = resv.calls)
    (count : resv.tokens ≤ resv'.tokens) : Sound role resv' := by
  have waiting : ∀ n, Waiting role resv' n ↔ Waiting role resv n := by
    intro n
    unfold Waiting
    rw [deliveries]
  refine ⟨placed',?_,cached'⟩
  refine sound.tokens.still placed' ?_ ?_ ?_ ?_ asked cancelled calls count
  · intro n t used has
    exact ⟨used,(query n).1 ▸ has,(query _).2⟩
  · exact fun n _ _ waits => (waiting n).mp waits
  · exact fun n t waits has => ⟨(waiting n).mpr waits,by rw [(query n).1,has]⟩
  · exact fun n t has => .inl ((query n).1 ▸ has)

/- The next callback of a delivery. -/

theorem advanceWaiting (placed : Placed role resv)
    (running : delivery ∈ resv.deliveries) {left : List Nat} (more : delivery.left = node :: left)
    (deliveries : resv'.deliveries = { delivery with left } :: resv.deliveries.erase delivery) (n : Nat) :
    Waiting role resv' n ↔ Waiting role resv n ∧ n ≠ node := by
  have out : role node = .out delivery.query :=
    leftOut placed running (by rw [more]; exact List.mem_cons_self)
  have distinct : (node :: left).Nodup := by
    rw [← more]
    exact (placed.outDistinct delivery running).sublist (placed.left delivery running).sublist
  unfold Waiting
  rw [deliveries]
  constructor
  · rintro (isHead | ⟨p,isChild⟩ | ⟨d,member,isLeft⟩)
    · refine ⟨.inl isHead,?_⟩
      rintro rfl
      rw [out] at isHead
      cases isHead
    · refine ⟨.inr (.inl ⟨p,isChild⟩),?_⟩
      rintro rfl
      rw [out] at isChild
      cases isChild
    · rcases List.mem_cons.mp member with rfl | member
      · refine ⟨.inr (.inr ⟨delivery,running,by rw [more]; exact List.mem_cons_of_mem node isLeft⟩),?_⟩
        rintro rfl
        exact (List.nodup_cons.mp distinct).1 isLeft
      · obtain ⟨inside,apart⟩ := (placed.erased running d).mp member
        refine ⟨.inr (.inr ⟨d,inside,isLeft⟩),?_⟩
        rintro rfl
        have its := leftOut placed inside isLeft
        rw [out] at its
        exact apart (Role.out.inj its).symm
  · rintro ⟨isHead | ⟨p,isChild⟩ | ⟨d,member,isLeft⟩,apart⟩
    · exact .inl isHead
    · exact .inr (.inl ⟨p,isChild⟩)
    · by_cases same : d.query = delivery.query
      · have itself : d = delivery := List.inj_on_of_nodup_map placed.deliveries member running same
        rw [itself,more] at isLeft
        refine .inr (.inr ⟨{ delivery with left },List.mem_cons_self,?_⟩)
        exact (List.mem_cons.mp isLeft).resolve_left apart
      · exact .inr (.inr ⟨d,List.mem_cons_of_mem _ ((placed.erased running d).mpr ⟨member,same⟩),isLeft⟩)

theorem Sound.callNext (sound : Sound role resv)
    (running : delivery ∈ resv.deliveries) : Sound role (resv.callNext delivery) := by
  unfold Resolver.callNext
  split
  · exact sound
  · rename_i node left more
    dsimp only
    have waits : Waiting role resv node :=
      .inr (.inr ⟨delivery,running,by rw [more]; exact List.mem_cons_self⟩)
    unfold Resolver.callback
    split
    · rename_i silent
      have placed' : Placed role { resv with
          deliveries := { delivery with left } :: resv.deliveries.erase delivery } :=
        sound.placed.advance running more rfl rfl rfl rfl rfl rfl rfl
      have waiting : ∀ n, Waiting role { resv with
          deliveries := { delivery with left } :: resv.deliveries.erase delivery } n ↔ Waiting role resv n ∧ n ≠ node :=
        advanceWaiting sound.placed running more rfl
      refine ⟨placed',?_,sound.cached⟩
      refine sound.tokens.still placed' ?_ ?_ ?_ (fun _ _ has => .inl has) rfl rfl rfl (Nat.le_refl _)
      · exact fun n t used has => ⟨used,has,rfl⟩
      · exact fun n _ _ isN => ((waiting n).mp isN).1
      · intro n t isN has
        refine ⟨(waiting n).mpr ⟨isN,?_⟩,has⟩
        rintro rfl
        have none_ : (resv.queries n).cb = none := silent
        rw [has] at none_
        cases none_
    · rename_i token has
      refine ⟨sound.placed.advance running more rfl rfl rfl rfl rfl rfl rfl,?_,sound.cached⟩
      exact sound.tokens.call sound.placed waits has rfl (advanceWaiting sound.placed running more rfl) rfl rfl rfl rfl

theorem Sound.finish (sound : Sound role resv)
    (running : delivery ∈ resv.deliveries) (done : delivery.left = []) (now : Nat) :
    ∃ cache, resv.cacheAnswer delivery now = some cache ∧
      ∃ resv', resv.finish delivery now = some resv' ∧ resv'.cache = cache ∧
        Sound (freeRole role delivery.query) resv' := by
  obtain ⟨cache,stored,cached⟩ : ∃ cache, resv.cacheAnswer delivery now = some cache ∧ Held none cache := by
    unfold Resolver.cacheAnswer
    split
    · exact ⟨resv.cache,rfl,sound.cached⟩
    · split
      · exact ⟨resv.cache,rfl,sound.cached⟩
      · exact sound.cached.updateResCache _ _ _ _ _
  refine ⟨cache,stored,{ resv with
    cache
    deliveries := resv.deliveries.erase delivery
    freeNodes := resv.freeNodes ++ (resv.queries delivery.query).children ++ [delivery.query] },?_,rfl,?_⟩
  · unfold Resolver.finish
    rw [stored]
    rfl
  have placed' : Placed (freeRole role delivery.query) { resv with
      cache
      deliveries := resv.deliveries.erase delivery
      freeNodes := resv.freeNodes ++ (resv.queries delivery.query).children ++ [delivery.query] } :=
    sound.placed.finish running rfl rfl rfl rfl rfl rfl rfl
  have keeps : ∀ n, freeRole role delivery.query n ≠ .unused → freeRole role delivery.query n = role n := by
    intro n used
    unfold freeRole at used ⊢
    split
    · rename_i out
      rw [if_pos out] at used
      exact absurd rfl used
    · rfl
  refine ⟨placed',?_,cached⟩
  refine sound.tokens.still placed' ?_ ?_ ?_ (fun _ _ has => .inl has) rfl rfl rfl (Nat.le_refl _)
  · intro n t used has
    have same := keeps n used
    refine ⟨same ▸ used,has,?_⟩
    unfold owner
    rw [same]
  · rintro n t _ (isHead | ⟨p,isChild⟩ | ⟨d,member,left⟩)
    · exact .inl ((keeps n (by rw [isHead]; nofun)).symm.trans isHead)
    · exact .inr (.inl ⟨p,(keeps n (by rw [isChild]; nofun)).symm.trans isChild⟩)
    · exact .inr (.inr ⟨d,((sound.placed.erased running d).mp member).1,left⟩)
  · rintro n t (isHead | ⟨p,isChild⟩ | ⟨d,member,left⟩) has
    · refine ⟨.inl ((if_neg ?_).trans isHead),has⟩
      rw [isHead]
      nofun
    · refine ⟨.inr (.inl ⟨p,(if_neg ?_).trans isChild⟩),has⟩
      rw [isChild]
      nofun
    · refine ⟨.inr (.inr ⟨d,(sound.placed.erased running d).mpr ⟨member,?_⟩,left⟩),has⟩
      intro same
      have itself : d = delivery := List.inj_on_of_nodup_map sound.placed.deliveries member running same
      rw [itself,done] at left
      cases left

theorem queriesWrite (resv : Resolver) (node : Nat) (query : Query) (n : Nat) :
    (resv.write node query).queries n = if n = node then query else resv.queries n :=
  Function.update_apply resv.queries node query n

theorem timersSet (resv : Resolver) (node : Nat) (scheduled : Bool) (n : Nat) :
    (resv.setTimer node scheduled).timers n = if n = node then scheduled else resv.timers n :=
  Function.update_apply resv.timers node scheduled n

/- A step that touches one node, and of that neither its place nor its callback. -/
structure Touches (node : Nat) (resv resv' : Resolver) : Prop where
  free : resv'.freeNodes = resv.freeNodes
  fresh : resv'.fresh = resv.fresh
  byRes : resv'.byRes = resv.byRes
  byId : resv'.byId = resv.byId
  deliveries : resv'.deliveries = resv.deliveries
  cache : resv'.cache = resv.cache
  asked : resv'.asked = resv.asked
  cancelled : resv'.cancelled = resv.cancelled
  calls : resv'.calls = resv.calls
  tokens : resv'.tokens = resv.tokens
  others : ∀ n, n ≠ node → resv'.queries n = resv.queries n
  shape : SameShape (resv.queries node) (resv'.queries node)
  cb : (resv'.queries node).cb = (resv.queries node).cb
  timers : ∀ n, n ≠ node → resv'.timers n = resv.timers n

theorem touchesWrite {query : Query} (same : resv' = resv.write node query)
    (shape : SameShape (resv.queries node) query) (cb : query.cb = (resv.queries node).cb) : Touches node resv resv' := by
  subst same
  have here : (resv.write node query).queries node = query := by rw [queriesWrite,if_pos rfl]
  constructor
  case others =>
    intro n apart
    rw [queriesWrite,if_neg apart]
  case shape => rw [here]; exact shape
  case cb => rw [here]; exact cb
  case timers => exact fun _ _ => rfl
  all_goals rfl

theorem touchesTimer (resv : Resolver) (node : Nat) (scheduled : Bool) :
    Touches node resv (resv.setTimer node scheduled) := by
  constructor
  case others => exact fun _ _ => rfl
  case shape => exact ⟨rfl,rfl,rfl⟩
  case cb => rfl
  case timers =>
    intro n apart
    rw [timersSet,if_neg apart]
  all_goals rfl

theorem Touches.trans {one two three : Resolver} (first : Touches node one two)
    (second : Touches node two three) : Touches node one three := by
  constructor
  case free => rw [second.free,first.free]
  case fresh => rw [second.fresh,first.fresh]
  case byRes => rw [second.byRes,first.byRes]
  case byId => rw [second.byId,first.byId]
  case deliveries => rw [second.deliveries,first.deliveries]
  case cache => rw [second.cache,first.cache]
  case asked => rw [second.asked,first.asked]
  case cancelled => rw [second.cancelled,first.cancelled]
  case calls => rw [second.calls,first.calls]
  case tokens => rw [second.tokens,first.tokens]
  case others => exact fun n apart => (second.others n apart).trans (first.others n apart)
  case shape =>
    obtain ⟨id,key,children⟩ := first.shape
    obtain ⟨id',key',children'⟩ := second.shape
    exact ⟨id'.trans id,key'.trans key,children'.trans children⟩
  case cb => rw [second.cb,first.cb]
  case timers => exact fun n apart => (second.timers n apart).trans (first.timers n apart)

theorem Touches.query (touches : Touches node resv resv') (n : Nat) :
    SameShape (resv.queries n) (resv'.queries n) ∧ (resv'.queries n).cb = (resv.queries n).cb := by
  by_cases same : n = node
  · rw [same]
    exact ⟨touches.shape,touches.cb⟩
  · rw [touches.others n same]
    exact ⟨⟨rfl,rfl,rfl⟩,rfl⟩

theorem transmitTouches (resv : Resolver) (node : Nat) (net : Transmission) :
    Touches node resv (resv.transmitQuery node net) := by
  have writes : ∀ timerId cnt, Touches node resv
      (resv.write node { resv.queries node with timerId, transmitCnt := cnt }) := fun timerId cnt =>
    touchesWrite rfl ⟨rfl,rfl,rfl⟩ rfl
  unfold Resolver.transmitQuery
  cases net with
  | noServer =>
    constructor
    case others => exact fun _ _ => rfl
    case shape => exact ⟨rfl,rfl,rfl⟩
    case timers => exact fun _ _ => rfl
    all_goals rfl
  | noTimer => exact writes true _
  | busy => exact (writes true _).trans (touchesTimer _ node true)
  | nothingSent => exact (writes true _).trans (touchesTimer _ node false)
  | sent => exact (writes true _).trans (touchesTimer _ node true)

theorem transmitTimer (resv : Resolver) (node : Nat) (net : Transmission) :
    if net.succeeds then (resv.transmitQuery node net).timers node = true
    else (resv.transmitQuery node net).timers node = true → resv.timers node = true := by
  cases net with
  | busy => exact Function.update_self node true resv.timers
  | sent => exact Function.update_self node true resv.timers
  | noServer => exact id
  | noTimer => exact id
  | nothingSent =>
    intro scheduled
    have off : (resv.transmitQuery node .nothingSent).timers node = false :=
      (timersSet _ node false node).trans (if_pos rfl)
    rw [off] at scheduled
    cases scheduled

theorem Sound.touch (sound : Sound role resv)
    (touches : Touches node resv resv') (scheduled : resv'.timers node = true → role node = .head) :
    Sound role resv' := by
  have shape := fun n => (touches.query n).1
  refine sound.keep ?_ (touches.cache ▸ sound.cached) touches.deliveries ?_ touches.asked touches.cancelled touches.calls
    (Nat.le_of_eq touches.tokens.symm)
  · refine sound.placed.keep touches.free touches.fresh touches.byRes touches.byId touches.deliveries shape ?_
    intro q isOn
    by_cases same : q = node
    · rw [same] at isOn ⊢
      exact scheduled isOn
    · rw [touches.timers q same] at isOn
      exact sound.placed.timers q isOn
  · exact fun n => ⟨(touches.query n).2,(shape n).2.1⟩

end Pjproject.Dns
