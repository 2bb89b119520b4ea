import Pjproject.Resolver

/-! Every query node of the resolver has one place at a time: free, at the head of a pending query, below one, or in the
delivery of an answer. The tables, the timers and the lists agree about it. -/
namespace Pjproject.Dns

inductive Role where
  | unused
  | head
  | child (parent : Nat)
  | out (query : Nat)
  deriving DecidableEq

structure Placed (role : Nat → Role) (resv : Resolver) : Prop where
  free : ∀ n ∈ resv.freeNodes, role n = .unused ∧ n < resv.fresh
  freeDistinct : resv.freeNodes.Nodup
  old : ∀ n, role n ≠ .unused → n < resv.fresh
  res : ∀ key q, resv.byRes key = some q ↔ role q = .head ∧ (resv.queries q).key = key
  ids : ∀ id q, resv.byId id = some q → role q = .head ∧ (resv.queries q).id = id
  heads : ∀ q, role q = .head → (resv.queries q).children.Nodup
  child : ∀ c q, role c = .child q ↔ role q = .head ∧ c ∈ (resv.queries q).children
  outs : ∀ n q, role n = .out q ↔
    (∃ d ∈ resv.deliveries, d.query = q) ∧ n ∈ q :: (resv.queries q).children
  outDistinct : ∀ d ∈ resv.deliveries, (d.query :: (resv.queries d.query).children).Nodup
  left : ∀ d ∈ resv.deliveries, d.left <:+ d.query :: (resv.queries d.query).children
  deliveries : (resv.deliveries.map Delivery.query).Nodup
  timers : ∀ q, resv.timers q = true → role q = .head

def SameShape (old new : Query) : Prop := new.id = old.id ∧ new.key = old.key ∧ new.children = old.children

variable {role : Nat → Role} {resv resv' : Resolver} {n : Nat} {delivery : Delivery}

theorem Placed.keep (placed : Placed role resv)
    (free : resv'.freeNodes = resv.freeNodes) (fresh : resv'.fresh = resv.fresh) (byRes : resv'.byRes = resv.byRes)
    (byId : resv'.byId = resv.byId) (deliveries : resv'.deliveries = resv.deliveries)
    (shape : ∀ n, SameShape (resv.queries n) (resv'.queries n))
    (timers : ∀ q, resv'.timers q = true → role q = .head) : Placed role resv' := by
  have key : ∀ n, (resv'.queries n).key = (resv.queries n).key := fun n => (shape n).2.1
  have id : ∀ n, (resv'.queries n).id = (resv.queries n).id := fun n => (shape n).1
  have children : ∀ n, (resv'.queries n).children = (resv.queries n).children := fun n => (shape n).2.2
  constructor
  case free => rw [free,fresh]; exact placed.free
  case freeDistinct => rw [free]; exact placed.freeDistinct
  case old => rw [fresh]; exact placed.old
  case res => simp only [byRes,key]; exact placed.res
  case ids => simp only [byId,id]; exact placed.ids
  case heads => simp only [children]; exact placed.heads
  case child => simp only [children]; exact placed.child
  case outs => simp only [deliveries,children]; exact placed.outs
  case outDistinct => simp only [deliveries,children]; exact placed.outDistinct
  case left => simp only [deliveries,children]; exact placed.left
  case deliveries => rw [deliveries]; exact placed.deliveries
  case timers => exact timers

theorem Placed.overwrite (placed : Placed role resv)
    (unused : role n = .unused) (query : Query) : Placed role (resv.write n query) := by
  have other : ∀ q, role q ≠ .unused → (resv.write n query).queries q = resv.queries q := by
    intro q used
    refine Function.update_of_ne ?_ query resv.queries
    rintro rfl
    exact used unused
  have isHead : ∀ q, role q = .head → (resv.write n query).queries q = resv.queries q := by
    intro q head
    exact other q (by rw [head]; nofun)
  have isOut : ∀ d ∈ resv.deliveries, (resv.write n query).queries d.query = resv.queries d.query := by
    intro d member
    have role_ := (placed.outs d.query d.query).mpr ⟨⟨d,member,rfl⟩,List.mem_cons_self⟩
    exact other d.query (by rw [role_]; nofun)
  constructor
  case free => exact placed.free
  case freeDistinct => exact placed.freeDistinct
  case old => exact placed.old
  case res =>
    intro key q
    refine (placed.res key q).trans (and_congr_right fun head => ?_)
    rw [isHead q head]
  case ids =>
    intro id q found
    obtain ⟨head,same⟩ := placed.ids id q found
    exact ⟨head,by rw [isHead q head,same]⟩
  case heads =>
    intro q head
    rw [isHead q head]
    exact placed.heads q head
  case child =>
    intro c q
    refine (placed.child c q).trans (and_congr_right fun head => ?_)
    rw [isHead q head]
  case outs =>
    intro m q
    refine (placed.outs m q).trans (and_congr_right fun ⟨d,member,same⟩ => ?_)
    rw [← same,isOut d member]
  case outDistinct =>
    intro d member
    rw [isOut d member]
    exact placed.outDistinct d member
  case left =>
    intro d member
    rw [isOut d member]
    exact placed.left d member
  case deliveries => exact placed.deliveries
  case timers => exact placed.timers

theorem Placed.alloc (placed : Placed role resv) (cb : Option Nat) :
    role resv.allocNode = .unused ∧ Placed role (resv.allocQnode cb) ∧
      resv.allocNode ∉ (resv.allocQnode cb).freeNodes ∧ resv.allocNode < (resv.allocQnode cb).fresh := by
  have unused : role resv.allocNode = .unused := by
    unfold Resolver.allocNode
    cases nodes : resv.freeNodes with
    | nil =>
      by_contra used
      exact absurd (placed.old resv.fresh used) (Nat.lt_irrefl _)
    | cons n => exact (placed.free n (by rw [nodes]; exact List.mem_cons_self)).1
  have grows : resv.fresh ≤ (resv.allocQnode cb).fresh := by
    unfold Resolver.allocQnode
    dsimp only
    split
    · exact Nat.le_succ _
    · exact Nat.le_refl _
  have written := placed.overwrite unused { cb }
  refine ⟨unused,?_,?_,?_⟩
  · constructor
    case free =>
      intro n member
      obtain ⟨free,below⟩ := placed.free n (List.mem_of_mem_tail member)
      exact ⟨free,Nat.lt_of_lt_of_le below grows⟩
    case freeDistinct => exact placed.freeDistinct.sublist (List.tail_sublist _)
    case old => exact fun n used => Nat.lt_of_lt_of_le (placed.old n used) grows
    case res => exact written.res
    case ids => exact written.ids
    case heads => exact written.heads
    case child => exact written.child
    case outs => exact written.outs
    case outDistinct => exact written.outDistinct
    case left => exact written.left
    case deliveries => exact written.deliveries
    case timers => exact written.timers
  · unfold Resolver.allocNode Resolver.allocQnode
    dsimp only
    cases nodes : resv.freeNodes with
    | nil => exact fun member => (nomatch member)
    | cons =>
      have distinct := placed.freeDistinct
      rw [nodes,List.nodup_cons] at distinct
      exact distinct.1
  · unfold Resolver.allocNode Resolver.allocQnode
    dsimp only
    cases nodes : resv.freeNodes with
    | nil => exact Nat.lt_succ_self _
    | cons n => exact (placed.free n (by rw [nodes]; exact List.mem_cons_self)).2

theorem roleUpdate (role : Nat → Role) (n : Nat) (new : Role) (m : Nat) :
    Function.update role n new m = if m = n then new else role m :=
  Function.update_apply role n new m

theorem Placed.adopt (placed : Placed role resv) {parent : Nat}
    (head : role parent = .head) (unused : role n = .unused) (notFree : n ∉ resv.freeNodes) (made : n < resv.fresh) :
    Placed (Function.update role n (.child parent))
      (resv.write parent { resv.queries parent with children := (resv.queries parent).children ++ [n] }) := by
  have apart : parent ≠ n := by
    rintro rfl
    rw [head] at unused
    cases unused
  have queries : ∀ q, (resv.write parent { resv.queries parent with
      children := (resv.queries parent).children ++ [n] }).queries q =
        if q = parent then { resv.queries parent with children := (resv.queries parent).children ++ [n] }
        else resv.queries q := fun q => Function.update_apply _ _ _ q
  have headRole : ∀ q, Function.update role n (.child parent) q = .head ↔ role q = .head := by
    intro q
    rw [roleUpdate]
    split
    · rename_i same
      rw [same,unused]
      exact iff_of_false nofun nofun
    · rfl
  have isOut : ∀ d ∈ resv.deliveries, d.query ≠ parent := by
    intro d member same
    have out := (placed.outs d.query d.query).mpr ⟨⟨d,member,rfl⟩,List.mem_cons_self⟩
    rw [same,head] at out
    cases out
  have absent : n ∉ (resv.queries parent).children := by
    intro member
    have below := (placed.child n parent).mpr ⟨head,member⟩
    rw [unused] at below
    cases below
  constructor
  case free =>
    intro m member
    rw [roleUpdate,if_neg (fun same : m = n => notFree (same ▸ member))]
    exact placed.free m member
  case freeDistinct => exact placed.freeDistinct
  case old =>
    intro m used
    rw [roleUpdate] at used
    split at used
    · rename_i same
      exact same ▸ made
    · exact placed.old m used
  case res =>
    intro key q
    rw [headRole,queries]
    refine (placed.res key q).trans (and_congr_right fun _ => ?_)
    split
    · rename_i same
      rw [same]
    · rfl
  case ids =>
    intro id q found
    obtain ⟨isHead,same⟩ := placed.ids id q found
    refine ⟨(headRole q).mpr isHead,?_⟩
    rw [queries]
    split
    · rename_i itself
      rw [← itself,same]
    · exact same
  case heads =>
    intro q isHead
    rw [queries]
    split
    · rw [List.nodup_append_comm]
      exact List.nodup_cons.mpr ⟨absent,placed.heads parent head⟩
    · exact placed.heads q ((headRole q).mp isHead)
  case child =>
    intro c q
    rw [headRole,queries,roleUpdate]
    by_cases isNode : c = n
    · rw [if_pos isNode]
      by_cases isParent : q = parent
      · rw [if_pos isParent,isParent]
        refine iff_of_true rfl ⟨head,?_⟩
        rw [isNode]
        exact List.mem_append_right _ (List.mem_singleton.mpr rfl)
      · rw [if_neg isParent]
        refine iff_of_false (fun same => isParent (Role.child.inj same).symm) ?_
        rintro ⟨isHead,member⟩
        have below := (placed.child c q).mpr ⟨isHead,member⟩
        rw [isNode,unused] at below
        cases below
    · rw [if_neg isNode]
      refine (placed.child c q).trans (and_congr_right fun _ => ?_)
      split
      · rename_i isParent
        rw [isParent,List.mem_append,List.mem_singleton]
        exact ⟨.inl,fun either => either.resolve_right isNode⟩
      · rfl
  case outs =>
    intro m q
    rw [roleUpdate]
    have children : ∀ d ∈ resv.deliveries, d.query = q →
        ((resv.write parent { resv.queries parent with
          children := (resv.queries parent).children ++ [n] }).queries q) = resv.queries q := by
      rintro d member rfl
      rw [queries,if_neg (isOut d member)]
    split
    · rename_i same
      refine iff_of_false nofun ?_
      rintro ⟨⟨d,member,isQuery⟩,inside⟩
      rw [children d member isQuery] at inside
      have out := (placed.outs m q).mpr ⟨⟨d,member,isQuery⟩,inside⟩
      rw [same,unused] at out
      cases out
    · refine (placed.outs m q).trans (and_congr_right fun ⟨d,member,isQuery⟩ => ?_)
      rw [children d member isQuery]
  case outDistinct =>
    intro d member
    rw [queries,if_neg (isOut d member)]
    exact placed.outDistinct d member
  case left =>
    intro d member
    rw [queries,if_neg (isOut d member)]
    exact placed.left d member
  case deliveries => exact placed.deliveries
  case timers => exact fun q scheduled => (headRole q).mpr (placed.timers q scheduled)

theorem Placed.enlist (placed : Placed role resv)
    (unused : role n = .unused) (notFree : n ∉ resv.freeNodes) (made : n < resv.fresh)
    (free : resv'.freeNodes = resv.freeNodes) (fresh : resv'.fresh = resv.fresh)
    (deliveries : resv'.deliveries = resv.deliveries) (queries : ∀ q, q ≠ n → resv'.queries q = resv.queries q)
    (childless : (resv'.queries n).children = []) (absent : resv.byRes (resv'.queries n).key = none)
    (byRes : resv'.byRes = Function.update resv.byRes (resv'.queries n).key (some n))
    (byId : resv'.byId = Function.update resv.byId (resv'.queries n).id (some n))
    (timers : ∀ q, q ≠ n → resv'.timers q = resv.timers q) : Placed (Function.update role n .head) resv' := by
  have used : ∀ q, role q ≠ .unused → q ≠ n := by
    rintro q isUsed rfl
    exact isUsed unused
  have isHead : ∀ q, role q = .head → q ≠ n := fun q head => used q (by rw [head]; nofun)
  have outNode : ∀ d ∈ resv.deliveries, d.query ≠ n := by
    intro d member
    have out := (placed.outs d.query d.query).mpr ⟨⟨d,member,rfl⟩,List.mem_cons_self⟩
    exact used d.query (by rw [out]; nofun)
  constructor
  case free =>
    intro m member
    rw [free] at member
    rw [roleUpdate,if_neg (fun same : m = n => notFree (same ▸ member)),fresh]
    exact placed.free m member
  case freeDistinct => rw [free]; exact placed.freeDistinct
  case old =>
    intro m isUsed
    rw [fresh]
    rw [roleUpdate] at isUsed
    split at isUsed
    · rename_i same
      exact same ▸ made
    · exact placed.old m isUsed
  case res =>
    intro key q
    rw [byRes,Function.update_apply,roleUpdate]
    by_cases isNode : q = n
    · subst isNode
      rw [if_pos rfl]
      split
      · rename_i same
        exact iff_of_true rfl ⟨rfl,same.symm⟩
      · rename_i other
        refine iff_of_false ?_ (fun ⟨_,same⟩ => other same.symm)
        intro found
        rw [((placed.res key q).mp found).1] at unused
        cases unused
    · rw [if_neg isNode,queries q isNode]
      split
      · rename_i same
        refine iff_of_false (fun found => isNode (Option.some.inj found).symm) ?_
        intro found
        have held := (placed.res key q).mpr found
        rw [same,absent] at held
        cases held
      · exact placed.res key q
  case ids =>
    intro id q found
    rw [byId,Function.update_apply] at found
    split at found
    · rename_i same
      cases found
      exact ⟨by rw [roleUpdate,if_pos rfl],same.symm⟩
    · obtain ⟨head,same⟩ := placed.ids id q found
      have apart := isHead q head
      exact ⟨by rw [roleUpdate,if_neg apart,head],by rw [queries q apart,same]⟩
  case heads =>
    intro q head
    rw [roleUpdate] at head
    split at head
    · rename_i same
      rw [same,childless]
      exact List.nodup_nil
    · rename_i apart
      rw [queries q apart]
      exact placed.heads q head
  case child =>
    intro c q
    rw [roleUpdate,roleUpdate]
    by_cases isNode : q = n
    · rw [if_pos isNode,isNode,childless]
      refine iff_of_false ?_ (fun ⟨_,member⟩ => (nomatch member))
      intro below
      split at below
      · cases below
      · have parent := ((placed.child c n).mp below).1
        rw [parent] at unused
        cases unused
    · rw [if_neg isNode,queries q isNode]
      split
      · rename_i same
        refine iff_of_false nofun fun inside => ?_
        have below := (placed.child c q).mpr inside
        rw [same,unused] at below
        cases below
      · exact placed.child c q
  case outs =>
    intro m q
    rw [roleUpdate,deliveries]
    have same : ∀ d ∈ resv.deliveries, d.query = q → resv'.queries q = resv.queries q := by
      rintro d member rfl
      exact queries d.query (outNode d member)
    split
    · rename_i isNode
      refine iff_of_false nofun ?_
      rintro ⟨⟨d,member,isQuery⟩,inside⟩
      rw [same d member isQuery] at inside
      have out := (placed.outs m q).mpr ⟨⟨d,member,isQuery⟩,inside⟩
      rw [isNode,unused] at out
      cases out
    · refine (placed.outs m q).trans (and_congr_right fun ⟨d,member,isQuery⟩ => ?_)
      rw [same d member isQuery]
  case outDistinct =>
    intro d member
    rw [deliveries] at member
    rw [queries d.query (outNode d member)]
    exact placed.outDistinct d member
  case left =>
    intro d member
    rw [deliveries] at member
    rw [queries d.query (outNode d member)]
    exact placed.left d member
  case deliveries => rw [deliveries]; exact placed.deliveries
  case timers =>
    intro q scheduled
    rw [roleUpdate]
    split
    · rfl
    · rename_i apart
      rw [timers q apart] at scheduled
      exact placed.timers q scheduled

/- A pending query leaves the tables with everything below it. -/
def outRole (role : Nat → Role) (resv : Resolver) (q : Nat) (n : Nat) : Role :=
  if n ∈ q :: (resv.queries q).children then .out q else role n

theorem Placed.takeOut (placed : Placed role resv) {q : Nat} (head : role q = .head)
    (status : DnsStatus) (pkt : Option Packet) : Placed (outRole role resv q) (resv.takeOut q status pkt) := by
  have below : ∀ n ∈ (resv.queries q).children, role n = .child q := fun n member =>
    (placed.child n q).mpr ⟨head,member⟩
  have moved : ∀ n ∈ q :: (resv.queries q).children, role n = .head ∧ n = q ∨ role n = .child q := by
    intro n member
    rcases List.mem_cons.mp member with rfl | member
    · exact .inl ⟨head,rfl⟩
    · exact .inr (below n member)
  have stays : ∀ n, role n ≠ .child q → n ≠ q → outRole role resv q n = role n := by
    intro n notBelow apart
    refine if_neg fun member => ?_
    rcases moved n member with ⟨_,same⟩ | is
    · exact apart same
    · exact notBelow is
  have headRole : ∀ n, outRole role resv q n = .head ↔ role n = .head ∧ n ≠ q := by
    intro n
    unfold outRole
    split
    · rename_i member
      refine iff_of_false nofun ?_
      rintro ⟨isHead,apart⟩
      rcases moved n member with ⟨_,same⟩ | is
      · exact apart same
      · rw [isHead] at is
        cases is
    · rename_i notMember
      refine ⟨fun isHead => ⟨isHead,?_⟩,fun both => both.1⟩
      rintro rfl
      exact notMember List.mem_cons_self
  have queries : ∀ n, (resv.takeOut q status pkt).queries n =
      if n = q then { resv.queries q with timerId := false } else resv.queries n := fun n =>
    Function.update_apply _ _ _ n
  have shape : ∀ n, SameShape (resv.queries n) ((resv.takeOut q status pkt).queries n) := by
    intro n
    rw [queries]
    split
    · rename_i same
      rw [same]
      exact ⟨rfl,rfl,rfl⟩
    · exact ⟨rfl,rfl,rfl⟩
  have key : ∀ n, ((resv.takeOut q status pkt).queries n).key = (resv.queries n).key := fun n => (shape n).2.1
  have id : ∀ n, ((resv.takeOut q status pkt).queries n).id = (resv.queries n).id := fun n => (shape n).1
  have children : ∀ n, ((resv.takeOut q status pkt).queries n).children = (resv.queries n).children :=
    fun n => (shape n).2.2
  have notOut : ∀ d ∈ resv.deliveries, d.query ≠ q := by
    intro d member same
    have out := (placed.outs d.query d.query).mpr ⟨⟨d,member,rfl⟩,List.mem_cons_self⟩
    rw [same,head] at out
    cases out
  have deliveries : (resv.takeOut q status pkt).deliveries =
      ⟨q,status,pkt,q :: (resv.queries q).children⟩ :: resv.deliveries := rfl
  have distinct : (q :: (resv.queries q).children).Nodup := by
    refine List.nodup_cons.mpr ⟨fun member => ?_,placed.heads q head⟩
    have is := below q member
    rw [head] at is
    cases is
  constructor
  case free =>
    intro n member
    obtain ⟨unused,made⟩ := placed.free n member
    refine ⟨?_,made⟩
    rw [stays n (by rw [unused]; nofun),unused]
    rintro rfl
    rw [head] at unused
    cases unused
  case freeDistinct => exact placed.freeDistinct
  case old =>
    intro n used
    refine placed.old n fun unused => used ?_
    rw [stays n (by rw [unused]; nofun),unused]
    rintro rfl
    rw [head] at unused
    cases unused
  case res =>
    intro k n
    rw [headRole,key]
    change Function.update resv.byRes (resv.queries q).key none k = some n ↔ _
    rw [Function.update_apply]
    split
    · rename_i same
      refine iff_of_false nofun ?_
      rintro ⟨⟨isHead,apart⟩,isKey⟩
      have mine := (placed.res k q).mpr ⟨head,same.symm⟩
      have its := (placed.res k n).mpr ⟨isHead,isKey⟩
      exact apart (Option.some.inj (its.symm.trans mine))
    · rename_i other
      rw [placed.res k n]
      refine ⟨fun ⟨isHead,isKey⟩ => ⟨⟨isHead,?_⟩,isKey⟩,fun ⟨⟨isHead,_⟩,isKey⟩ => ⟨isHead,isKey⟩⟩
      rintro rfl
      exact other isKey.symm
  case ids =>
    intro i n found
    rw [headRole,id]
    change Function.update resv.byId (resv.queries q).id none i = some n at found
    rw [Function.update_apply] at found
    split at found
    · cases found
    · rename_i other
      obtain ⟨isHead,same⟩ := placed.ids i n found
      refine ⟨⟨isHead,?_⟩,same⟩
      rintro rfl
      exact other same.symm
  case heads =>
    intro n isHead
    rw [children]
    exact placed.heads n ((headRole n).mp isHead).1
  case child =>
    intro c n
    rw [headRole,children]
    by_cases same : n = q
    · rw [same]
      refine iff_of_false (fun isChild => ?_) (fun ⟨⟨_,apart⟩,_⟩ => apart rfl)
      unfold outRole at isChild
      split at isChild
      · cases isChild
      · rename_i notMember
        exact notMember (List.mem_cons_of_mem q ((placed.child c q).mp isChild).2)
    · have unmoved : outRole role resv q c = .child n ↔ role c = .child n := by
        unfold outRole
        split
        · rename_i member
          refine iff_of_false nofun fun isChild => ?_
          rcases moved c member with ⟨isHead,_⟩ | is
          · rw [isHead] at isChild
            cases isChild
          · rw [is] at isChild
            exact same (Role.child.inj isChild).symm
        · rfl
      rw [unmoved,placed.child c n]
      exact ⟨fun ⟨isHead,member⟩ => ⟨⟨isHead,same⟩,member⟩,fun ⟨⟨isHead,_⟩,member⟩ => ⟨isHead,member⟩⟩
  case outs =>
    intro m n
    rw [children,deliveries]
    by_cases same : n = q
    · rw [same]
      unfold outRole
      split
      · rename_i member
        exact iff_of_true rfl ⟨⟨_,List.mem_cons_self,rfl⟩,member⟩
      · rename_i notMember
        refine iff_of_false (fun out => ?_) (fun ⟨_,member⟩ => notMember member)
        obtain ⟨⟨d,member,isQuery⟩,_⟩ := (placed.outs m q).mp out
        exact notOut d member isQuery
    · have unmoved : outRole role resv q m = .out n ↔ role m = .out n := by
        unfold outRole
        split
        · rename_i member
          refine iff_of_false (fun out => same (Role.out.inj out).symm) fun out => ?_
          rcases moved m member with ⟨isHead,_⟩ | is
          · rw [isHead] at out
            cases out
          · rw [is] at out
            cases out
        · rfl
      rw [unmoved,placed.outs m n]
      refine and_congr_left fun _ => ⟨fun ⟨d,member,isQuery⟩ => ⟨d,List.mem_cons_of_mem _ member,isQuery⟩,?_⟩
      rintro ⟨d,member,isQuery⟩
      rcases List.mem_cons.mp member with rfl | member
      · exact absurd isQuery.symm same
      · exact ⟨d,member,isQuery⟩
  case outDistinct =>
    intro d member
    rw [children]
    rw [deliveries] at member
    rcases List.mem_cons.mp member with rfl | member
    · exact distinct
    · exact placed.outDistinct d member
  case left =>
    intro d member
    rw [children]
    rw [deliveries] at member
    rcases List.mem_cons.mp member with rfl | member
    · exact List.suffix_refl _
    · exact placed.left d member
  case deliveries =>
    rw [deliveries,List.map_cons]
    refine List.nodup_cons.mpr ⟨fun member => ?_,placed.deliveries⟩
    obtain ⟨d,inside,same⟩ := List.mem_map.mp member
    exact notOut d inside same
  case timers =>
    intro n scheduled
    rw [headRole]
    change Function.update resv.timers q false n = true at scheduled
    rw [Function.update_apply] at scheduled
    split at scheduled
    · cases scheduled
    · rename_i apart
      exact ⟨placed.timers n scheduled,apart⟩

theorem Placed.erased (placed : Placed role resv) (running : delivery ∈ resv.deliveries) (d : Delivery) :
    d ∈ resv.deliveries.erase delivery ↔ d ∈ resv.deliveries ∧ d.query ≠ delivery.query := by
  have distinct : resv.deliveries.Nodup := List.Nodup.of_map _ placed.deliveries
  rw [distinct.mem_erase_iff]
  constructor
  · rintro ⟨apart,member⟩
    exact ⟨member,fun same => apart (List.inj_on_of_nodup_map placed.deliveries member running same)⟩
  · rintro ⟨member,apart⟩
    exact ⟨fun same => apart (congrArg Delivery.query same),member⟩

theorem Placed.erasedDistinct (placed : Placed role resv) (delivery : Delivery) :
    ((resv.deliveries.erase delivery).map Delivery.query).Nodup :=
  placed.deliveries.sublist ((List.erase_sublist).map _)

theorem Placed.advance (placed : Placed role resv)
    (running : delivery ∈ resv.deliveries) {left : List Nat} (more : delivery.left = n :: left)
    (free : resv'.freeNodes = resv.freeNodes) (fresh : resv'.fresh = resv.fresh) (byRes : resv'.byRes = resv.byRes)
    (byId : resv'.byId = resv.byId) (queries : resv'.queries = resv.queries) (timers : resv'.timers = resv.timers)
    (deliveries : resv'.deliveries = { delivery with left } :: resv.deliveries.erase delivery) :
    Placed role resv' := by
  have member : ∀ d, d ∈ resv'.deliveries ↔
      d = { delivery with left } ∨ d ∈ resv.deliveries ∧ d.query ≠ delivery.query := by
    intro d
    rw [deliveries,List.mem_cons,placed.erased running]
  have some_ : ∀ q, (∃ d ∈ resv'.deliveries, d.query = q) ↔ ∃ d ∈ resv.deliveries, d.query = q := by
    intro q
    constructor
    · rintro ⟨d,inside,same⟩
      rcases (member d).mp inside with rfl | ⟨inside,_⟩
      · exact ⟨delivery,running,same⟩
      · exact ⟨d,inside,same⟩
    · rintro ⟨d,inside,same⟩
      by_cases itself : d.query = delivery.query
      · exact ⟨{ delivery with left },(member _).mpr (.inl rfl),itself.symm.trans same⟩
      · exact ⟨d,(member d).mpr (.inr ⟨inside,itself⟩),same⟩
  constructor
  case free => rw [free,fresh]; exact placed.free
  case freeDistinct => rw [free]; exact placed.freeDistinct
  case old => rw [fresh]; exact placed.old
  case res => rw [byRes,queries]; exact placed.res
  case ids => rw [byId,queries]; exact placed.ids
  case heads => rw [queries]; exact placed.heads
  case child => rw [queries]; exact placed.child
  case outs =>
    intro m q
    rw [some_,queries]
    exact placed.outs m q
  case outDistinct =>
    intro d inside
    rw [queries]
    rcases (member d).mp inside with rfl | ⟨inside,_⟩
    · exact placed.outDistinct delivery running
    · exact placed.outDistinct d inside
  case left =>
    intro d inside
    rw [queries]
    rcases (member d).mp inside with rfl | ⟨inside,_⟩
    · have suffix_ := placed.left delivery running
      rw [more] at suffix_
      exact (List.suffix_cons n left).trans suffix_
    · exact placed.left d inside
  case deliveries =>
    rw [deliveries,List.map_cons]
    refine List.nodup_cons.mpr ⟨fun inside => ?_,placed.erasedDistinct delivery⟩
    obtain ⟨d,erased,same⟩ := List.mem_map.mp inside
    exact ((placed.erased running d).mp erased).2 same
  case timers => rw [timers]; exact placed.timers

/- The nodes of a delivery that is over are free. -/
def freeRole (role : Nat → Role) (q : Nat) (n : Nat) : Role := if role n = .out q then .unused else role n

theorem Placed.finish (placed : Placed role resv)
    (running : delivery ∈ resv.deliveries) (fresh : resv'.fresh = resv.fresh) (byRes : resv'.byRes = resv.byRes)
    (byId : resv'.byId = resv.byId) (queries : resv'.queries = resv.queries) (timers : resv'.timers = resv.timers)
    (deliveries : resv'.deliveries = resv.deliveries.erase delivery) (free : resv'.freeNodes =
      resv.freeNodes ++ (resv.queries delivery.query).children ++ [delivery.query]) :
    Placed (freeRole role delivery.query) resv' := by
  have outs : ∀ n, role n = .out delivery.query ↔ n ∈ delivery.query :: (resv.queries delivery.query).children := by
    intro n
    rw [placed.outs]
    exact ⟨fun both => both.2,fun inside => ⟨⟨delivery,running,rfl⟩,inside⟩⟩
  have keeps : ∀ n new, new ≠ .unused → new ≠ .out delivery.query →
      (freeRole role delivery.query n = new ↔ role n = new) := by
    intro n new used apart
    unfold freeRole
    split
    · rename_i out
      rw [out]
      exact iff_of_false (fun same => used same.symm) (fun same => apart same.symm)
    · rfl
  have inFree : ∀ n, n ∈ resv'.freeNodes ↔ n ∈ resv.freeNodes ∨ role n = .out delivery.query := by
    intro n
    rw [free,outs,List.mem_append,List.mem_append,List.mem_singleton,List.mem_cons]
    constructor
    · rintro ((free | child) | query)
      · exact .inl free
      · exact .inr (.inr child)
      · exact .inr (.inl query)
    · rintro (free | query | child)
      · exact .inl (.inl free)
      · exact .inr query
      · exact .inl (.inr child)
  constructor
  case free =>
    intro n member
    rw [fresh]
    rcases (inFree n).mp member with was | out
    · obtain ⟨unused,made⟩ := placed.free n was
      refine ⟨?_,made⟩
      unfold freeRole
      rw [unused]
      exact ite_self _
    · exact ⟨if_pos out,placed.old n (by rw [out]; nofun)⟩
  case freeDistinct =>
    have distinct := placed.outDistinct delivery running
    rw [List.nodup_cons] at distinct
    rw [free,List.append_assoc,List.nodup_append]
    refine ⟨placed.freeDistinct,?_,?_⟩
    · rw [List.nodup_append_comm]
      exact List.nodup_cons.mpr distinct
    · rintro a inFree b inside rfl
      have out : role a = .out delivery.query := by
        rw [outs,List.mem_cons]
        rcases List.mem_append.mp inside with child | query
        · exact .inr child
        · exact .inl (List.mem_singleton.mp query)
      rw [(placed.free a inFree).1] at out
      cases out
  case old =>
    intro n used
    rw [fresh]
    refine placed.old n fun unused => used ?_
    unfold freeRole
    rw [unused]
    exact ite_self _
  case res =>
    intro key q
    rw [byRes,queries,keeps q .head nofun nofun]
    exact placed.res key q
  case ids =>
    intro id q
    rw [byId,queries,keeps q .head nofun nofun]
    exact placed.ids id q
  case heads =>
    intro q
    rw [queries,keeps q .head nofun nofun]
    exact placed.heads q
  case child =>
    intro c q
    rw [queries,keeps c (.child q) nofun nofun,keeps q .head nofun nofun]
    exact placed.child c q
  case outs =>
    intro m q
    rw [queries,deliveries]
    by_cases same : q = delivery.query
    · rw [same]
      refine iff_of_false (fun out => ?_) ?_
      · unfold freeRole at out
        split at out
        · cases out
        · rename_i notOut
          exact notOut out
      · rintro ⟨⟨d,member,isQuery⟩,_⟩
        exact ((placed.erased running d).mp member).2 isQuery
    · rw [keeps m (.out q) nofun (fun out => same (Role.out.inj out)),placed.outs]
      refine and_congr_left fun _ => ⟨?_,?_⟩
      · rintro ⟨d,member,rfl⟩
        exact ⟨d,(placed.erased running d).mpr ⟨member,same⟩,rfl⟩
      · rintro ⟨d,member,isQuery⟩
        exact ⟨d,((placed.erased running d).mp member).1,isQuery⟩
  case outDistinct =>
    intro d member
    rw [deliveries] at member
    rw [queries]
    exact placed.outDistinct d ((placed.erased running d).mp member).1
  case left =>
    intro d member
    rw [deliveries] at member
    rw [queries]
    exact placed.left d ((placed.erased running d).mp member).1
  case deliveries =>
    rw [deliveries]
    exact placed.erasedDistinct delivery
  case timers =>
    intro q scheduled
    rw [timers] at scheduled
    exact (keeps q .head nofun nofun).mpr (placed.timers q scheduled)

theorem Placed.giveBack (placed : Placed role resv)
    (unused : role n = .unused) (notFree : n ∉ resv.freeNodes) (made : n < resv.fresh)
    (free : resv'.freeNodes = resv.freeNodes ++ [n]) (fresh : resv'.fresh = resv.fresh)
    (byRes : resv'.byRes = resv.byRes) (byId : resv'.byId = resv.byId) (queries : resv'.queries = resv.queries)
    (timers : resv'.timers = resv.timers) (deliveries : resv'.deliveries = resv.deliveries) : Placed role resv' := by
  constructor
  case free =>
    intro m member
    rw [free,List.mem_append,List.mem_singleton] at member
    rw [fresh]
    rcases member with member | rfl
    · exact placed.free m member
    · exact ⟨unused,made⟩
  case freeDistinct =>
    rw [free,List.nodup_append_comm]
    exact List.nodup_cons.mpr ⟨notFree,placed.freeDistinct⟩
  case old => rw [fresh]; exact placed.old
  case res => rw [byRes,queries]; exact placed.res
  case ids => rw [byId,queries]; exact placed.ids
  case heads => rw [queries]; exact placed.heads
  case child => rw [queries]; exact placed.child
  case outs => rw [deliveries,queries]; exact placed.outs
  case outDistinct => rw [deliveries,queries]; exact placed.outDistinct
  case left => rw [deliveries,queries]; exact placed.left
  case deliveries => rw [deliveries]; exact placed.deliveries
  case timers => rw [timers]; exact placed.timers

end Pjproject.Dns
