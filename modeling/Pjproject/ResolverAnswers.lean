import Pjproject.ResolverRun

/-! Which question a packet answers: what the callbacks are given, and what is cached under a resource. -/
namespace Pjproject.Dns

/- A property of all that is cached. -/

section Cached
variable {κ : Type}

def Cache.Holds (P : κ → Packet → Prop) (cache : Cache κ) : Prop :=
  ∀ ref entry, cache.entries ref = some entry → P entry.key entry.pkt

variable {P : κ → Packet → Prop} {cache cache' : Cache κ}

theorem Cache.Holds.write (holds : cache.Holds P) {ref : Nat} {new : Option (CachedRes κ)}
    (is : ∀ entry, new = some entry → P entry.key entry.pkt) : (cache.writeEntry ref new).Holds P := by
  intro other entry here
  rw [entriesWrite] at here
  split at here
  · exact is entry here
  · exact holds other entry here

theorem Cache.Holds.release (holds : cache.Holds P) {ref : Nat} (released : cache.release ref = some cache') :
    cache'.Holds P := by
  unfold Cache.release at released
  obtain ⟨entry,here,rest⟩ := Option.bind_eq_some_iff.mp released
  split at rest
  · cases rest
    exact holds.write nofun
  · cases rest
    refine holds.write ?_
    intro other same
    cases same
    exact holds ref entry here

theorem Cache.Holds.releaseFound (holds : cache.Holds P) {found : Option Nat}
    (released : cache.releaseFound found = some cache') : cache'.Holds P := by
  cases found with
  | none =>
    cases released
    exact holds
  | some => exact holds.release released

theorem Cache.Holds.finish (holds : cache.Holds P) {use : Use} (finished : cache.finish use = some cache') :
    cache'.Holds P := by
  have dropped : ({ cache with uses := cache.uses.erase use } : Cache κ).Holds P := holds
  exact dropped.release finished

variable [DecidableEq κ]

theorem Cache.Holds.removeKey (holds : cache.Holds P) (key : κ) : (cache.removeKey key).Holds P := holds

theorem Cache.Holds.lookup (holds : cache.Holds P) {key : κ} {now : Nat} {found : Found}
    (looked : cache.lookup key now = some (cache', found)) : cache'.Holds P ∧
      ∀ use, found = .hit use → ∃ ref entry, cache.table key = some ref ∧ cache.entries ref = some entry ∧
        entry.pkt = use.pkt := by
  unfold Cache.lookup at looked
  split at looked
  · cases looked
    exact ⟨holds,nofun⟩
  · rename_i ref tabled
    obtain ⟨entry,here,rest⟩ := Option.bind_eq_some_iff.mp looked
    split at rest
    · cases rest
      refine ⟨?_,?_⟩
      · refine Cache.Holds.write holds ?_
        intro other same
        cases same
        exact holds ref entry here
      · rintro use same
        cases same
        exact ⟨ref,entry,tabled,here,rfl⟩
    · obtain ⟨released,isReleased,last⟩ := Option.bind_eq_some_iff.mp rest
      cases last
      exact ⟨(Cache.Holds.removeKey holds key).release isReleased,nofun⟩

theorem Cache.Holds.updateResCache (holds : cache.Holds P) {key : κ} {failed setExpiry : Bool} {pkt : Packet} {now : Nat}
    (is : P key pkt) (updated : cache.updateResCache key failed setExpiry pkt now = some cache') : cache'.Holds P := by
  unfold Cache.updateResCache at updated
  obtain ⟨cleared,clear,rest⟩ := Option.bind_eq_some_iff.mp updated
  have holds' : cleared.Holds P := by
    unfold Cache.clearFailed at clear
    split at clear
    · exact (Cache.Holds.removeKey holds key).releaseFound clear
    · cases clear
      exact holds
  dsimp only at rest
  split at rest
  · exact (Cache.Holds.removeKey holds' key).releaseFound rest
  · have new : ∀ {expiryTime refCnt fill : Nat} (entry : CachedRes κ),
        some { key, expiryTime, pkt, refCnt, fill } = some entry → P entry.key entry.pkt := by
      intro expiryTime refCnt fill other same
      cases same
      exact is
    unfold Cache.store at rest
    split at rest
    · cases rest
      exact Cache.Holds.write holds' new
    · rename_i ref tabled
      obtain ⟨entry,here,last⟩ := Option.bind_eq_some_iff.mp rest
      split at last
      · cases last
        refine ((Cache.Holds.removeKey holds' key).write ?_).write new
        intro other same
        cases same
        exact holds' ref entry here
      · cases last
        exact (Cache.Holds.removeKey holds' key).write new

end Cached

def Answers (pkt : Packet) (key : ResKey) : Prop :=
  pkt.qr = true ∧ ∃ question ∈ pkt.questions, question.1 = key.qtype ∧ resName question.2 = key.name

instance (pkt : Packet) (key : ResKey) : Decidable (Answers pkt key) :=
  inferInstanceAs (Decidable (_ ∧ _))

/- Received packets that have the id of a pending query answer its question. -/
def Matching (resv : Resolver) : Step → Prop
  | .receive pkt => ∀ node, resv.byId pkt.id = some node → Answers pkt (resv.queries node).key
  | _ => True

structure Belong (resv : Resolver) : Prop where
  calls : ∀ call ∈ resv.calls, ∀ pkt, call.pkt = some pkt → ∃ key, resv.asked call.token = some key ∧ Answers pkt key
  deliveries : ∀ d ∈ resv.deliveries, ∀ pkt, d.pkt = some pkt → Answers pkt (resv.queries d.query).key
  cache : resv.cache.Holds fun key pkt => Answers pkt key

variable {resv resv' : Resolver} {role : Nat → Role}

theorem Belong.keep (belong : Belong resv)
    (asked : ∀ call ∈ resv.calls, resv'.asked call.token = resv.asked call.token)
    (calls : ∀ call ∈ resv'.calls, call ∈ resv.calls ∨ ∀ pkt, call.pkt = some pkt →
      ∃ key, resv'.asked call.token = some key ∧ Answers pkt key)
    (deliveries : ∀ d ∈ resv'.deliveries, (∃ e ∈ resv.deliveries, e.query = d.query ∧ e.pkt = d.pkt) ∨
      ∀ pkt, d.pkt = some pkt → Answers pkt (resv'.queries d.query).key)
    (keys : ∀ d ∈ resv.deliveries, (resv'.queries d.query).key = (resv.queries d.query).key)
    (cache : resv'.cache.Holds fun key pkt => Answers pkt key) : Belong resv' := by
  refine ⟨?_,?_,cache⟩
  · intro call member pkt is
    rcases calls call member with was | new
    · rw [asked call was]
      exact belong.calls call was pkt is
    · exact new pkt is
  · intro d member pkt is
    rcases deliveries d member with ⟨e,was,query,same⟩ | new
    · rw [← query,keys e was]
      exact belong.deliveries e was pkt (same.trans is)
    · exact new pkt is

theorem outUsed (placed : Placed role resv) {d : Delivery}
    (running : d ∈ resv.deliveries) : role d.query ≠ .unused := by
  rw [(placed.outs d.query d.query).mpr ⟨⟨d,running,rfl⟩,List.mem_cons_self⟩]
  nofun

theorem calledOld (tokens : Tokens role resv) {call : Call}
    (member : call ∈ resv.calls) : call.token < resv.tokens :=
  tokens.young _ (tokens.oldCalled _ ⟨call,member,rfl⟩)

theorem Belong.waits (sound : Sound role resv) (belong : Belong resv)
    {cb : Option Nat} {cache : Cache ResKey} (cbIs : cb = none ∨ cb = some resv.tokens)
    (holds : cache.Holds fun key pkt => Answers pkt key)
    (starts : Starts cb { resv with cache, tokens := resv.tokens + 1 } resv')
    (keys : ∀ n, role n ≠ .unused → (resv'.queries n).key = (resv.queries n).key) : Belong resv' := by
  refine belong.keep ?_ ?_ ?_ (fun d running => keys d.query (outUsed sound.placed running)) (starts.cache ▸ holds)
  · intro call member
    refine starts.asked call.token ?_
    rcases cbIs with rfl | rfl
    · nofun
    · intro same
      exact Nat.ne_of_lt (calledOld sound.tokens member) (Option.some.inj same).symm
  · intro call member
    rw [starts.calls] at member
    exact .inl member
  · intro d running
    rw [starts.deliveries] at running
    exact .inl ⟨d,running,rfl,rfl⟩

theorem Belong.started (sound : Sound role resv) (belong : Belong resv)
    {key : ResKey} {cb : Option Nat} {now : Nat} {net : Transmission} (cbIs : cb = none ∨ cb = some resv.tokens)
    (started : Started resv key cb now net resv') : Belong resv' := by
  have unused : role resv.allocNode = .unused := (sound.placed.alloc cb).1
  have apart : ∀ n, role n ≠ .unused → n ≠ resv.allocNode := fun n used same => used (same ▸ unused)
  cases started with
  | refused => exact belong
  | @hit cache use found =>
    obtain ⟨holds,fromCache⟩ := belong.cache.lookup found
    obtain ⟨ref,entry,tabled,here,same⟩ := fromCache use rfl
    obtain ⟨_,here',itsKey⟩ := sound.cached.keyed key ref tabled
    cases here.symm.trans here'
    have answers : Answers use.pkt key := by
      rw [← same,← itsKey]
      exact belong.cache ref entry here
    rcases cbIs with rfl | rfl
    · exact belong.keep (fun _ _ => rfl) (fun _ member => .inl member) (fun d running => .inl ⟨d,running,rfl,rfl⟩)
        (fun _ _ => rfl) holds
    · refine belong.keep ?_ ?_ (fun d running => .inl ⟨d,running,rfl,rfl⟩) (fun _ _ => rfl) holds
      · intro call member
        exact askOther _ key fun same => Nat.ne_of_lt (calledOld sound.tokens member) (Option.some.inj same).symm
      · intro call member
        rcases List.mem_cons.mp member with rfl | member
        · refine .inr fun pkt is => ⟨key,(Function.update_apply _ _ _ _).trans (if_pos rfl),?_⟩
          cases is
          exact answers
        · exact .inl member
  | @child cache parent missed pending =>
    have head := ((sound.placed.res key parent).mp pending).1
    have parentApart : parent ≠ resv.allocNode := apart parent (by rw [head]; nofun)
    refine belong.waits sound cbIs (belong.cache.lookup missed).1 (startChildFrame _ parent cb key) ?_
    intro n used
    have queries := startChildQueries { resv with cache, tokens := resv.tokens + 1 } cb key parentApart n
    refine (congrArg Query.key queries).trans ?_
    split
    · rename_i same
      rw [same]
    · exact congrArg Query.key (if_neg (apart n used))
  | @parent cache missed absent =>
    refine belong.waits sound cbIs (belong.cache.lookup missed).1 (startParentFrame _ cb key net) ?_
    intro n used
    rw [startParentQueries]
    refine (congrArg Query.key ((transmitTouches _ _ net).others n (apart n used))).trans ?_
    exact congrArg Query.key ((preparedQuery _ cb key n).trans (if_neg (apart n used)))

theorem Belong.takeOut (belong : Belong resv) {q : Nat} {status : DnsStatus} {pkt : Option Packet}
    (answers : ∀ p, pkt = some p → Answers p (resv.queries q).key) : Belong (resv.takeOut q status pkt) := by
  have keys := fun n => (takeOutQuery resv q status pkt n).2
  refine belong.keep (fun _ _ => rfl) (fun _ member => .inl member) ?_ (fun d _ => keys d.query) belong.cache
  intro d member
  rcases List.mem_cons.mp member with rfl | member
  · refine .inr fun p is => ?_
    rw [keys]
    exact answers p is
  · exact .inl ⟨d,member,rfl,rfl⟩

theorem Belong.touch (belong : Belong resv) {node : Nat} (touches : Touches node resv resv') : Belong resv' := by
  refine belong.keep (fun _ _ => congrFun touches.asked _) ?_ ?_ (fun d _ => (touches.query d.query).1.2.1)
    (touches.cache ▸ belong.cache)
  · intro call member
    rw [touches.calls] at member
    exact .inl member
  · intro d member
    rw [touches.deliveries] at member
    exact .inl ⟨d,member,rfl,rfl⟩

theorem Belong.cancel (belong : Belong resv) {node token : Nat}
    (cancels : Cancels node token resv resv') : Belong resv' := by
  refine belong.keep (fun _ _ => congrFun cancels.asked _) ?_ ?_ ?_ (cancels.cache ▸ belong.cache)
  · intro call member
    rcases cancels.calls with same | same
    · rw [same] at member
      exact .inl member
    · rw [same] at member
      rcases List.mem_cons.mp member with rfl | member
      · exact .inr nofun
      · exact .inl member
  · intro d member
    rw [cancels.deliveries] at member
    exact .inl ⟨d,member,rfl,rfl⟩
  · intro d _
    by_cases same : d.query = node
    · rw [same]
      exact cancels.shape.2.1
    · rw [cancels.others d.query same]

theorem Belong.callNext (sound : Sound role resv) (belong : Belong resv)
    {delivery : Delivery} (running : delivery ∈ resv.deliveries) : Belong (resv.callNext delivery) := by
  unfold Resolver.callNext
  split
  · exact belong
  · rename_i node left more
    have advanced : ∀ d ∈ { delivery with left } :: resv.deliveries.erase delivery,
        ∃ e ∈ resv.deliveries, e.query = d.query ∧ e.pkt = d.pkt := by
      intro d member
      rcases List.mem_cons.mp member with rfl | member
      · exact ⟨delivery,running,rfl,rfl⟩
      · exact ⟨d,List.mem_of_mem_erase member,rfl,rfl⟩
    dsimp only
    cases has : (resv.queries node).cb with
    | none =>
      exact belong.keep (fun _ _ => rfl) (fun _ member => .inl member) (fun d member => .inl (advanced d member))
        (fun _ _ => rfl) belong.cache
    | some token =>
      have out : role node = .out delivery.query :=
        leftOut sound.placed running (by rw [more]; exact List.mem_cons_self)
      have asked := sound.tokens.keys node token (by rw [out]; nofun) has
      have isOwner : owner role node = delivery.query := by
        unfold owner
        rw [out]
      rw [isOwner] at asked
      refine belong.keep (fun _ _ => rfl) ?_ (fun d member => .inl (advanced d member)) (fun _ _ => rfl) belong.cache
      intro call member
      rcases List.mem_cons.mp member with rfl | member
      · exact .inr fun pkt is => ⟨_,asked,belong.deliveries delivery running pkt is⟩
      · exact .inl member

theorem Belong.finish (belong : Belong resv) {delivery : Delivery} {now : Nat}
    (running : delivery ∈ resv.deliveries) (finished : resv.finish delivery now = some resv') : Belong resv' := by
  obtain ⟨cache,stored,last⟩ := Option.bind_eq_some_iff.mp finished
  cases last
  refine belong.keep (fun _ _ => rfl) (fun _ member => .inl member) ?_ (fun _ _ => rfl) ?_
  · exact fun d member => .inl ⟨d,List.mem_of_mem_erase member,rfl,rfl⟩
  · unfold Resolver.cacheAnswer at stored
    split at stored
    · cases stored
      exact belong.cache
    · rename_i pkt is
      split at stored
      · cases stored
        exact belong.cache
      · exact belong.cache.updateResCache (belong.deliveries delivery running pkt is) stored

theorem Belong.step (sound : Sound role resv) (belong : Belong resv)
    {step : Step} (possible : step.possible resv) (matching : Matching resv step) (stepped : resv.step step = some resv') :
    Belong resv' := by
  cases step with
  | start name type hasCb now net =>
    obtain ⟨_,same,started,_⟩ := startCases sound.cached name type hasCb now net
    cases stepped.symm.trans same
    exact belong.started sound (resv.newCbIs hasCb) started
  | cacheDone =>
    obtain ⟨cache,finished,last⟩ := Option.bind_eq_some_iff.mp stepped
    cases last
    exact belong.keep (fun _ _ => rfl) (fun _ member => .inl member) (fun d member => .inl ⟨d,member,rfl,rfl⟩)
      (fun _ _ => rfl) (belong.cache.finish finished)
  | cancel node notify =>
    rcases possible with ⟨token,has,_⟩ | ⟨none,rfl⟩
    · obtain ⟨_,same,cancels⟩ := cancelCases has notify
      cases stepped.symm.trans same
      exact belong.cancel cancels
    · obtain ⟨_,same,touches,_⟩ := silentCases none
      cases stepped.symm.trans same
      exact belong.touch touches
  | receive pkt =>
    cases stepped
    unfold Resolver.receive
    split
    · exact belong
    · rename_i node found
      refine belong.takeOut fun p is => ?_
      cases is
      exact matching node found
  | timeout node net =>
    cases stepped
    obtain ⟨mid,touches,gaveUp | ⟨goesOn,_⟩⟩ := timeoutCases resv node net
    · rw [gaveUp]
      exact (belong.touch touches).takeOut nofun
    · rw [goesOn]
      exact belong.touch touches
  | callNext =>
    cases stepped
    exact belong.callNext sound possible
  | finish => exact belong.finish possible.1 stepped

theorem Reach.belong (reached : Reach Matching resv) : Belong resv := by
  induction reached with
  | new =>
    exact ⟨fun _ member => (nomatch member),fun _ member => (nomatch member),fun _ _ here => (nomatch here)⟩
  | next before step possible matching stepped ih =>
    obtain ⟨role,sound⟩ := before.sound
    exact ih.step sound possible matching stepped

/- Packets that callbacks are given, and packets that are cached, answer the question asked: as long as no packet is received
that has the id of a pending query and is not a response to its question. -/
theorem answersBelong {resv : Resolver} (reached : Reach Matching resv) :
    (∀ call ∈ resv.calls, ∀ pkt, call.pkt = some pkt →
      ∃ key, resv.asked call.token = some key ∧ Answers pkt key) ∧
    ∀ key ref, resv.cache.table key = some ref →
      ∃ entry, resv.cache.entries ref = some entry ∧ Answers entry.pkt key := by
  obtain ⟨role,sound⟩ := reached.sound
  have belong := reached.belong
  refine ⟨belong.calls,fun key ref tabled => ?_⟩
  obtain ⟨entry,here,same⟩ := sound.cached.keyed key ref tabled
  exact ⟨entry,here,same ▸ belong.cache ref entry here⟩

/- One query, the response to it, its callback, and the response is cached. -/
theorem answerDelivered : ∃ resv, Reach Matching resv ∧ resv.calls.length = 1 ∧
    (∀ call ∈ resv.calls, ∀ pkt, call.pkt = some pkt → ∃ key, resv.asked call.token = some key ∧ Answers pkt key) ∧
    ∀ key ref, resv.cache.table key = some ref →
      ∃ entry, resv.cache.entries ref = some entry ∧ Answers entry.pkt key := by
  let answer : Packet := ⟨1,true,false,0,[(33, ['S','i','p'])],[30]⟩
  have new : Reach Matching _ := .new 300 5
  have asked := new.next (.start ['s','i','p'] 33 true 0 .sent) trivial trivial rfl
  have received := asked.next (.receive answer) trivial
    (fun node found => by cases (show some 0 = some node from found); decide) rfl
  have called := received.next (.callNext ⟨0,.rcode 0,some answer,[0]⟩) (.head _) trivial rfl
  have cached := called.next (.finish ⟨0,.rcode 0,some answer,[]⟩ 10) ⟨.head _,rfl⟩ trivial rfl
  exact ⟨_,cached,rfl,answersBelong cached⟩

/- A response to another question that has the id of the query is delivered and cached as its answer. -/
theorem otherAnswerDelivered : ∃ resv, Reach (fun _ _ => True) resv ∧
    (∃ call ∈ resv.calls, ∃ pkt key, call.pkt = some pkt ∧ resv.asked call.token = some key ∧ ¬ Answers pkt key) ∧
    ∃ key ref entry, resv.cache.table key = some ref ∧ resv.cache.entries ref = some entry ∧ ¬ Answers entry.pkt key := by
  let answer : Packet := ⟨1,true,false,0,[(1, ['x'])],[30]⟩
  let key : ResKey := ⟨33,['s','i','p']⟩
  have new : Reach (fun _ _ => True) _ := .new 300 5
  have asked := new.next (.start ['s','i','p'] 33 true 0 .sent) trivial trivial rfl
  have received := asked.next (.receive answer) trivial trivial rfl
  have called := received.next (.callNext ⟨0,.rcode 0,some answer,[0]⟩) (.head _) trivial rfl
  have cached := called.next (.finish ⟨0,.rcode 0,some answer,[]⟩ 10) ⟨.head _,rfl⟩ trivial rfl
  refine ⟨_,cached,⟨⟨0,.rcode 0,some answer⟩,.head _,answer,key,rfl,rfl,?_⟩,key,0,
    ⟨key,_,answer,1,0⟩,rfl,rfl,?_⟩
  · decide
  · decide

end Pjproject.Dns
