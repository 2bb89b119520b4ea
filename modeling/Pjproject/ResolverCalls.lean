import Pjproject.ResolverRun

/-! Whether every callback is called: the nodes that wait are below a query that an answer or a timer will find. -/
namespace Pjproject.Dns

/- A query that its id and its timer lead to, and one that nothing leads to but that nobody waits for. -/
def Attended (resv : Resolver) (q : Nat) : Prop :=
  resv.byId (resv.queries q).id = some q ∧ resv.timers q = true

def Quiet (resv : Resolver) (q : Nat) : Prop :=
  resv.timers q = false ∧ ∀ n ∈ q :: (resv.queries q).children, (resv.queries n).cb = none

/- A response for a resource is cached and has not expired. -/
def Cache.current {κ : Type} (cache : Cache κ) (key : κ) (now : Nat) : Prop :=
  ∃ ref entry, cache.table key = some ref ∧ cache.entries ref = some entry ∧ now < entry.expiryTime

/- No callback joins a pending query whose timer is off, no query takes the id of a pending one whose timer is on, and no pending
query is cancelled while callbacks are below it. -/
def Orderly (resv : Resolver) : Step → Prop
  | .start name type hasCb now net =>
    ValidQuery name type → ¬ resv.cache.current (initResKey type name) now →
      match resv.byRes (initResKey type name) with
      | some parent => hasCb = true → resv.timers parent = true
      | none => net.succeeds = true → ∀ q, resv.byId resv.lastId = some q → resv.timers q = false
  | .cancel node _ => resv.byRes (resv.queries node).key = some node →
    ∀ child ∈ (resv.queries node).children, (resv.queries child).cb = none
  | _ => True

def Attendance (resv : Resolver) : Prop :=
  ∀ key q, resv.byRes key = some q → Attended resv q ∨ Quiet resv q

variable {resv resv' : Resolver} {role : Nat → Role} {node : Nat} {cache : Cache ResKey} {key : ResKey}

theorem Attendance.same (attendance : Attendance resv) (queries : resv'.queries = resv.queries)
    (timers : resv'.timers = resv.timers) (byId : resv'.byId = resv.byId) (byRes : resv'.byRes = resv.byRes) :
    Attendance resv' := by
  unfold Attendance Attended Quiet
  rw [queries,timers,byId,byRes]
  exact attendance

theorem bystander {q : Nat} (own : resv'.queries q = resv.queries q)
    (below : ∀ n ∈ (resv.queries q).children, (resv'.queries n).cb = (resv.queries n).cb)
    (timer : resv'.timers q = resv.timers q) (found : Attended resv q → resv'.byId (resv.queries q).id = some q)
    (state : Attended resv q ∨ Quiet resv q) : Attended resv' q ∨ Quiet resv' q := by
  rcases state with attended | ⟨off,silent⟩
  · refine .inl ⟨?_,timer.trans attended.2⟩
    rw [own]
    exact found attended
  · refine .inr ⟨timer.trans off,?_⟩
    rw [own]
    intro n member
    rcases List.mem_cons.mp member with rfl | child
    · rw [own]
      exact silent _ member
    · rw [below n child]
      exact silent n member

theorem Attendance.takeOut (placed : Placed role resv)
    (others : ∀ key q, q ≠ node → resv.byRes key = some q → Attended resv q ∨ Quiet resv q)
    (own : resv.byId (resv.queries node).id = some node) (status : DnsStatus) (pkt : Option Packet) :
    Attendance (resv.takeOut node status pkt) := by
  have head := (placed.ids _ node own).1
  intro key q found
  change Function.update resv.byRes (resv.queries node).key none key = some q at found
  rw [Function.update_apply] at found
  split at found
  · cases found
  rename_i otherKey
  have apart : q ≠ node := by
    rintro rfl
    exact otherKey ((placed.res key q).mp found).2.symm
  have untouched : (resv.takeOut node status pkt).queries q = resv.queries q :=
    (Function.update_apply _ _ _ q).trans (if_neg apart)
  refine bystander untouched (fun n _ => (takeOutQuery resv node status pkt n).1) ?_ ?_ (others key q apart found)
  · exact (Function.update_apply _ _ _ q).trans (if_neg apart)
  · intro attended
    refine (Function.update_apply _ _ _ _).trans ((if_neg ?_).trans attended.1)
    intro same
    exact apart (Option.some.inj (attended.1.symm.trans (same ▸ own)))

theorem Attendance.touch (attendance : Attendance resv)
    (touches : Touches node resv resv') (key : ResKey) (q : Nat) (apart : q ≠ node) (found : resv'.byRes key = some q) :
    Attended resv' q ∨ Quiet resv' q := by
  rw [touches.byRes] at found
  refine bystander (touches.others q apart) (fun n _ => (touches.query n).2) (touches.timers q apart) ?_
    (attendance key q found)
  intro attended
  rw [touches.byId]
  exact attended.1

theorem Attendance.timeout (sound : Sound role resv) (attendance : Attendance resv)
    (scheduled : resv.timers node = true) (net : Transmission) : Attendance (resv.onTimeout node net) := by
  have head := sound.placed.timers node scheduled
  have attended : Attended resv node := by
    rcases attendance _ node ((sound.placed.res _ node).mpr ⟨head,rfl⟩) with attended | ⟨off,_⟩
    · exact attended
    · rw [scheduled] at off
      cases off
  obtain ⟨mid,touches,gaveUp | ⟨goesOn,on | nobody⟩⟩ := timeoutCases resv node net
  · have own : mid.byId (mid.queries node).id = some node := by
      rw [touches.byId,touches.shape.1]
      exact attended.1
    rw [gaveUp]
    exact Attendance.takeOut (sound.touch touches fun _ => head).placed (attendance.touch touches) own _ _
  · rw [goesOn]
    intro key q found
    by_cases same : q = node
    · refine .inl ⟨?_,same ▸ on⟩
      rw [same,touches.byId,touches.shape.1]
      exact attended.1
    · exact attendance.touch touches key q same found
  · rw [attended.1] at nobody
    cases nobody

theorem Attendance.cancel (attendance : Attendance resv) {token : Nat} {notify : Bool}
    (has : (resv.queries node).cb = some token) (cancels : Cancels node token resv resv')
    (keyed : ∀ key, resv.byRes key = some node → (resv.queries node).key = key)
    (orderly : Orderly resv (.cancel node notify)) : Attendance resv' := by
  have silent : ∀ n, (resv.queries n).cb = none → (resv'.queries n).cb = none := by
    intro n is
    by_cases same : n = node
    · rw [same]
      exact cancels.gone
    · rw [cancels.others n same]
      exact is
  intro key q found
  rw [cancels.byRes] at found
  by_cases same : q = node
  · rw [same] at found ⊢
    obtain ⟨id,_,children⟩ := cancels.shape
    have attended : Attended resv node := by
      rcases attendance key node found with attended | ⟨_,quiet⟩
      · exact attended
      · have is := quiet node List.mem_cons_self
        rw [has] at is
        cases is
    cases timer : resv'.timers node with
    | true =>
      refine .inl ⟨?_,timer⟩
      rw [cancels.byId,id]
      exact attended.1
    | false =>
      refine .inr ⟨timer,?_⟩
      rw [children]
      intro n member
      rcases List.mem_cons.mp member with rfl | child
      · exact cancels.gone
      · exact silent n (orderly (keyed key found ▸ found) n child)
  · rcases attendance key q found with attended | ⟨off,quiet⟩
    · refine .inl ⟨?_,(cancels.timers q same).trans attended.2⟩
      rw [cancels.byId,cancels.others q same]
      exact attended.1
    · refine .inr ⟨(cancels.timers q same).trans off,?_⟩
      rw [cancels.others q same]
      exact fun n member => silent n (quiet n member)

theorem Attendance.silent (attendance : Attendance resv) (none : (resv.queries node).cb = none) (touches : Touches node resv resv')
    (timer : resv'.timers node = true → resv.timers node = true)
    (keyed : ∀ key, resv.byRes key = some node → (resv.queries node).key = key)
    (orderly : Orderly resv (.cancel node false)) : Attendance resv' := by
  intro key q found
  by_cases same : q = node
  · rw [same,touches.byRes] at found
    obtain ⟨id,_,children⟩ := touches.shape
    rw [same]
    cases on : resv'.timers node with
    | true =>
      rcases attendance key node found with attended | ⟨off,_⟩
      · refine .inl ⟨?_,on⟩
        rw [touches.byId,id]
        exact attended.1
      · cases off.symm.trans (timer on)
    | false =>
      refine .inr ⟨on,?_⟩
      rw [children]
      intro n member
      rw [(touches.query n).2]
      rcases List.mem_cons.mp member with rfl | child
      · exact none
      · exact orderly (keyed key found ▸ found) n child
  · exact attendance.touch touches key q same found

/- A query joins a pending one, or starts one of its own. -/

theorem startChildTables (resv : Resolver) (parent : Nat) (cb : Option Nat) (key : ResKey) :
    (resv.startChild parent cb key).byId = resv.byId ∧ (resv.startChild parent cb key).byRes = resv.byRes ∧
      (resv.startChild parent cb key).timers = resv.timers := by
  cases cb <;> exact ⟨rfl,rfl,rfl⟩

theorem Attendance.startChild (sound : Sound role resv)
    (attendance : Attendance resv) {parent : Nat} {cb : Option Nat}
    (pending : resv.byRes key = some parent) (joins : cb ≠ none → resv.timers parent = true) :
    Attendance ({ resv with cache, tokens := resv.tokens + 1 }.startChild parent cb key) := by
  have unused : role resv.allocNode = .unused := (sound.placed.alloc cb).1
  have apart : ∀ n, role n ≠ .unused → n ≠ resv.allocNode := fun n used same => used (same ▸ unused)
  have head := ((sound.placed.res key parent).mp pending).1
  have parentApart : parent ≠ resv.allocNode := apart parent (by rw [head]; nofun)
  have queries : ∀ n, ({ resv with cache, tokens := resv.tokens + 1 }.startChild parent cb key).queries n =
      if n = parent then { resv.queries parent with children := (resv.queries parent).children ++ [resv.allocNode] }
      else if n = resv.allocNode then { cb } else resv.queries n :=
    startChildQueries { resv with cache, tokens := resv.tokens + 1 } cb key parentApart
  obtain ⟨byId,byRes,timers⟩ := startChildTables { resv with cache, tokens := resv.tokens + 1 } parent cb key
  generalize { resv with cache, tokens := resv.tokens + 1 }.startChild parent cb key = resv' at queries byId byRes timers
  have cbs : ∀ n, n ≠ resv.allocNode → (resv'.queries n).cb = (resv.queries n).cb := by
    intro n other
    rw [queries]
    split
    · rename_i same
      rw [same]
    · rfl
  have below : ∀ q, role q = .head → ∀ n ∈ (resv.queries q).children, n ≠ resv.allocNode := by
    intro q isHead n child
    refine apart n ?_
    rw [(sound.placed.child n q).mpr ⟨isHead,child⟩]
    nofun
  intro k q found
  have was : resv.byRes k = some q := (congrFun byRes k).symm.trans found
  have isHead := ((sound.placed.res k q).mp was).1
  have isUsed : q ≠ resv.allocNode := apart q (by rw [isHead]; nofun)
  by_cases same : q = parent
  · have own := (queries parent).trans (if_pos rfl)
    subst same
    rcases attendance k q was with attended | ⟨off,silent⟩
    · refine .inl ⟨?_,(congrFun timers q).trans attended.2⟩
      rw [own,byId]
      exact attended.1
    · have noCb : cb = none := by
        by_contra hasCb
        have on : resv.timers q = true := joins hasCb
        rw [off] at on
        cases on
      refine .inr ⟨(congrFun timers q).trans off,?_⟩
      rw [own]
      intro n member
      rw [← List.cons_append,List.mem_append,List.mem_singleton] at member
      rcases member with old | rfl
      · refine (cbs n ?_).trans (silent n old)
        rcases List.mem_cons.mp old with rfl | child
        · exact isUsed
        · exact below q isHead n child
      · rw [queries,if_neg (Ne.symm isUsed),if_pos rfl]
        exact noCb
  · have own : resv'.queries q = resv.queries q := by rw [queries,if_neg same,if_neg isUsed]
    refine bystander own (fun n child => cbs n (below q isHead n child)) (congrFun timers q) ?_ (attendance k q was)
    intro attended
    rw [byId]
    exact attended.1

theorem startParentTables (resv : Resolver) (cb : Option Nat) (key : ResKey) (net : Transmission) :
    (resv.startParent cb key net).timers = ((resv.prepared cb key).transmitQuery resv.allocNode net).timers ∧
    if net.succeeds then
      (resv.startParent cb key net).byId = Function.update resv.byId resv.lastId (some resv.allocNode) ∧
        (resv.startParent cb key net).byRes = Function.update resv.byRes key (some resv.allocNode) else
      (resv.startParent cb key net).byId = resv.byId ∧ (resv.startParent cb key net).byRes = resv.byRes := by
  cases net <;> cases cb <;> exact ⟨rfl,rfl,rfl⟩

theorem Attendance.startParent (sound : Sound role resv)
    (attendance : Attendance resv) {cb : Option Nat} {net : Transmission}
    (ids : net.succeeds = true → ∀ q, resv.byId resv.lastId = some q → resv.timers q = false) :
    Attendance ({ resv with cache, tokens := resv.tokens + 1 }.startParent cb key net) := by
  have unused : role resv.allocNode = .unused := (sound.placed.alloc cb).1
  have apart : ∀ n, role n ≠ .unused → n ≠ resv.allocNode := fun n used same => used (same ▸ unused)
  have touches : Touches resv.allocNode (({ resv with cache, tokens := resv.tokens + 1 } : Resolver).prepared cb key)
      ((({ resv with cache, tokens := resv.tokens + 1 } : Resolver).prepared cb key).transmitQuery resv.allocNode net) :=
    transmitTouches _ _ net
  have prepared : ∀ n, (({ resv with cache, tokens := resv.tokens + 1 } : Resolver).prepared cb key).queries n =
      if n = resv.allocNode then { id := resv.lastId, key, cb } else resv.queries n :=
    preparedQuery { resv with cache, tokens := resv.tokens + 1 } cb key
  have timer := transmitTimer (({ resv with cache, tokens := resv.tokens + 1 } : Resolver).prepared cb key) resv.allocNode net
  have queries := startParentQueries { resv with cache, tokens := resv.tokens + 1 } cb key net
  obtain ⟨timers,tables⟩ := startParentTables { resv with cache, tokens := resv.tokens + 1 } cb key net
  have others : ∀ n, n ≠ resv.allocNode →
      ({ resv with cache, tokens := resv.tokens + 1 }.startParent cb key net).queries n = resv.queries n := by
    intro n other
    exact (congrFun queries n).trans ((touches.others n other).trans ((prepared n).trans (if_neg other)))
  have otherTimers : ∀ n, n ≠ resv.allocNode →
      ({ resv with cache, tokens := resv.tokens + 1 }.startParent cb key net).timers n = resv.timers n := by
    intro n other
    exact (congrFun timers n).trans (touches.timers n other)
  have below : ∀ q, role q = .head → ∀ n ∈ (resv.queries q).children, n ≠ resv.allocNode := by
    intro q isHead n child
    refine apart n ?_
    rw [(sound.placed.child n q).mpr ⟨isHead,child⟩]
    nofun
  have old : ∀ {k q}, resv.byRes k = some q →
      (Attended resv q → ({ resv with cache, tokens := resv.tokens + 1 }.startParent cb key net).byId
        (resv.queries q).id = some q) →
      Attended ({ resv with cache, tokens := resv.tokens + 1 }.startParent cb key net) q ∨
        Quiet ({ resv with cache, tokens := resv.tokens + 1 }.startParent cb key net) q := by
    intro k q was found
    have isHead := ((sound.placed.res k q).mp was).1
    have isUsed : q ≠ resv.allocNode := apart q (by rw [isHead]; nofun)
    exact bystander (others q isUsed) (fun n child => congrArg Query.cb (others n (below q isHead n child)))
      (otherTimers q isUsed) found (attendance k q was)
  intro k q found
  cases succeeds : net.succeeds with
  | false =>
    rw [succeeds] at tables
    obtain ⟨byId,byRes⟩ := tables
    exact old ((congrFun byRes k).symm.trans found) fun attended => (congrFun byId _).trans attended.1
  | true =>
    rw [succeeds] at tables timer
    obtain ⟨byId,byRes⟩ := tables
    have at_ := (congrFun byRes k).symm.trans found
    rw [Function.update_apply] at at_
    by_cases same : q = resv.allocNode
    · rw [same]
      refine .inl ⟨?_,(congrFun timers _).trans timer⟩
      have id : (({ resv with cache, tokens := resv.tokens + 1 }.startParent cb key net).queries resv.allocNode).id =
          resv.lastId := by
        rw [queries]
        exact touches.shape.1.trans (congrArg Query.id ((prepared _).trans (if_pos rfl)))
      rw [id]
      exact (congrFun byId _).trans ((Function.update_apply _ _ _ _).trans (if_pos rfl))
    · split at at_
      · exact absurd (Option.some.inj at_).symm same
      · refine old at_ fun attended => ?_
        refine (congrFun byId _).trans ((Function.update_apply _ _ _ _).trans ((if_neg ?_).trans attended.1))
        intro sameId
        have off := ids succeeds q (sameId ▸ attended.1)
        rw [attended.2] at off
        cases off

theorem missedNotCurrent {now : Nat}
    (missed : resv.cache.lookup key now = some (cache, .miss)) : ¬ resv.cache.current key now := by
  rintro ⟨ref,entry,tabled,here,unexpired⟩
  unfold Cache.lookup at missed
  simp only [tabled,here,Option.bind_eq_bind,Option.bind_some,if_pos unexpired] at missed
  cases missed

theorem Attendance.step (sound : Sound role resv)
    (attendance : Attendance resv) {step : Step} (possible : step.possible resv) (orderly : Orderly resv step)
    (stepped : resv.step step = some resv') : Attendance resv' := by
  cases step with
  | start name type hasCb now net =>
    obtain ⟨_,same,started,valid | refused⟩ := startCases sound.cached name type hasCb now net
    · cases stepped.symm.trans same
      cases started with
      | refused => exact attendance
      | @hit cache use found =>
        refine attendance.same ?_ ?_ ?_ ?_ <;> cases hasCb <;> rfl
      | @child cache parent missed pending =>
        have joins := orderly valid (missedNotCurrent missed)
        simp only [pending] at joins
        refine attendance.startChild sound pending fun given => joins ?_
        cases hasCb with
        | true => rfl
        | false => exact absurd rfl given
      | @parent cache missed absent =>
        have ids := orderly valid (missedNotCurrent missed)
        simp only [absent] at ids
        exact attendance.startParent sound ids
    · cases stepped.symm.trans same
      exact refused ▸ attendance
  | cacheDone =>
    obtain ⟨cache,finished,last⟩ := Option.bind_eq_some_iff.mp stepped
    cases last
    exact attendance.same rfl rfl rfl rfl
  | cancel node notify =>
    have keyed := fun key found => ((sound.placed.res key node).mp found).2
    rcases possible with ⟨token,has,_⟩ | ⟨none,rfl⟩
    · obtain ⟨_,same,cancels⟩ := cancelCases has notify
      cases stepped.symm.trans same
      exact attendance.cancel has cancels keyed orderly
    · obtain ⟨_,same,touches,timer⟩ := silentCases none
      cases stepped.symm.trans same
      exact attendance.silent none touches timer keyed orderly
  | receive pkt =>
    cases stepped
    unfold Resolver.receive
    split
    · exact attendance
    · rename_i node found
      have id := (sound.placed.ids _ _ found).2
      exact Attendance.takeOut sound.placed (fun key q _ => attendance key q) (id ▸ found) _ _
  | timeout node net =>
    cases stepped
    exact attendance.timeout sound possible net
  | callNext delivery =>
    cases stepped
    unfold Resolver.callNext
    split
    · exact attendance
    · rename_i node left more
      dsimp only
      cases (resv.queries node).cb <;> exact attendance.same rfl rfl rfl rfl
  | finish =>
    obtain ⟨cache,stored,last⟩ := Option.bind_eq_some_iff.mp stepped
    cases last
    exact attendance.same rfl rfl rfl rfl

theorem Reach.attendance (reached : Reach Orderly resv) : Attendance resv := by
  induction reached with
  | new => exact fun _ _ found => nomatch found
  | next before step possible orderly stepped ih =>
    obtain ⟨role,sound⟩ := before.sound
    exact ih.step sound possible orderly stepped

/- How often a callback was called; that a pending query leads to it, known by its id, its resource and a timer; and that the
callbacks of its query are just being called. -/
def Resolver.timesCalled (resv : Resolver) (token : Nat) : Nat := (resv.calls.map Call.token).count token

def Resolver.pending (resv : Resolver) (token : Nat) : Prop :=
  ∃ q, resv.byId (resv.queries q).id = some q ∧ resv.byRes (resv.queries q).key = some q ∧ resv.timers q = true ∧
    ∃ n ∈ q :: (resv.queries q).children, (resv.queries n).cb = some token

def Resolver.underWay (resv : Resolver) (token : Nat) : Prop :=
  ∃ d ∈ resv.deliveries, ∃ n ∈ d.left, (resv.queries n).cb = some token

theorem Tokens.timesCalled (tokens : Tokens role resv) (token : Nat) :
    resv.timesCalled token ≤ 1 ∧ (resv.called token → resv.timesCalled token = 1) := by
  have atMost : (resv.calls.map Call.token).count token ≤ 1 := List.nodup_iff_count_le_one.mp tokens.once token
  refine ⟨atMost,?_⟩
  rintro ⟨call,member,rfl⟩
  have some_ : 0 < (resv.calls.map Call.token).count call.token := List.count_pos_iff.mpr (List.mem_map.mpr ⟨call,member,rfl⟩)
  exact Nat.le_antisymm atMost some_

/- Every callback of a successful start_query that was not cancelled has been called once, or is about to be, or waits with a
query that will be found; and none is called twice. -/
theorem calledOnce {resv : Resolver} (reached : Reach Orderly resv) (token : Nat) :
    resv.timesCalled token ≤ 1 ∧
      ((resv.asked token).isSome → resv.cancelled token = false →
        resv.timesCalled token = 1 ∨ resv.pending token ∨ resv.underWay token) := by
  obtain ⟨role,sound⟩ := reached.sound
  have attendance := reached.attendance
  obtain ⟨atMost,once⟩ := sound.tokens.timesCalled token
  have leads : ∀ q, role q = .head → ∀ n ∈ q :: (resv.queries q).children, (resv.queries n).cb = some token →
      resv.pending token := by
    intro q head n member has
    have listed := (sound.placed.res _ q).mpr ⟨head,rfl⟩
    rcases attendance _ q listed with attended | ⟨_,silent⟩
    · exact ⟨q,attended.1,listed,attended.2,n,member,has⟩
    · rw [silent n member] at has
      cases has
  refine ⟨atMost,fun isAsked notCancelled => ?_⟩
  rcases sound.tokens.kept token isAsked notCancelled with called | ⟨n,waits,has⟩
  · exact .inl (once called)
  · rcases waits with head | ⟨q,child⟩ | ⟨d,running,left⟩
    · exact .inr (.inl (leads n head n List.mem_cons_self has))
    · obtain ⟨head,member⟩ := (sound.placed.child n q).mp child
      exact .inr (.inl (leads q head n (List.mem_cons_of_mem q member) has))
    · exact .inr (.inr ⟨d,running,n,left,has⟩)

/- Two queries on a resource; the second is cancelled, and an answer arrives that only the first has been told of so far. -/
theorem childCancelled : ∃ resv, Reach Orderly resv ∧ resv.tokens = 3 ∧ ∀ token,
    resv.timesCalled token ≤ 1 ∧
      ((resv.asked token).isSome → resv.cancelled token = false →
        resv.timesCalled token = 1 ∨ resv.pending token ∨ resv.underWay token) := by
  have new : Reach Orderly _ := .new 300 5
  have none_ : ∀ {resv : Resolver} {key : ResKey} {now : Nat}, resv.cache.table key = none →
      ¬ resv.cache.current key now := by
    rintro resv key now absent ⟨ref,entry,tabled,_⟩
    rw [absent] at tabled
    cases tabled
  have first := new.next (.start ['s','i','p'] 33 true 0 .sent) trivial (fun _ _ => (fun _ _ found => nomatch found)) rfl
  have second := first.next (.start ['S','I','P'] 33 true 1 .sent) trivial (fun _ _ => (fun _ => rfl)) rfl
  have third := second.next (.start ['s','i','P'] 33 true 2 .noServer) trivial (fun _ _ => (fun _ => rfl)) rfl
  have cancelled := third.next (.cancel 1 true) (.inl ⟨1,rfl,rfl,fun ⟨_,member,_⟩ => nomatch member⟩)
    (fun found => nomatch found) rfl
  have received := cancelled.next (.receive ⟨1,true,false,0,[],[]⟩) trivial trivial rfl
  have called := received.next (.callNext ⟨0,.rcode 0,some ⟨1,true,false,0,[],[]⟩,[0,1,2]⟩) (.head _) trivial rfl
  exact ⟨_,called,rfl,calledOnce called⟩

/- Two queries on a resource; when the first is cancelled, the timer of both is off. Nothing calls the second any more. -/
theorem childForgotten : ∃ resv, Reach (fun _ _ => True) resv ∧ ∃ token, (resv.asked token).isSome ∧
    resv.cancelled token = false ∧ resv.timesCalled token = 0 ∧ ¬ resv.pending token ∧ ¬ resv.underWay token := by
  have new : Reach (fun _ _ => True) _ := .new 300 5
  have first := new.next (.start ['s','i','p'] 33 true 0 .sent) trivial trivial rfl
  have second := first.next (.start ['s','i','p'] 33 true 1 .sent) trivial trivial rfl
  have cancelled := second.next (.cancel 0 false) (.inl ⟨0,rfl,rfl,fun ⟨_,member,_⟩ => nomatch member⟩) trivial rfl
  refine ⟨_,cancelled,1,rfl,rfl,rfl,?_,?_⟩
  · rintro ⟨q,_,_,on,_⟩
    have off : ∀ n : Nat, Function.update (Function.update (fun _ => false) 0 true) 0 false n = false := by
      intro n
      simp [Function.update_apply]
    cases (off q).symm.trans on
  · rintro ⟨d,member,_⟩
    cases member

end Pjproject.Dns
