import Pjproject.ResolverSteps

/-! Starting a query, and the runs of the resolver. -/
namespace Pjproject.Dns

/- A node that was free is put to use. -/

variable {role : Nat → Role} {resv resv' : Resolver} {node : Nat} {cb : Option Nat} {key : ResKey}
  {cache : Cache ResKey} {net : Transmission}

theorem waitingAdded (new : Role)
    (is : new = .head ∨ ∃ q, new = .child q) (deliveries : resv'.deliveries = resv.deliveries) (n : Nat) :
    Waiting (Function.update role node new) resv' n ↔ n = node ∨ n ≠ node ∧ Waiting role resv n := by
  unfold Waiting
  rw [deliveries,roleUpdate]
  by_cases same : n = node
  · rw [if_pos same]
    refine iff_of_true ?_ (.inl same)
    rcases is with head | child
    · exact .inl head
    · exact .inr (.inl child)
  · rw [if_neg same]
    exact ⟨fun waits => .inr ⟨same,waits⟩,fun either => (either.resolve_left same).2⟩

theorem ownerUsed (placed : Placed role resv) {n : Nat}
    (used : role n ≠ .unused) : role (owner role n) ≠ .unused := by
  cases is : role n with
  | unused => exact absurd is used
  | head =>
    simp [owner,is]
  | child q =>
    have head := ((placed.child n q).mp is).1
    simp [owner,is,head]
  | out q =>
    have its := (placed.outs q q).mpr ⟨((placed.outs n q).mp is).1,List.mem_cons_self⟩
    simp [owner,is,its]

theorem ownerAdded (role : Nat → Role) {n : Nat} (new : Role) (apart : n ≠ node) :
    owner (Function.update role node new) n = owner role n := by
  unfold owner
  rw [roleUpdate,if_neg apart]

theorem Sound.addNode (sound : Sound role resv) {new : Role}
    (placed' : Placed (Function.update role node new) resv')
    (cached' : Held none resv'.cache) (unused : role node = .unused) (is : new = .head ∨ ∃ q, new = .child q)
    (cbIs : cb = none ∨ cb = some resv.tokens) (newCb : (resv'.queries node).cb = cb)
    (newKey : (resv'.queries (owner (Function.update role node new) node)).key = key) (others : ∀ n, n ≠ node →
      (resv'.queries n).cb = (resv.queries n).cb ∧ (resv'.queries n).key = (resv.queries n).key)
    (deliveries : resv'.deliveries = resv.deliveries) (asked : resv'.asked = (resv.ask cb key).asked)
    (cancelled : resv'.cancelled = resv.cancelled) (calls : resv'.calls = resv.calls)
    (count : resv'.tokens = resv.tokens + 1) : Sound (Function.update role node new) resv' := by
  have apart : ∀ n, Waiting role resv n → n ≠ node := by
    rintro n waits rfl
    exact waits.used sound.placed unused
  have waiting : ∀ n, Waiting (Function.update role node new) resv' n ↔ n = node ∨ Waiting role resv n := by
    intro n
    refine (waitingAdded new is deliveries n).trans ?_
    exact or_congr_right (and_iff_right_of_imp (apart n))
  have used : ∀ n, n ≠ node → Function.update role node new n ≠ .unused → role n ≠ .unused ∧
      (resv'.queries (owner (Function.update role node new) n)).key = (resv.queries (owner role n)).key := by
    intro n other isUsed
    rw [roleUpdate,if_neg other] at isUsed
    refine ⟨isUsed,?_⟩
    rw [ownerAdded role new other]
    refine (others _ ?_).2
    intro same
    exact ownerUsed sound.placed isUsed (same ▸ unused)
  refine ⟨placed',?_,cached'⟩
  rcases cbIs with rfl | rfl
  · refine sound.tokens.still placed' ?_ ?_ ?_ ?_ asked cancelled calls (count ▸ Nat.le_succ _)
    · intro n t isUsed has
      have other : n ≠ node := by
        rintro rfl
        rw [newCb] at has
        cases has
      obtain ⟨wasUsed,sameKey⟩ := used n other isUsed
      exact ⟨wasUsed,(others n other).1 ▸ has,sameKey⟩
    · intro n t has waits
      refine ((waiting n).mp waits).resolve_left ?_
      rintro rfl
      rw [newCb] at has
      cases has
    · intro n t waits has
      exact ⟨(waiting n).mpr (.inr waits),by rw [(others n (apart n waits)).1,has]⟩
    · intro n t has
      have other : n ≠ node := by
        rintro rfl
        rw [newCb] at has
        cases has
      exact .inl ((others n other).1 ▸ has)
  · exact sound.tokens.add waiting unused newCb newKey used (fun n other => (others n other).1) sound.placed asked cancelled
      calls count

/- The allocation of a node. -/

theorem allocTouches (resv : Resolver) (cb : Option Nat) (n : Nat) :
    (resv.allocQnode cb).queries n = if n = resv.allocNode then { cb } else resv.queries n :=
  Function.update_apply _ _ _ n

theorem askFrame (resv : Resolver) (cb : Option Nat) (key : ResKey) :
    resv.ask cb key = { resv with asked := (resv.ask cb key).asked } := by
  cases cb <;> rfl

theorem startChildQueries (resv : Resolver) {parent : Nat} (cb : Option Nat) (key : ResKey)
    (apart : parent ≠ resv.allocNode) (n : Nat) : (resv.startChild parent cb key).queries n =
      if n = parent then { resv.queries parent with children := (resv.queries parent).children ++ [resv.allocNode] }
      else if n = resv.allocNode then { cb } else resv.queries n := by
  have parentStays : (resv.allocQnode cb).queries parent = resv.queries parent := by
    rw [allocTouches,if_neg apart]
  unfold Resolver.startChild
  rw [askFrame]
  dsimp only
  rw [queriesWrite,parentStays,allocTouches]

theorem Sound.startChild (sound : Sound role resv)
    (cached : Held none cache) {parent : Nat} (pending : resv.byRes key = some parent)
    (cbIs : cb = none ∨ cb = some resv.tokens) : Sound (Function.update role resv.allocNode (.child parent))
      ({ resv with cache, tokens := resv.tokens + 1 }.startChild parent cb key) := by
  obtain ⟨head,itsKey⟩ := (sound.placed.res key parent).mp pending
  obtain ⟨unused,placed,notFree,made⟩ := sound.placed.alloc cb
  have apart : parent ≠ resv.allocNode := by
    rintro same
    rw [← same,head] at unused
    cases unused
  have adopted := placed.adopt head unused notFree made
  have queries : ∀ n, ({ resv with cache, tokens := resv.tokens + 1 }.startChild parent cb key).queries n =
      if n = parent then { resv.queries parent with children := (resv.queries parent).children ++ [resv.allocNode] }
      else if n = resv.allocNode then { cb } else resv.queries n :=
    startChildQueries { resv with cache, tokens := resv.tokens + 1 } cb key apart
  have asked : ({ resv with cache, tokens := resv.tokens + 1 }.startChild parent cb key).asked =
      (resv.ask cb key).asked := by
    cases cb <;> rfl
  have frame : ({ resv with cache, tokens := resv.tokens + 1 }.startChild parent cb key) =
      { (resv.allocQnode cb).write parent { (resv.allocQnode cb).queries parent with
          children := ((resv.allocQnode cb).queries parent).children ++ [resv.allocNode] } with
        cache, tokens := resv.tokens + 1, asked := (resv.ask cb key).asked } := by
    cases cb <;> rfl
  refine sound.addNode ?_ ?_ unused (.inr ⟨parent,rfl⟩) cbIs ?_ ?_ ?_ ?_ asked ?_ ?_ ?_
  · rw [frame]
    exact adopted.keep rfl rfl rfl rfl rfl (fun _ => ⟨rfl,rfl,rfl⟩) adopted.timers
  · rw [frame]
    exact cached
  · rw [queries,if_neg (Ne.symm apart),if_pos rfl]
  · have isParent : owner (Function.update role resv.allocNode (.child parent)) resv.allocNode = parent := by
      unfold owner
      rw [roleUpdate,if_pos rfl]
    rw [isParent,queries,if_pos rfl]
    exact itsKey
  · intro n other
    rw [queries,if_neg other]
    split
    · rename_i same
      rw [same]
      exact ⟨rfl,rfl⟩
    · exact ⟨rfl,rfl⟩
  · exact (congrArg Resolver.deliveries frame).trans rfl
  · exact (congrArg Resolver.cancelled frame).trans rfl
  · exact (congrArg Resolver.calls frame).trans rfl
  · exact (congrArg Resolver.tokens frame).trans rfl

/- start_query for a resource that nobody asks for: the node before it is transmitted, and after. -/
def Resolver.prepared (resv : Resolver) (cb : Option Nat) (key : ResKey) : Resolver :=
  { (resv.allocQnode cb).write resv.allocNode
      { (resv.allocQnode cb).queries resv.allocNode with id := resv.lastId, key } with lastId := nextId resv.lastId }

def Resolver.listed (resv : Resolver) (id : UInt16) (key : ResKey) (node : Nat) : Resolver :=
  { resv with
    byId := Function.update resv.byId id (some node)
    byRes := Function.update resv.byRes key (some node) }

theorem startParentSplit (resv : Resolver) (cb : Option Nat) (key : ResKey) (net : Transmission) :
    resv.startParent cb key net = if net.succeeds then
        (((resv.prepared cb key).transmitQuery resv.allocNode net).listed resv.lastId key resv.allocNode).ask cb key
      else { (resv.prepared cb key).transmitQuery resv.allocNode net with
          freeNodes := ((resv.prepared cb key).transmitQuery resv.allocNode net).freeNodes ++ [resv.allocNode] } :=
  rfl

theorem preparedQuery (resv : Resolver) (cb : Option Nat) (key : ResKey) (n : Nat) :
    (resv.prepared cb key).queries n =
      if n = resv.allocNode then { id := resv.lastId, key, cb } else resv.queries n := by
  have here : (resv.allocQnode cb).queries resv.allocNode = { cb } := by rw [allocTouches,if_pos rfl]
  unfold Resolver.prepared
  dsimp only
  rw [queriesWrite,here,allocTouches]
  split <;> rfl

theorem Placed.prepared (placed : Placed role resv) (cb : Option Nat)
    (key : ResKey) : role resv.allocNode = .unused ∧ Placed role (resv.prepared cb key) ∧
      resv.allocNode ∉ (resv.prepared cb key).freeNodes ∧ resv.allocNode < (resv.prepared cb key).fresh := by
  obtain ⟨unused,allocated,notFree,made⟩ := placed.alloc cb
  have written := allocated.overwrite unused
    { (resv.allocQnode cb).queries resv.allocNode with id := resv.lastId, key }
  exact ⟨unused,written.keep rfl rfl rfl rfl rfl (fun _ => ⟨rfl,rfl,rfl⟩) written.timers,notFree,made⟩

theorem startParentQueries (resv : Resolver) (cb : Option Nat) (key : ResKey) (net : Transmission) :
    (resv.startParent cb key net).queries = ((resv.prepared cb key).transmitQuery resv.allocNode net).queries := by
  rw [startParentSplit]
  split
  · rw [askFrame]
    rfl
  · rfl

theorem Sound.startSent (sound : Sound role resv) (cached : Held none cache) (absent : resv.byRes key = none)
    (cbIs : cb = none ∨ cb = some resv.tokens) (sent : net.succeeds = true) :
    Sound (Function.update role resv.allocNode .head)
      ({ resv with cache, tokens := resv.tokens + 1 }.startParent cb key net) := by
  obtain ⟨unused,prepared,notFree,made⟩ := sound.placed.prepared cb key
  have touches := transmitTouches (resv.prepared cb key) resv.allocNode net
  have frame : { resv with cache, tokens := resv.tokens + 1 }.startParent cb key net =
      { ((resv.prepared cb key).transmitQuery resv.allocNode net).listed resv.lastId key resv.allocNode with
        cache, tokens := resv.tokens + 1, asked := (resv.ask cb key).asked } := by
    rw [startParentSplit,if_pos sent]
    cases cb <;> cases net <;> rfl
  have node : ((resv.prepared cb key).queries resv.allocNode) = { id := resv.lastId, key, cb } := by
    rw [preparedQuery,if_pos rfl]
  have shape := touches.shape
  rw [node] at shape
  obtain ⟨hasId,hasKey,childless⟩ := shape
  have placed' : Placed (Function.update role resv.allocNode .head)
      { ((resv.prepared cb key).transmitQuery resv.allocNode net).listed resv.lastId key resv.allocNode with
        cache, tokens := resv.tokens + 1, asked := (resv.ask cb key).asked } := by
    refine prepared.enlist unused notFree made touches.free touches.fresh touches.deliveries touches.others childless ?_ ?_ ?_
      touches.timers
    · exact hasKey ▸ absent
    · change Function.update _ key _ = _
      rw [touches.byRes]
      exact congrArg (fun k => Function.update _ k _) hasKey.symm
    · change Function.update _ resv.lastId _ = _
      rw [touches.byId]
      exact congrArg (fun k => Function.update _ k _) hasId.symm
  rw [frame]
  refine sound.addNode placed' cached unused (.inl rfl) cbIs ?_ ?_ ?_ touches.deliveries rfl touches.cancelled touches.calls rfl
  · exact touches.cb.trans (by rw [node])
  · have itself : owner (Function.update role resv.allocNode .head) resv.allocNode = resv.allocNode := by
      unfold owner
      rw [roleUpdate,if_pos rfl]
    rw [itself]
    exact hasKey
  · intro n other
    have stays : ((resv.prepared cb key).transmitQuery resv.allocNode net).queries n = resv.queries n := by
      rw [touches.others n other,preparedQuery,if_neg other]
    exact ⟨congrArg Query.cb stays,congrArg Query.key stays⟩

theorem Sound.startFailed (sound : Sound role resv) (cached : Held none cache)
    (cbIs : cb = none ∨ cb = some resv.tokens) (failed : net.succeeds = false) :
    Sound role ({ resv with cache, tokens := resv.tokens + 1 }.startParent cb key net) := by
  obtain ⟨unused,prepared,notFree,made⟩ := sound.placed.prepared cb key
  have touches := transmitTouches (resv.prepared cb key) resv.allocNode net
  have frame : { resv with cache, tokens := resv.tokens + 1 }.startParent cb key net =
      { (resv.prepared cb key).transmitQuery resv.allocNode net with
        freeNodes := ((resv.prepared cb key).transmitQuery resv.allocNode net).freeNodes ++ [resv.allocNode]
        cache, tokens := resv.tokens + 1 } := by
    rw [startParentSplit,failed]
    cases net <;> rfl
  have timer := transmitTimer (resv.prepared cb key) resv.allocNode net
  rw [failed] at timer
  have transmitted : Placed role ((resv.prepared cb key).transmitQuery resv.allocNode net) := by
    refine prepared.keep touches.free touches.fresh touches.byRes touches.byId touches.deliveries
      (fun n => (touches.query n).1) ?_
    intro q scheduled
    by_cases same : q = resv.allocNode
    · rw [same] at scheduled ⊢
      exact prepared.timers _ (timer scheduled)
    · rw [touches.timers q same] at scheduled
      exact prepared.timers q scheduled
  rw [frame]
  have placed' : Placed role { (resv.prepared cb key).transmitQuery resv.allocNode net with
        freeNodes := ((resv.prepared cb key).transmitQuery resv.allocNode net).freeNodes ++ [resv.allocNode]
        cache, tokens := resv.tokens + 1 } :=
    transmitted.giveBack unused (touches.free ▸ notFree) (touches.fresh ▸ made) rfl rfl rfl rfl rfl rfl rfl
  have stays : ∀ n, n ≠ resv.allocNode →
      ((resv.prepared cb key).transmitQuery resv.allocNode net).queries n = resv.queries n := by
    intro n other
    rw [touches.others n other,preparedQuery,if_neg other]
  have newCb : (((resv.prepared cb key).transmitQuery resv.allocNode net).queries resv.allocNode).cb = cb := by
    rw [touches.cb,preparedQuery,if_pos rfl]
  have usedApart : ∀ n, role n ≠ .unused → n ≠ resv.allocNode := by
    rintro n used rfl
    exact used unused
  refine ⟨placed',?_,cached⟩
  have waiting : ∀ n, Waiting role { (resv.prepared cb key).transmitQuery resv.allocNode net with
        freeNodes := ((resv.prepared cb key).transmitQuery resv.allocNode net).freeNodes ++ [resv.allocNode]
        cache, tokens := resv.tokens + 1 } n ↔ Waiting role resv n := by
    intro n
    unfold Waiting
    exact or_congr_right (or_congr_right (by rw [touches.deliveries]; rfl))
  refine sound.tokens.still placed' ?_ ?_ ?_ ?_ touches.asked touches.cancelled touches.calls (Nat.le_succ _)
  · intro n t used has
    refine ⟨used,?_,?_⟩
    · exact (congrArg Query.cb (stays n (usedApart n used))).symm.trans has
    · exact congrArg Query.key (stays _ (usedApart _ (ownerUsed sound.placed used)))
  · exact fun n _ _ waits => (waiting n).mp waits
  · intro n t waits has
    exact ⟨(waiting n).mpr waits,
      (congrArg Query.cb (stays n (usedApart n (waits.used sound.placed)))).trans has⟩
  · intro n t has
    by_cases same : n = resv.allocNode
    · rcases cbIs with rfl | rfl
      · rw [same] at has
        cases newCb.symm.trans has
      · rw [same] at has
        exact .inr ⟨(Option.some.inj (newCb.symm.trans has)).symm,Nat.lt_succ_self _⟩
    · exact .inl ((congrArg Query.cb (stays n same)).symm.trans has)

structure Starts (cb : Option Nat) (resv resv' : Resolver) : Prop where
  deliveries : resv'.deliveries = resv.deliveries
  calls : resv'.calls = resv.calls
  cancelled : resv'.cancelled = resv.cancelled
  cache : resv'.cache = resv.cache
  tokens : resv'.tokens = resv.tokens
  asked : ∀ t, cb ≠ some t → resv'.asked t = resv.asked t

theorem askOther (resv : Resolver) (key : ResKey) {t : Nat} (other : cb ≠ some t) :
    (resv.ask cb key).asked t = resv.asked t := by
  cases cb with
  | none => rfl
  | some => exact (Function.update_apply _ _ _ t).trans (if_neg fun same => other (congrArg some same.symm))

theorem askStarts (resv : Resolver) (cb : Option Nat) (key : ResKey) : Starts cb resv (resv.ask cb key) := by
  constructor
  case asked => exact fun t other => askOther resv key other
  all_goals cases cb <;> rfl

theorem startChildFrame (resv : Resolver) (parent : Nat) (cb : Option Nat) (key : ResKey) :
    Starts cb resv (resv.startChild parent cb key) := by
  have asks := askStarts ((resv.allocQnode cb).write parent { (resv.allocQnode cb).queries parent with
    children := ((resv.allocQnode cb).queries parent).children ++ [resv.allocNode] }) cb key
  exact ⟨asks.deliveries,asks.calls,asks.cancelled,asks.cache,asks.tokens,asks.asked⟩

theorem startParentFrame (resv : Resolver) (cb : Option Nat) (key : ResKey) (net : Transmission) :
    Starts cb resv (resv.startParent cb key net) := by
  have touches := transmitTouches (resv.prepared cb key) resv.allocNode net
  have asks := askStarts (((resv.prepared cb key).transmitQuery resv.allocNode net).listed resv.lastId key resv.allocNode)
    cb key
  rw [startParentSplit]
  split
  · constructor
    case asked => exact fun t other => (asks.asked t other).trans (congrFun touches.asked t)
    case deliveries => exact asks.deliveries.trans touches.deliveries
    case calls => exact asks.calls.trans touches.calls
    case cancelled => exact asks.cancelled.trans touches.cancelled
    case cache => exact asks.cache.trans touches.cache
    case tokens => exact asks.tokens.trans touches.tokens
  · exact ⟨touches.deliveries,touches.calls,touches.cancelled,touches.cache,touches.tokens,
      fun t _ => congrFun touches.asked t⟩

/- What start_query comes to. -/
inductive Started (resv : Resolver) (key : ResKey) (cb : Option Nat) (now : Nat) (net : Transmission) : Resolver → Prop where
  | refused : Started resv key cb now net resv
  | hit {cache : Cache ResKey} {use : Use} (found : resv.cache.lookup key now = some (cache, .hit use)) :
    Started resv key cb now net (({ resv with cache, tokens := resv.tokens + 1 }.ask cb key).callback cb
      (.rcode use.pkt.rcode) (some use.pkt))
  | child {cache : Cache ResKey} {parent : Nat} (missed : resv.cache.lookup key now = some (cache, .miss))
    (pending : resv.byRes key = some parent) :
    Started resv key cb now net ({ resv with cache, tokens := resv.tokens + 1 }.startChild parent cb key)
  | parent {cache : Cache ResKey} (missed : resv.cache.lookup key now = some (cache, .miss))
    (absent : resv.byRes key = none) :
    Started resv key cb now net ({ resv with cache, tokens := resv.tokens + 1 }.startParent cb key net)

def Resolver.newCb (resv : Resolver) (hasCb : Bool) : Option Nat := if hasCb then some resv.tokens else none

theorem Resolver.newCbIs (resv : Resolver) (hasCb : Bool) : resv.newCb hasCb = none ∨ resv.newCb hasCb = some resv.tokens := by
  cases hasCb
  · exact .inl rfl
  · exact .inr rfl

def ValidQuery (name : List Char) (type : Nat) : Prop :=
  0 < type ∧ type < 0xFFFF ∧ 0 < name.length ∧ name.length < maxHostname

theorem startCases (cached : Held none resv.cache) (name : List Char) (type : Nat) (hasCb : Bool)
    (now : Nat) (net : Transmission) : ∃ resv', resv.startQuery name type hasCb now net = some resv' ∧
      Started resv (initResKey type name) (resv.newCb hasCb) now net resv' ∧ (ValidQuery name type ∨ resv' = resv) := by
  unfold Resolver.startQuery
  split
  · exact ⟨resv,rfl,.refused,.inr rfl⟩
  · rename_i notInvalid
    have valid : ValidQuery name type := not_not.mp notInvalid
    obtain ⟨cache,found,looked,_⟩ := cached.lookup (initResKey type name) now
    simp only [looked,Option.bind_eq_bind,Option.bind_some]
    cases found with
    | hit => exact ⟨_,rfl,.hit looked,.inl valid⟩
    | miss =>
      cases pending : resv.byRes (initResKey type name) with
      | none => exact ⟨_,rfl,.parent looked pending,.inl valid⟩
      | some => exact ⟨_,rfl,.child looked pending,.inl valid⟩

theorem Sound.started (sound : Sound role resv) {now : Nat} (cbIs : cb = none ∨ cb = some resv.tokens)
    (started : Started resv key cb now net resv') : ∃ role', Sound role' resv' := by
  have cached : ∀ {cache found}, resv.cache.lookup key now = some (cache, found) → Held none cache := by
    intro cache found looked
    obtain ⟨cache',found',same,held⟩ := sound.cached.lookup key now
    cases looked.symm.trans same
    exact held
  cases started with
  | refused => exact ⟨role,sound⟩
  | @hit cache use found =>
    refine ⟨role,?_⟩
    have placed' : ∀ asked calls, Placed role { resv with cache, tokens := resv.tokens + 1, asked, calls } := fun _ _ =>
      sound.placed.keep rfl rfl rfl rfl rfl (fun _ => ⟨rfl,rfl,rfl⟩) sound.placed.timers
    rcases cbIs with rfl | rfl
    · exact sound.keep (placed' resv.asked resv.calls) (cached found) rfl (fun _ => ⟨rfl,rfl⟩) rfl rfl rfl (Nat.le_succ _)
    · exact ⟨placed' _ _,sound.tokens.answer sound.placed rfl rfl rfl rfl rfl rfl,cached found⟩
  | child missed pending => exact ⟨_,sound.startChild (cached missed) pending cbIs⟩
  | parent missed absent =>
    cases succeeds : net.succeeds with
    | false => exact ⟨role,sound.startFailed (cached missed) cbIs succeeds⟩
    | true => exact ⟨_,sound.startSent (cached missed) absent cbIs succeeds⟩

/- What cancel_query does. -/
structure Cancels (node token : Nat) (resv resv' : Resolver) : Prop where
  free : resv'.freeNodes = resv.freeNodes
  fresh : resv'.fresh = resv.fresh
  byRes : resv'.byRes = resv.byRes
  byId : resv'.byId = resv.byId
  deliveries : resv'.deliveries = resv.deliveries
  cache : resv'.cache = resv.cache
  asked : resv'.asked = resv.asked
  tokens : resv'.tokens = resv.tokens
  others : ∀ n, n ≠ node → resv'.queries n = resv.queries n
  shape : SameShape (resv.queries node) (resv'.queries node)
  gone : (resv'.queries node).cb = none
  cancelled : resv'.cancelled = Function.update resv.cancelled token true
  calls : resv'.calls = resv.calls ∨ resv'.calls = ⟨token,.cancelled,none⟩ :: resv.calls
  timers : ∀ n, n ≠ node → resv'.timers n = resv.timers n
  timer : resv'.timers node = true → resv.timers node = true

theorem cancelCases {token : Nat} (has : (resv.queries node).cb = some token) (notify : Bool) :
    ∃ resv', resv.cancelQuery node notify = some resv' ∧ Cancels node token resv resv' := by
  unfold Resolver.cancelQuery
  simp only [has]
  refine ⟨_,rfl,?_⟩
  cases notify <;> cases timed : (resv.queries node).timerId
  all_goals
    constructor
    case others =>
      intro n apart
      exact (queriesWrite _ node _ n).trans (if_neg apart)
    case shape =>
      refine ⟨?_,?_,?_⟩
      · exact (congrArg Query.id ((queriesWrite _ node _ node).trans (if_pos rfl))).trans rfl
      · exact (congrArg Query.key ((queriesWrite _ node _ node).trans (if_pos rfl))).trans rfl
      · exact (congrArg Query.children ((queriesWrite _ node _ node).trans (if_pos rfl))).trans rfl
    case gone => exact (congrArg Query.cb ((queriesWrite _ node _ node).trans (if_pos rfl))).trans rfl
    case calls => first | exact .inl rfl | exact .inr rfl
    case timers =>
      intro n apart
      first | rfl | exact (timersSet _ node false n).trans (if_neg apart)
    case timer =>
      intro scheduled
      first | exact scheduled | cases ((timersSet _ node false node).trans (if_pos rfl)).symm.trans scheduled
    all_goals rfl

theorem silentCases (none : (resv.queries node).cb = none) : ∃ resv', resv.cancelQuery node false = some resv' ∧
    Touches node resv resv' ∧ (resv'.timers node = true → resv.timers node = true) := by
  unfold Resolver.cancelQuery
  simp only [none]
  refine ⟨_,rfl,?_⟩
  cases timed : (resv.queries node).timerId with
  | false => exact ⟨touchesWrite rfl ⟨rfl,rfl,rfl⟩ none.symm,id⟩
  | true =>
    refine ⟨(touchesTimer resv node false).trans (touchesWrite rfl ⟨rfl,rfl,rfl⟩ none.symm),fun scheduled => ?_⟩
    cases ((timersSet resv node false node).trans (if_pos rfl)).symm.trans scheduled

theorem Sound.cancel (sound : Sound role resv) {token : Nat}
    (has : (resv.queries node).cb = some token) (isAsked : (resv.asked token).isSome) (notYet : ¬ resv.called token)
    (cancels : Cancels node token resv resv') : Sound role resv' := by
  have shape : ∀ n, SameShape (resv.queries n) (resv'.queries n) := by
    intro n
    by_cases same : n = node
    · exact same ▸ cancels.shape
    · rw [cancels.others n same]
      exact ⟨rfl,rfl,rfl⟩
  refine ⟨?_,?_,cancels.cache ▸ sound.cached⟩
  · refine sound.placed.keep cancels.free cancels.fresh cancels.byRes cancels.byId cancels.deliveries shape ?_
    intro q scheduled
    refine sound.placed.timers q ?_
    by_cases same : q = node
    · rw [same] at scheduled ⊢
      exact cancels.timer scheduled
    · rw [cancels.timers q same] at scheduled
      exact scheduled
  · exact sound.tokens.cancel has isAsked notYet cancels.others cancels.gone (fun n => (shape n).2.1) cancels.deliveries
      cancels.asked cancels.cancelled cancels.calls cancels.tokens

theorem Sound.receive (sound : Sound role resv) (pkt : Packet) : ∃ role', Sound role' (resv.receive pkt) := by
  unfold Resolver.receive
  split
  · exact ⟨role,sound⟩
  · rename_i node found
    exact ⟨_,sound.takeOut (sound.placed.ids _ _ found).1 _ _⟩

theorem timeoutCases (resv : Resolver) (node : Nat) (net : Transmission) : ∃ mid, Touches node resv mid ∧
    (resv.onTimeout node net = mid.takeOut node .timedOut none ∨
      resv.onTimeout node net = mid ∧ (mid.timers node = true ∨ resv.byId (resv.queries node).id = none)) := by
  have off := touchesTimer resv node false
  have idle : Touches node resv ((resv.setTimer node false).write node { resv.queries node with timerId := false }) :=
    off.trans (touchesWrite rfl ⟨rfl,rfl,rfl⟩ rfl)
  unfold Resolver.onTimeout
  dsimp only
  split
  · rename_i nobody
    exact ⟨_,off,.inr ⟨rfl,.inr nobody⟩⟩
  · split
    · have again := idle.trans (transmitTouches _ node net)
      have timer := transmitTimer ((resv.setTimer node false).write node { resv.queries node with timerId := false }) node net
      split
      · rename_i sent
        rw [if_pos sent] at timer
        exact ⟨_,again,.inr ⟨rfl,.inl timer⟩⟩
      · exact ⟨_,again,.inl rfl⟩
    · exact ⟨_,idle,.inl rfl⟩

theorem Sound.timeout (sound : Sound role resv)
    (scheduled : resv.timers node = true) (net : Transmission) : ∃ role', Sound role' (resv.onTimeout node net) := by
  have head := sound.placed.timers node scheduled
  obtain ⟨mid,touches,gaveUp | ⟨goesOn,_⟩⟩ := timeoutCases resv node net
  · rw [gaveUp]
    exact ⟨_,(sound.touch touches fun _ => head).takeOut head _ _⟩
  · rw [goesOn]
    exact ⟨role,sound.touch touches fun _ => head⟩

theorem Sound.cacheDone (sound : Sound role resv) {use : Use}
    (running : use ∈ resv.cache.uses) : ∃ cache, resv.cacheDone use = some { resv with cache } ∧
      resv.cache.finish use = some cache ∧ Sound role { resv with cache } := by
  obtain ⟨cache,released,cached,_⟩ := (sound.cached.dropUse running).release
  have finished : resv.cache.finish use = some cache := released
  refine ⟨cache,?_,finished,?_⟩
  · unfold Resolver.cacheDone
    rw [finished]
    rfl
  · refine sound.keep ?_ cached rfl (fun _ => ⟨rfl,rfl⟩) rfl rfl rfl (Nat.le_refl _)
    exact sound.placed.keep rfl rfl rfl rfl rfl (fun _ => ⟨rfl,rfl,rfl⟩) sound.placed.timers

theorem Sound.step (sound : Sound role resv) {step : Step}
    (possible : step.possible resv) : ∃ resv' role', resv.step step = some resv' ∧ Sound role' resv' := by
  cases step with
  | start name type hasCb now net =>
    obtain ⟨resv',stepped,started,_⟩ := startCases sound.cached name type hasCb now net
    obtain ⟨role',sound'⟩ := sound.started (resv.newCbIs hasCb) started
    exact ⟨resv',role',stepped,sound'⟩
  | cacheDone =>
    obtain ⟨cache,stepped,_,sound'⟩ := sound.cacheDone possible
    exact ⟨_,role,stepped,sound'⟩
  | cancel node notify =>
    rcases possible with ⟨token,has,isAsked,notYet⟩ | ⟨none,rfl⟩
    · obtain ⟨resv',stepped,cancels⟩ := cancelCases has notify
      exact ⟨resv',role,stepped,sound.cancel has isAsked notYet cancels⟩
    · obtain ⟨resv',stepped,touches,timer⟩ := silentCases none
      exact ⟨resv',role,stepped,sound.touch touches fun scheduled => sound.placed.timers node (timer scheduled)⟩
  | receive pkt =>
    obtain ⟨role',sound'⟩ := sound.receive pkt
    exact ⟨_,role',rfl,sound'⟩
  | timeout node net =>
    obtain ⟨role',sound'⟩ := sound.timeout possible net
    exact ⟨_,role',rfl,sound'⟩
  | callNext => exact ⟨_,role,rfl,sound.callNext possible⟩
  | finish delivery now =>
    obtain ⟨_,_,resv',stepped,_,sound'⟩ := sound.finish possible.1 possible.2 now
    exact ⟨resv',_,stepped,sound'⟩

/- The runs of a resolver whose steps are all allowed. -/
inductive Reach (allowed : Resolver → Step → Prop) : Resolver → Prop where
  | new (maxTtl qretrCount : Nat) : Reach allowed { cache := { maxTtl }, qretrCount }
  | next {resv resv' : Resolver} (reached : Reach allowed resv) (step : Step) (possible : step.possible resv)
      (isAllowed : allowed resv step) (stepped : resv.step step = some resv') : Reach allowed resv'

theorem newSound (maxTtl qretrCount : Nat) : Sound (fun _ => .unused) { cache := { maxTtl }, qretrCount } := by
  refine ⟨?_,?_,(CacheReach.new maxTtl).held⟩
  · constructor
    case heads => exact fun _ head => nomatch head
    case child => exact fun _ _ => iff_of_false nofun (fun inside => nomatch inside.1)
    case outs => exact fun _ _ => iff_of_false nofun (fun ⟨⟨_,member,_⟩,_⟩ => nomatch member)
    case res => exact fun _ _ => iff_of_false nofun (fun inside => nomatch inside.1)
    case freeDistinct => exact List.nodup_nil
    case deliveries => exact List.nodup_nil
    case free => exact fun _ member => nomatch member
    case old => exact fun _ used => absurd rfl used
    case ids => exact fun _ _ found => nomatch found
    case outDistinct => exact fun _ member => nomatch member
    case left => exact fun _ member => nomatch member
    case timers => exact fun _ scheduled => nomatch scheduled
  · constructor
    case once => exact List.nodup_nil
    case keys => exact fun _ _ used => absurd rfl used
    case young => exact fun _ is => nomatch is
    case given => exact fun _ _ has => nomatch has
    case held => exact fun _ _ has => nomatch has
    case oldCancelled => exact fun _ is => nomatch is
    case oldCalled => exact fun _ ⟨_,member,_⟩ => nomatch member
    case open_ => exact fun _ _ _ has => nomatch has
    case unique => exact fun _ _ _ _ _ has => nomatch has
    case kept => exact fun _ is => nomatch is

theorem Reach.sound {allowed : Resolver → Step → Prop} (reached : Reach allowed resv) :
    ∃ role, Sound role resv := by
  induction reached with
  | new maxTtl qretrCount => exact ⟨_,newSound maxTtl qretrCount⟩
  | next _ step possible _ stepped ih =>
    obtain ⟨role,sound⟩ := ih
    obtain ⟨resv',role',same,sound'⟩ := sound.step possible
    cases stepped.symm.trans same
    exact ⟨role',sound'⟩

end Pjproject.Dns
