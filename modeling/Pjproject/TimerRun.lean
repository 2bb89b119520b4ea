import Pjproject.TimerPoll

/-! Whole runs of the timer heap, from pj_timer_heap_create on. schedule_entry takes an
id off the free list before insert_node has found room for it, and does not give it
back when the pool refuses an allocation of grow_heap: the results below are about the
runs in which no allocation is refused, and the last theorems show what the others do. -/
namespace Pjproject.Timer
open Time Lib.BinaryHeap Lib.FreeList

/- What a run starts from: the memory and the size given to create, the limit on
poll, and the application's initialised entries. -/
structure Setup where
  raw : RawMemory
  size : Nat
  perPoll : Nat
  id : EntryPtr → Int
  userData : EntryPtr → Nat
  cb : EntryPtr → Nat
  refs : GrpLock → Int

def Setup.start (s : Setup) : State :=
  { ht := timerHeapSetMaxTimedOutPerPoll (timerHeapCreate s.raw s.size) s.perPoll
    entries := fun e => timerEntryInit (s.id e) (s.userData e) (s.cb e)
    grpRefs := s.refs
    log := [] }

theorem startInv (s : Setup) : Inv s.start := by
  have empty : ∀ k, ¬ Held s.start.ht k := by
    rintro k ⟨i,hi,_⟩
    exact absurd hi (by simp [Setup.start,timerHeapSetMaxTimedOutPerPoll,timerHeapCreate])
  have size : s.start.ht.curSize = 0 := rfl
  have limit : s.start.ht.maxSize = s.size + 2 := rfl
  have ids : ∀ k : Int, 0 ≤ k → k < s.start.ht.maxSize → s.start.ht.timerIds k = -(k + 1) :=
    fun k low high => if_pos ⟨low,high⟩
  have walk := Chain.range (nextFree s.start.ht) (s.size + 1) 1 (by
    intro y low high
    rw [nextFree,ids y (by omega) (by omega)]
    omega)
  refine ⟨⟨?_,?_,?_,?_,⟨(List.range (s.size + 1)).map fun i : Nat => (1 : Int) + (i : Int),⟨?_,?_,?_⟩,?_⟩,
    ?_,?_,?_⟩,?_,?_,?_⟩
  · exact ⟨fun i hi => by omega,fun i hi => by omega,fun k hk => absurd hk (empty k)⟩
  · intro i positive inside
    omega
  · exact fun k hk => absurd hk (empty k)
  · exact fun k hk => absurd hk (empty k)
  · rw [limit,show ((s.size + 2 : Nat) : Int) = 1 + ((s.size + 1 : Nat) : Int) by omega]
    exact walk
  · refine List.Nodup.map (fun a b same => ?_) List.nodup_range
    omega
  · intro k
    simp only [List.mem_map,List.mem_range,limit]
    constructor
    · rintro ⟨i,hi,rfl⟩
      exact ⟨by omega,by omega,empty _⟩
    · rintro ⟨low,high,_⟩
      exact ⟨(k - 1).toNat,by omega,by omega⟩
  · simp only [List.length_map,List.length_range]
    omega
  · omega
  · rw [ids 0 (by omega) (by omega)]
    omega
  · exact fun k hk => absurd hk (empty k)
  · exact fun k hk => absurd hk (empty k)
  · exact fun k hk => absurd hk (empty k)
  · intro e up
    simp [Setup.start,timerEntryInit] at up

def Op.granted : Op → Prop
  | .call c => c.granted
  | .poll args => ∀ calls ∈ args.callbacks, ∀ c ∈ calls, Call.granted c

theorem runOpServes {st : State} (inv : Inv st) {op : Op} (granted : op.granted) :
    ∃ events, Serves st (runOp st op) events := by
  cases op with
  | call =>
    obtain ⟨events,serves,_⟩ := runCallServes inv granted
    exact ⟨events,serves⟩
  | poll =>
    obtain ⟨events,polled⟩ := timerHeapPollServes inv granted
    exact ⟨events,polled.serves⟩

theorem runServes {ops : List Op} (granted : ∀ op ∈ ops, op.granted) {st : State} (inv : Inv st) :
    ∃ events, Serves st (run st ops) events := by
  induction ops generalizing st with
  | nil => exact ⟨[],.refl inv⟩
  | cons op ops ih =>
    obtain ⟨events,first⟩ := runOpServes inv (granted op (by simp))
    obtain ⟨more,rest⟩ := ih (fun o mem => granted o (by simp [mem])) first.inv
    exact ⟨events ++ more,first.trans rest⟩

theorem opStatesInv {st : State} (inv : Inv st) {op : Op} (granted : op.granted) :
    ∀ s ∈ opStates st op, Inv s := by
  intro s mem
  cases op with
  | call =>
    obtain ⟨_,serves,_⟩ := runCallServes inv granted
    rw [List.mem_singleton.mp mem]
    exact serves.inv
  | poll =>
    obtain ⟨_,polled⟩ := timerHeapPollServes inv granted
    rcases List.mem_append.mp mem with inside | last
    · exact polled.visited s inside
    · rw [List.mem_singleton.mp last]
      exact polled.serves.inv

theorem runStatesInv {ops : List Op} (granted : ∀ op ∈ ops, op.granted) {st : State} (inv : Inv st) :
    ∀ s ∈ runStates st ops, Inv s := by
  induction ops generalizing st with
  | nil => simp [runStates]
  | cons op ops ih =>
    obtain ⟨_,first⟩ := runOpServes inv (granted op (by simp))
    intro s mem
    rcases List.mem_append.mp mem with here | later
    · exact opStatesInv inv (granted op (by simp)) s here
    · exact ih (fun o mem => granted o (by simp [mem])) first.inv s later

/- The representation, as the source's comments and accessors describe it: the order of
the slots, the table of slots, and the list of ids that no entry in the heap has. -/
structure Represents (ht : TimerHeap) : Prop where
  order : ∀ i, 0 < i → i < ht.curSize →
    timeValLte (ht.timerDups (ht.heap (heapParent i))).timerValue (ht.timerDups (ht.heap i)).timerValue = true
  inverse : ∀ i, i < ht.curSize → ht.timerIds (ht.timerDups (ht.heap i)).dup.timerId = i
  freelist : ∃ chain, Chain (fun k => -ht.timerIds k) ht.maxSize ht.timerIdsFreelist chain ∧ chain.Nodup ∧
    ∀ k, k ∈ chain ↔ 1 ≤ k ∧ k < ht.maxSize ∧
      ¬ ∃ i, i < ht.curSize ∧ (ht.timerDups (ht.heap i)).dup.timerId = k

theorem HeapInv.represents {ht : TimerHeap} (inv : HeapInv ht) : Represents ht := by
  have label : ∀ i, i < ht.curSize → (ht.timerDups (ht.heap i)).dup.timerId = ht.heap i :=
    fun i hi => inv.labelled _ ⟨i,hi,rfl⟩
  obtain ⟨chain,free,_⟩ := inv.free
  refine ⟨?_,?_,⟨chain,free.walk,free.nodup,?_⟩⟩
  · intro i positive inside
    rw [timeValLteIff,heapParentEq]
    exact inv.ordered i positive inside
  · intro i inside
    rw [label i inside]
    exact inv.placed.position i inside
  · intro k
    rw [free.members k]
    refine and_congr_right fun _ => and_congr_right fun _ => not_congr ?_
    constructor <;> rintro ⟨i,inside,found⟩ <;> refine ⟨i,inside,?_⟩
    · rw [label i inside,found]
    · rw [← found,label i inside]

/- At the start, after every operation, and in every state inside a poll that a callback
can see. -/
def KeepsRepresentation (s : Setup) (ops : List Op) : Prop :=
  ∀ st ∈ s.start :: runStates s.start ops, Represents st.ht

theorem runsKeepRepresentation (s : Setup) (ops : List Op) (granted : ∀ op ∈ ops, op.granted) :
    KeepsRepresentation s ops := by
  intro st mem
  rcases List.mem_cons.mp mem with rfl | later
  · exact (startInv s).heap.represents
  · exact (runStatesInv granted (startInv s) st later).heap.represents

/- Small runs: zeroed memory, a clock at 0, one callback address for every entry. -/
def zeroMemory : RawMemory := ⟨fun _ => 0,fun _ => 0,fun _ => ⟨⟨0,0,none,0⟩,0,⟨0,0⟩,none⟩⟩

def zeroSetup (size : Nat) : Setup :=
  ⟨zeroMemory,size,defaultMaxTimedOutPerPoll,fun _ => 0,fun _ => 0,fun _ => 1,fun _ => 0⟩

def tickAt (sec : Nat) : Tick := ⟨⟨sec,0⟩,Int.natCast_nonneg sec,le_refl _,by simp⟩

def scheduleAt (entry : EntryPtr) (sec : Nat) (grant : Bool) : Op :=
  .call (.schedule (scheduleArgs entry ⟨sec,0⟩ (tickAt 0) ⟨grant,grant,grant⟩))

theorem growthKeepsRepresentation :
    KeepsRepresentation (zeroSetup 0)
      [scheduleAt 1 10 true,scheduleAt 2 5 true,.call (.cancel 1),.poll ⟨tickAt 7,true,[[.cancel 2]]⟩] :=
  runsKeepRepresentation (zeroSetup 0) _ (by
    simp [scheduleAt,scheduleArgs,Op.granted,Call.granted,PoolReply.granted])

/- The first timer of a heap created for none asks the pool for room; refused, its id
is in neither list. -/
theorem refusedAllocationLosesId :
    ¬ ∀ (s : Setup) (ops : List Op), KeepsRepresentation s ops := by
  intro all
  obtain ⟨_,_,chain,walk,_,members⟩ :=
    all (zeroSetup 0) [scheduleAt 1 10 false] (run (zeroSetup 0).start [scheduleAt 1 10 false])
      (by simp [runStates,opStates,run,runOp,scheduleAt])
  have stop : Chain (fun k => -(run (zeroSetup 0).start [scheduleAt 1 10 false]).ht.timerIds k) 2 2 chain :=
    walk
  have empty := stop.unique .done
  rw [empty] at members
  refine absurd ((members 1).mpr ⟨by decide,by decide,?_⟩) (by simp)
  rintro ⟨i,inside,_⟩
  exact absurd inside (Nat.not_lt_zero i)

def Op.callbacksSchedule : Op → Bool
  | .call _ => false
  | .poll args => args.callbacks.any fun calls => calls.any Call.schedules

/- What a poll promises, in instants: `events` is what it added to the log. -/
structure Delivers (st : State) (args : PollArgs) (events : List Event) : Prop where
  log : (timerHeapPoll st args).st.log = st.log ++ events
  counted : (timerHeapPoll st args).count = (firedExpiries events).length
  clock : ∀ e x now, .fired e x now ∈ events → now = args.now.time
  order : (firedExpiries events).Pairwise fun x y => timeValMsec x ≤ timeValMsec y
  idle : (timerHeapPoll st args).count < st.ht.maxEntriesPerPoll →
    ∀ i, i < (timerHeapPoll st args).st.ht.curSize →
      timeValMsec args.now.time < timeValMsec (slotValue (timerHeapPoll st args).st.ht i)
  nextDelay : args.wantDelay = true → (timerHeapPoll st args).st.ht.curSize ≠ 0 →
    ∃ delay i, (timerHeapPoll st args).nextDelay = some delay ∧ i < (timerHeapPoll st args).st.ht.curSize ∧
      (∀ j, j < (timerHeapPoll st args).st.ht.curSize →
        timeValMsec (slotValue (timerHeapPoll st args).st.ht i) ≤
          timeValMsec (slotValue (timerHeapPoll st args).st.ht j)) ∧
      timeValMsec delay = max 0 (timeValMsec (slotValue (timerHeapPoll st args).st.ht i) -
        timeValMsec args.now.time)

theorem pollDelivers {st : State} (inv : Inv st) {args : PollArgs} (granted : (Op.poll args).granted)
    (still : (Op.poll args).callbacksSchedule = false) : ∃ events, Delivers st args events := by
  obtain ⟨events,polled⟩ := timerHeapPollServes inv granted
  have quiet := polled.quiet (by
    intro calls mem call inner
    simp only [Op.callbacksSchedule,List.any_eq_false,Bool.not_eq_true] at still
    exact still calls mem call inner)
  have after := polled.serves.inv
  have normal : ∀ i, i < (timerHeapPoll st args).st.ht.curSize →
      Normal (slotValue (timerHeapPoll st args).st.ht i) := fun i hi => after.heap.normal _ ⟨i,hi,rfl⟩
  have waited : ∀ x ∈ firedExpiries events, Normal x := by
    intro x mem
    obtain ⟨e,active⟩ := polled.serves.service.firedWaited quiet.1 mem
    exact waitingNormal inv active
  refine ⟨events,polled.serves.log,polled.counted,polled.clock,?_,?_,?_⟩
  · refine quiet.2.imp_of_mem fun left right le => ?_
    exact ((waited _ left).le (waited _ right)).mp le
  · intro less i inside
    have later := polled.idle less _ _ (heldWaiting after inside)
    rw [← not_le,(normal i inside).le args.now.normal,not_le] at later
    exact later
  · intro wanted nonempty
    refine ⟨_,0,by rw [polled.delay,if_pos wanted],by omega,?_,pollNextDelayMsec nonempty _⟩
    intro j inside
    exact ((normal 0 (by omega)).le (normal j inside)).mp (after.heap.ordered.rootLeast j inside)

/- Every callback of a run belongs to the last scheduling of its entry, which is due and
has neither been cancelled nor fired since; and every poll of the run delivers. -/
def TimersDelivered (s : Setup) (ops : List Op) : Prop :=
  (∀ before e x now after, (run s.start ops).log = before ++ .fired e x now :: after →
    timeValMsec x ≤ timeValMsec now ∧
    ∃ earlier since, before = earlier ++ .scheduled e x :: since ∧ ∀ event ∈ since, event.entry ≠ e) ∧
  ∀ before args after, ops = before ++ .poll args :: after →
    ∃ events, Delivers (run s.start before) args events

theorem runsDeliver (s : Setup) (ops : List Op) (granted : ∀ op ∈ ops, op.granted)
    (still : ∀ op ∈ ops, op.callbacksSchedule = false) : TimersDelivered s ops := by
  constructor
  · intro before e x now after split
    obtain ⟨events,serves⟩ := runServes granted (startInv s)
    have log : events = before ++ .fired e x now :: after := by
      rw [← split,serves.log]
      rfl
    have idle : pendingExpiry s.start = fun _ => none := rfl
    have service := serves.service
    rw [log,idle] at service
    exact service.firing
  · rintro before args after rfl
    have earlier : ∀ op ∈ before, op.granted := fun op mem => granted op (by simp [mem])
    obtain ⟨_,serves⟩ := runServes earlier (startInv s)
    exact pollDelivers serves.inv (granted _ (by simp)) (still _ (by simp))

theorem cancellingCallbackDelivers :
    TimersDelivered (zeroSetup 0) [scheduleAt 1 10 true,scheduleAt 2 5 true,scheduleAt 3 6 true,
      .poll ⟨tickAt 7,true,[[.cancel 3]]⟩] :=
  runsDeliver (zeroSetup 0) _
    (by simp [scheduleAt,scheduleArgs,Op.granted,Call.granted,PoolReply.granted])
    (by simp [scheduleAt,Op.callbacksSchedule,Call.schedules])

def pollTimes (ops : List Op) : List TimeVal :=
  ops.filterMap fun
    | .poll args => some args.now.time
    | .call _ => none

/- After a refused allocation the next id is read past the end of the id table. With
zeros there the free list comes back to id 1 while timer 1 still holds it: timer 5 takes
it over and is called back twice. -/
def overwrittenRun : List Op :=
  [scheduleAt 1 10 true,scheduleAt 2 15 false,scheduleAt 3 20 true,scheduleAt 4 5 true,
    scheduleAt 5 7 true,.poll ⟨tickAt 100,false,[]⟩]

theorem refusedAllocationFiresTwice :
    ¬ ∀ (s : Setup) (ops : List Op),
      (pollTimes ops).Pairwise (fun x y => timeValMsec x ≤ timeValMsec y) →
      (∀ op ∈ ops, op.callbacksSchedule = false) → TimersDelivered s ops := by
  intro all
  have delivered := all (zeroSetup 1) overwrittenRun
    (by simp [overwrittenRun,pollTimes,scheduleAt])
    (by simp [overwrittenRun,scheduleAt,Op.callbacksSchedule])
  have log : (run (zeroSetup 1).start overwrittenRun).log =
      [.scheduled 1 ⟨10,0⟩,.scheduled 3 ⟨20,0⟩,.scheduled 4 ⟨5,0⟩,.scheduled 5 ⟨7,0⟩,
        .fired 4 ⟨5,0⟩ ⟨100,0⟩,.fired 5 ⟨7,0⟩ ⟨100,0⟩] ++
      .fired 5 ⟨7,0⟩ ⟨100,0⟩ :: [.fired 3 ⟨20,0⟩ ⟨100,0⟩] := by
    decide +kernel
  obtain ⟨_,earlier,since,split,quiet⟩ := delivered.1 _ _ _ _ _ log
  -- the only scheduling of timer 5 is followed by its first callback
  have mem : Event.fired 5 ⟨7,0⟩ ⟨100,0⟩ ∈ since := by
    have ends := congrArg List.getLast? split
    rcases List.eq_nil_or_concat since with rfl | ⟨front,last,rfl⟩
    · simp at ends
    · have final : Event.fired 5 ⟨7,0⟩ ⟨100,0⟩ = last := by
        simpa [List.getLast?_cons,List.getLast?_append] using ends
      simp [final]
  exact quiet _ mem rfl

def timerHeapCount (ht : TimerHeap) : Nat := ht.curSize

/- None stands for PJ_ENOTFOUND. -/
def timerHeapEarliestTime (ht : TimerHeap) : Option TimeVal := if ht.curSize = 0 then none else some (slotValue ht 0)

def slotEntry (ht : TimerHeap) (slot : Nat) : EntryPtr := (ht.timerDups (ht.heap slot)).entry

theorem waitingCount {st : State} (inv : Inv st) : {e | pendingExpiry st e ≠ none}.ncard = timerHeapCount st.ht := by
  have listed : {e | pendingExpiry st e ≠ none} = slotEntry st.ht '' (Finset.range st.ht.curSize : Set Nat) := by
    ext e
    rw [Set.mem_image]
    constructor
    · intro waiting
      have up : 1 ≤ (st.entries e).timerId := by
        by_contra down
        exact waiting (if_neg down)
      obtain ⟨⟨i,inside,found⟩,own⟩ := inv.link.running e up
      exact ⟨i,by simpa using inside,by rw [slotEntry,found,own]⟩
    · rintro ⟨i,inside,rfl⟩
      exact fun none => nomatch (heldWaiting inv (by simpa using inside)).symm.trans none
  have apart : Set.InjOn (slotEntry st.ht) (Finset.range st.ht.curSize : Set Nat) := by
    intro i inside j inside' same
    have here : i < st.ht.curSize := by simpa using inside
    have there : j < st.ht.curSize := by simpa using inside'
    have ids : st.ht.heap i = st.ht.heap j := by
      rw [← inv.link.owner _ ⟨i,here,rfl⟩,← inv.link.owner _ ⟨j,there,rfl⟩]
      exact congrArg (fun e => (st.entries e).timerId) same
    have places : (i : Int) = j := (inv.heap.placed.position i here).symm.trans
      ((congrArg (table st.ht).pos ids).trans (inv.heap.placed.position j there))
    exact Int.ofNat_inj.mp places
  rw [listed,apart.ncard_image,Set.ncard_coe_finset,Finset.card_range]
  rfl

theorem earliestIsLeast (s : Setup) (ops : List Op) (granted : ∀ op ∈ ops, op.granted) :
    ∀ st ∈ s.start :: runStates s.start ops, {e | pendingExpiry st e ≠ none}.ncard = timerHeapCount st.ht ∧
      (timerHeapEarliestTime st.ht = none ↔ ∀ e, pendingExpiry st e = none) ∧
      ∀ x, timerHeapEarliestTime st.ht = some x → (∃ e, pendingExpiry st e = some x) ∧
        ∀ e y, pendingExpiry st e = some y → timeValMsec x ≤ timeValMsec y := by
  intro st mem
  have inv : Inv st := (List.mem_cons.mp mem).elim (fun first => first ▸ startInv s) (runStatesInv granted (startInv s) st)
  unfold timerHeapEarliestTime
  refine ⟨waitingCount inv,?_⟩
  split
  next empty =>
    refine ⟨⟨fun _ e => ?_,fun _ => rfl⟩,nofun⟩
    by_contra waiting
    obtain ⟨x,active⟩ := Option.ne_none_iff_exists'.mp waiting
    exact (rootLeast inv active).1 empty
  next filled =>
    have first := heldWaiting inv (Nat.pos_of_ne_zero filled)
    refine ⟨⟨nofun,fun none => nomatch first.symm.trans (none _)⟩,?_⟩
    rintro x ⟨⟩
    refine ⟨⟨_,first⟩,fun e y active => ?_⟩
    exact ((waitingNormal inv first).le (waitingNormal inv active)).mp (rootLeast inv active).2

theorem earliestAfterCancel :
    let ops := [scheduleAt 1 10 true,scheduleAt 2 5 true,scheduleAt 3 6 true,.call (.cancel 2)]
    ∀ st ∈ (zeroSetup 0).start :: runStates (zeroSetup 0).start ops,
      {e | pendingExpiry st e ≠ none}.ncard = timerHeapCount st.ht :=
  fun st mem => (earliestIsLeast (zeroSetup 0) _
    (by simp [scheduleAt,scheduleArgs,Op.granted,Call.granted,PoolReply.granted]) st mem).1

end Pjproject.Timer
