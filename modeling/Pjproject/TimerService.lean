import Pjproject.TimerSchedule

/-! What the timer heap is for: a set of waiting timers, each with its expiry. A timer
is scheduled when it is not waiting, cancelled when it is, and fired when it is
waiting and due. Every call of pj/timer.c takes steps of this service. -/
namespace Pjproject.Timer
open Time Lib.BinaryHeap

abbrev Waiting := EntryPtr → Option TimeVal

def Event.entry : Event → EntryPtr
  | .scheduled entry _ => entry
  | .cancelled entry => entry
  | .fired entry _ _ => entry

/- The expiries of the callbacks among the events, in the order they were made. -/
def firedExpiries (events : List Event) : List TimeVal :=
  events.filterMap fun
    | .fired _ expires _ => some expires
    | .scheduled _ _ => none
    | .cancelled _ => none

def NoSchedule (events : List Event) : Prop := ∀ e x, Event.scheduled e x ∉ events

inductive ServiceStep : Waiting → Event → Waiting → Prop where
  | schedule {waiting entry expires} (idle : waiting entry = none) :
      ServiceStep waiting (.scheduled entry expires) (Function.update waiting entry (some expires))
  | cancel {waiting entry} (active : waiting entry ≠ none) :
      ServiceStep waiting (.cancelled entry) (Function.update waiting entry none)
  | fire {waiting entry expires now} (active : waiting entry = some expires)
      (due : timeValMsec expires ≤ timeValMsec now) :
      ServiceStep waiting (.fired entry expires now) (Function.update waiting entry none)

inductive ServiceRun : Waiting → List Event → Waiting → Prop where
  | nil (waiting : Waiting) : ServiceRun waiting [] waiting
  | cons {waiting mid last event events} (step : ServiceStep waiting event mid)
      (rest : ServiceRun mid events last) : ServiceRun waiting (event :: events) last

theorem ServiceRun.single {waiting mid event} (step : ServiceStep waiting event mid) :
    ServiceRun waiting [event] mid := .cons step (.nil mid)

theorem ServiceRun.append {first mid last events more} (left : ServiceRun first events mid)
    (right : ServiceRun mid more last) : ServiceRun first (events ++ more) last := by
  induction left with
  | nil => exact right
  | cons step rest ih => exact .cons step (ih right)

theorem ServiceRun.split {first last events more} (run : ServiceRun first (events ++ more) last) :
    ∃ mid, ServiceRun first events mid ∧ ServiceRun mid more last := by
  induction events generalizing first with
  | nil => exact ⟨first,.nil first,run⟩
  | cons event events ih =>
    cases run with
    | cons step rest =>
      obtain ⟨mid,left,right⟩ := ih rest
      exact ⟨mid,.cons step left,right⟩

variable {e : EntryPtr} {x : TimeVal} {st : State}

theorem ServiceStep.other {waiting event mid} (step : ServiceStep waiting event mid)
    (other : event.entry ≠ e) : mid e = waiting e := by
  cases step <;> exact Function.update_of_ne (Ne.symm other) _ _

theorem ServiceStep.waits {waiting event mid} (step : ServiceStep waiting event mid)
    (active : mid event.entry = some x) : event = .scheduled event.entry x := by
  cases step with
  | schedule =>
    simp only [Event.entry,Function.update_self,Option.some.injEq] at active
    rw [active,Event.entry]
  | cancel => simp [Event.entry] at active
  | fire => simp [Event.entry] at active

theorem ServiceRun.lastScheduled {events last} (run : ServiceRun (fun _ => none) events last)
    (active : last e = some x) :
    ∃ before after, events = before ++ .scheduled e x :: after ∧ ∀ event ∈ after, event.entry ≠ e := by
  -- from the end of the run backwards, to the last event that names the timer
  induction events using List.reverseRecOn generalizing last with
  | nil => cases run; simp at active
  | append_singleton events event ih =>
    obtain ⟨mid,earlier,final⟩ := run.split
    cases final with
    | cons step done =>
      cases done
      by_cases mine : event.entry = e
      · subst mine
        exact ⟨events,[],by rw [← step.waits active],by simp⟩
      · rw [step.other mine] at active
        obtain ⟨before,after,split,quiet⟩ := ih earlier active
        refine ⟨before,after ++ [event],by simp [split],?_⟩
        intro other mem
        rcases List.mem_append.mp mem with old | new
        · exact quiet other old
        · rw [List.mem_singleton.mp new]
          exact mine

theorem ServiceRun.firing {events more last} {now : TimeVal}
    (run : ServiceRun (fun _ => none) (events ++ .fired e x now :: more) last) :
    timeValMsec x ≤ timeValMsec now ∧ ∃ before after, events = before ++ .scheduled e x :: after ∧
      ∀ event ∈ after, event.entry ≠ e := by
  obtain ⟨mid,earlier,later⟩ := run.split
  cases later with
  | cons step =>
    cases step with
    | fire active due => exact ⟨due,earlier.lastScheduled active⟩

theorem ServiceRun.shrinks {first events last} (run : ServiceRun first events last)
    (quiet : NoSchedule events) (active : last e = some x) : first e = some x := by
  induction run with
  | nil => exact active
  | @cons _ _ _ event _ step rest ih =>
    have active := ih (fun e x mem => quiet e x (List.mem_cons_of_mem _ mem)) active
    by_cases mine : event.entry = e
    · subst mine
      exact absurd (by rw [← step.waits active]; simp) (quiet event.entry x)
    · rw [← step.other mine]
      exact active

theorem ServiceRun.firedWaited {first events last} (run : ServiceRun first events last)
    (quiet : NoSchedule events) (fired : x ∈ firedExpiries events) : ∃ e, first e = some x := by
  simp only [firedExpiries,List.mem_filterMap] at fired
  obtain ⟨event,mem,found⟩ := fired
  obtain ⟨before,after,rfl⟩ := List.append_of_mem mem
  obtain ⟨mid,earlier,later⟩ := run.split
  cases later with
  | cons step _ =>
    cases step with
    | fire active _ =>
      cases found
      exact ⟨_,earlier.shrinks (fun e x mem => quiet e x (by simp [mem])) active⟩
    | schedule => simp at found
    | cancel => simp at found

theorem heldWaiting (inv : Inv st) {i : Nat} (inside : i < st.ht.curSize) :
    pendingExpiry st (st.ht.timerDups (st.ht.heap i)).entry = some (slotValue st.ht i) := by
  have held : Held st.ht (st.ht.heap i) := ⟨i,inside,rfl⟩
  have owner := inv.link.owner _ held
  rw [pendingExpiry,owner,if_pos (inv.heap.range _ held).1]
  rfl

theorem waitingHeld (inv : Inv st)
    (active : pendingExpiry st e = some x) : ∃ i, i < st.ht.curSize ∧ slotValue st.ht i = x := by
  unfold pendingExpiry at active
  split at active
  · rename_i up
    obtain ⟨i,inside,found⟩ := (inv.link.running e up).1
    exact ⟨i,inside,by rw [slotValue,found]; exact Option.some.inj active⟩
  · contradiction

theorem waitingNormal (inv : Inv st) (active : pendingExpiry st e = some x) : Normal x := by
  obtain ⟨i,inside,rfl⟩ := waitingHeld inv active
  exact inv.heap.normal _ ⟨i,inside,rfl⟩

theorem rootLeast (inv : Inv st)
    (active : pendingExpiry st e = some x) : st.ht.curSize ≠ 0 ∧ slotValue st.ht 0 ≤ x := by
  obtain ⟨i,inside,rfl⟩ := waitingHeld inv active
  exact ⟨by omega,inv.heap.ordered.rootLeast i inside⟩

/- The heap moved from one good state to another, and the service with it. -/
structure Serves (st st' : State) (events : List Event) : Prop where
  inv : Inv st'
  log : st'.log = st.log ++ events
  service : ServiceRun (pendingExpiry st) events (pendingExpiry st')
  perPoll : st'.ht.maxEntriesPerPoll = st.ht.maxEntriesPerPoll

theorem Serves.refl (inv : Inv st) : Serves st st [] :=
  ⟨inv,by simp,.nil _,rfl⟩

theorem Serves.trans {a b c : State} {events more} (left : Serves a b events) (right : Serves b c more) :
    Serves a c (events ++ more) :=
  ⟨right.inv,by rw [right.log,left.log,List.append_assoc],left.service.append right.service,
    right.perPoll.trans left.perPoll⟩

theorem Serves.refs {st' : State} {events} (serves : Serves st st' events) (refs : GrpLock → Int) :
    Serves st { st' with grpRefs := refs } events :=
  ⟨⟨serves.inv.heap,serves.inv.link⟩,serves.log,serves.service,serves.perPoll⟩

theorem scheduleServes (inv : Inv st) {a : ScheduleArgs} (granted : a.pool.granted) :
    ∃ events, Serves st (scheduleWGrpLock st a).2 events ∧ firedExpiries events = [] := by
  rcases scheduleGranted inv granted with ⟨_,same⟩ | ⟨_,scheduled⟩
  · rw [same]
    exact ⟨[],.refl inv,rfl⟩
  · refine ⟨_,⟨scheduled.inv,scheduled.log,.single ?_,scheduled.perPoll⟩,rfl⟩
    rw [scheduled.pending]
    exact .schedule scheduled.idle

theorem forgetServes (inv : Inv st) (idle : (st.entries e).timerId < 1) : Serves st { st with
      entries := Function.update st.entries e { st.entries e with timerId := -1 } } [] := by
  have apart : ∀ k, Held st.ht k → (st.ht.timerDups k).entry ≠ e := by
    intro k hk same
    have owner := inv.link.owner k hk
    have low := (inv.heap.range k hk).1
    rw [same] at owner
    omega
  refine ⟨⟨inv.heap,?_,?_,?_⟩,by simp,?_,rfl⟩
  · intro k hk
    simp only [Function.update_of_ne (apart k hk)]
    exact inv.link.owner k hk
  · intro k hk
    simp only [Function.update_of_ne (apart k hk)]
    exact inv.link.copied k hk
  · intro d up
    by_cases mine : d = e
    · simp only [mine,Function.update_self] at up
      omega
    · simp only [Function.update_of_ne mine] at up ⊢
      exact inv.link.running d up
  · have same : pendingExpiry { st with
        entries := Function.update st.entries e { st.entries e with timerId := -1 } } =
          pendingExpiry st := by
      funext d
      by_cases mine : d = e
      · simp only [pendingExpiry,mine,Function.update_self]
        rw [if_neg (by omega),if_neg (by omega)]
      · simp only [pendingExpiry,Function.update_of_ne mine]
    rw [same]
    exact .nil _

theorem cancelIdle (inv : Inv st) (idle : (st.entries e).timerId < 1) : cancel st e = (0, { st with
      entries := Function.update st.entries e { st.entries e with timerId := -1 } }) := by
  unfold cancel
  simp only
  split
  · rfl
  · rename_i range
    have zero : (st.entries e).timerId = 0 := by omega
    rw [zero,if_pos inv.heap.zero]

theorem cancelRunning (inv : Inv st) (up : 1 ≤ (st.entries e).timerId) :
    ∃ slot, slot < st.ht.curSize ∧ (st.ht.timerDups (st.ht.heap slot)).entry = e ∧
      cancel st e = (1, (removeNode st slot).2) := by
  obtain ⟨⟨slot,inside,found⟩,owned⟩ := inv.link.running e up
  have high := (inv.heap.range _ ⟨slot,inside,found⟩).2
  have position : st.ht.timerIds (st.entries e).timerId = slot := by
    rw [← found]
    exact inv.heap.placed.position slot inside
  refine ⟨slot,inside,by rw [found,owned],?_⟩
  unfold cancel
  simp only
  rw [if_neg (by omega),position,if_neg (by omega),Int.toNat_natCast,found,if_neg (by simp [owned])]

theorem cancelTimerServes (inv : Inv st) (e : EntryPtr) (setId : Option Int) :
    ∃ events, Serves st (cancelTimer st e setId).2 events ∧ firedExpiries events = [] ∧ NoSchedule events := by
  unfold cancelTimer
  simp only
  by_cases up : 1 ≤ (st.entries e).timerId
  · obtain ⟨slot,inside,owned,result⟩ := cancelRunning inv up
    obtain ⟨_,removed⟩ := removeNodeSpec inv inside
    have pending := removed.pending inv
    rw [owned] at pending
    refine ⟨[.cancelled e],?_,rfl,by simp [NoSchedule]⟩
    rw [result]
    generalize (removeNode st slot).2 = mid at removed pending
    simp only
    -- the id the application sees is not read by the invariant
    generalize setId.getD (mid.entries e).id = id
    have fields : ∀ d, (Function.update mid.entries e { mid.entries e with id := id } d).timerId =
        (mid.entries d).timerId ∧
        (Function.update mid.entries e { mid.entries e with id := id } d).cb = (mid.entries d).cb ∧
        (Function.update mid.entries e { mid.entries e with id := id } d).userData =
          (mid.entries d).userData := by
      intro d
      by_cases mine : d = e
      · simp only [mine,Function.update_self,and_self]
      · simp only [Function.update_of_ne mine,and_self]
    refine ⟨⟨removed.inv.heap,?_,?_,?_⟩,by simp only [removed.log],.single ?_,removed.gone.perPoll⟩
    · intro k hk
      simp only [(fields _).1]
      exact removed.inv.link.owner k hk
    · intro k hk
      simp only [(fields _).2.1,(fields _).2.2]
      exact removed.inv.link.copied k hk
    · intro d
      simp only [(fields _).1]
      exact removed.inv.link.running d
    · have same : pendingExpiry { mid with
          entries := Function.update mid.entries e { mid.entries e with id := id }
          grpRefs := decRef mid.grpRefs (st.ht.timerDups (st.entries e).timerId).grpLock
          log := mid.log ++ [.cancelled e] } = pendingExpiry mid := by
        funext d
        simp only [pendingExpiry,(fields d).1]
      rw [same,pending]
      refine .cancel ?_
      rw [pendingExpiry,if_pos up]
      simp
  · rw [cancelIdle inv (by omega)]
    exact ⟨[],forgetServes inv (by omega),rfl,by simp [NoSchedule]⟩

/- A call whose allocations, if it makes any, are all granted. -/
def Call.granted : Call → Prop
  | .schedule args => args.pool.granted
  | .cancel _ => True
  | .cancelIfActive _ _ => True

def Call.schedules : Call → Bool
  | .schedule _ => true
  | .cancel _ => false
  | .cancelIfActive _ _ => false

theorem runCallServes (inv : Inv st) {call : Call} (granted : call.granted) :
    ∃ events, Serves st (runCall st call) events ∧ firedExpiries events = [] ∧
      (call.schedules = false → NoSchedule events) := by
  cases call with
  | schedule args =>
    obtain ⟨events,serves,silent⟩ := scheduleServes inv (a := args) granted
    exact ⟨events,serves,silent,by simp [Call.schedules]⟩
  | cancel e =>
    obtain ⟨events,serves,silent,quiet⟩ := cancelTimerServes inv e none
    exact ⟨events,serves,silent,fun _ => quiet⟩
  | cancelIfActive e idVal =>
    obtain ⟨events,serves,silent,quiet⟩ := cancelTimerServes inv e (some idVal)
    exact ⟨events,serves,silent,fun _ => quiet⟩

theorem firedMem {events : List Event} {now : TimeVal} (mem : .fired e x now ∈ events) :
    x ∈ firedExpiries events :=
  List.mem_filterMap.mpr ⟨_,mem,rfl⟩

theorem firedAppend (events more : List Event) :
    firedExpiries (events ++ more) = firedExpiries events ++ firedExpiries more :=
  List.filterMap_append

theorem NoSchedule.append {events more} (left : NoSchedule events) (right : NoSchedule more) :
    NoSchedule (events ++ more) := by
  intro e x mem
  rcases List.mem_append.mp mem with old | new
  · exact left e x old
  · exact right e x new

theorem runCallsServe {calls : List Call} (granted : ∀ call ∈ calls, call.granted) (inv : Inv st) :
    ∃ events, Serves st (calls.foldl runCall st) events ∧ firedExpiries events = [] ∧
      ((∀ call ∈ calls, call.schedules = false) → NoSchedule events) := by
  induction calls generalizing st with
  | nil => exact ⟨[],.refl inv,rfl,by simp [NoSchedule]⟩
  | cons call calls ih =>
    obtain ⟨events,first,silent,quiet⟩ := runCallServes inv (granted call (by simp))
    obtain ⟨more,rest,still,later⟩ := ih (fun c mem => granted c (by simp [mem])) first.inv
    refine ⟨events ++ more,first.trans rest,by rw [firedAppend,silent,still]; rfl,fun none => ?_⟩
    exact (quiet (none call (by simp))).append (later fun c mem => none c (by simp [mem]))

theorem callStatesInv {calls : List Call} (granted : ∀ call ∈ calls, call.granted)
    (inv : Inv st) : ∀ s ∈ calls.scanl runCall st, Inv s := by
  induction calls generalizing st with
  | nil => simpa using inv
  | cons call calls ih =>
    obtain ⟨_,first,_,_⟩ := runCallServes inv (granted call (by simp))
    intro s mem
    rw [List.scanl_cons,List.mem_cons] at mem
    rcases mem with rfl | later
    · exact inv
    · exact ih (fun c mem => granted c (by simp [mem])) first.inv s later

end Pjproject.Timer
