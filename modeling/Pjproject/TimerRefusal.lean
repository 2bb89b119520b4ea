import Pjproject.TimerCancel

/-! Scheduling that returns an error. Every error but one is returned before anything is written; when grow_heap is
refused an allocation, the id that was taken for the entry is neither given back nor taken from the entry. -/
namespace Pjproject.Timer
open Time Lib.BinaryHeap Lib.FreeList

inductive OnFreelist (ht : TimerHeap) : Int → Prop
  | first : ht.timerIdsFreelist < ht.maxSize → OnFreelist ht ht.timerIdsFreelist
  | next {id : Int} : OnFreelist ht id → -ht.timerIds id < ht.maxSize → OnFreelist ht (-ht.timerIds id)

/- A call that has scheduled nothing: the same timers are pending, the same ids are free, and the entry is not
marked as running by the call. -/
structure Undone (st after : State) (entry : EntryPtr) : Prop where
  pending : ∀ copy, InHeap after.ht copy ↔ InHeap st.ht copy
  free : ∀ id, OnFreelist after.ht id ↔ OnFreelist st.ht id
  mark : timerEntryRunning (after.entries entry) = true → timerEntryRunning (st.entries entry) = true

theorem Undone.refl (st : State) (entry : EntryPtr) : Undone st st entry :=
  ⟨fun _ => Iff.rfl,fun _ => Iff.rfl,id⟩

def Atomic (st : State) (a : ScheduleArgs) : Prop :=
  (scheduleWGrpLock st a).1 ≠ .success → Undone st (scheduleWGrpLock st a).2 a.entry

/- The heap is to grow for an entry that can be scheduled, and the pool refuses. -/
def Refused (st : State) (a : ScheduleArgs) : Prop :=
  (st.entries a.entry).cb ≠ none ∧ timerEntryRunning (st.entries a.entry) = false ∧
    st.ht.curSize < st.ht.maxSize ∧ st.ht.maxSize ≤ st.ht.curSize + 2 ∧ ¬ a.pool.granted

theorem growHeapRefused {pool : PoolReply} (refused : ¬ pool.granted) (ht : TimerHeap) :
    (growHeap pool ht).1 = .enomem := by
  obtain ⟨heap,timerDups,timerIds⟩ := pool
  cases heap
  · rfl
  · cases timerDups
    · rfl
    · cases timerIds
      · rfl
      · exact absurd ⟨rfl,rfl,rfl⟩ refused

theorem scheduleRefused {st : State} {a : ScheduleArgs} (refused : Refused st a) :
    (scheduleWGrpLock st a).1 = .enomem ∧
      ((scheduleWGrpLock st a).2.entries a.entry).timerId = st.ht.timerIdsFreelist := by
  obtain ⟨callback,stopped,small,full,denied⟩ := refused
  let popped : State := { st with
    ht := (popFreelist st.ht).2
    entries := Function.update st.entries a.entry { st.entries a.entry with timerId := (popFreelist st.ht).1 } }
  have grown := growHeapRefused denied popped.ht
  have entry : scheduleEntry a.pool st a.entry (timeValAdd a.tick.time a.delay) =
      (.enomem, { popped with ht := (growHeap a.pool popped.ht).2 }) := by
    unfold scheduleEntry
    rw [if_pos small]
    show insertNode a.pool popped a.entry _ = _
    unfold insertNode
    rw [if_pos (show popped.ht.curSize + 2 ≥ popped.ht.maxSize from full)]
    generalize growHeap a.pool popped.ht = reply at grown
    obtain ⟨status,ht⟩ := reply
    dsimp only at grown
    subst grown
    rfl
  have result : scheduleWGrpLock st a = (.enomem, { popped with ht := (growHeap a.pool popped.ht).2 }) := by
    unfold scheduleWGrpLock
    rw [if_neg callback,stopped]
    dsimp only
    rw [entry]
    rfl
  rw [result]
  exact ⟨rfl,congrArg Entry.timerId (Function.update_self a.entry _ st.entries)⟩

theorem scheduleFails {st : State} {a : ScheduleArgs} (served : ¬ Refused st a)
    (failed : (scheduleWGrpLock st a).1 ≠ .success) : (scheduleWGrpLock st a).2 = st := by
  unfold scheduleWGrpLock at failed ⊢
  split
  · rfl
  next callback =>
  rw [if_neg callback] at failed
  dsimp only at failed ⊢
  split
  · rfl
  next stopped =>
  rw [if_neg stopped] at failed
  by_cases small : st.ht.curSize < st.ht.maxSize
  · -- an entry that there is room for, or is made, is scheduled
    have success : (scheduleEntry a.pool st a.entry (timeValAdd a.tick.time a.delay)).1 = .success := by
      unfold scheduleEntry
      rw [if_pos small]
      dsimp only
      unfold insertNode
      by_cases full : st.ht.maxSize ≤ st.ht.curSize + 2
      · have granted : a.pool.granted := by
          by_contra denied
          exact served ⟨callback,by simpa using stopped,small,full,denied⟩
        rw [if_pos (show (popFreelist st.ht).2.curSize + 2 ≥ (popFreelist st.ht).2.maxSize from full),
          growHeapGranted granted]
      · rw [if_neg (show ¬ (popFreelist st.ht).2.curSize + 2 ≥ (popFreelist st.ht).2.maxSize from full)]
    generalize scheduleEntry a.pool st a.entry (timeValAdd a.tick.time a.delay) = reply at success failed
    obtain ⟨status,after⟩ := reply
    dsimp only at success
    subst success
    exact absurd rfl failed
  · have refused : scheduleEntry a.pool st a.entry (timeValAdd a.tick.time a.delay) = (.failed, st) := by
      unfold scheduleEntry
      rw [if_neg small]
    rw [refused]

/- Scheduling is atomic in any state whatever as long as the pool does not refuse it room, and is not when the pool
does, in the states of a run in which that has not happened before. -/
theorem runsScheduleAtomically (s : Setup) (ops : List Op) :
    (∀ st ∈ s.start :: runStates s.start ops, ∀ a, ¬ Refused st a → Atomic st a) ∧
      ((∀ op ∈ ops, op.granted) → ∀ st ∈ s.start :: runStates s.start ops, ∀ a, Atomic st a ↔ ¬ Refused st a) := by
  have enough : ∀ st a, ¬ Refused st a → Atomic st a := by
    intro st a served failed
    rw [scheduleFails served failed]
    exact .refl st a.entry
  refine ⟨fun st _ a => enough st a,fun granted st mem a => ⟨fun atomic refused => ?_,enough st a⟩⟩
  have inv : Inv st := by
    rcases List.mem_cons.mp mem with rfl | later
    · exact startInv s
    · exact runStatesInv granted (startInv s) st later
  obtain ⟨status,label⟩ := scheduleRefused refused
  have undone := atomic (by rw [status]; decide)
  have low := (popFreelistReserved inv.heap).bounds.1
  have marked : timerEntryRunning ((scheduleWGrpLock st a).2.entries a.entry) = true := by
    unfold timerEntryRunning
    rw [label,decide_eq_true_eq]
    exact low
  exact absurd (undone.mark marked) (by rw [refused.2.1]; decide)

/- Two timers in a heap that has grown once, and a third that needs room again. -/
def refusedArgs (grant : Bool) : ScheduleArgs := scheduleArgs 3 ⟨7,0⟩ (tickAt 0) ⟨grant,grant,grant⟩

theorem grownHeapSchedules :
    (∀ st ∈ (zeroSetup 0).start :: runStates (zeroSetup 0).start [scheduleAt 1 10 true,scheduleAt 2 5 true],
        ∀ a, ¬ Refused st a → Atomic st a) ∧
      ∀ st ∈ (zeroSetup 0).start :: runStates (zeroSetup 0).start [scheduleAt 1 10 true,scheduleAt 2 5 true],
        ∀ a, Atomic st a ↔ ¬ Refused st a :=
  ⟨(runsScheduleAtomically (zeroSetup 0) [scheduleAt 1 10 true,scheduleAt 2 5 true]).1,
    (runsScheduleAtomically (zeroSetup 0) [scheduleAt 1 10 true,scheduleAt 2 5 true]).2 (by
      simp [scheduleAt,scheduleArgs,Op.granted,Call.granted,PoolReply.granted])⟩

/- The first timer of a heap made for none is refused and counts as running. -/
theorem refusedTimerRuns :
    ¬ ∀ (s : Setup) (ops : List Op) (a : ScheduleArgs), Atomic (run s.start ops) a := by
  intro all
  have undone := all (zeroSetup 0) [] (refusedArgs false) (by decide +kernel)
  exact absurd (undone.mark (by decide +kernel)) (by decide +kernel)

end Pjproject.Timer
