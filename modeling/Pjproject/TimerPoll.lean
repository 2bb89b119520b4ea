import Pjproject.TimerService

/-! Polling and whole runs. One round of poll's loop takes the root off the heap, calls
back and runs the callback's own calls; the run lemmas follow by induction. -/
namespace Pjproject.Timer
open Time Lib.BinaryHeap Lib.FreeList

/- What a round knows when its callback is due. -/
structure Popped (st : State) (copy : EntryDup) (st' : State) : Prop where
  inv : Inv st'
  value : copy.timerValue = slotValue st.ht 0
  active : pendingExpiry st copy.entry = some copy.timerValue
  pending : pendingExpiry st' = Function.update (pendingExpiry st) copy.entry none
  valid : pollValid copy (st'.entries copy.entry) = true
  callback : (st'.entries copy.entry).cb ≠ none
  log : st'.log = st.log
  perPoll : st'.ht.maxEntriesPerPoll = st.ht.maxEntriesPerPoll

theorem pollRemovePopped {st : State} (inv : Inv st) (nonempty : st.ht.curSize ≠ 0) :
    Popped st (pollRemove st).1 (pollRemove st).2 := by
  have inside : 0 < st.ht.curSize := by omega
  obtain ⟨root,removed⟩ := removeNodeSpec inv inside
  have active := heldWaiting inv inside
  have copied := inv.link.copied _ ⟨0,inside,rfl⟩
  have pending := removed.pending inv
  generalize result : removeNode st 0 = pair at root removed pending
  obtain ⟨node,mid⟩ := pair
  simp only at root removed pending
  subst root
  have stored : mid.ht.timerDups (st.ht.heap 0) =
      { st.ht.timerDups (st.ht.heap 0) with
        dup := { (st.ht.timerDups (st.ht.heap 0)).dup with timerId := -1 } } := by
    rw [removed.gone.dups,Function.update_self]
  have shape : pollRemove st = (mid.ht.timerDups (st.ht.heap 0), { mid with ht := { mid.ht with
      timerDups := Function.update mid.ht.timerDups (st.ht.heap 0)
        { mid.ht.timerDups (st.ht.heap 0) with grpLock := none } } }) := by
    simp only [pollRemove,result]
  rw [shape,stored]
  -- dropping the group lock of the copy is not seen by the invariant
  have same : ∀ k, (Function.update mid.ht.timerDups (st.ht.heap 0)
      { mid.ht.timerDups (st.ht.heap 0) with grpLock := none } k).dup = (mid.ht.timerDups k).dup ∧
      (Function.update mid.ht.timerDups (st.ht.heap 0)
        { mid.ht.timerDups (st.ht.heap 0) with grpLock := none } k).entry = (mid.ht.timerDups k).entry ∧
      (Function.update mid.ht.timerDups (st.ht.heap 0)
        { mid.ht.timerDups (st.ht.heap 0) with grpLock := none } k).timerValue =
          (mid.ht.timerDups k).timerValue := by
    intro k
    by_cases here : k = st.ht.heap 0
    · simp only [here,Function.update_self,and_self]
    · simp only [Function.update_of_ne here,and_self]
  rw [stored] at same
  refine ⟨⟨?_,?_,?_,?_⟩,rfl,active,?_,?_,?_,removed.log,removed.gone.perPoll⟩
  · refine SameCopies.inv ⟨rfl,fun k => ?_,fun k => ?_⟩ removed.inv.heap
    · simp only [(same k).1]
    · simp only [(same k).2.2]
  · intro k hk
    simp only [(same k).2.1]
    exact removed.inv.link.owner k hk
  · intro k hk
    simp only [(same k).1,(same k).2.1]
    exact removed.inv.link.copied k hk
  · intro d up
    simp only [(same _).2.1]
    exact removed.inv.link.running d up
  · rw [← pending]
    funext d
    simp only [pendingExpiry,nodeValue,(same _).2.2]
  · simp [pollValid,removed.entries,copied.1,copied.2.1]
  · simpa [removed.entries] using copied.2.2

theorem Popped.fire {st copy st' now} (popped : Popped st copy st') :
    pollFire st' copy now = { st' with log := st'.log ++ [.fired copy.entry copy.timerValue now] } :=
  if_pos ⟨popped.valid,popped.callback⟩

theorem Popped.calls {st copy st'} (popped : Popped st copy st') (calls : List Call) :
    pollCallback st' copy calls = calls :=
  if_pos ⟨popped.valid,popped.callback⟩

theorem Popped.serves {st copy st' now} (inv : Inv st) (popped : Popped st copy st') (clock : Normal now)
    (due : slotValue st.ht 0 ≤ now) :
    Serves st (pollFire st' copy now) [.fired copy.entry copy.timerValue now] := by
  rw [popped.fire]
  refine ⟨⟨popped.inv.heap,popped.inv.link⟩,by rw [popped.log],.single ?_,popped.perPoll⟩
  have same : pendingExpiry { st' with log := st'.log ++ [.fired copy.entry copy.timerValue now] } =
      pendingExpiry st' := rfl
  rw [same,popped.pending]
  refine .fire popped.active (((waitingNormal inv popped.active).le clock).mp ?_)
  rw [popped.value]
  exact due

/- What poll's loop does in the rounds it has left. -/
structure Polled (fuel : Nat) (now : TimeVal) (callbacks : List (List Call)) (st : State) (count : Nat)
    (result : State × Nat × List State) (events : List Event) : Prop where
  serves : Serves st result.1 events
  visited : ∀ s ∈ result.2.2, Inv s
  counted : result.2.1 = count + (firedExpiries events).length
  clock : ∀ e x read, .fired e x read ∈ events → read = now
  idle : result.2.1 < count + fuel → ∀ e x, pendingExpiry result.1 e = some x → now < x
  quiet : (∀ calls ∈ callbacks, ∀ call ∈ calls, call.schedules = false) →
    NoSchedule events ∧ (firedExpiries events).Pairwise (· ≤ ·)

theorem pollLoopPolled (fuel count : Nat) (visited : List State) {now callbacks st minTimeNode} (clock : Normal now)
    (inv : Inv st) (granted : ∀ calls ∈ callbacks, ∀ call ∈ calls, Call.granted call)
    (first : st.ht.curSize ≠ 0 → minTimeNode = slotValue st.ht 0) (good : ∀ s ∈ visited, Inv s) :
    ∃ events, Polled fuel now callbacks st count
      (pollLoop fuel now callbacks st count minTimeNode visited) events := by
  induction fuel generalizing callbacks st count minTimeNode visited with
  | zero =>
    unfold pollLoop
    exact ⟨[],.refl inv,good,rfl,by simp,fun less => absurd less (by simp),
      fun _ => ⟨by simp [NoSchedule],.nil⟩⟩
  | succ fuel ih =>
    unfold pollLoop
    split
    · rename_i go
      obtain ⟨nonempty,due⟩ := go
      rw [timeValLteIff,first nonempty] at due
      have popped := pollRemovePopped inv nonempty
      generalize pollRemove st = pair at popped
      obtain ⟨copy,mid⟩ := pair
      simp only at popped ⊢
      rw [popped.calls,popped.valid]
      have fired := popped.serves inv clock due
      generalize pollFire mid copy now = afterFire at fired
      have grantedHead : ∀ call ∈ callbacks.headD [], Call.granted call := by
        cases callbacks with
        | nil => simp
        | cons calls => exact granted calls (by simp)
      have grantedTail : ∀ calls ∈ callbacks.tail, ∀ call ∈ calls, Call.granted call :=
        fun calls mem => granted calls (List.mem_of_mem_tail mem)
      obtain ⟨inner,calls,silent,still⟩ := runCallsServe grantedHead fired.inv
      have round : Serves st (pollRelease ((callbacks.headD []).foldl runCall afterFire) copy true) _ :=
        (fired.trans calls).refs _
      have states := callStatesInv grantedHead fired.inv
      generalize pollRelease ((callbacks.headD []).foldl runCall afterFire) copy true = next at round
      obtain ⟨events,rest⟩ := ih (count + 1) (visited ++ (callbacks.headD []).scanl runCall afterFire)
        round.inv grantedTail (fun more => if_pos more) (by
          intro s mem
          rcases List.mem_append.mp mem with old | new
          · exact good s old
          · exact states s new)
      refine ⟨_,round.trans rest.serves,rest.visited,?_,?_,fun less => rest.idle (by omega),fun none => ?_⟩
      · rw [rest.counted,firedAppend,firedAppend,silent]
        simp only [firedExpiries,List.filterMap_cons,List.filterMap_nil,List.append_nil,
          List.length_append,List.length_cons,List.length_nil]
        omega
      · intro e x read mem
        rw [List.append_assoc,List.mem_append,List.mem_append] at mem
        rcases mem with here | inside | later
        · simp only [List.mem_singleton,Event.fired.injEq] at here
          exact here.2.2
        · exact absurd (firedMem inside) (by simp [silent])
        · exact rest.clock e x read later
      · have quietHead : NoSchedule inner := by
          refine still ?_
          cases callbacks with
          | nil => simp
          | cons head => exact none head (by simp)
        obtain ⟨quietTail,sorted⟩ := rest.quiet fun calls mem => none calls (List.mem_of_mem_tail mem)
        have quietRound : NoSchedule ([.fired copy.entry copy.timerValue now] ++ inner) :=
          NoSchedule.append (by simp [NoSchedule]) quietHead
        refine ⟨quietRound.append quietTail,?_⟩
        rw [firedAppend,firedAppend,silent]
        refine List.pairwise_cons.mpr ⟨fun x mem => ?_,sorted⟩
        -- a later callback's timer was already waiting when this one was the least
        obtain ⟨e,active⟩ := rest.serves.service.firedWaited quietTail mem
        rw [popped.value]
        exact (rootLeast inv (round.service.shrinks quietRound active)).2
    · rename_i stop
      refine ⟨[],.refl inv,good,rfl,by simp,fun _ e x active => ?_,fun _ => ⟨by simp [NoSchedule],.nil⟩⟩
      obtain ⟨nonempty,least⟩ := rootLeast inv active
      rw [not_and,timeValLteIff,not_le,first nonempty] at stop
      exact lt_of_lt_of_le (stop nonempty) least

structure PollServes (st : State) (a : PollArgs) (events : List Event) : Prop where
  serves : Serves st (timerHeapPoll st a).st events
  visited : ∀ s ∈ (timerHeapPoll st a).visited, Inv s
  counted : (timerHeapPoll st a).count = (firedExpiries events).length
  clock : ∀ e x read, .fired e x read ∈ events → read = a.now.time
  idle : (timerHeapPoll st a).count < st.ht.maxEntriesPerPoll →
    ∀ e x, pendingExpiry (timerHeapPoll st a).st e = some x → a.now.time < x
  delay : (timerHeapPoll st a).nextDelay =
    if a.wantDelay then some (pollNextDelay (timerHeapPoll st a).st.ht a.now.time) else none
  quiet : (∀ calls ∈ a.callbacks, ∀ call ∈ calls, call.schedules = false) →
    NoSchedule events ∧ (firedExpiries events).Pairwise (· ≤ ·)

theorem Tick.normal (tick : Tick) : Normal tick.time := by
  have sec := tick.sec
  have low := tick.low
  have high := tick.high
  constructor <;> omega

theorem timerHeapPollServes {st : State} (inv : Inv st) {a : PollArgs}
    (granted : ∀ calls ∈ a.callbacks, ∀ call ∈ calls, Call.granted call) : ∃ events, PollServes st a events := by
  by_cases early : st.ht.curSize = 0 ∧ a.wantDelay
  · have shape : timerHeapPoll st a = ⟨st,0,some ⟨maxInt32,maxInt32⟩,[]⟩ := if_pos early
    have empty : ∀ e x, pendingExpiry st e = some x → a.now.time < x :=
      fun e x active => absurd early.1 (rootLeast inv active).1
    refine ⟨[],?_,?_,?_,by simp,?_,?_,fun _ => ⟨by simp [NoSchedule],.nil⟩⟩ <;> rw [shape]
    · exact .refl inv
    · simp
    · rfl
    · exact fun _ => empty
    · simp [early.2,pollNextDelay,early.1]
  · obtain ⟨events,polled⟩ := pollLoopPolled st.ht.maxEntriesPerPoll 0 [] a.now.normal inv granted
      (fun nonempty => if_pos nonempty) (by simp)
    generalize loop : pollLoop st.ht.maxEntriesPerPoll a.now.time a.callbacks st 0
      (if st.ht.curSize ≠ 0 then slotValue st.ht 0 else ⟨0,0⟩) [] = result at polled
    have shape : timerHeapPoll st a = ⟨result.1,result.2.1,
        if a.wantDelay then some (pollNextDelay result.1.ht a.now.time) else none,result.2.2⟩ := by
      unfold timerHeapPoll
      rw [if_neg early]
      simp only [loop]
    refine ⟨events,?_,?_,?_,polled.clock,?_,?_,polled.quiet⟩ <;> rw [shape]
    · exact polled.serves
    · exact polled.visited
    · simpa using polled.counted
    · exact fun less => polled.idle (by simpa using less)

theorem pollNextDelayMsec {ht : TimerHeap} (nonempty : ht.curSize ≠ 0) (now : TimeVal) :
    timeValMsec (pollNextDelay ht now) = max 0 (timeValMsec (slotValue ht 0) - timeValMsec now) := by
  unfold pollNextDelay
  rw [if_pos nonempty]
  have normal : Normal (timeValSub (slotValue ht 0) now) := normalizeNormal _
  have span := subMsec (slotValue ht 0) now
  simp only [normal.nonnegative]
  rw [← span]
  split
  · rename_i negative
    rw [max_eq_left negative.le]
    rfl
  · rename_i positive
    rw [max_eq_right (not_lt.mp positive)]

end Pjproject.Timer
