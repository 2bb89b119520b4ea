import Pjproject.Time
import Pjproject.Lib.BinaryHeap

/-! The timer heap of pj/timer.c, in its default configuration: entry copies are
kept (PJ_TIMER_USE_COPY) and the heap is a binary tree (no linked list). A pointer
into the array of copies is the index of the copy, NULL is the index 0 that the
free list never hands out, and an application's entry is named by its address.
Arrays are functions: memory outside the allocated range is what the function
holds there. A heap has fewer than 2^31 entries, so an id is an Int without a
modulus. The debug fields `src_file` and `src_line`, the lock and the log lines
are left out. -/
namespace Pjproject.Timer
open Time

abbrev EntryPtr := Nat
abbrev GrpLock := Nat

structure Entry where
  userData : Nat
  id : Int
  cb : Option Nat
  timerId : Int
  deriving DecidableEq, Repr

structure EntryDup where
  dup : Entry
  entry : EntryPtr
  timerValue : TimeVal
  grpLock : Option GrpLock
  deriving DecidableEq, Repr

structure TimerHeap where
  maxSize : Nat
  curSize : Nat
  maxEntriesPerPoll : Nat
  heap : Nat → Int
  timerIds : Int → Int
  timerDups : Int → EntryDup
  timerIdsFreelist : Int

inductive Status where
  | success
  | einval
  | einvalidop
  | enomem
  | failed
  deriving DecidableEq, Repr

/- What the application sees of its timers: accepted schedules with the expiry they
were given, cancels that returned 1, and callbacks with the expiry of the copy and
the clock poll had read. -/
inductive Event where
  | scheduled (entry : EntryPtr) (expires : TimeVal)
  | cancelled (entry : EntryPtr)
  | fired (entry : EntryPtr) (expires now : TimeVal)
  deriving DecidableEq, Repr

structure State where
  ht : TimerHeap
  entries : EntryPtr → Entry
  grpRefs : GrpLock → Int
  log : List Event

def heapParent (x : Nat) : Nat := if x = 0 then 0 else (x - 1) / 2
def heapLeft (x : Nat) : Nat := x + x + 1

def nodeValue (ht : TimerHeap) (node : Int) : TimeVal := (ht.timerDups node).timerValue
def slotValue (ht : TimerHeap) (slot : Nat) : TimeVal := nodeValue ht (ht.heap slot)

def copyNode (ht : TimerHeap) (slot : Nat) (movedNode : Int) : TimerHeap :=
  { ht with
    heap := Function.update ht.heap slot movedNode
    timerIds := Function.update ht.timerIds (ht.timerDups movedNode).dup.timerId slot }

def popFreelist (ht : TimerHeap) : Int × TimerHeap :=
  (ht.timerIdsFreelist, { ht with timerIdsFreelist := -ht.timerIds ht.timerIdsFreelist })

def pushFreelist (ht : TimerHeap) (oldId : Int) : TimerHeap :=
  { ht with
    timerIds := Function.update ht.timerIds oldId (-ht.timerIdsFreelist)
    timerIdsFreelist := oldId }

/- The loops carry fuel: the slot falls in every round of `reheapUp` and rises in
every round of `reheapDown`, so the callers' fuel is never used up. -/
def reheapDown : Nat → TimerHeap → Int → Nat → Nat → TimerHeap
  | 0, ht, movedNode, slot, _ => copyNode ht slot movedNode
  | fuel + 1, ht, movedNode, slot, child =>
    if child < ht.curSize then
      let child :=
        if child + 1 < ht.curSize ∧ timeValLt (slotValue ht (child + 1)) (slotValue ht child) = true
        then child + 1 else child
      if timeValLt (slotValue ht child) (nodeValue ht movedNode) = true then
        reheapDown fuel (copyNode ht slot (ht.heap child)) movedNode child (heapLeft child)
      else copyNode ht slot movedNode
    else copyNode ht slot movedNode

def reheapUp : Nat → TimerHeap → Int → Nat → Nat → TimerHeap
  | 0, ht, movedNode, slot, _ => copyNode ht slot movedNode
  | fuel + 1, ht, movedNode, slot, parent =>
    if slot > 0 then
      if timeValLt (nodeValue ht movedNode) (slotValue ht parent) = true then
        reheapUp fuel (copyNode ht slot (ht.heap parent)) movedNode parent (heapParent parent)
      else copyNode ht slot movedNode
    else copyNode ht slot movedNode

/- The part of remove_node that reorders the heap, after the size has gone down. -/
def reheapRemoved (ht : TimerHeap) (slot : Nat) : TimerHeap :=
  if slot < ht.curSize then
    let movedNode := ht.heap ht.curSize
    let ht := copyNode ht slot movedNode
    let parent := heapParent slot
    if timeValGte (nodeValue ht movedNode) (slotValue ht parent) = true then
      reheapDown ht.curSize ht movedNode slot (heapLeft slot)
    else reheapUp slot ht movedNode slot parent
  else ht

def removeNode (st : State) (slot : Nat) : Int × State :=
  let removedNode := st.ht.heap slot
  let ht := pushFreelist st.ht (st.ht.timerDups removedNode).dup.timerId
  let ht := { ht with curSize := ht.curSize - 1 }
  let entry := (ht.timerDups removedNode).entry
  let entries := Function.update st.entries entry { st.entries entry with timerId := -1 }
  let copy := ht.timerDups removedNode
  let ht := { ht with
    timerDups := Function.update ht.timerDups removedNode
      { copy with dup := { copy.dup with timerId := -1 } } }
  (removedNode, { st with ht := reheapRemoved ht slot, entries := entries })

/- Which of the three allocations of grow_heap the pool grants. -/
structure PoolReply where
  heap : Bool
  timerDups : Bool
  timerIds : Bool
  deriving DecidableEq, Repr

def growHeap (pool : PoolReply) (ht : TimerHeap) : Status × TimerHeap :=
  let newSize := ht.maxSize * 2
  if !pool.heap then (.enomem, ht)
  else if !pool.timerDups then (.enomem, ht)
  else
    let newHeap := fun i => if i < ht.curSize then ht.heap i else 0
    let ht := { ht with heap := newHeap }
    if !pool.timerIds then (.enomem, ht)
    else
      let newTimerIds := fun i : Int =>
        if ht.maxSize ≤ i ∧ i < newSize then -(i + 1) else ht.timerIds i
      (.success, { ht with timerIds := newTimerIds, maxSize := newSize })

/- The tail of insert_node, once there is room: copy the entry, then let it rise. -/
def insertCopy (st : State) (newNode : EntryPtr) (futureTime : TimeVal) : State :=
  let node := (st.entries newNode).timerId
  let timerCopy : EntryDup :=
    { dup := st.entries newNode, entry := newNode, timerValue := futureTime, grpLock := none }
  let ht := { st.ht with timerDups := Function.update st.ht.timerDups node timerCopy }
  let ht := reheapUp ht.curSize ht node ht.curSize (heapParent ht.curSize)
  { st with ht := { ht with curSize := ht.curSize + 1 } }

def insertNode (pool : PoolReply) (st : State) (newNode : EntryPtr) (futureTime : TimeVal) :
    Status × State :=
  if st.ht.curSize + 2 ≥ st.ht.maxSize then
    match growHeap pool st.ht with
    | (.success, ht) => (.success, insertCopy { st with ht := ht } newNode futureTime)
    | (status, ht) => (status, { st with ht := ht })
  else (.success, insertCopy st newNode futureTime)

def scheduleEntry (pool : PoolReply) (st : State) (entry : EntryPtr) (futureTime : TimeVal) :
    Status × State :=
  if st.ht.curSize < st.ht.maxSize then
    let (newId, ht) := popFreelist st.ht
    let entries := Function.update st.entries entry { st.entries entry with timerId := newId }
    insertNode pool { st with ht := ht, entries := entries } entry futureTime
  else (.failed, st)

def timerEntryRunning (entry : Entry) : Bool := decide (entry.timerId ≥ 1)

/- A clock reading: pj_gettickcount fills both fields from an elapsed count of
milliseconds, by division and remainder. -/
structure Tick where
  time : TimeVal
  sec : 0 ≤ time.sec
  low : 0 ≤ time.msec
  high : time.msec < 1000

structure ScheduleArgs where
  entry : EntryPtr
  delay : TimeVal
  setId : Bool
  idVal : Int
  grpLock : Option GrpLock
  tick : Tick
  pool : PoolReply

def addRef (refs : GrpLock → Int) : Option GrpLock → GrpLock → Int
  | none => refs
  | some lock => Function.update refs lock (refs lock + 1)

def decRef (refs : GrpLock → Int) : Option GrpLock → GrpLock → Int
  | none => refs
  | some lock => Function.update refs lock (refs lock - 1)

def scheduleWGrpLock (st : State) (a : ScheduleArgs) : Status × State :=
  if (st.entries a.entry).cb = none then (.einval, st)
  else
    let expires := timeValAdd a.tick.time a.delay
    if timerEntryRunning (st.entries a.entry) then (.einvalidop, st)
    else
      match scheduleEntry a.pool st a.entry expires with
      | (.success, st) =>
        let node := (st.entries a.entry).timerId
        let copy := st.ht.timerDups node
        let id := if a.setId then a.idVal else (st.entries a.entry).id
        let dupId := if a.setId then a.idVal else copy.dup.id
        (.success, { st with
          ht := { st.ht with
            timerDups := Function.update st.ht.timerDups node
              { copy with dup := { copy.dup with id := dupId }, grpLock := a.grpLock } }
          entries := Function.update st.entries a.entry { st.entries a.entry with id := id }
          grpRefs := addRef st.grpRefs a.grpLock
          log := st.log ++ [.scheduled a.entry expires] })
      | (status, st) => (status, st)

def scheduleArgs (entry : EntryPtr) (delay : TimeVal) (tick : Tick) (pool : PoolReply) :
    ScheduleArgs := ⟨entry,delay,false,1,none,tick,pool⟩

def timerHeapSchedule (st : State) (entry : EntryPtr) (delay : TimeVal) (tick : Tick)
    (pool : PoolReply) : Status × State := scheduleWGrpLock st (scheduleArgs entry delay tick pool)

/- cancel() is reached from cancel_timer only, which always sets F_DONT_CALL. The
range test admits an id equal to max_size, as the source's `>` does. -/
def cancel (st : State) (entry : EntryPtr) : Nat × State :=
  let forget := { st with
    entries := Function.update st.entries entry { st.entries entry with timerId := -1 } }
  let timerId := (st.entries entry).timerId
  if timerId < 0 ∨ timerId > st.ht.maxSize then (0, forget)
  else
    let timerNodeSlot := st.ht.timerIds timerId
    if timerNodeSlot < 0 then (0, forget)
    else if entry ≠ (st.ht.timerDups (st.ht.heap timerNodeSlot.toNat)).entry then (0, forget)
    else (1, (removeNode st timerNodeSlot.toNat).2)

def cancelTimer (st : State) (entry : EntryPtr) (setId : Option Int) : Nat × State :=
  let grpLock := (st.ht.timerDups (st.entries entry).timerId).grpLock
  match cancel st entry with
  | (0, st) => (0, st)
  | (count + 1, st) =>
    let id := setId.getD (st.entries entry).id
    (count + 1, { st with
      entries := Function.update st.entries entry { st.entries entry with id := id }
      grpRefs := decRef st.grpRefs grpLock
      log := st.log ++ [.cancelled entry] })

def timerHeapCancel (st : State) (entry : EntryPtr) : Nat × State := cancelTimer st entry none

def timerHeapCancelIfActive (st : State) (entry : EntryPtr) (idVal : Int) : Nat × State :=
  cancelTimer st entry (some idVal)

/- The calls a run is made of, outside poll and inside poll's callbacks. -/
inductive Call where
  | schedule (args : ScheduleArgs)
  | cancel (entry : EntryPtr)
  | cancelIfActive (entry : EntryPtr) (idVal : Int)

def runCall (st : State) : Call → State
  | .schedule args => (scheduleWGrpLock st args).2
  | .cancel entry => (timerHeapCancel st entry).2
  | .cancelIfActive entry idVal => (timerHeapCancelIfActive st entry idVal).2

def maxInt32 : Int := 0x7FFFFFFF

structure PollArgs where
  now : Tick
  wantDelay : Bool
  /- What each callback of this poll does, in the order poll invokes them. -/
  callbacks : List (List Call)

structure PollResult where
  st : State
  count : Nat
  nextDelay : Option TimeVal
  /- The states between poll's own steps: after each removal and after each call a
  callback made. -/
  visited : List State

/- One round of poll's loop up to the callback: the root leaves the heap, and the
callback is due when the copy still agrees with the entry. -/
def pollRemove (st : State) : EntryDup × State :=
  let (node, st) := removeNode st 0
  let copy := st.ht.timerDups node
  (copy, { st with ht := { st.ht with
    timerDups := Function.update st.ht.timerDups node { copy with grpLock := none } } })

def pollValid (copy : EntryDup) (entry : Entry) : Bool :=
  copy.dup.cb == entry.cb && copy.dup.userData == entry.userData

def pollFire (st : State) (copy : EntryDup) (now : TimeVal) : State :=
  if pollValid copy (st.entries copy.entry) ∧ (st.entries copy.entry).cb ≠ none then
    { st with log := st.log ++ [.fired copy.entry copy.timerValue now] }
  else st

def pollRelease (st : State) (copy : EntryDup) (valid : Bool) : State :=
  if valid then { st with grpRefs := decRef st.grpRefs copy.grpLock } else st

/- The callback's own calls run only when the callback runs. -/
def pollCallback (st : State) (copy : EntryDup) (calls : List Call) : List Call :=
  if pollValid copy (st.entries copy.entry) ∧ (st.entries copy.entry).cb ≠ none then calls else []

/- The loop ends at `max_entries_per_poll` rounds at the latest; `fuel` is what is
left of them. -/
def pollLoop : Nat → TimeVal → List (List Call) → State → Nat → TimeVal → List State →
    State × Nat × List State
  | 0, _, _, st, count, _, visited => (st, count, visited)
  | fuel + 1, now, callbacks, st, count, minTimeNode, visited =>
    if st.ht.curSize ≠ 0 ∧ timeValLte minTimeNode now = true then
      let (copy, st) := pollRemove st
      let valid := pollValid copy (st.entries copy.entry)
      let calls := pollCallback st copy (callbacks.headD [])
      let fired := pollFire st copy now
      let states := calls.scanl runCall fired
      let st := pollRelease (calls.foldl runCall fired) copy valid
      let minTimeNode := if st.ht.curSize ≠ 0 then slotValue st.ht 0 else minTimeNode
      pollLoop fuel now callbacks.tail st (count + 1) minTimeNode (visited ++ states)
    else (st, count, visited)

def pollNextDelay (ht : TimerHeap) (now : TimeVal) : TimeVal :=
  if ht.curSize ≠ 0 then
    let delay := timeValSub (slotValue ht 0) now
    if delay.sec < 0 ∨ delay.msec < 0 then ⟨0,0⟩ else delay
  else ⟨maxInt32,maxInt32⟩

def timerHeapPoll (st : State) (a : PollArgs) : PollResult :=
  if st.ht.curSize = 0 ∧ a.wantDelay then ⟨st,0,some ⟨maxInt32,maxInt32⟩,[]⟩
  else
    let minTimeNode := if st.ht.curSize ≠ 0 then slotValue st.ht 0 else ⟨0,0⟩
    let (st, count, visited) :=
      pollLoop st.ht.maxEntriesPerPoll a.now.time a.callbacks st 0 minTimeNode []
    ⟨st,count,if a.wantDelay then some (pollNextDelay st.ht a.now.time) else none,visited⟩

inductive Op where
  | call (call : Call)
  | poll (args : PollArgs)

def runOp (st : State) : Op → State
  | .call call => runCall st call
  | .poll args => (timerHeapPoll st args).st

def run (st : State) (ops : List Op) : State := ops.foldl runOp st

/- Every state an operation passes through, the one it ends in last. -/
def opStates (st : State) : Op → List State
  | .call call => [runCall st call]
  | .poll args => (timerHeapPoll st args).visited ++ [(timerHeapPoll st args).st]

def runStates : State → List Op → List State
  | _, [] => []
  | st, op :: ops => opStates st op ++ runStates (runOp st op) ops

def defaultMaxTimedOutPerPoll : Nat := 64

/- What the memory handed to pj_timer_heap_create holds before it is written. -/
structure RawMemory where
  heap : Nat → Int
  timerIds : Int → Int
  timerDups : Int → EntryDup

def timerHeapCreate (raw : RawMemory) (size : Nat) : TimerHeap :=
  let size := size + 2
  { maxSize := size, curSize := 0, maxEntriesPerPoll := defaultMaxTimedOutPerPoll
    timerIdsFreelist := 1
    heap := fun i => if i < size then 0 else raw.heap i
    timerDups := raw.timerDups
    timerIds := fun i => if 0 ≤ i ∧ i < size then -(i + 1) else raw.timerIds i }

def timerHeapSetMaxTimedOutPerPoll (ht : TimerHeap) (count : Nat) : TimerHeap :=
  { ht with maxEntriesPerPoll := count }

def timerEntryInit (id : Int) (userData : Nat) (cb : Nat) : Entry := ⟨userData,id,some cb,-1⟩

end Pjproject.Timer
