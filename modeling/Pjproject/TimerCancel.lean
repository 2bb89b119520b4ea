import Pjproject.TimerRun

/-! Cancelling: what a cancel does to the heap, and which elements of the three arrays it touches on the way.
cancel_timer looks at the copy of the entry's id before cancel has checked that id. -/
namespace Pjproject.Timer
open Time Lib.BinaryHeap Lib.FreeList

/- An element of one of the arrays, read or written. -/
inductive Access where
  | heap (slot : Nat)
  | ids (id : Int)
  | dups (id : Int)
  deriving DecidableEq, Repr

def Access.Inside (maxSize : Nat) : Access → Prop
  | .heap slot => slot < maxSize
  | .ids id => 0 ≤ id ∧ id < maxSize
  | .dups id => 0 ≤ id ∧ id < maxSize

instance (maxSize : Nat) (access : Access) : Decidable (access.Inside maxSize) := by
  cases access <;> unfold Access.Inside <;> infer_instance

def AllInside (maxSize : Nat) (accesses : List Access) : Prop := ∀ access ∈ accesses, access.Inside maxSize

/- ht->heap[slot]->_timer_value. -/
def slotValueAccesses (ht : TimerHeap) (slot : Nat) : List Access := [.heap slot,.dups (ht.heap slot)]

def copyNodeAccesses (ht : TimerHeap) (slot : Nat) (movedNode : Int) : List Access :=
  [.heap slot,.dups movedNode,.ids (ht.timerDups movedNode).dup.timerId]

/- The functions below follow those of the heap and list what they touch. -/
def reheapDownAccesses : Nat → TimerHeap → Int → Nat → Nat → List Access
  | 0, ht, movedNode, slot, _ => copyNodeAccesses ht slot movedNode
  | fuel + 1, ht, movedNode, slot, child =>
    if child < ht.curSize then
      (if child + 1 < ht.curSize then slotValueAccesses ht (child + 1) ++ slotValueAccesses ht child else []) ++
      slotValueAccesses ht (smallerChild ht child) ++ [.dups movedNode] ++
      if timeValLt (slotValue ht (smallerChild ht child)) (nodeValue ht movedNode) = true then
        copyNodeAccesses ht slot (ht.heap (smallerChild ht child)) ++
          reheapDownAccesses fuel (copyNode ht slot (ht.heap (smallerChild ht child))) movedNode
            (smallerChild ht child) (heapLeft (smallerChild ht child))
      else copyNodeAccesses ht slot movedNode
    else copyNodeAccesses ht slot movedNode

def reheapUpAccesses : Nat → TimerHeap → Int → Nat → Nat → List Access
  | 0, ht, movedNode, slot, _ => copyNodeAccesses ht slot movedNode
  | fuel + 1, ht, movedNode, slot, parent =>
    if slot > 0 then
      .dups movedNode :: slotValueAccesses ht parent ++
      if timeValLt (nodeValue ht movedNode) (slotValue ht parent) = true then
        copyNodeAccesses ht slot (ht.heap parent) ++
          reheapUpAccesses fuel (copyNode ht slot (ht.heap parent)) movedNode parent (heapParent parent)
      else copyNodeAccesses ht slot movedNode
    else copyNodeAccesses ht slot movedNode

def reheapRemovedAccesses (ht : TimerHeap) (slot : Nat) : List Access :=
  if slot < ht.curSize then
    let movedNode := ht.heap ht.curSize
    let moved := copyNode ht slot movedNode
    let parent := heapParent slot
    .heap ht.curSize :: copyNodeAccesses ht slot movedNode ++ .dups movedNode :: slotValueAccesses moved parent ++
    if timeValGte (nodeValue moved movedNode) (slotValue moved parent) = true then
      reheapDownAccesses moved.curSize moved movedNode slot (heapLeft slot)
    else reheapUpAccesses slot moved movedNode slot parent
  else []

def removeNodeAccesses (st : State) (slot : Nat) : List Access :=
  let removedNode := st.ht.heap slot
  [.heap slot,.dups removedNode,.ids (st.ht.timerDups removedNode).dup.timerId] ++
    reheapRemovedAccesses (unlinked st.ht slot) slot

def cancelAccesses (st : State) (entry : EntryPtr) : List Access :=
  let timerId := (st.entries entry).timerId
  if timerId < 0 ∨ timerId > st.ht.maxSize then []
  else
    let timerNodeSlot := st.ht.timerIds timerId
    if timerNodeSlot < 0 then [.ids timerId]
    else if entry ≠ (st.ht.timerDups (st.ht.heap timerNodeSlot.toNat)).entry then
      .ids timerId :: slotValueAccesses st.ht timerNodeSlot.toNat
    else
      .ids timerId :: slotValueAccesses st.ht timerNodeSlot.toNat ++ removeNodeAccesses st timerNodeSlot.toNat

def cancelTimerAccesses (st : State) (entry : EntryPtr) : List Access :=
  .dups (st.entries entry).timerId :: cancelAccesses st entry

section Loops
variable {items : Int → Prop} {maxSize size : Nat}

/- What the loops need to know for staying inside the arrays; their order does not matter. -/
structure Opening (items : Int → Prop) (maxSize size : Nat) (ht : TimerHeap) (slot : Nat) (node : Int) : Prop where
  open_ : Hole (table ht) size items slot node
  labelled : Labelled ht items
  range : ∀ k, items k → 0 ≤ k ∧ k < maxSize
  fits : size ≤ maxSize

variable {ht : TimerHeap} {slot : Nat} {node : Int}

theorem Opening.copy {q : Nat} (opening : Opening items maxSize size ht slot node)
    (inside : q < size) (other : q ≠ slot) : Opening items maxSize size (copyNode ht slot (ht.heap q)) q node := by
  have member : items (ht.heap q) := opening.open_.sound q inside other
  refine ⟨?_,(copyNodeFramed opening.labelled member).labelled opening.labelled,opening.range,opening.fits⟩
  rw [copyNodeTable opening.labelled member]
  exact opening.open_.copy inside other

theorem AllInside.append {accesses more : List Access} (left : AllInside maxSize accesses)
    (right : AllInside maxSize more) : AllInside maxSize (accesses ++ more) := by
  intro access mem
  rcases List.mem_append.mp mem with first | second
  · exact left access first
  · exact right access second

theorem AllInside.cons {access : Access} {more : List Access} (first : access.Inside maxSize)
    (rest : AllInside maxSize more) : AllInside maxSize (access :: more) := by
  intro other mem
  rcases List.mem_cons.mp mem with rfl | later
  · exact first
  · exact rest other later

theorem AllInside.nil : AllInside maxSize [] := fun _ mem => nomatch mem

theorem Opening.copyInside {k : Int} (opening : Opening items maxSize size ht slot node) (member : items k) :
    AllInside maxSize (copyNodeAccesses ht slot k) := by
  have range := opening.range k member
  have inside := opening.open_.inside
  have fits := opening.fits
  refine .cons (show slot < maxSize by omega) (.cons range (.cons ?_ .nil))
  rw [opening.labelled k member]
  exact range

theorem Opening.valueInside {q : Nat}
    (opening : Opening items maxSize size ht slot node) (inside : q < size) (other : q ≠ slot) :
    AllInside maxSize (slotValueAccesses ht q) := by
  have fits := opening.fits
  exact .cons (show q < maxSize by omega) (.cons (opening.range _ (opening.open_.sound q inside other)) .nil)

theorem reheapUpInside (fuel : Nat) (opening : Opening items maxSize size ht slot node) :
    AllInside maxSize (reheapUpAccesses fuel ht node slot (heapParent slot)) := by
  induction fuel generalizing ht slot with
  | zero => exact opening.copyInside opening.open_.moved
  | succ fuel ih =>
    have inside := opening.open_.inside
    unfold reheapUpAccesses
    split
    · next positive =>
      have up : heapParent slot < slot := by
        rw [heapParentEq]
        exact parentLt positive
      refine .append (.cons (opening.range _ opening.open_.moved) (opening.valueInside (by omega) (by omega))) ?_
      split
      · exact .append (opening.copyInside (opening.open_.sound _ (by omega) (by omega)))
          (ih (opening.copy (by omega) (by omega)))
      · exact opening.copyInside opening.open_.moved
    · exact opening.copyInside opening.open_.moved

theorem reheapDownInside (fuel : Nat) (opening : Opening items maxSize ht.curSize ht slot node) :
    AllInside maxSize (reheapDownAccesses fuel ht node slot (heapLeft slot)) := by
  induction fuel generalizing ht slot with
  | zero => exact opening.copyInside opening.open_.moved
  | succ fuel ih =>
    unfold reheapDownAccesses
    split
    · next inside =>
      obtain ⟨-,later,bound,-⟩ := smallerChildSpec inside
      have below : slot < heapLeft slot := by
        unfold heapLeft
        omega
      refine .append (.append (.append ?_ (opening.valueInside bound (by omega)))
        (.cons (opening.range _ opening.open_.moved) .nil)) ?_
      · split
        · exact .append (opening.valueInside (by omega) (by omega)) (opening.valueInside inside (by omega))
        · exact .nil
      · split
        · exact .append (opening.copyInside (opening.open_.sound _ bound (by omega)))
            (@ih (copyNode ht slot (ht.heap (smallerChild ht (heapLeft slot)))) _ (opening.copy bound (by omega)))
        · exact opening.copyInside opening.open_.moved
    · exact opening.copyInside opening.open_.moved

end Loops

theorem reheapRemovedInside {items : Int → Prop} {maxSize : Nat} {ht : TimerHeap} {slot : Nat}
    (hole : slot < ht.curSize → Hole (table ht) ht.curSize items slot (ht.heap ht.curSize))
    (labelled : Labelled ht items) (range : ∀ k, items k → 0 ≤ k ∧ k < maxSize) (fits : ht.curSize < maxSize) :
    AllInside maxSize (reheapRemovedAccesses ht slot) := by
  unfold reheapRemovedAccesses
  split
  · next inner =>
    generalize nodeDef : ht.heap ht.curSize = node
    have open_ := hole inner
    rw [nodeDef] at open_
    have opening : Opening items maxSize ht.curSize (copyNode ht slot node) slot node := by
      refine ⟨?_,(copyNodeFramed labelled open_.moved).labelled labelled,range,Nat.le_of_lt fits⟩
      rw [copyNodeTable labelled open_.moved]
      exact open_.store
    have moved := range node open_.moved
    have before : AllInside maxSize (copyNodeAccesses ht slot node) :=
      Opening.copyInside ⟨open_,labelled,range,Nat.le_of_lt fits⟩ open_.moved
    have parentInside : AllInside maxSize (slotValueAccesses (copyNode ht slot node) (heapParent slot)) := by
      rcases Nat.eq_zero_or_pos slot with rfl | positive
      · -- the root is its own parent, and holds the moved node already
        have root : (copyNode ht 0 node).heap 0 = node := by simp [copyNode]
        refine .cons (show 0 < maxSize by omega) (.cons ?_ .nil)
        show 0 ≤ (copyNode ht 0 node).heap 0 ∧ (copyNode ht 0 node).heap 0 < maxSize
        rw [root]
        exact moved
      · have up : heapParent slot < slot := by
          rw [heapParentEq]
          exact parentLt positive
        exact opening.valueInside (by omega) (by omega)
    dsimp only
    refine .append (.cons fits (.append before (.cons moved parentInside))) ?_
    split
    · exact reheapDownInside _ opening
    · exact reheapUpInside _ opening
  · exact .nil

variable {st : State} {e : EntryPtr}

theorem removeNodeInside (inv : HeapInv st.ht) {slot : Nat} (inside : slot < st.ht.curSize) :
    AllInside st.ht.maxSize (removeNodeAccesses st slot) := by
  have room := inv.room
  have range := inv.range (st.ht.heap slot) ⟨slot,inside,rfl⟩
  have label := inv.labelled (st.ht.heap slot) ⟨slot,inside,rfl⟩
  have first : AllInside st.ht.maxSize
      [.heap slot,.dups (st.ht.heap slot),.ids (st.ht.timerDups (st.ht.heap slot)).dup.timerId] := by
    refine .cons (show slot < st.ht.maxSize by omega) (.cons ⟨by omega,range.2⟩ (.cons ?_ .nil))
    rw [label]
    exact ⟨by omega,range.2⟩
  refine .append first (reheapRemovedInside (unlinkedHole inv inside).1 (unlinkedLabelled inv slot) ?_ ?_)
  · intro k hk
    have known := inv.range k hk.1
    omega
  · show st.ht.curSize - 1 < st.ht.maxSize
    omega

/- An entry that one of the heap's slots stands for. -/
def Pending (ht : TimerHeap) (entry : EntryPtr) : Prop :=
  ∃ slot, slot < ht.curSize ∧ (ht.timerDups (ht.heap slot)).entry = entry

theorem pendingRunning (inv : Inv st) (entry : EntryPtr) :
    Pending st.ht entry ↔ 1 ≤ (st.entries entry).timerId := by
  constructor
  · rintro ⟨slot,inside,rfl⟩
    have owner := inv.link.owner _ ⟨slot,inside,rfl⟩
    have range := inv.heap.range _ ⟨slot,inside,rfl⟩
    omega
  · intro up
    obtain ⟨⟨slot,inside,found⟩,owned⟩ := inv.link.running entry up
    exact ⟨slot,inside,by rw [found,owned]⟩

theorem cancelTimerInside (inv : Inv st) {entry : EntryPtr}
    (settled : (st.entries entry).timerId = -1 ∨ 1 ≤ (st.entries entry).timerId) :
    AllInside st.ht.maxSize (cancelTimerAccesses st entry) ↔ Pending st.ht entry := by
  rw [pendingRunning inv]
  constructor
  · intro inside
    have first := inside (.dups (st.entries entry).timerId) List.mem_cons_self
    rcases settled with none_ | up
    · rw [none_] at first
      exact absurd first.1 (by decide)
    · exact up
  · intro up
    obtain ⟨⟨slot,inside,found⟩,owned⟩ := inv.link.running entry up
    have range := inv.heap.range _ ⟨slot,inside,found⟩
    have room := inv.heap.room
    have position : st.ht.timerIds (st.entries entry).timerId = slot := by
      rw [← found]
      exact inv.heap.placed.position slot inside
    have id : 0 ≤ (st.entries entry).timerId ∧ (st.entries entry).timerId < st.ht.maxSize := by omega
    refine .cons id ?_
    unfold cancelAccesses
    dsimp only
    rw [if_neg (by omega),position,if_neg (by omega),Int.toNat_natCast,found,if_neg (by simp [owned])]
    refine .cons id (.append ?_ (removeNodeInside inv.heap inside))
    refine .cons (show slot < st.ht.maxSize by omega) (.cons ?_ .nil)
    rw [found]
    exact id

/- What the calls, the removals of poll and changes outside the heap keep is kept in every state of a run. -/
structure Kept (keeps : State → Prop) : Prop where
  call : ∀ st call, Inv st → Call.granted call → keeps st → keeps (runCall st call)
  remove : ∀ st, Inv st → st.ht.curSize ≠ 0 → keeps st → keeps (pollRemove st).2
  outside : ∀ st refs log, keeps st → keeps { st with grpRefs := refs, log := log }

section Runs
variable {keeps : State → Prop}

variable {st : State}

theorem Kept.calls (kept : Kept keeps) {calls : List Call} (granted : ∀ call ∈ calls, call.granted)
    (inv : Inv st) (holds : keeps st) :
    keeps (calls.foldl runCall st) ∧ ∀ s ∈ calls.scanl runCall st, keeps s := by
  induction calls generalizing st with
  | nil => exact ⟨holds,by simpa using holds⟩
  | cons call calls ih =>
    have head := granted call List.mem_cons_self
    obtain ⟨_,serves,_⟩ := runCallServes inv head
    obtain ⟨last,states⟩ := ih (fun c mem => granted c (List.mem_cons_of_mem _ mem)) serves.inv
      (kept.call st call inv head holds)
    refine ⟨last,fun s mem => ?_⟩
    rw [List.scanl_cons,List.mem_cons] at mem
    rcases mem with rfl | later
    · exact holds
    · exact states s later

theorem Kept.loop (kept : Kept keeps) (fuel count : Nat) (visited : List State) {now : TimeVal}
    {callbacks : List (List Call)} {minTimeNode : TimeVal} (inv : Inv st)
    (granted : ∀ calls ∈ callbacks, ∀ call ∈ calls, Call.granted call) (holds : keeps st)
    (good : ∀ s ∈ visited, keeps s) : keeps (pollLoop fuel now callbacks st count minTimeNode visited).1 ∧
      ∀ s ∈ (pollLoop fuel now callbacks st count minTimeNode visited).2.2, keeps s := by
  induction fuel generalizing callbacks st count minTimeNode visited with
  | zero => exact ⟨holds,good⟩
  | succ fuel ih =>
    unfold pollLoop
    split
    · next go =>
      have popped := pollRemovePopped inv go.1
      have removed := kept.remove st inv go.1 holds
      generalize pollRemove st = pair at popped removed
      obtain ⟨copy,mid⟩ := pair
      dsimp only at popped removed ⊢
      rw [popped.calls,popped.valid]
      have fired : keeps (pollFire mid copy now) ∧ Inv (pollFire mid copy now) := by
        rw [popped.fire]
        exact ⟨kept.outside mid mid.grpRefs _ removed,popped.inv.heap,popped.inv.link⟩
      have head : ∀ call ∈ callbacks.headD [], Call.granted call := by
        cases callbacks with
        | nil => exact fun call mem => by cases mem
        | cons calls => exact granted calls List.mem_cons_self
      obtain ⟨_,served,_⟩ := runCallsServe head fired.2
      obtain ⟨last,states⟩ := kept.calls head fired.2 fired.1
      refine ih (count + 1) _ ⟨served.inv.heap,served.inv.link⟩ ?_ (kept.outside _ _ _ last) ?_
      · exact fun calls mem => granted calls (List.mem_of_mem_tail mem)
      · intro s mem
        rcases List.mem_append.mp mem with old | new
        · exact good s old
        · exact states s new
    · exact ⟨holds,good⟩

theorem Kept.op (kept : Kept keeps) (inv : Inv st) {op : Op} (granted : op.granted) (holds : keeps st) :
    keeps (runOp st op) ∧ ∀ s ∈ opStates st op, keeps s := by
  cases op with
  | call call =>
    have next := kept.call st call inv granted holds
    exact ⟨next,fun s mem => List.mem_singleton.mp mem ▸ next⟩
  | poll args =>
    have looped : keeps (timerHeapPoll st args).st ∧ ∀ s ∈ (timerHeapPoll st args).visited, keeps s := by
      unfold timerHeapPoll
      split
      · exact ⟨holds,fun s mem => nomatch mem⟩
      · exact kept.loop _ 0 [] inv granted holds (fun s mem => nomatch mem)
    refine ⟨looped.1,fun s mem => ?_⟩
    rcases List.mem_append.mp mem with inner | last
    · exact looped.2 s inner
    · exact List.mem_singleton.mp last ▸ looped.1

theorem Kept.run (kept : Kept keeps) {ops : List Op} (granted : ∀ op ∈ ops, op.granted) (inv : Inv st)
    (holds : keeps st) : ∀ s ∈ st :: runStates st ops, keeps s := by
  induction ops generalizing st with
  | nil => exact fun s mem => List.mem_singleton.mp mem ▸ holds
  | cons op ops ih =>
    have head := granted op List.mem_cons_self
    obtain ⟨next,states⟩ := kept.op inv head holds
    obtain ⟨_,serves⟩ := runOpServes inv head
    have rest := ih (fun o mem => granted o (List.mem_cons_of_mem _ mem)) serves.inv next
    intro s mem
    rcases List.mem_cons.mp mem with rfl | inner
    · exact holds
    · rcases List.mem_append.mp inner with here | later
      · exact states s here
      · exact rest s (List.mem_cons_of_mem _ later)

end Runs

/- The id of an entry is -1 or that of a copy. -/
def Settled (st : State) : Prop := ∀ e, (st.entries e).timerId = -1 ∨ 1 ≤ (st.entries e).timerId

theorem Settled.update {st' : State} (settled : Settled st) (e : EntryPtr)
    (others : ∀ d, d ≠ e → (st'.entries d).timerId = (st.entries d).timerId)
    (mine : (st'.entries e).timerId = -1 ∨ 1 ≤ (st'.entries e).timerId) : Settled st' := by
  intro d
  by_cases same : d = e
  · rw [same]
    exact mine
  · rw [others d same]
    exact settled d

theorem cancelTimerRunning (inv : Inv st) (up : 1 ≤ (st.entries e).timerId) (setId : Option Int) :
    (cancelTimer st e setId).1 = 1 ∧ Removed st.ht (cancelTimer st e setId).2.ht (st.entries e).timerId ∧
      (∀ d, d ≠ e → (cancelTimer st e setId).2.entries d = st.entries d) ∧
      ((cancelTimer st e setId).2.entries e).timerId = -1 := by
  obtain ⟨slot,inside,owned,result⟩ := cancelRunning inv up
  obtain ⟨_,removed⟩ := removeNodeSpec inv inside
  have node : st.ht.heap slot = (st.entries e).timerId := by
    rw [← owned]
    exact (inv.link.owner _ ⟨slot,inside,rfl⟩).symm
  unfold cancelTimer
  dsimp only
  rw [result]
  have gone := removed.gone
  rw [node] at gone
  refine ⟨rfl,gone,fun d other => ?_,?_⟩
  · show Function.update _ e _ d = _
    rw [Function.update_of_ne other,removed.entries,owned,Function.update_of_ne other]
  · have last : ((removeNode st slot).2.entries e).timerId = -1 := by
      rw [removed.entries,owned,Function.update_self]
    exact (congrArg Entry.timerId (Function.update_self e _ (removeNode st slot).2.entries)).trans last

theorem cancelTimerIdle (inv : Inv st) (idle : (st.entries e).timerId < 1) (setId : Option Int) :
    cancelTimer st e setId =
      (0, { st with entries := Function.update st.entries e { st.entries e with timerId := -1 } }) := by
  unfold cancelTimer
  dsimp only
  rw [cancelIdle inv idle]

theorem cancelTimerSettled (inv : Inv st) (settled : Settled st) (e : EntryPtr) (setId : Option Int) :
    Settled (cancelTimer st e setId).2 := by
  by_cases up : 1 ≤ (st.entries e).timerId
  · obtain ⟨-,-,others,mine⟩ := cancelTimerRunning inv up setId
    exact settled.update e (fun d other => by rw [others d other]) (.inl mine)
  · rw [cancelTimerIdle inv (by omega) setId]
    refine settled.update e (fun d other => ?_) (.inl ?_)
    · exact congrArg Entry.timerId (Function.update_of_ne other _ _)
    · exact congrArg Entry.timerId (Function.update_self e _ st.entries)

theorem scheduleSettled (inv : Inv st) {a : ScheduleArgs} (granted : a.pool.granted)
    (settled : Settled st) : Settled (scheduleWGrpLock st a).2 := by
  unfold scheduleWGrpLock
  split
  · exact settled
  dsimp only
  split
  · exact settled
  have normal : Normal (timeValAdd a.tick.time a.delay) := normalizeNormal _
  obtain ⟨x,mid,result,-,positive,-,entries,-⟩ := @scheduleEntryGranted a.pool _ granted st inv a.entry normal
  rw [result]
  refine settled.update a.entry (fun d other => ?_) (.inr ?_)
  · refine (congrArg Entry.timerId (Function.update_of_ne other _ mid.entries)).trans ?_
    rw [entries,Function.update_of_ne other]
  · have label : (mid.entries a.entry).timerId = x := by rw [entries,Function.update_self]
    refine le_of_le_of_eq positive (Eq.symm ?_)
    exact (congrArg Entry.timerId (Function.update_self a.entry _ mid.entries)).trans label

theorem settledKept : Kept Settled where
  call st call inv granted settled := by
    cases call with
    | schedule => exact scheduleSettled inv granted settled
    | cancel e => exact cancelTimerSettled inv settled e none
    | cancelIfActive e idVal => exact cancelTimerSettled inv settled e (some idVal)
  remove st inv nonempty settled := by
    obtain ⟨-,removed⟩ := @removeNodeSpec 0 st inv (by omega)
    have entries : (pollRemove st).2.entries = (removeNode st 0).2.entries := rfl
    refine settled.update (st.ht.timerDups (st.ht.heap 0)).entry (fun d other => ?_) (.inl ?_)
    · rw [entries,removed.entries,Function.update_of_ne other]
    · rw [entries,removed.entries,Function.update_self]
  outside st refs log settled := settled

/- A copy that one of the heap's slots points to: the expiry, the callback and the id it will fire with. -/
def InHeap (ht : TimerHeap) (copy : EntryDup) : Prop :=
  ∃ slot, slot < ht.curSize ∧ ht.timerDups (ht.heap slot) = copy

structure CancelsExactly (st : State) (entry : EntryPtr) (count : Nat) (after : State) : Prop where
  pending : Pending st.ht entry → count = 1 ∧ after.ht.curSize + 1 = st.ht.curSize ∧
    (∀ copy, InHeap after.ht copy ↔ InHeap st.ht copy ∧ copy.entry ≠ entry) ∧
    (after.entries entry).timerId = -1 ∧ ∀ other, other ≠ entry → after.entries other = st.entries other
  idle : ¬ Pending st.ht entry → count = 0 ∧ after = st

theorem removedInHeap (inv : Inv st) {ht : TimerHeap} (up : 1 ≤ (st.entries e).timerId)
    (removed : Removed st.ht ht (st.entries e).timerId) (copy : EntryDup) :
    InHeap ht copy ↔ InHeap st.ht copy ∧ copy.entry ≠ e := by
  obtain ⟨-,owned⟩ := inv.link.running e up
  constructor
  · rintro ⟨slot,inside,rfl⟩
    obtain ⟨⟨before,place,found⟩,other⟩ := (removed.held (ht.heap slot)).mp ⟨slot,inside,rfl⟩
    rw [removed.dups,Function.update_of_ne other]
    refine ⟨⟨before,place,by rw [found]⟩,fun mine => other ?_⟩
    rw [← inv.link.owner (ht.heap slot) ⟨before,place,found⟩,mine]
  · rintro ⟨⟨slot,inside,rfl⟩,other⟩
    have apart : st.ht.heap slot ≠ (st.entries e).timerId := fun same => other (by rw [same,owned])
    obtain ⟨after,place,found⟩ := (removed.held (st.ht.heap slot)).mpr ⟨⟨slot,inside,rfl⟩,apart⟩
    exact ⟨after,place,by rw [found,removed.dups,Function.update_of_ne apart]⟩

theorem cancelExact (inv : Inv st) (settled : Settled st) (e : EntryPtr) :
    CancelsExactly st e (timerHeapCancel st e).1 (timerHeapCancel st e).2 := by
  refine ⟨fun pending => ?_,fun idle => ?_⟩ <;> rw [pendingRunning inv] at *
  · obtain ⟨count,removed,others,mine⟩ := cancelTimerRunning inv pending none
    exact ⟨count,removed.curSize,removedInHeap inv pending removed,mine,others⟩
  · have none_ : (st.entries e).timerId = -1 := (settled e).resolve_right idle
    have same : Function.update st.entries e { st.entries e with timerId := -1 } = st.entries := by
      rw [← none_]
      exact Function.update_eq_self e st.entries
    unfold timerHeapCancel
    rw [cancelTimerIdle inv (by omega) none,same]
    exact ⟨rfl,rfl⟩

/- In every state of a run, inside its polls too: a cancel does what it should for every entry, and stays inside
the arrays exactly for the pending ones. -/
theorem runsCancelExactly (s : Setup) (ops : List Op) (granted : ∀ op ∈ ops, op.granted) :
    ∀ st ∈ s.start :: runStates s.start ops, ∀ e,
      CancelsExactly st e (timerHeapCancel st e).1 (timerHeapCancel st e).2 ∧
        (AllInside st.ht.maxSize (cancelTimerAccesses st e) ↔ Pending st.ht e) := by
  intro st mem e
  have settled : Settled st := settledKept.run granted (startInv s) (fun d => .inl rfl) st mem
  have inv : Inv st := by
    rcases List.mem_cons.mp mem with rfl | later
    · exact startInv s
    · exact runStatesInv granted (startInv s) st later
  exact ⟨cancelExact inv settled e,cancelTimerInside inv (settled e)⟩

/- The later of two timers, in a heap that has grown since it was scheduled. -/
def twoTimers : State := run (zeroSetup 0).start [scheduleAt 1 10 true,scheduleAt 2 5 true]

theorem grownTimerCancelled :
    CancelsExactly twoTimers 1 (timerHeapCancel twoTimers 1).1 (timerHeapCancel twoTimers 1).2 ∧
      (AllInside twoTimers.ht.maxSize (cancelTimerAccesses twoTimers 1) ↔ Pending twoTimers.ht 1) :=
  runsCancelExactly (zeroSetup 0) [scheduleAt 1 10 true,scheduleAt 2 5 true]
    (by simp [scheduleAt,scheduleArgs,Op.granted,Call.granted,PoolReply.granted])
    twoTimers (by simp [twoTimers,runStates,opStates,run,runOp,scheduleAt]) 1

/- An initialised entry that was never scheduled has the id -1, and its copy is looked up before that is checked. -/
theorem idleEntryLeavesArrays :
    ¬ ∀ (s : Setup) (ops : List Op) (e : EntryPtr),
      AllInside (run s.start ops).ht.maxSize (cancelTimerAccesses (run s.start ops) e) := by
  intro all
  have first := all (zeroSetup 1) [] 1 (.dups (-1)) List.mem_cons_self
  exact absurd first.1 (by decide)

end Pjproject.Timer
