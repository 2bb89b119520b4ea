import Pjproject.TimerReheap
import Pjproject.Lib.FreeList

/-! The representation invariant of the timer heap, and what every function of
pj/timer.c does to it. The invariant ties the heap, the id table, the copies and the
free list to each other, and the copies to the application's entries. -/
namespace Pjproject.Timer
open Time Lib.BinaryHeap Lib.FreeList

/- The ids of the copies that the first cur_size slots point to. -/
def Held (ht : TimerHeap) (k : Int) : Prop := ∃ i, i < ht.curSize ∧ ht.heap i = k

def nextFree (ht : TimerHeap) (k : Int) : Int := -ht.timerIds k

structure FreeIds (ht : TimerHeap) (used : Int → Prop) (chain : List Int) : Prop where
  walk : Chain (nextFree ht) ht.maxSize ht.timerIdsFreelist chain
  nodup : chain.Nodup
  members : ∀ k, k ∈ chain ↔ 1 ≤ k ∧ k < ht.maxSize ∧ ¬ used k

structure HeapInv (ht : TimerHeap) : Prop where
  placed : Placed (table ht) ht.curSize (Held ht)
  ordered : Ordered (slotValue ht) ht.curSize
  labelled : Labelled ht (Held ht)
  range : ∀ k, Held ht k → 1 ≤ k ∧ k < ht.maxSize
  free : ∃ chain, FreeIds ht (Held ht) chain ∧ chain.length + ht.curSize + 1 = ht.maxSize
  room : ht.curSize + 2 ≤ ht.maxSize
  zero : ht.timerIds 0 < 0
  normal : ∀ k, Held ht k → Normal (nodeValue ht k)

/- The copies in use belong to running entries, which have not been modified since,
and every running entry has one. -/
structure LinkInv (ht : TimerHeap) (entries : EntryPtr → Entry) : Prop where
  owner : ∀ k, Held ht k → (entries (ht.timerDups k).entry).timerId = k
  copied : ∀ k, Held ht k → (ht.timerDups k).dup.cb = (entries (ht.timerDups k).entry).cb ∧
    (ht.timerDups k).dup.userData = (entries (ht.timerDups k).entry).userData ∧
    (entries (ht.timerDups k).entry).cb ≠ none
  running : ∀ e, 1 ≤ (entries e).timerId →
    Held ht (entries e).timerId ∧ (ht.timerDups (entries e).timerId).entry = e

structure Inv (st : State) : Prop where
  heap : HeapInv st.ht
  link : LinkInv st.ht st.entries

variable {ht : TimerHeap} {slot : Nat} {st : State}

theorem heldOfPlaced {items} (placed : Placed (table ht) ht.curSize items) (k : Int) : Held ht k ↔ items k := by
  constructor
  · rintro ⟨i,hi,rfl⟩
    exact placed.sound i hi
  · intro hk
    exact placed.complete k hk

theorem placedOfHeld {items} (placed : Placed (table ht) ht.curSize items) :
    Placed (table ht) ht.curSize (Held ht) where
  position := placed.position
  sound i hi := ⟨i,hi,rfl⟩
  complete _ hk := hk

/- The invariant of a heap that a reheap has just finished, from the free list of the
heap it started with. insert_node counts the new node only afterwards, so the size
is set here. -/
theorem Reheaped.inv {items size ht ht' chain} (done : Reheaped items size ht ht')
    (labelled : Labelled ht items) (range : ∀ k, items k → 1 ≤ k ∧ k < ht.maxSize)
    (free : FreeIds ht items chain) (count : chain.length + size + 1 = ht.maxSize)
    (room : size + 2 ≤ ht.maxSize) (zero : ht.timerIds 0 < 0) (normal : ∀ k, items k → Normal (nodeValue ht k)) :
    HeapInv { ht' with curSize := size } ∧ ∀ k, Held { ht' with curSize := size } k ↔ items k := by
  have frame := done.framed
  let last : TimerHeap := { ht' with curSize := size }
  have placed : Placed (table last) last.curSize items := done.placed
  have same := heldOfPlaced placed
  refine ⟨?_,same⟩
  refine ⟨placedOfHeld placed,done.ordered,?_,?_,?_,?_,?_,?_⟩
  · intro k hk
    exact frame.labelled labelled k ((same k).mp hk)
  · intro k hk
    simp only [frame.maxSize]
    exact range k ((same k).mp hk)
  · refine ⟨chain,⟨?_,free.nodup,?_⟩,by simp only [frame.maxSize]; exact count⟩
    · simp only [frame.maxSize,frame.freelist]
      refine free.walk.congr fun k mem => ?_
      simp only [nextFree]
      rw [frame.ids k ((free.members k).mp mem).2.2]
    · intro k
      rw [free.members k,same k]
      simp only [frame.maxSize]
  · simp only [frame.maxSize]
    exact room
  · simp only
    rw [frame.ids 0 (fun used => by have := range 0 used; omega)]
    exact zero
  · intro k hk
    rw [show nodeValue last k = nodeValue ht k from frame.value k]
    exact normal k ((same k).mp hk)

structure Removed (ht ht' : TimerHeap) (node : Int) : Prop where
  inv : HeapInv ht'
  held : ∀ k, Held ht' k ↔ Held ht k ∧ k ≠ node
  dups : ht'.timerDups = Function.update ht.timerDups node
    { ht.timerDups node with dup := { (ht.timerDups node).dup with timerId := -1 } }
  curSize : ht'.curSize + 1 = ht.curSize
  maxSize : ht'.maxSize = ht.maxSize
  perPoll : ht'.maxEntriesPerPoll = ht.maxEntriesPerPoll

/- The heap of remove_node when it comes to the reordering. -/
def unlinked (ht : TimerHeap) (slot : Nat) : TimerHeap :=
  let node := ht.heap slot
  { pushFreelist ht (ht.timerDups node).dup.timerId with
    curSize := ht.curSize - 1
    timerDups := Function.update ht.timerDups node
      { ht.timerDups node with dup := { (ht.timerDups node).dup with timerId := -1 } } }

theorem unlinkedLabelled (inv : HeapInv ht) (slot : Nat) :
    Labelled (unlinked ht slot) (fun k => Held ht k ∧ k ≠ ht.heap slot) := by
  intro k hk
  simp only [unlinked,Function.update_of_ne hk.2]
  exact inv.labelled k hk.1

theorem unlinkedHole (inv : HeapInv ht) (inside : slot < ht.curSize) : (slot < (unlinked ht slot).curSize →
      Hole (table (unlinked ht slot)) (unlinked ht slot).curSize (fun k => Held ht k ∧ k ≠ ht.heap slot) slot
        ((unlinked ht slot).heap (unlinked ht slot).curSize)) ∧ ((unlinked ht slot).curSize ≤ slot →
      Placed (table (unlinked ht slot)) (unlinked ht slot).curSize (fun k => Held ht k ∧ k ≠ ht.heap slot)) := by
  have size : ht.curSize - 1 + 1 = ht.curSize := by omega
  have placed : Placed (table ht) (ht.curSize - 1 + 1) (Held ht) := by
    rw [size]
    exact inv.placed
  have posSame : ∀ k, Held ht k ∧ k ≠ ht.heap slot → (table (unlinked ht slot)).pos k = (table ht).pos k := by
    intro k hk
    simp only [table,unlinked,pushFreelist,inv.labelled _ ⟨slot,inside,rfl⟩]
    exact Function.update_of_ne hk.2 _ _
  constructor
  · intro inner
    exact (placed.remove inner).congrPos posSame
  · intro outer
    have last : slot = ht.curSize - 1 := by
      simp only [unlinked] at outer
      omega
    have ends : (table ht).slot (ht.curSize - 1) = ht.heap slot := by
      rw [← last]
      rfl
    have whole := placed.removeLast
    rw [ends] at whole
    exact whole.congrPos posSame

theorem removeNodeHeap (inv : HeapInv st.ht) (inside : slot < st.ht.curSize) :
    (removeNode st slot).1 = st.ht.heap slot ∧
    Removed st.ht (removeNode st slot).2.ht (st.ht.heap slot) ∧
    (removeNode st slot).2.entries =
      Function.update st.entries (st.ht.timerDups (st.ht.heap slot)).entry
        { st.entries (st.ht.timerDups (st.ht.heap slot)).entry with timerId := -1 } ∧
    (removeNode st slot).2.log = st.log ∧ (removeNode st slot).2.grpRefs = st.grpRefs := by
  obtain ⟨ht,entries,refs,log⟩ := st
  simp only at inv inside ⊢
  refine ⟨rfl,?_,rfl,rfl,rfl⟩
  generalize nodeDef : ht.heap slot = node
  have member : Held ht node := ⟨slot,inside,nodeDef⟩
  have label := inv.labelled node member
  -- the heap after the id went back to the free list and before the reordering
  let mid : TimerHeap := { ht with
    timerIds := Function.update ht.timerIds node (-ht.timerIdsFreelist)
    timerIdsFreelist := node
    curSize := ht.curSize - 1
    timerDups := Function.update ht.timerDups node
      { ht.timerDups node with dup := { (ht.timerDups node).dup with timerId := -1 } } }
  have shape : (removeNode ⟨ht,entries,refs,log⟩ slot).2.ht = reheapRemoved mid slot := by
    simp only [removeNode,pushFreelist,nodeDef,label]
    rfl
  rw [shape]
  let items : Int → Prop := fun k => Held ht k ∧ k ≠ node
  have same : unlinked ht slot = mid := by
    simp only [unlinked,pushFreelist,nodeDef,label]
    rfl
  have valueSame : slotValue mid = slotValue ht := by
    funext i
    simp only [slotValue,nodeValue,mid]
    by_cases same : ht.heap i = node
    · rw [same,Function.update_self]
    · rw [Function.update_of_ne same]
  have nodeSame : ∀ k, nodeValue mid k = nodeValue ht k := by
    intro k
    simp only [nodeValue,mid]
    by_cases same : k = node
    · rw [same,Function.update_self]
    · rw [Function.update_of_ne same]
  have labelled : Labelled mid items := by
    have known := unlinkedLabelled inv slot
    rw [same,nodeDef] at known
    exact known
  have done : Reheaped items mid.curSize mid (reheapRemoved mid slot) := by
    obtain ⟨hole,whole⟩ := unlinkedHole inv inside
    rw [same,nodeDef] at hole whole
    refine reheapRemovedSpec hole whole labelled ?_
    rw [valueSame]
    exact inv.ordered.shrink (Nat.sub_le _ _)
  obtain ⟨chain,free,count⟩ := inv.free
  have used : node ∉ chain := fun mem => ((free.members node).mp mem).2.2 member
  have bounds := inv.range node member
  have free' : FreeIds mid items (node :: chain) := by
    refine ⟨?_,List.nodup_cons.mpr ⟨used,free.nodup⟩,?_⟩
    · have pushed := free.walk.push (y := node) (by omega) used
      refine pushed.congr fun k mem => ?_
      simp only [nextFree,mid]
      by_cases same : k = node
      · rw [same,Function.update_self,Function.update_self]; omega
      · rw [Function.update_of_ne same,Function.update_of_ne same]; rfl
    · intro k
      rw [List.mem_cons,free.members k]
      constructor
      · rintro (rfl | ⟨low,high,out⟩)
        · exact ⟨bounds.1,bounds.2,fun hk => hk.2 rfl⟩
        · exact ⟨low,high,fun hk => out hk.1⟩
      · rintro ⟨low,high,out⟩
        by_cases same : k = node
        · exact .inl same
        · exact .inr ⟨low,high,fun hk => out ⟨hk,same⟩⟩
  have room := inv.room
  obtain ⟨result,heldIff⟩ := done.inv labelled (fun k hk => inv.range k hk.1) free'
    (by simp only [List.length_cons,mid]; omega) (by simp only [mid]; omega)
    (by simp only [mid]; rw [Function.update_of_ne (by omega)]; exact inv.zero)
    (fun k hk => by rw [nodeSame]; exact inv.normal k hk.1)
  have frame := done.framed
  have sized : { reheapRemoved mid slot with curSize := mid.curSize } = reheapRemoved mid slot := by
    rw [← frame.curSize]
  rw [sized] at result heldIff
  exact ⟨result,heldIff,frame.dups,by rw [frame.curSize]; simp only [mid]; omega,
    frame.maxSize,frame.perPoll⟩

/- The expiry of an entry that is waiting in the heap. -/
def pendingExpiry (st : State) (e : EntryPtr) : Option TimeVal :=
  if 1 ≤ (st.entries e).timerId then some (nodeValue st.ht (st.entries e).timerId) else none

theorem removeNodeLink {ht' : TimerHeap} {entries : EntryPtr → Entry} {node : Int}
    (link : LinkInv ht entries) (member : Held ht node) (gone : Removed ht ht' node) :
    LinkInv ht' (Function.update entries (ht.timerDups node).entry
      { entries (ht.timerDups node).entry with timerId := -1 }) := by
  have apart : ∀ k, Held ht k → k ≠ node → (ht.timerDups k).entry ≠ (ht.timerDups node).entry := by
    intro k hk other same
    have left := link.owner k hk
    rw [same,link.owner node member] at left
    exact other left.symm
  constructor
  · intro k hk
    obtain ⟨old,other⟩ := (gone.held k).mp hk
    rw [gone.dups,Function.update_of_ne other,Function.update_of_ne (apart k old other)]
    exact link.owner k old
  · intro k hk
    obtain ⟨old,other⟩ := (gone.held k).mp hk
    rw [gone.dups,Function.update_of_ne other,Function.update_of_ne (apart k old other)]
    exact link.copied k old
  · intro e up
    by_cases mine : e = (ht.timerDups node).entry
    · rw [mine,Function.update_self] at up
      simp only at up
      omega
    · rw [Function.update_of_ne mine] at up ⊢
      obtain ⟨old,owned⟩ := link.running e up
      have other : (entries e).timerId ≠ node := fun same => mine (by rw [← owned,same])
      rw [gone.dups,Function.update_of_ne other,gone.held]
      exact ⟨⟨old,other⟩,owned⟩

/- What removing the node of a held slot does. -/
structure NodeRemoved (st st' : State) (node : Int) : Prop where
  inv : Inv st'
  gone : Removed st.ht st'.ht node
  entries : st'.entries = Function.update st.entries (st.ht.timerDups node).entry
    { st.entries (st.ht.timerDups node).entry with timerId := -1 }
  log : st'.log = st.log

theorem removeNodeSpec (inv : Inv st) (inside : slot < st.ht.curSize) : (removeNode st slot).1 = st.ht.heap slot ∧
    NodeRemoved st (removeNode st slot).2 (st.ht.heap slot) := by
  obtain ⟨node,gone,entries,log,_⟩ := removeNodeHeap inv.heap inside
  refine ⟨node,⟨⟨gone.inv,?_⟩,gone,entries,log⟩⟩
  rw [entries]
  exact removeNodeLink inv.link ⟨slot,inside,rfl⟩ gone

theorem NodeRemoved.pending {st' : State} {node : Int} (inv : Inv st) (removed : NodeRemoved st st' node) :
    pendingExpiry st' = Function.update (pendingExpiry st) (st.ht.timerDups node).entry none := by
  funext e
  by_cases mine : e = (st.ht.timerDups node).entry
  · rw [mine,Function.update_self,pendingExpiry,removed.entries,Function.update_self]
    simp
  · rw [Function.update_of_ne mine,pendingExpiry,pendingExpiry,removed.entries,
      Function.update_of_ne mine]
    by_cases up : 1 ≤ (st.entries e).timerId
    · have owned := (inv.link.running e up).2
      have other : (st.entries e).timerId ≠ node := fun same => mine (by rw [← owned,same])
      rw [if_pos up,if_pos up,nodeValue,nodeValue,removed.gone.dups,Function.update_of_ne other]
    · rw [if_neg up,if_neg up]

end Pjproject.Timer
