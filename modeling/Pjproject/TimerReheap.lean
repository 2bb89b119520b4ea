import Pjproject.TimerHeap

/-! The two reordering loops of the timer heap keep the heap's contents, put the
moved node in its place and restore the order. Everything else is framed. -/
namespace Pjproject.Timer
open Time Lib.BinaryHeap

def table (ht : TimerHeap) : Table Int := ⟨ht.heap,ht.timerIds⟩

/- Each copy in use is labelled with its own index. -/
def Labelled (ht : TimerHeap) (items : Int → Prop) : Prop :=
  ∀ k, items k → (ht.timerDups k).dup.timerId = k

/- What a loop over `items` leaves alone. -/
structure Framed (items : Int → Prop) (ht ht' : TimerHeap) : Prop where
  maxSize : ht'.maxSize = ht.maxSize
  curSize : ht'.curSize = ht.curSize
  perPoll : ht'.maxEntriesPerPoll = ht.maxEntriesPerPoll
  dups : ht'.timerDups = ht.timerDups
  freelist : ht'.timerIdsFreelist = ht.timerIdsFreelist
  ids : ∀ k, ¬ items k → ht'.timerIds k = ht.timerIds k

theorem Framed.refl (items : Int → Prop) (ht : TimerHeap) : Framed items ht ht :=
  ⟨rfl,rfl,rfl,rfl,rfl,fun _ _ => rfl⟩

theorem Framed.trans {items : Int → Prop} {a b c : TimerHeap} (ab : Framed items a b)
    (bc : Framed items b c) : Framed items a c where
  maxSize := bc.maxSize.trans ab.maxSize
  curSize := bc.curSize.trans ab.curSize
  perPoll := bc.perPoll.trans ab.perPoll
  dups := bc.dups.trans ab.dups
  freelist := bc.freelist.trans ab.freelist
  ids k out := (bc.ids k out).trans (ab.ids k out)

theorem Framed.value {items : Int → Prop} {ht ht' : TimerHeap} (frame : Framed items ht ht')
    (k : Int) : nodeValue ht' k = nodeValue ht k := by
  rw [nodeValue,frame.dups,nodeValue]

theorem Framed.labelled {items : Int → Prop} {ht ht' : TimerHeap} (frame : Framed items ht ht')
    (labelled : Labelled ht items) : Labelled ht' items := by
  intro k hk
  rw [frame.dups]
  exact labelled k hk

theorem heapParentEq (i : Nat) : heapParent i = parent i := by
  unfold heapParent parent; split <;> omega

theorem copyNodeTable {ht : TimerHeap} {items slot node} (labelled : Labelled ht items)
    (member : items node) : table (copyNode ht slot node) = (table ht).place slot node := by
  simp only [table,copyNode,Table.place,labelled node member]

theorem copyNodeFramed {ht : TimerHeap} {items slot node} (labelled : Labelled ht items)
    (member : items node) : Framed items ht (copyNode ht slot node) := by
  refine ⟨rfl,rfl,rfl,rfl,rfl,fun k out => ?_⟩
  simp only [copyNode,labelled node member]
  exact Function.update_of_ne (by rintro rfl; exact out member) _ _

theorem copyNodeValue (ht : TimerHeap) (slot : Nat) (node : Int) :
    slotValue (copyNode ht slot node) = Function.update (slotValue ht) slot (nodeValue ht node) := by
  funext i
  by_cases here : i = slot
  · subst here; simp [slotValue,nodeValue,copyNode]
  · simp [slotValue,nodeValue,copyNode,here]

structure Reheaped (items : Int → Prop) (size : Nat) (ht ht' : TimerHeap) : Prop where
  placed : Placed (table ht') size items
  ordered : Ordered (slotValue ht') size
  framed : Framed items ht ht'

/- A reheap has work to do: `node` is on its way to a place at or beyond the hole. -/
structure Moving (items : Int → Prop) (size : Nat) (ht : TimerHeap) (slot : Nat) (node : Int) : Prop where
  open_ : Hole (table ht) size items slot node
  around : OrderedAround (slotValue ht) size slot
  labelled : Labelled ht items

theorem Moving.finish {items size ht slot node} (moving : Moving items size ht slot node)
    (below : Below (slotValue ht) size slot (nodeValue ht node))
    (above : Above (slotValue ht) slot (nodeValue ht node)) :
    Reheaped items size ht (copyNode ht slot node) where
  placed := by
    rw [copyNodeTable moving.labelled moving.open_.moved]
    exact moving.open_.fill
  ordered := by
    rw [copyNodeValue]
    exact moving.around.fill below above
  framed := copyNodeFramed moving.labelled moving.open_.moved

theorem Reheaped.after {items size a b c} (first : Framed items a b)
    (later : Reheaped items size b c) : Reheaped items size a c :=
  ⟨later.placed,later.ordered,first.trans later.framed⟩

theorem Moving.copyOpen {items size ht slot node} (moving : Moving items size ht slot node)
    {q : Nat} (hq : q < size) (other : q ≠ slot) :
    Hole (table (copyNode ht slot (ht.heap q))) size items q node := by
  have member : items (ht.heap q) := moving.open_.sound q hq other
  rw [copyNodeTable moving.labelled member]
  exact moving.open_.copy hq other

theorem Moving.copyFramed {items size ht slot node} (moving : Moving items size ht slot node)
    {q : Nat} (hq : q < size) (other : q ≠ slot) : Framed items ht (copyNode ht slot (ht.heap q)) :=
  copyNodeFramed moving.labelled (moving.open_.sound q hq other)

theorem reheapUpSpec {items size} (fuel : Nat) {ht slot node} (moving : Moving items size ht slot node)
    (below : Below (slotValue ht) size slot (nodeValue ht node)) (enough : slot ≤ fuel) :
    Reheaped items size ht (reheapUp fuel ht node slot (heapParent slot)) := by
  -- the slot falls in every round, so it is 0 when the fuel is
  induction fuel generalizing ht slot with
  | zero =>
    unfold reheapUp
    exact moving.finish below (fun positive => by omega)
  | succ fuel ih =>
    unfold reheapUp
    split
    · rename_i positive
      have up : heapParent slot < slot := by rw [heapParentEq]; exact parentLt positive
      have inside := moving.open_.inside
      split
      · rename_i smaller
        rw [timeValLtIff] at smaller
        have frame := moving.copyFramed (q := heapParent slot) (by omega) (by omega)
        have value : slotValue (copyNode ht slot (ht.heap (heapParent slot))) =
            Function.update (slotValue ht) slot (slotValue ht (parent slot)) := by
          rw [copyNodeValue,← heapParentEq]; rfl
        have next : Moving items size (copyNode ht slot (ht.heap (heapParent slot)))
            (heapParent slot) node := by
          refine ⟨moving.copyOpen (by omega) (by omega),?_,frame.labelled moving.labelled⟩
          rw [value,heapParentEq]
          exact moving.around.copyUp positive inside
        refine Reheaped.after frame (ih next ?_ (by omega))
        rw [value,frame.value,heapParentEq]
        exact moving.around.belowUp positive (by rwa [← heapParentEq])
      · rename_i stop
        rw [timeValLtIff,not_lt] at stop
        exact moving.finish below (fun _ => by rwa [← heapParentEq])
    · exact moving.finish below (fun positive => by omega)

/- The smaller of the two children, as the loop picks it. -/
def smallerChild (ht : TimerHeap) (child : Nat) : Nat :=
  if child + 1 < ht.curSize ∧ timeValLt (slotValue ht (child + 1)) (slotValue ht child) = true
  then child + 1 else child

theorem smallerChildSpec {ht : TimerHeap} {slot : Nat} (inside : heapLeft slot < ht.curSize) :
    parent (smallerChild ht (heapLeft slot)) = slot ∧
    slot < smallerChild ht (heapLeft slot) ∧ smallerChild ht (heapLeft slot) < ht.curSize ∧
    ∀ i, 0 < i → i < ht.curSize → parent i = slot →
      slotValue ht (smallerChild ht (heapLeft slot)) ≤ slotValue ht i := by
  have only : ∀ i, 0 < i → parent i = slot → i = heapLeft slot ∨ i = heapLeft slot + 1 := by
    intro i positive child
    unfold parent at child
    unfold heapLeft
    omega
  unfold smallerChild
  split
  · rename_i right
    obtain ⟨bound,smaller⟩ := right
    rw [timeValLtIff] at smaller
    refine ⟨by unfold parent heapLeft; omega,by unfold heapLeft; omega,bound,?_⟩
    intro i positive _ child
    rcases only i positive child with rfl | rfl
    · exact smaller.le
    · exact le_refl _
  · rename_i left
    refine ⟨by unfold parent heapLeft; omega,by unfold heapLeft; omega,inside,?_⟩
    intro i positive hi child
    rcases only i positive child with rfl | rfl
    · exact le_refl _
    · rw [not_and,timeValLtIff,not_lt] at left
      exact left hi

theorem reheapDownSpec {items} (fuel : Nat) {ht slot node} (moving : Moving items ht.curSize ht slot node)
    (above : Above (slotValue ht) slot (nodeValue ht node)) (enough : ht.curSize ≤ slot + fuel) :
    Reheaped items ht.curSize ht (reheapDown fuel ht node slot (heapLeft slot)) := by
  -- the slot rises in every round, and a hole has to stay inside the heap
  induction fuel generalizing ht slot with
  | zero => have := moving.open_.inside; omega
  | succ fuel ih =>
    unfold reheapDown
    split
    · rename_i inside
      obtain ⟨child,later,bound,least⟩ := smallerChildSpec inside
      simp only
      change Reheaped items ht.curSize ht
        (if timeValLt (slotValue ht (smallerChild ht (heapLeft slot))) (nodeValue ht node) = true then
          reheapDown fuel (copyNode ht slot (ht.heap (smallerChild ht (heapLeft slot)))) node
            (smallerChild ht (heapLeft slot)) (heapLeft (smallerChild ht (heapLeft slot)))
        else copyNode ht slot node)
      generalize smallerChild ht (heapLeft slot) = c at child later bound least
      split
      · rename_i smaller
        rw [timeValLtIff] at smaller
        have frame := moving.copyFramed (q := c) bound (by omega)
        have value : slotValue (copyNode ht slot (ht.heap c)) =
            Function.update (slotValue ht) slot (slotValue ht c) := copyNodeValue ht slot (ht.heap c)
        have next : Moving items (copyNode ht slot (ht.heap c)).curSize
            (copyNode ht slot (ht.heap c)) c node := by
          refine ⟨moving.copyOpen bound (by omega),?_,frame.labelled moving.labelled⟩
          rw [value]
          exact moving.around.copyDown (by omega) bound child least
        refine Reheaped.after frame (ih next ?_ (by simp only [copyNode]; omega))
        rw [value,frame.value]
        exact aboveDown child smaller
      · rename_i stop
        rw [timeValLtIff,not_lt] at stop
        exact moving.finish (fun i positive hi mine => stop.trans (least i positive hi mine)) above
    · rename_i outside
      refine moving.finish (fun i positive hi mine => ?_) above
      unfold parent at mine
      unfold heapLeft at outside
      omega

/- Removing slot `slot` from a heap of `curSize + 1` nodes: the last node takes the
hole, going down or up as its value asks. -/
theorem reheapRemovedSpec {items ht slot}
    (open_ : slot < ht.curSize → Hole (table ht) ht.curSize items slot (ht.heap ht.curSize))
    (whole : ht.curSize ≤ slot → Placed (table ht) ht.curSize items)
    (labelled : Labelled ht items) (ordered : Ordered (slotValue ht) ht.curSize) :
    Reheaped items ht.curSize ht (reheapRemoved ht slot) := by
  unfold reheapRemoved
  split
  · rename_i inner
    generalize ht.heap ht.curSize = node at open_
    simp only
    have open_ := open_ inner
    have frame : Framed items ht (copyNode ht slot node) := copyNodeFramed labelled open_.moved
    have value := copyNodeValue ht slot node
    have moving : Moving items (copyNode ht slot node).curSize (copyNode ht slot node) slot node := by
      refine ⟨?_,?_,frame.labelled labelled⟩
      · rw [copyNodeTable labelled open_.moved]
        exact open_.store
      · rw [value]
        exact (ordered.around slot).store _
    split
    · rename_i later
      rw [timeValGteIff] at later
      refine Reheaped.after frame (reheapDownSpec _ moving (fun positive => ?_) (Nat.le_add_left _ _))
      rw [← heapParentEq]
      exact later
    · rename_i earlier
      rw [timeValGteIff,not_le] at earlier
      refine Reheaped.after frame (reheapUpSpec _ moving (fun i positive hi mine => ?_) (le_refl _))
      -- the node is before the hole's parent, which is before the hole's children
      by_cases root : slot = 0
      · subst root
        have same : slotValue (copyNode ht 0 node) (heapParent 0) = nodeValue (copyNode ht 0 node) node := by
          simp [heapParent,slotValue,nodeValue,copyNode]
        rw [same] at earlier
        exact absurd earlier (lt_irrefl _)
      · rw [heapParentEq] at earlier
        exact earlier.le.trans (moving.around.across i positive hi mine (Nat.pos_of_ne_zero root))
  · rename_i outer
    exact ⟨whole (by omega),ordered,Framed.refl _ _⟩

end Pjproject.Timer
