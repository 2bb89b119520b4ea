import Mathlib

/-! Binary heaps laid out in an array, with the slot of every item kept in an
inverse table. A reordering never swaps: it carries a hole through the array,
copies items into it, and fills it at the end. The rules below say what one copy
and the final fill preserve, for the inverse table and for the order. -/
namespace Pjproject.Lib.BinaryHeap

def parent (i : Nat) : Nat := (i - 1) / 2

theorem parentLt {i : Nat} (positive : 0 < i) : parent i < i := by
  unfold parent; omega

/- The array and the inverse table together. Only `place` writes them, so an item
is never moved without its entry in the table. -/
structure Table (ι : Type) where
  slot : Nat → ι
  pos : ι → Int

section Placement
variable {ι : Type}

def Table.place [DecidableEq ι] (t : Table ι) (i : Nat) (x : ι) : Table ι :=
  ⟨Function.update t.slot i x,Function.update t.pos x i⟩

theorem placeSlotSame [DecidableEq ι] (t : Table ι) (i : Nat) (x : ι) : (t.place i x).slot i = x := by
  simp [Table.place]

variable {i j : Nat} {t : Table ι}

theorem placeSlotOther [DecidableEq ι] (t : Table ι) (x : ι) (other : j ≠ i) :
    (t.place i x).slot j = t.slot j := by
  simp [Table.place,other]

theorem placePosSame [DecidableEq ι] (t : Table ι) (i : Nat) (x : ι) : (t.place i x).pos x = i := by
  simp [Table.place]

theorem placePosOther [DecidableEq ι] (t : Table ι) (i : Nat) {x y : ι} (other : y ≠ x) :
    (t.place i x).pos y = t.pos y := by
  simp [Table.place,other]

/- Every slot below `size` holds one of `items`, at the position the table gives. -/
structure Placed (t : Table ι) (size : Nat) (items : ι → Prop) : Prop where
  position : ∀ i, i < size → t.pos (t.slot i) = i
  sound : ∀ i, i < size → items (t.slot i)
  complete : ∀ x, items x → ∃ i, i < size ∧ t.slot i = x

/- The same with one slot given up for `x`, which has not been stored yet. -/
structure Hole (t : Table ι) (size : Nat) (items : ι → Prop) (hole : Nat) (x : ι) : Prop where
  inside : hole < size
  moved : items x
  position : ∀ i, i < size → i ≠ hole → t.pos (t.slot i) = i
  sound : ∀ i, i < size → i ≠ hole → items (t.slot i)
  fresh : ∀ i, i < size → i ≠ hole → t.slot i ≠ x
  complete : ∀ y, items y → y = x ∨ ∃ i, i < size ∧ i ≠ hole ∧ t.slot i = y

theorem Placed.slotInjective {size items} (placed : Placed t size items)
    (hi : i < size) (hj : j < size) (same : t.slot i = t.slot j) : i = j := by
  have left := placed.position i hi
  rw [same,placed.position j hj] at left
  exact_mod_cast left.symm

theorem Hole.slotInjective {size items hole x} (open_ : Hole t size items hole x)
    (hi : i < size) (hj : j < size) (ni : i ≠ hole) (nj : j ≠ hole) (same : t.slot i = t.slot j) : i = j := by
  have left := open_.position i hi ni
  rw [same,open_.position j hj nj] at left
  exact_mod_cast left.symm

theorem Placed.congrPos {size items} (placed : Placed t size items) {pos : ι → Int}
    (same : ∀ x, items x → pos x = t.pos x) : Placed ⟨t.slot,pos⟩ size items where
  position i hi := (same _ (placed.sound i hi)).trans (placed.position i hi)
  sound := placed.sound
  complete := placed.complete

theorem Hole.congrPos {size items hole x} (open_ : Hole t size items hole x)
    {pos : ι → Int} (same : ∀ y, items y → pos y = t.pos y) :
    Hole ⟨t.slot,pos⟩ size items hole x where
  inside := open_.inside
  moved := open_.moved
  position i hi ni := (same _ (open_.sound i hi ni)).trans (open_.position i hi ni)
  sound := open_.sound
  fresh := open_.fresh
  complete := open_.complete

theorem Hole.store [DecidableEq ι] {size items hole x}
    (open_ : Hole t size items hole x) : Hole (t.place hole x) size items hole x where
  inside := open_.inside
  moved := open_.moved
  position i hi ni := by
    rw [placeSlotOther _ _ ni,placePosOther _ _ (open_.fresh i hi ni)]
    exact open_.position i hi ni
  sound i hi ni := by rw [placeSlotOther _ _ ni]; exact open_.sound i hi ni
  fresh i hi ni := by rw [placeSlotOther _ _ ni]; exact open_.fresh i hi ni
  complete y hy := by
    rcases open_.complete y hy with same | ⟨i,hi,ni,found⟩
    · exact .inl same
    · exact .inr ⟨i,hi,ni,by rw [placeSlotOther _ _ ni,found]⟩

theorem Hole.copy [DecidableEq ι] {size items hole x} (open_ : Hole t size items hole x)
    {q : Nat} (hq : q < size) (other : q ≠ hole) :
    Hole (t.place hole (t.slot q)) size items q x where
  inside := hq
  moved := open_.moved
  position := by
    intro i hi ni
    by_cases here : i = hole
    · subst here
      rw [placeSlotSame,placePosSame]
    · rw [placeSlotOther _ _ here]
      have different : t.slot i ≠ t.slot q := fun same => ni (open_.slotInjective hi hq here other same)
      rw [placePosOther _ _ different]
      exact open_.position i hi here
  sound := by
    intro i hi ni
    by_cases here : i = hole
    · subst here
      rw [placeSlotSame]
      exact open_.sound q hq other
    · rw [placeSlotOther _ _ here]
      exact open_.sound i hi here
  fresh := by
    intro i hi ni
    by_cases here : i = hole
    · subst here
      rw [placeSlotSame]
      exact open_.fresh q hq other
    · rw [placeSlotOther _ _ here]
      exact open_.fresh i hi here
  complete := by
    intro y hy
    rcases open_.complete y hy with same | ⟨i,hi,ni,found⟩
    · exact .inl same
    · right
      by_cases source : i = q
      · subst source
        exact ⟨hole,open_.inside,other.symm,by rw [placeSlotSame,found]⟩
      · exact ⟨i,hi,source,by rw [placeSlotOther _ _ ni,found]⟩

theorem Hole.fill [DecidableEq ι] {size items hole x} (open_ : Hole t size items hole x) :
    Placed (t.place hole x) size items where
  position := by
    intro i hi
    by_cases here : i = hole
    · subst here
      rw [placeSlotSame,placePosSame]
    · rw [placeSlotOther _ _ here,placePosOther _ _ (open_.fresh i hi here)]
      exact open_.position i hi here
  sound := by
    intro i hi
    by_cases here : i = hole
    · subst here
      rw [placeSlotSame]
      exact open_.moved
    · rw [placeSlotOther _ _ here]
      exact open_.sound i hi here
  complete := by
    intro y hy
    rcases open_.complete y hy with same | ⟨i,hi,ni,found⟩
    · exact ⟨hole,open_.inside,by rw [placeSlotSame,same]⟩
    · exact ⟨i,hi,by rw [placeSlotOther _ _ ni,found]⟩

theorem Placed.append {size items} (placed : Placed t size items) {x : ι}
    (new : ¬ items x) : Hole t (size + 1) (fun y => items y ∨ y = x) size x where
  inside := Nat.lt_succ_self _
  moved := .inr rfl
  position i hi ni := placed.position i (by omega)
  sound i hi ni := .inl (placed.sound i (by omega))
  fresh i hi ni := fun same => new (same ▸ placed.sound i (by omega))
  complete := by
    intro y hy
    rcases hy with old | same
    · obtain ⟨i,hi,found⟩ := placed.complete y old
      exact .inr ⟨i,by omega,by omega,found⟩
    · exact .inl same

theorem Placed.remove {size items} (placed : Placed t (size + 1) items)
    (inner : i < size) :
    Hole t size (fun y => items y ∧ y ≠ t.slot i) i (t.slot size) where
  inside := inner
  moved := by
    refine ⟨placed.sound size (by omega),fun same => ?_⟩
    have := placed.slotInjective (by omega) (by omega) same
    omega
  position j hj nj := placed.position j (by omega)
  sound j hj nj :=
    ⟨placed.sound j (by omega),fun same => nj (placed.slotInjective (by omega) (by omega) same)⟩
  fresh j hj nj := by
    intro same
    have := placed.slotInjective (by omega) (by omega) same
    omega
  complete := by
    intro y hy
    obtain ⟨j,hj,found⟩ := placed.complete y hy.1
    by_cases last : j = size
    · subst last
      exact .inl found.symm
    · exact .inr ⟨j,by omega,fun same => hy.2 (by rw [← found,same]),found⟩

theorem Placed.removeLast {size items} (placed : Placed t (size + 1) items) :
    Placed t size (fun y => items y ∧ y ≠ t.slot size) where
  position i hi := placed.position i (by omega)
  sound i hi := by
    refine ⟨placed.sound i (by omega),fun same => ?_⟩
    have := placed.slotInjective (by omega) (by omega) same
    omega
  complete := by
    intro y hy
    obtain ⟨i,hi,found⟩ := placed.complete y hy.1
    by_cases last : i = size
    · exact absurd (by rw [← found,last]) hy.2
    · exact ⟨i,by omega,found⟩

end Placement

section Order
variable {κ : Type} [LinearOrder κ]

def Ordered (key : Nat → κ) (size : Nat) : Prop :=
  ∀ i, 0 < i → i < size → key (parent i) ≤ key i

/- The pairs that do not touch the hole are in order, and so are the hole's children
with the hole's parent. -/
structure OrderedAround (key : Nat → κ) (size hole : Nat) : Prop where
  away : ∀ i, 0 < i → i < size → i ≠ hole → parent i ≠ hole → key (parent i) ≤ key i
  across : ∀ i, 0 < i → i < size → parent i = hole → 0 < hole → key (parent hole) ≤ key i

/- A hole on its way up may be filled as far as its children are concerned. -/
def Below (key : Nat → κ) (size hole : Nat) (k : κ) : Prop :=
  ∀ i, 0 < i → i < size → parent i = hole → k ≤ key i

/- A hole on its way down may be filled as far as its parent is concerned. -/
def Above (key : Nat → κ) (hole : Nat) (k : κ) : Prop :=
  0 < hole → key (parent hole) ≤ k

variable {key : Nat → κ}

theorem OrderedAround.fill {size hole k} (around : OrderedAround key size hole)
    (below : Below key size hole k) (above : Above key hole k) : Ordered (Function.update key hole k) size := by
  intro i positive hi
  by_cases here : i = hole
  · subst here
    have up := parentLt positive
    rw [Function.update_self,Function.update_of_ne (by omega)]
    exact above positive
  · rw [Function.update_of_ne here]
    by_cases child : parent i = hole
    · rw [child,Function.update_self]
      exact below i positive hi child
    · rw [Function.update_of_ne child]
      exact around.away i positive hi here child

theorem OrderedAround.store {size hole} (around : OrderedAround key size hole)
    (k : κ) : OrderedAround (Function.update key hole k) size hole where
  away i hi0 hi ni np := by
    rw [Function.update_of_ne ni,Function.update_of_ne np]
    exact around.away i hi0 hi ni np
  across i hi0 hi child up := by
    have low := parentLt hi0
    have high := parentLt up
    rw [Function.update_of_ne (by omega),Function.update_of_ne (by omega)]
    exact around.across i hi0 hi child up

theorem OrderedAround.copyUp {size hole} (around : OrderedAround key size hole)
    (positive : 0 < hole) (inside : hole < size) :
    OrderedAround (Function.update key hole (key (parent hole))) size (parent hole) where
  away := by
    intro i hi0 hi ni np
    have here : i ≠ hole := fun same => np (by rw [same])
    rw [Function.update_of_ne here]
    by_cases child : parent i = hole
    · rw [child,Function.update_self]
      exact around.across i hi0 hi child positive
    · rw [Function.update_of_ne child]
      exact around.away i hi0 hi here child
  across := by
    intro i hi0 hi child up
    have grand := parentLt up
    have low := parentLt positive
    have root := around.away (parent hole) up (by omega) (by omega) (by omega)
    rw [Function.update_of_ne (show parent (parent hole) ≠ hole by omega)]
    by_cases here : i = hole
    · subst here
      rw [Function.update_self]
      exact root
    · rw [Function.update_of_ne here]
      have sibling := around.away i hi0 hi here (by omega)
      rw [child] at sibling
      exact root.trans sibling

theorem OrderedAround.belowUp {size hole k} (around : OrderedAround key size hole)
    (positive : 0 < hole) (smaller : k < key (parent hole)) :
    Below (Function.update key hole (key (parent hole))) size (parent hole) k := by
  intro i hi0 hi child
  by_cases here : i = hole
  · subst here
    rw [Function.update_self]
    exact smaller.le
  · rw [Function.update_of_ne here]
    have sibling := around.away i hi0 hi here (by have := parentLt positive; omega)
    rw [child] at sibling
    exact smaller.le.trans sibling

theorem OrderedAround.copyDown {size hole c} (around : OrderedAround key size hole)
    (positive : 0 < c) (inside : c < size) (child : parent c = hole)
    (least : ∀ i, 0 < i → i < size → parent i = hole → key c ≤ key i) :
    OrderedAround (Function.update key hole (key c)) size c where
  away := by
    intro i hi0 hi ni np
    have low := parentLt positive
    by_cases here : i = hole
    · subst here
      have up := parentLt hi0
      rw [Function.update_self,Function.update_of_ne (by omega)]
      exact around.across c positive inside child hi0
    · rw [Function.update_of_ne here]
      by_cases mine : parent i = hole
      · rw [mine,Function.update_self]
        exact least i hi0 hi mine
      · rw [Function.update_of_ne mine]
        exact around.away i hi0 hi here mine
  across := by
    intro i hi0 hi mine up
    have low := parentLt positive
    have deep := parentLt hi0
    rw [child,Function.update_self,Function.update_of_ne (show i ≠ hole by omega)]
    have step := around.away i hi0 hi (by omega) (by omega)
    rwa [mine] at step

theorem aboveDown {hole c k} (child : parent c = hole) (smaller : key c < k) :
    Above (Function.update key hole (key c)) c k := by
  intro _
  rw [child,Function.update_self]
  exact smaller.le

theorem Ordered.around {size} (ordered : Ordered key size) (hole : Nat) :
    OrderedAround key size hole where
  away i hi0 hi _ _ := ordered i hi0 hi
  across := by
    intro i hi0 hi child up
    have low := parentLt hi0
    have lower := ordered i hi0 hi
    rw [child] at lower
    exact (ordered hole up (by omega)).trans lower

theorem Ordered.aroundEnd {size} (ordered : Ordered key size) :
    OrderedAround key (size + 1) size where
  away i hi0 hi ni _ := ordered i hi0 (by omega)
  across i hi0 hi child _ := by have := parentLt hi0; omega

theorem belowEnd {size k} : Below key (size + 1) size k := by
  intro i hi0 hi child
  have := parentLt hi0
  omega

theorem Ordered.shrink {size smaller} (ordered : Ordered key size) (le : smaller ≤ size) : Ordered key smaller :=
  fun i hi0 hi => ordered i hi0 (by omega)

theorem Ordered.congr {other : Nat → κ} {size} (ordered : Ordered key size)
    (same : ∀ i, i < size → other i = key i) : Ordered other size := by
  intro i hi0 hi
  have up := parentLt hi0
  rw [same i hi,same (parent i) (by omega)]
  exact ordered i hi0 hi

theorem Ordered.rootLeast {size} (ordered : Ordered key size) : ∀ i, i < size → key 0 ≤ key i := by
  intro i
  induction i using Nat.strongRecOn with
  | ind i ih =>
    intro hi
    by_cases root : i = 0
    · rw [root]
    · have up := parentLt (Nat.pos_of_ne_zero root)
      exact (ih (parent i) up (by omega)).trans (ordered i (Nat.pos_of_ne_zero root) hi)

end Order

end Pjproject.Lib.BinaryHeap
