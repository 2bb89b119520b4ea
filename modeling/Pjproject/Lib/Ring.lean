import Mathlib

/-! Circular windows over an array: `n` slots from `head` on, wrapping at `cap`.
The window is read as a list, and an operation on the array is an operation on that list. -/
namespace Pjproject.Lib.Ring

variable {α : Type}

def slot (cap head k : Nat) : Nat := (head + k) % cap

def view (a : Nat → α) (cap head n : Nat) : List α := (List.range n).map fun k => a (slot cap head k)

/- Every slot the window does not reach holds the blank value. -/
def Vacant (a : Nat → α) (cap head n : Nat) (blank : α) : Prop :=
  ∀ i, i < cap → (∀ k, k < n → slot cap head k ≠ i) → a i = blank

variable {cap head k n : Nat} {a : Nat → α} {blank : α}

theorem slotLt (head k : Nat) (pos : 0 < cap) : slot cap head k < cap := Nat.mod_lt _ pos

theorem slotZero (h : head < cap) : slot cap head 0 = head := by
  simp [slot,Nat.mod_eq_of_lt h]

theorem slotSlot (cap head c k : Nat) : slot cap (slot cap head c) k = slot cap head (c + k) := by
  simp [slot,Nat.add_assoc]

theorem slotWrap (h : head < cap) (hk : k ≤ cap) :
    slot cap head k = if head + k < cap then head + k else head + k - cap := by
  unfold slot
  split
  · next inside => exact Nat.mod_eq_of_lt inside
  · next wraps =>
    have below : head + k - cap < cap := by omega
    rw [Nat.mod_eq_sub_mod (by omega),Nat.mod_eq_of_lt below]

theorem slotInj {j : Nat} (hj : j < cap) (hk : k < cap) (same : slot cap head j = slot cap head k) : j = k := by
  have cancelled : j % cap = k % cap := Nat.ModEq.add_left_cancel' head same
  rwa [Nat.mod_eq_of_lt hj,Nat.mod_eq_of_lt hk] at cancelled

/- The slots of the first `c` places. -/
def Front (cap head c i : Nat) : Prop := ∃ k, k < c ∧ slot cap head k = i

theorem frontSegments {c i : Nat} (h : head < cap) (hc : c ≤ cap) (hi : i < cap) : Front cap head c i ↔
      (head ≤ i ∧ i < head + min c (cap - head)) ∨ i < c - (cap - head) := by
  constructor
  · rintro ⟨k,hk,rfl⟩
    rw [slotWrap h (by omega)] at hi ⊢
    split <;> omega
  · rintro (upper | lower)
    · refine ⟨i - head,by omega,?_⟩
      rw [slotWrap h (by omega)]
      split <;> omega
    · refine ⟨cap - head + i,by omega,?_⟩
      rw [slotWrap h (by omega)]
      split <;> omega

@[simp] theorem viewLength (a : Nat → α) (cap head n : Nat) : (view a cap head n).length = n := by
  simp [view]

theorem viewGet (hk : k < (view a cap head n).length) : (view a cap head n)[k] = a (slot cap head k) := by
  simp [view]

theorem viewGet? (a : Nat → α) (cap head n k : Nat) :
    (view a cap head n)[k]? = if k < n then some (a (slot cap head k)) else none := by
  split
  · next inside =>
    have bound : k < (view a cap head n).length := by simpa using inside
    rw [List.getElem?_eq_getElem bound,viewGet]
  · next outside => exact List.getElem?_eq_none (by simpa using outside)

theorem viewCongr {b : Nat → α} (same : ∀ k, k < n → a (slot cap head k) = b (slot cap head k)) :
    view a cap head n = view b cap head n := by
  apply List.map_congr_left
  intro k member
  exact same k (List.mem_range.mp member)

theorem viewDrop (a : Nat → α) (cap head c n : Nat) :
    view a cap (slot cap head c) (n - c) = (view a cap head n).drop c := by
  apply List.ext_getElem
  · simp
  · intro k left right
    simp [viewGet,slotSlot]

theorem viewHead (a : Nat → α) (h : head < cap) (pos : 0 < n) :
    view a cap head n = a head :: view a cap (slot cap head 1) (n - 1) := by
  rw [viewDrop]
  have first : (view a cap head n)[0]? = some (a head) := by
    rw [viewGet?,if_pos pos,slotZero h]
  cases whole : view a cap head n with
  | nil => simp [whole] at first
  | cons =>
    rw [whole] at first
    simp only [List.getElem?_cons_zero,Option.some.injEq] at first
    rw [first]
    rfl

theorem viewSet (hk : k < n) (hn : n ≤ cap) (v : α) :
    view (Function.update a (slot cap head k) v) cap head n = (view a cap head n).set k v := by
  apply List.ext_getElem
  · simp
  · intro j left right
    have inside : j < n := by simpa using left
    rw [viewGet,List.getElem_set,viewGet]
    split
    · next same => rw [same,Function.update_self]
    · next other =>
      refine Function.update_of_ne ?_ _ _
      intro clash
      exact other (slotInj (by omega) (by omega) clash).symm

theorem viewGrow {m : Nat} (vacant : Vacant a cap head n blank) (pos : 0 < cap) (hnm : n ≤ m) (hm : m ≤ cap) :
    view a cap head m = view a cap head n ++ List.replicate (m - n) blank := by
  apply List.ext_getElem
  · simp only [viewLength,List.length_append,List.length_replicate]
    omega
  · intro k left right
    rw [viewGet,List.getElem_append]
    split
    · next inside => rw [viewGet]
    · next outside =>
      rw [List.getElem_replicate]
      refine vacant _ (slotLt head k pos) fun j hj clash => ?_
      have bound : k < m := by simpa using left
      have same := slotInj (by omega) (by omega) clash
      simp only [viewLength] at outside
      omega

theorem vacantUpdate {m : Nat} {v : α} (vacant : Vacant a cap head n blank) (hnm : n ≤ m) (hk : k < m) :
    Vacant (Function.update a (slot cap head k) v) cap head m blank := by
  intro i inside unreached
  have other : i ≠ slot cap head k := fun clash => unreached k hk clash.symm
  rw [Function.update_of_ne other]
  exact vacant i inside fun j hj => unreached j (by omega)

theorem vacantAdvance {b : Nat → α} {c : Nat} (vacant : Vacant a cap head n blank)
    (cleared : ∀ i, i < cap → Front cap head c i → b i = blank)
    (kept : ∀ i, i < cap → ¬Front cap head c i → b i = a i) : Vacant b cap (slot cap head c) (n - c) blank := by
  intro i inside unreached
  by_cases front : Front cap head c i
  · exact cleared i inside front
  · rw [kept i inside front]
    refine vacant i inside fun k hk clash => ?_
    have late : c ≤ k := by
      by_contra early
      exact front ⟨k,by omega,clash⟩
    refine unreached (k - c) (by omega) ?_
    rw [slotSlot,Nat.add_sub_cancel' late]
    exact clash

end Pjproject.Lib.Ring
