import Mathlib

/-! Cells that are read and stored in spans, and a ring of them that two spans make up. -/
namespace Pjproject.Lib.Spans
variable {α : Type}

def span (cells : Nat → α) (pos n : Nat) : List α := (List.range n).map fun k => cells (pos + k)

def store (cells : Nat → α) (pos : Nat) (xs : List α) : Nat → α := fun i => if pos ≤ i then xs.getD (i - pos) (cells i) else cells i

variable {cells : Nat → α} {pos n : Nat} {xs : List α}

theorem spanLength (cells : Nat → α) (pos n : Nat) : (span cells pos n).length = n := by
  rw [span,List.length_map,List.length_range]

theorem spanGet (cells : Nat → α) (pos n : Nat) {k : Nat} (inside : k < (span cells pos n).length) :
    (span cells pos n)[k] = cells (pos + k) := by
  simp only [span,List.getElem_map,List.getElem_range]

theorem spanNil (cells : Nat → α) (pos : Nat) : span cells pos 0 = [] := rfl

theorem spanAppend (cells : Nat → α) (pos m n : Nat) : span cells pos (m + n) = span cells pos m ++ span cells (pos + m) n := by
  unfold span
  rw [List.range_add,List.map_append,List.map_map]
  congr 2
  funext k
  exact congrArg cells (Nat.add_assoc pos m k).symm

theorem spanTake (cells : Nat → α) (pos : Nat) {m n : Nat} (less : m ≤ n) : (span cells pos n).take m = span cells pos m := by
  obtain ⟨rest,rfl⟩ := Nat.exists_eq_add_of_le less
  rw [spanAppend,List.take_left' (spanLength _ _ _)]

theorem spanDrop (cells : Nat → α) (pos : Nat) {m n : Nat} (less : m ≤ n) : (span cells pos n).drop m = span cells (pos + m) (n - m) := by
  obtain ⟨rest,rfl⟩ := Nat.exists_eq_add_of_le less
  rw [spanAppend,List.drop_left' (spanLength _ _ _),Nat.add_sub_cancel_left]

theorem spanCongr {other : Nat → α} (same : ∀ i, pos ≤ i → i < pos + n → other i = cells i) : span other pos n = span cells pos n := by
  unfold span
  refine List.map_congr_left fun k member => same (pos + k) (Nat.le_add_right _ _) ?_
  exact Nat.add_lt_add_left (List.mem_range.mp member) pos

theorem storeOutside {i : Nat} (outside : i < pos ∨ pos + xs.length ≤ i) : store cells pos xs i = cells i := by
  unfold store
  split
  · rw [List.getD_eq_default _ _ (by omega)]
  · rfl

theorem spanApart {first : Nat} (apart : first + n ≤ pos ∨ pos + xs.length ≤ first) :
    span (store cells pos xs) first n = span cells first n :=
  spanCongr fun i low high => storeOutside (by omega)

theorem spanStored (cells : Nat → α) (pos : Nat) (xs : List α) : span (store cells pos xs) pos xs.length = xs := by
  refine List.ext_getElem (spanLength _ _ _) fun k _ inside => ?_
  rw [spanGet,store,if_pos (Nat.le_add_right _ _),Nat.add_sub_cancel_left,List.getD_eq_getElem _ _ inside]

end Pjproject.Lib.Spans
