import Mathlib

/-! Sums and counts over the places of a table: writing one place changes them by that place alone. -/
namespace Pjproject.Lib.Tally

variable {α : Type}

theorem sumSet (weight : α → Nat) {table : List α} {place : Nat} {old : α} (held : table[place]? = some old) (new : α) :
    ((table.set place new).map weight).sum + weight old = (table.map weight).sum + weight new := by
  induction table generalizing place with
  | nil => simp at held
  | cons first rest ih =>
    cases place with
    | zero =>
      obtain rfl : first = old := by simpa using held
      simp only [List.set_cons_zero,List.map_cons,List.sum_cons]
      omega
    | succ place =>
      have inRest : rest[place]? = some old := by simpa using held
      have deeper := ih inRest
      simp only [List.set_cons_succ,List.map_cons,List.sum_cons]
      omega

theorem countSet (holds : α → Bool) {table : List α} {place : Nat} {old : α} (held : table[place]? = some old)
    (new : α) : (table.set place new).countP holds + (holds old).toNat = table.countP holds + (holds new).toNat := by
  induction table generalizing place with
  | nil => simp at held
  | cons first rest ih =>
    cases place with
    | zero =>
      obtain rfl : first = old := by simpa using held
      rw [List.set_cons_zero,List.countP_cons,List.countP_cons]
      cases holds first <;> cases holds new <;> simp
    | succ place =>
      have inRest : rest[place]? = some old := by simpa using held
      have deeper := ih inRest
      rw [List.set_cons_succ,List.countP_cons,List.countP_cons]
      omega

end Pjproject.Lib.Tally
