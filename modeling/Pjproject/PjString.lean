import Pjproject.StunAuth

/-! The case-insensitive comparison of pj/string_i.h as an equality: of the strings in lower case, with everything
behind the first NUL made NUL. -/
namespace Pjproject.PjString
open Stun (lower strnicmpZero stricmpZero)

def folded : List UInt8 → List UInt8
  | [] => []
  | c :: rest => if c = 0 then List.replicate (rest.length + 1) 0 else lower c :: folded rest

theorem lowerZero {c : UInt8} : lower c = 0 ↔ c = 0 := by
  unfold lower
  constructor
  · intro zero
    split at zero
    next capital => grind
    next => exact zero
  · rintro rfl
    rfl

theorem foldedLength (s : List UInt8) : (folded s).length = s.length := by
  induction s with
  | nil => rfl
  | cons c rest ih =>
    unfold folded
    split
    · exact List.length_replicate
    · rw [List.length_cons,ih,List.length_cons]

theorem strnicmpFolded {left right : List UInt8} (same : left.length = right.length) :
    strnicmpZero left right = true ↔ folded left = folded right := by
  induction left generalizing right with
  | nil =>
    cases right with
    | nil => exact ⟨fun _ => rfl,fun _ => rfl⟩
    | cons => cases same
  | cons a left ih =>
    cases right with
    | nil => cases same
    | cons b =>
      have rest := ih (Nat.succ.inj same)
      simp only [strnicmpZero,Bool.and_eq_true,Bool.or_eq_true,beq_iff_eq]
      by_cases ended : a = 0
      · subst ended
        by_cases also : b = 0
        · subst also
          simp only [folded,if_true,Nat.succ.inj same,true_or,and_self]
        · have differs : lower 0 ≠ lower b := fun alike => also (lowerZero.mp alike.symm)
          simp only [folded,if_true,if_neg also,differs,false_and,false_iff]
          exact fun alike => differs (List.cons.inj alike).1
      · by_cases also : b = 0
        · subst also
          have differs : lower a ≠ lower 0 := fun alike => ended (lowerZero.mp alike)
          simp only [folded,if_neg ended,if_true,differs,false_and,false_iff]
          exact fun alike => differs (List.cons.inj alike).1
        · simp only [folded,ended,also,if_false,false_or,List.cons.injEq,rest]

theorem stricmpFolded (left right : List UInt8) : stricmpZero left right = true ↔ folded left = folded right := by
  unfold stricmpZero
  rw [Bool.and_eq_true,beq_iff_eq]
  constructor
  · exact fun both => (strnicmpFolded both.1).mp both.2
  · intro same
    have length : left.length = right.length := by rw [← foldedLength left,same,foldedLength]
    exact ⟨length,(strnicmpFolded length).mpr same⟩

end Pjproject.PjString
