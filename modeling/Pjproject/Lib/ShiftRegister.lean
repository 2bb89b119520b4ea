import Mathlib

/-! A shift register with feedback: it loses its lowest bit, and takes the feedback in exclusive or when that bit was set. -/
namespace Pjproject.Lib.ShiftRegister

variable {w : Nat}

def shift (feedback x : BitVec w) : BitVec w := if x.getLsbD 0 then (x >>> 1) ^^^ feedback else x >>> 1

def shifts (feedback : BitVec w) : Nat → BitVec w → BitVec w
  | 0, x => x
  | n + 1, x => shifts feedback n (shift feedback x)

theorem shiftXor (feedback x y : BitVec w) : shift feedback (x ^^^ y) = shift feedback x ^^^ shift feedback y := by
  unfold shift
  rw [BitVec.getLsbD_xor,BitVec.ushiftRight_xor_distrib]
  generalize x >>> 1 = a, y >>> 1 = b
  cases x.getLsbD 0 <;> cases y.getLsbD 0
  case true.true =>
    have twice : a ^^^ feedback ^^^ (b ^^^ feedback) = a ^^^ b ^^^ (feedback ^^^ feedback) := by ac_rfl
    simpa using twice.symm
  all_goals simp only [Bool.xor_false,Bool.xor_true,Bool.not_false,Bool.false_eq_true,if_true,if_false]
  all_goals ac_rfl

theorem shiftsXor (feedback : BitVec w) (n : Nat) (x y : BitVec w) :
    shifts feedback n (x ^^^ y) = shifts feedback n x ^^^ shifts feedback n y := by
  induction n generalizing x y with
  | zero => rfl
  | succ n ih => rw [shifts,shiftXor,ih]; rfl

theorem shiftsAdd (feedback : BitVec w) (m n : Nat) (x : BitVec w) :
    shifts feedback (m + n) x = shifts feedback n (shifts feedback m x) := by
  induction m generalizing x with
  | zero => rw [Nat.zero_add]; rfl
  | succ m ih =>
    rw [Nat.succ_add]
    exact ih (shift feedback x)

/- Bits that are clear shift out without a feedback. -/
theorem shiftsClear (feedback : BitVec w) {n : Nat} {x : BitVec w} (clear : ∀ i < n, x.getLsbD i = false) :
    shifts feedback n x = x >>> n := by
  induction n generalizing x with
  | zero => rw [BitVec.ushiftRight_zero]; rfl
  | succ n ih =>
    have low : shift feedback x = x >>> 1 := by
      unfold shift
      rw [clear 0 (Nat.succ_pos n)]
      rfl
    have rest : ∀ i < n, (x >>> 1).getLsbD i = false := fun i less => by
      rw [BitVec.getLsbD_ushiftRight,Nat.add_comm]
      exact clear (i + 1) (Nat.succ_lt_succ less)
    rw [shifts,low,ih rest,← BitVec.shiftRight_add,Nat.add_comm]

/- With the highest bit in the feedback nothing is lost: what shifts out is to be seen there. -/
theorem shiftInj {feedback : BitVec w} (high : feedback.msb = true) {x y : BitVec w}
    (same : shift feedback x = shift feedback y) : x = y := by
  have bit : ∀ (z : BitVec w) i, (shift feedback z).getLsbD i = (z.getLsbD (i + 1) ^^ (z.getLsbD 0 && feedback.getLsbD i)) := by
    intro z i
    unfold shift
    split <;> simp [*,Nat.add_comm]
  have each : ∀ i, (x.getLsbD (i + 1) ^^ (x.getLsbD 0 && feedback.getLsbD i)) =
      (y.getLsbD (i + 1) ^^ (y.getLsbD 0 && feedback.getLsbD i)) := fun i => by rw [← bit,← bit,same]
  have low : x.getLsbD 0 = y.getLsbD 0 := by
    have top := each (w - 1)
    rw [BitVec.getLsbD_of_ge x _ (by omega),BitVec.getLsbD_of_ge y _ (by omega),← BitVec.msb_eq_getLsbD_last,high] at top
    simpa using top
  apply BitVec.eq_of_getLsbD_eq
  rintro (_ | i) _
  · exact low
  · have next := each i
    rw [low] at next
    simpa using next

theorem shiftsInj {feedback : BitVec w} (high : feedback.msb = true) {n : Nat} {x y : BitVec w}
    (same : shifts feedback n x = shifts feedback n y) : x = y := by
  induction n generalizing x y with
  | zero => exact same
  | succ n ih => exact shiftInj high (ih same)

end Pjproject.Lib.ShiftRegister
