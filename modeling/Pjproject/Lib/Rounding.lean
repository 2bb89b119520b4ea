import Mathlib

/-! Rounding of rationals to the binary32 numbers, to the nearest and ties to even. The range above is left open: no
number is infinite. -/
namespace Pjproject.Lib.Rounding

def roundEven (q : ℚ) : ℤ :=
  let part := q - ⌊q⌋
  if part < 1 / 2 then ⌊q⌋ else if 1 / 2 < part then ⌊q⌋ + 1 else if ⌊q⌋ % 2 = 0 then ⌊q⌋ else ⌊q⌋ + 1

/- The exponent of the last bit: 24 bits, and no less than the least subnormal. -/
def exponent (q : ℚ) : ℤ := max (Int.log 2 q - 23) (-149)

def roundMagnitude (q : ℚ) : ℚ := roundEven (q / 2 ^ exponent q) * 2 ^ exponent q

def roundFloat (q : ℚ) : ℚ := if q < 0 then -roundMagnitude (-q) else roundMagnitude q

theorem roundEvenCases (q : ℚ) : roundEven q = ⌊q⌋ ∨ (roundEven q = ⌊q⌋ + 1 ∧ (⌊q⌋ : ℚ) < q) := by
  unfold roundEven
  dsimp only
  split
  · exact Or.inl rfl
  · rename_i half
    have above : (⌊q⌋ : ℚ) < q := by linarith
    split
    · exact Or.inr ⟨rfl,above⟩
    · split
      · exact Or.inl rfl
      · exact Or.inr ⟨rfl,above⟩

theorem roundEvenLe {q : ℚ} {n : ℤ} (low : q ≤ n) : roundEven q ≤ n := by
  have floor : ⌊q⌋ ≤ n := by exact_mod_cast (Int.floor_le q).trans low
  rcases roundEvenCases q with down | ⟨up,above⟩
  · rw [down]
    exact floor
  · have less : ⌊q⌋ < n := by exact_mod_cast above.trans_le low
    rw [up]
    exact less

theorem leRoundEven {q : ℚ} {n : ℤ} (high : n ≤ q) : n ≤ roundEven q := by
  have floor : n ≤ ⌊q⌋ := Int.le_floor.mpr high
  rcases roundEvenCases q with down | ⟨up,-⟩
  · rw [down]
    exact floor
  · rw [up]
    omega

theorem roundEvenInt (n : ℤ) : roundEven n = n := le_antisymm (roundEvenLe le_rfl) (leRoundEven le_rfl)

theorem unitPositive (e : ℤ) : (0 : ℚ) < 2 ^ e := zpow_pos (by norm_num) e

theorem roundMagnitudeZero : roundMagnitude 0 = 0 := by
  have zero : roundEven 0 = 0 := by exact_mod_cast roundEvenInt 0
  unfold roundMagnitude
  rw [zero_div,zero,Int.cast_zero,zero_mul]

theorem roundMagnitudeNonneg {q : ℚ} (high : 0 ≤ q) : 0 ≤ roundMagnitude q := by
  have rounded : 0 ≤ roundEven (q / 2 ^ exponent q) :=
    leRoundEven (by simpa using div_nonneg high (unitPositive _).le)
  exact mul_nonneg (by exact_mod_cast rounded) (unitPositive _).le

theorem roundMagnitudeLe {q : ℚ} {k : ℤ} (normal : -149 ≤ k) (high : 0 ≤ q) (low : q ≤ 2 ^ k) :
    roundMagnitude q ≤ 2 ^ k := by
  rcases eq_or_lt_of_le high with zero | positive
  · rw [← zero,roundMagnitudeZero]
    exact (unitPositive k).le
  · have log : Int.log 2 q ≤ k := by
      have mono := Int.log_mono_right (b := 2) positive low
      have power : Int.log 2 ((2 : ℚ) ^ k) = k := by exact_mod_cast Int.log_zpow (R := ℚ) (b := 2) (by norm_num) k
      exact mono.trans_eq power
    have inside : exponent q ≤ k := by
      unfold exponent
      omega
    obtain ⟨d,split⟩ := Int.le.dest inside
    have whole : (2 : ℚ) ^ k = ((2 ^ d : ℤ) : ℚ) * 2 ^ exponent q := by
      rw [← split,zpow_add₀ (by norm_num),mul_comm]
      norm_num
    have scaled : q / 2 ^ exponent q ≤ ((2 ^ d : ℤ) : ℚ) := by
      rw [div_le_iff₀ (unitPositive _),← whole]
      exact low
    have rounded : (roundEven (q / 2 ^ exponent q) : ℚ) ≤ ((2 ^ d : ℤ) : ℚ) := by exact_mod_cast roundEvenLe scaled
    calc roundMagnitude q ≤ ((2 ^ d : ℤ) : ℚ) * 2 ^ exponent q :=
          mul_le_mul_of_nonneg_right rounded (unitPositive _).le
      _ = 2 ^ k := whole.symm

theorem roundFloatZero : roundFloat 0 = 0 := by
  unfold roundFloat
  rw [if_neg (lt_irrefl 0),roundMagnitudeZero]

theorem roundFloatNonpos {q : ℚ} (low : q ≤ 0) : roundFloat q ≤ 0 := by
  rcases eq_or_lt_of_le low with zero | negative
  · rw [zero,roundFloatZero]
  · unfold roundFloat
    rw [if_pos negative]
    exact neg_nonpos.mpr (roundMagnitudeNonneg (neg_nonneg.mpr low))

theorem roundFloatNeg (q : ℚ) : roundFloat (-q) = -roundFloat q := by
  rcases lt_trichotomy q 0 with negative | zero | positive
  · unfold roundFloat
    rw [if_neg (not_lt.mpr (neg_nonneg.mpr negative.le)),if_pos negative,neg_neg]
  · rw [zero,neg_zero,roundFloatZero,neg_zero]
  · unfold roundFloat
    rw [if_pos (neg_neg_iff_pos.mpr positive),if_neg (not_lt.mpr positive.le),neg_neg]

theorem roundFloatLe {q : ℚ} {k : ℤ} (normal : -149 ≤ k) (low : q ≤ 2 ^ k) : roundFloat q ≤ 2 ^ k := by
  rcases le_or_gt q 0 with negative | positive
  · exact (roundFloatNonpos negative).trans (unitPositive k).le
  · unfold roundFloat
    rw [if_neg (not_lt.mpr positive.le)]
    exact roundMagnitudeLe normal positive.le low

theorem leRoundFloat {q : ℚ} {k : ℤ} (normal : -149 ≤ k) (high : -2 ^ k ≤ q) : -2 ^ k ≤ roundFloat q := by
  have mirrored := roundFloatLe normal (neg_le.mpr high)
  rw [roundFloatNeg] at mirrored
  exact neg_le.mp mirrored

end Pjproject.Lib.Rounding
