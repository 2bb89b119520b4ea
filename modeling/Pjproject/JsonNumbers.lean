import Pjproject.JsonModel
import Pjproject.MultipartHeaders

/-! Numbers of JSON elements: an integer that is a float is read back exactly when it fits in 63 bits. -/
namespace Pjproject.Json
open Multipart (Text ascii cur digits isDigit)
open Scan
open Lib.Rounding

def Integral (num : ℚ) : Prop := ∃ z : ℤ, num = z ∧ roundFloat num = num

section Digits

theorem digitByte {n : Nat} {d : Char} (member : d ∈ Nat.toDigits 10 n) :
    (UInt8.ofNat d.toNat).toNat = d.toNat ∧ 48 ≤ d.toNat ∧ d.toNat ≤ 57 := by
  have known := Nat.isDigit_of_mem_toDigits (by decide) (by decide) member
  unfold Char.isDigit at known
  simp only [Bool.and_eq_true,decide_eq_true_eq] at known
  have low : 48 ≤ d.toNat := UInt32.le_iff_toNat_le.mp known.1
  have high : d.toNat ≤ 57 := UInt32.le_iff_toNat_le.mp known.2
  exact ⟨UInt8.toNat_ofNat_of_lt' (Nat.lt_of_le_of_lt high (by decide)),low,high⟩

theorem digitRange {n : Nat} {c : UInt8} (mem : c ∈ digits n) : 48 ≤ c ∧ c ≤ 57 := by
  obtain ⟨d,member,rfl⟩ := List.mem_map.mp mem
  obtain ⟨byte,low,high⟩ := digitByte member
  constructor
  · rw [UInt8.le_iff_toNat_le,byte]
    exact low
  · rw [UInt8.le_iff_toNat_le,byte]
    exact high

theorem digitIsDigit {n : Nat} {c : UInt8} (mem : c ∈ digits n) : isDigit c = true := by
  unfold isDigit
  simpa using digitRange mem

theorem digitsNonempty (n : Nat) : digits n ≠ [] := by
  intro empty
  exact Nat.toDigits_ne_nil (List.map_eq_nil_iff.mp empty)

theorem foldModulo (m : Nat) (s : List Nat) (a b : Nat) (same : a = b % m) :
    s.foldl (fun value c => (value * 10 + c) % m) a = s.foldl (fun value c => value * 10 + c) b % m := by
  induction s generalizing a b with
  | nil => exact same
  | cons c s ih =>
    subst same
    exact ih _ _ (((Nat.mod_modEq b m).mul_right 10).add_right c)

theorem digitsTaken (n : Nat) (rest : Text) (stop : isDigit (cur rest) = false) :
    (digits n ++ rest).takeWhile isDigit = digits n :=
  (Multipart.takeRun (digits n) (fun _ mem => digitIsDigit mem) stop).1

theorem strtoulDigits (n : Nat) : strtoul (digits n) = n % 2 ^ 64 := by
  have all : (digits n).takeWhile isDigit = digits n := by
    have taken := digitsTaken n [] rfl
    rw [List.append_nil] at taken
    exact taken
  have values : (digits n).map (fun c => c.toNat - 48) = (Nat.toDigits 10 n).map (fun c => c.toNat - 48) := by
    unfold digits
    rw [List.map_map]
    refine List.map_congr_left (fun d member => ?_)
    exact congrArg (· - 48) (digitByte member).1
  have read : ((Nat.toDigits 10 n).map (fun c => c.toNat - 48)).foldl (fun value c => value * 10 + c) 0 = n := by
    have known := Nat.ofDigitChars_ten_toDigits (n := n)
    rw [Nat.ofDigitChars_eq_foldl] at known
    rw [List.foldl_map]
    simp only [Nat.mul_comm 10] at known
    exact known
  unfold strtoul
  rw [all,← List.foldl_map (f := fun c : UInt8 => c.toNat - 48)
    (g := fun value c => (value * 10 + c) % 2 ^ 64),values,foldModulo (2 ^ 64) _ 0 0 rfl,read]

theorem strtolSmall {n : Nat} (small : n < 2 ^ 63) : strtol (digits n) = n := by
  have value : strtoul (digits n) = n := by
    rw [strtoulDigits]
    exact Nat.mod_eq_of_lt (by omega)
  unfold strtol
  rw [value,if_pos small]

theorem strtolLarge {n : Nat} (large : 2 ^ 63 ≤ n) :
    -2 ^ 63 ≤ strtol (digits n) ∧ strtol (digits n) < 2 ^ 63 ∧ (strtol (digits n) ≤ 0 ∨ 2 ^ 63 < n) := by
  unfold strtol
  rw [strtoulDigits]
  split <;> omega

end Digits

section Written

def signText (z : ℤ) : Text := if z < 0 then [minus] else []

def zeros : Text := ascii ".000000"

theorem toIntInt {z : ℤ} : toInt z = if -2 ^ 31 ≤ z ∧ z < 2 ^ 31 then z else -2 ^ 31 := by
  unfold toInt
  rw [Int.floor_intCast,Int.ceil_intCast,ite_self]

theorem printFloatInt (z : ℤ) : printFloat z = signText z ++ digits z.natAbs ++ zeros := by
  have micros : (roundEven (|(z : ℚ)| * 1000000)).toNat = z.natAbs * 1000000 := by
    have whole : |(z : ℚ)| * 1000000 = ((z.natAbs * 1000000 : ℤ) : ℚ) := by
      push_cast
      rfl
    rw [whole,roundEvenInt]
    omega
  have sign : (if (z : ℚ) < 0 then [minus] else []) = signText z := by
    unfold signText
    norm_num
  have fraction : List.replicate (6 - (digits 0).length) 48 ++ digits 0 = ascii "000000" := by decide
  unfold printFloat
  dsimp only
  rw [micros,sign,Nat.mul_mod_left,Nat.mul_div_cancel _ (by norm_num),List.append_assoc _ _ (digits 0),fraction]
  simp [zeros,ascii,dot]

theorem numberWritten {num : ℚ} {z : ℤ} (int : num = z) (float : roundFloat num = num) :
    ∃ fraction, (fraction = [] ∨ fraction = zeros) ∧ numberText num = signText z ++ digits z.natAbs ++ fraction := by
  subst int
  unfold numberText
  rw [toIntInt]
  by_cases inside : -2 ^ 31 ≤ z ∧ z < 2 ^ 31
  · rw [if_pos inside,if_pos float.symm]
    exact ⟨[],Or.inl rfl,(List.append_nil _).symm⟩
  · rw [if_neg inside]
    have other : ¬ (z : ℚ) = roundFloat ((-2 ^ 31 : ℤ) : ℚ) := by
      intro same
      have high : roundFloat ((-2 ^ 31 : ℤ) : ℚ) ≤ 0 := roundFloatNonpos (by norm_num)
      have low : -2 ^ (31 : ℤ) ≤ roundFloat ((-2 ^ 31 : ℤ) : ℚ) := leRoundFloat (by norm_num) (by norm_num)
      rw [← same] at high low
      have high : z ≤ 0 := by exact_mod_cast high
      have low : -2 ^ 31 ≤ z := by exact_mod_cast low
      exact inside ⟨low,by omega⟩
    rw [if_neg other]
    exact ⟨zeros,Or.inr rfl,printFloatInt z⟩

theorem wholePart {fraction : Text} (form : fraction = [] ∨ fraction = zeros) (n : Nat) :
    (digits n ++ fraction).takeWhile (· ≠ dot) = digits n ∧ (digits n ++ fraction).dropWhile (· ≠ dot) = fraction := by
  have noDot : ∀ c ∈ digits n, decide (c ≠ dot) = true := by
    intro c mem
    have low := (digitRange mem).1
    refine decide_eq_true (fun same => ?_)
    rw [same] at low
    exact absurd low (by decide)
  rw [List.takeWhile_append_of_pos noDot,List.dropWhile_append_of_pos noDot]
  rcases form with rfl | rfl
  · exact ⟨List.append_nil _,rfl⟩
  · exact ⟨List.append_nil _,rfl⟩

theorem strtofWritten {fraction : Text} (form : fraction = [] ∨ fraction = zeros) (n : Nat) :
    strtof (digits n ++ fraction) = roundFloat (strtol (digits n)) ∨
      strtof (digits n ++ fraction) = roundFloat (roundFloat (strtol (digits n))) := by
  obtain ⟨whole,part⟩ := wholePart form n
  unfold strtof
  dsimp only
  rw [whole,part,if_neg (digitsNonempty n)]
  rcases form with rfl | rfl
  · exact Or.inl (if_pos rfl)
  · have nothing : quotient (roundFloat (strtoul zeros.tail)) (fdiv (zeros.tail.takeWhile isDigit).length) = 0 := by
      have zero : strtoul zeros.tail = 0 := by decide
      unfold quotient
      rw [zero,Nat.cast_zero,roundFloatZero,zero_div,roundFloatZero,ite_self]
    right
    rw [nothing,if_neg (by decide),add_zero,sub_zero,ite_self]

theorem getFloat {fraction rest : Text} (form : fraction = [] ∨ fraction = zeros) (n : Nat)
    (stop : isFloat (cur rest) = false) :
    Scan.get isFloat (digits n ++ fraction ++ rest) = some (digits n ++ fraction, autoSkip rest) := by
  have all : ∀ c ∈ digits n ++ fraction, isFloat c = true := by
    intro c mem
    rcases List.mem_append.mp mem with digit | zero
    · unfold isFloat
      rw [digitIsDigit digit,Bool.or_true]
    · rcases form with rfl | rfl
      · exact nomatch zero
      · have known : ∀ d ∈ zeros, isFloat d = true := by decide +kernel
        exact known c zero
  obtain ⟨taken,dropped⟩ := Multipart.takeRun (digits n ++ fraction) all stop
  have first : isFloat (cur (digits n ++ fraction ++ rest)) = true := by
    cases found : digits n with
    | nil => exact absurd found (digitsNonempty n)
    | cons c =>
      rw [found] at all
      exact all c (List.mem_append_left _ (List.mem_cons_self ..))
  unfold Scan.get
  rw [if_pos first,taken,dropped]

theorem digitsStart (n : Nat) (s : Text) : cur (digits n ++ s) ≠ minus ∧ isBlank (cur (digits n ++ s)) = false := by
  cases found : digits n with
  | nil => exact absurd found (digitsNonempty n)
  | cons c =>
    have low : 48 ≤ c := (digitRange (found ▸ List.mem_cons_self ..)).1
    constructor
    · intro same
      have same : c = minus := same
      exact absurd (same ▸ low) (by decide)
    · have other : c ≠ 32 := by
        rintro rfl
        exact absurd low (by decide)
      exact notBlank (UInt8.le_trans (by decide) low) other

theorem parseWritten {fraction rest : Text} (form : fraction = [] ∨ fraction = zeros) (z : ℤ)
    (stop : isFloat (cur rest) = false) : parseNumber (signText z ++ digits z.natAbs ++ fraction ++ rest) =
      some (if z < 0 then -strtof (digits z.natAbs ++ fraction) else strtof (digits z.natAbs ++ fraction),
        autoSkip rest) := by
  have start := digitsStart z.natAbs (fraction ++ rest)
  rw [← List.append_assoc] at start
  have read := getFloat form z.natAbs stop
  unfold parseNumber signText
  by_cases negative : z < 0
  · have sign : cur ([minus] ++ digits z.natAbs ++ fraction ++ rest) = minus := rfl
    have char : getChar ([minus] ++ digits z.natAbs ++ fraction ++ rest) =
        some (minus, digits z.natAbs ++ fraction ++ rest) := by
      unfold getChar
      rw [sign,if_neg (by decide)]
      exact congrArg (fun s => some (minus, s)) (autoStays start.2)
    rw [if_pos negative,if_pos negative,if_pos sign,char]
    simp only [Option.bind_eq_bind,Option.map_some,Option.bind_some,read]
    rfl
  · rw [if_neg negative,if_neg negative,List.nil_append,if_neg start.1]
    simp only [Option.bind_eq_bind,Option.bind_some,read]
    rfl

end Written

theorem magnitudeRead {fraction : Text} (form : fraction = [] ∨ fraction = zeros) {n : Nat}
    (float : roundFloat (n : ℚ) = n) :
    (n < 2 ^ 63 → strtof (digits n ++ fraction) = n) ∧ (2 ^ 63 ≤ n → strtof (digits n ++ fraction) < n) := by
  constructor
  · intro small
    have exact_ : roundFloat (strtol (digits n) : ℚ) = n := by
      rw [strtolSmall small]
      exact_mod_cast float
    rcases strtofWritten form n with once | twice
    · rw [once,exact_]
    · rw [twice,exact_,float]
  · intro large
    obtain ⟨-,high,either⟩ := strtolLarge large
    have high : ((strtol (digits n) : ℤ) : ℚ) ≤ 2 ^ (63 : ℤ) := by
      have cast : ((strtol (digits n) : ℤ) : ℚ) < 2 ^ 63 := by exact_mod_cast high
      exact_mod_cast cast.le
    have once := roundFloatLe (by norm_num) high
    have twice := roundFloatLe (by norm_num) once
    rcases either with negative | long
    · have negative : ((strtol (digits n) : ℤ) : ℚ) ≤ 0 := by exact_mod_cast negative
      have positive : (0 : ℚ) < n := by
        have positive : 0 < n := by omega
        exact_mod_cast positive
      have below := roundFloatNonpos negative
      rcases strtofWritten form n with read | read <;> rw [read]
      · exact below.trans_lt positive
      · exact (roundFloatNonpos below).trans_lt positive
    · have long : (2 : ℚ) ^ (63 : ℤ) < n := by exact_mod_cast long
      rcases strtofWritten form n with read | read <;> rw [read]
      · exact once.trans_lt long
      · exact twice.trans_lt long

theorem numberChars {num : ℚ} (integral : Integral num) :
    numberText num ≠ [] ∧ ∀ c ∈ numberText num, isFloat c = true ∨ c = minus := by
  obtain ⟨z,int,float⟩ := integral
  obtain ⟨fraction,form,written⟩ := numberWritten int float
  rw [written]
  constructor
  · intro empty
    exact digitsNonempty _ (List.append_eq_nil_iff.mp (List.append_eq_nil_iff.mp empty).1).2
  · intro c mem
    rcases List.mem_append.mp mem with whole | part
    · rcases List.mem_append.mp whole with sign | digit
      · unfold signText at sign
        split at sign
        · exact Or.inr (List.mem_singleton.mp sign)
        · exact nomatch sign
      · left
        unfold isFloat
        rw [digitIsDigit digit,Bool.or_true]
    · rcases form with rfl | rfl
      · exact nomatch part
      · have known : ∀ d ∈ zeros, isFloat d = true := by decide +kernel
        exact Or.inl (known c part)

theorem numberRead {num : ℚ} {rest : Text} (integral : Integral num) (stop : isFloat (cur rest) = false) :
    ∃ val, parseNumber (numberText num ++ rest) = some (val, autoSkip rest) ∧ (val = num ↔ |num| < 2 ^ 63) := by
  obtain ⟨z,int,float⟩ := integral
  obtain ⟨fraction,form,written⟩ := numberWritten int float
  refine ⟨_,written ▸ parseWritten form z stop,?_⟩
  have size : |num| = z.natAbs := by
    rw [int,Nat.cast_natAbs,Int.cast_abs]
  have rounded : roundFloat (z.natAbs : ℚ) = z.natAbs := by
    rw [← size]
    rcases abs_choice num with same | mirrored
    · rw [same,float]
    · rw [mirrored,roundFloatNeg,float]
  obtain ⟨below,above⟩ := magnitudeRead form rounded
  have bound : |num| < 2 ^ 63 ↔ z.natAbs < 2 ^ 63 := by
    rw [size]
    exact_mod_cast Iff.rfl
  have same : (if z < 0 then -strtof (digits z.natAbs ++ fraction) else strtof (digits z.natAbs ++ fraction)) = num ↔
      strtof (digits z.natAbs ++ fraction) = z.natAbs := by
    rw [← size]
    split
    · rename_i negative
      have sign : |num| = -num := abs_of_neg (by rw [int]; exact_mod_cast negative)
      rw [sign]
      exact neg_eq_iff_eq_neg
    · rename_i positive
      have sign : |num| = num := abs_of_nonneg (by rw [int]; exact_mod_cast Int.not_lt.mp positive)
      rw [sign]
  rw [same,bound]
  constructor
  · intro equal
    by_contra large
    exact absurd equal (above (Nat.not_lt.mp large)).ne
  · exact below

end Pjproject.Json
