import Pjproject.Multipart

/-! Numbers in texts: pj_strtoul3 and pj_strtol2 of string.c, with a long of 64 bits, and strtoi_validate of sip_parser.c. -/
namespace Pjproject.Strtol
open Multipart (Text ascii isWhite isDigit)

inductive Status where
  | success
  | einval
  | etoobig
  | etoosmall
  deriving DecidableEq

def maxULong : Nat := 2 ^ 64 - 1
def maxLong : Int := 2 ^ 63 - 1
def minLong : Int := -2 ^ 63

/- The bases that are supported. -/
structure Base where
  value : Nat
  positive : 0 < value
  known : value ≤ 10 ∨ value = 16

def decimal : Base := ⟨10,by decide,.inl (Nat.le_refl 10)⟩

def strltrim (str : Text) : Text := str.dropWhile isWhite

/- pj_isxdigit with pj_hex_digit_to_val for base 16. Characters are signed; one above 127 is below '0'. -/
def digit (base : Nat) (c : UInt8) : Option Nat :=
  if base ≤ 10 then (if 48 ≤ c.toNat ∧ c.toNat ≤ 47 + base then some (c.toNat - 48) else none)
  else if isDigit c then some (c.toNat - 48)
  else if 65 ≤ c ∧ c ≤ 70 then some (c.toNat - 55)
  else if 97 ≤ c ∧ c ≤ 102 then some (c.toNat - 87)
  else none

/- The loops of both kinds of bases. -/
def strtoulLoop (base : Nat) : Nat → Text → Status × Nat
  | value, [] => (.success, value)
  | value, c :: rest =>
    match digit base c with
    | none => (.success, value)
    | some d =>
      if maxULong / base < value then (.etoobig, maxULong)
      else if maxULong - value * base < d then (.etoobig, maxULong)
      else strtoulLoop base (value * base + d) rest

/- The status, and *value when it is written. -/
def strtoul3 (str : Text) (base : Base) : Status × Option Nat :=
  match strltrim str with
  | [] => (.einval, none)
  | c :: rest =>
    if digit base.value c = none then (.einval, none)
    else
      let r := strtoulLoop base.value 0 (c :: rest)
      (r.1, some r.2)

/- The negation of the least long is undefined, and taken to leave it as it is. -/
def strtol2 (str : Text) : Status × Option Int :=
  match strltrim str with
  | [] => (.einval, none)
  | c :: rest =>
    let isNegative := c = 45
    let r := strtoul3 (if c = 43 ∨ c = 45 then rest else c :: rest) decimal
    match r with
    | (.success, some retval) =>
      if maxLong < retval ∧ ¬isNegative then (.etoobig, some maxLong)
      else if maxLong + 1 < retval ∧ isNegative then (.etoosmall, some minLong)
      else (.success, some (if isNegative then -(retval : Int) else retval))
    | (.einval, _) => (.einval, none)
    | _ => if isNegative then (.etoosmall, some minLong) else (.etoobig, some maxLong)

/- The status, with which on_str_parse_error throws unless it is PJ_SUCCESS, and *value when it is written. -/
def strtoiValidate (str : Text) (minVal maxVal : Int32) : Status × Option Int :=
  match strtol2 str with
  | (.einval, _) => (.einval, none)
  | (status, retval) =>
    if retval.any (· < minVal.toInt) then (.etoosmall, some minVal.toInt)
    else if retval.any (maxVal.toInt < ·) then (.etoobig, some maxVal.toInt)
    else (status, retval)

/- The digits a text begins with, and the number they denote. -/
def digits (base : Nat) (str : Text) : List Nat := (str.map (digit base)).takeWhile Option.isSome |>.reduceOption

def number (base : Nat) (start : Nat) (ds : List Nat) : Nat := ds.foldl (fun n d => n * base + d) start

variable {base : Nat} {c : UInt8} {d : Nat} {rest : Text}

theorem digitsStop (stop : digit base c = none) : digits base (c :: rest) = [] := by
  simp [digits,stop,List.reduceOption]

theorem digitsMore (some_ : digit base c = some d) : digits base (c :: rest) = d :: digits base rest := by
  simp [digits,some_,List.reduceOption]

theorem numberLeast (positive : 0 < base) (start : Nat) (ds : List Nat) : start ≤ number base start ds := by
  induction ds generalizing start with
  | nil => exact Nat.le_refl start
  | cons d ds ih => exact Nat.le_trans (Nat.le_trans (Nat.le_mul_of_pos_right start positive) (Nat.le_add_right _ d)) (ih _)

theorem loopNumber (positive : 0 < base) (str : Text) (value : Nat) (fits : value ≤ maxULong) :
    strtoulLoop base value str = if number base value (digits base str) ≤ maxULong
      then (.success, number base value (digits base str)) else (.etoobig, maxULong) := by
  induction str generalizing value with
  | nil => exact (if_pos fits).symm
  | cons c rest ih =>
    unfold strtoulLoop
    cases found : digit base c with
    | none => rw [digitsStop found]; exact (if_pos fits).symm
    | some d =>
      have least : value * base + d ≤ number base value (d :: digits base rest) := numberLeast positive _ _
      rw [digitsMore found]
      dsimp only
      split
      next large =>
        have beyond : maxULong < value * base := (Nat.div_lt_iff_lt_mul positive).mp large
        rw [if_neg (by omega)]
      next small =>
        have room : value * base ≤ maxULong := (Nat.le_div_iff_mul_le positive).mp (Nat.le_of_not_lt small)
        split
        · rw [if_neg (by omega)]
        · exact ih _ (by omega)

/- What is made of the digits. -/
def judged (base : Nat) : List Nat → Status × Option Nat
  | [] => (.einval, none)
  | ds => if number base 0 ds ≤ maxULong then (.success, some (number base 0 ds)) else (.etoobig, some maxULong)

theorem strtoul3Is (str : Text) (base : Base) :
    strtoul3 str base = judged base.value (digits base.value (strltrim str)) := by
  unfold strtoul3
  cases strltrim str with
  | nil => rfl
  | cons c rest =>
    dsimp only
    cases found : digit base.value c with
    | none => rw [digitsStop found]; rfl
    | some =>
      have loop := loopNumber base.positive (c :: rest) 0 (Nat.zero_le _)
      rw [if_neg nofun,loop,digitsMore found]
      unfold judged
      dsimp only
      split <;> rfl

/- The number with its sign, blanks before and behind it left out. -/
def signed (str : Text) : Option Int :=
  match strltrim str with
  | [] => none
  | c :: rest =>
    match digits 10 (strltrim (if c = 43 ∨ c = 45 then rest else c :: rest)) with
    | [] => none
    | ds => some (if c = 45 then -(number 10 0 ds : Int) else number 10 0 ds)

def clamped : Option Int → Status × Option Int
  | none => (.einval, none)
  | some z => if maxLong < z then (.etoobig, some maxLong) else if z < minLong then (.etoosmall, some minLong)
    else (.success, some z)

theorem strtol2Is (str : Text) : strtol2 str = clamped (signed str) := by
  unfold strtol2 signed
  cases strltrim str with
  | nil => rfl
  | cons c rest =>
    dsimp only
    rw [strtoul3Is]
    dsimp only [decimal]
    cases digits 10 (strltrim (if c = 43 ∨ c = 45 then rest else c :: rest)) with
    | nil => rfl
    | cons d ds =>
      dsimp only [judged]
      generalize number 10 0 (d :: ds) = n
      have limits : maxULong = 2 ^ 64 - 1 ∧ maxLong = 2 ^ 63 - 1 ∧ minLong = -2 ^ 63 := ⟨rfl,rfl,rfl⟩
      by_cases fits : n ≤ maxULong
      · rw [if_pos fits]
        dsimp only
        by_cases negative : c = 45
        · rw [if_neg fun both => both.2 negative,if_pos negative]
          by_cases small : maxLong + 1 < n
          · rw [if_pos ⟨small,negative⟩,clamped,if_neg (by omega),if_pos (by omega)]
          · rw [if_neg (small ∘ And.left),clamped,if_neg (by omega),if_neg (by omega)]
        · rw [if_neg negative,if_neg (negative ∘ And.right)]
          by_cases large : maxLong < n
          · rw [if_pos ⟨large,negative⟩,clamped,if_pos large]
          · rw [if_neg (large ∘ And.left),clamped,if_neg large,if_neg (by omega)]
      · rw [if_neg fits]
        dsimp only
        by_cases negative : c = 45
        · rw [if_pos negative,if_pos negative,clamped,if_neg (by omega),if_pos (by omega)]
        · rw [if_neg negative,if_neg negative,clamped,if_pos (by omega)]

/- A number judged by two limits, and what is stored in its place. -/
def limited (least most : Int) : Option Int → Status × Option Int
  | none => (.einval, none)
  | some z => if z < least then (.etoosmall, some least) else if most < z then (.etoobig, some most)
    else (.success, some z)

/- A text is read as the number that it begins with, or the caller is told that this one is too big or too small. -/
theorem numbersExactly (str : Text) :
    (∀ base : Base, strtoul3 str base = judged base.value (digits base.value (strltrim str))) ∧
    strtol2 str = clamped (signed str) ∧ ∀ minVal maxVal : Int32,
      strtoiValidate str minVal maxVal = limited minVal.toInt maxVal.toInt (signed str) := by
  refine ⟨strtoul3Is str,strtol2Is str,fun minVal maxVal => ?_⟩
  unfold strtoiValidate
  rw [strtol2Is]
  have limits : maxLong = 2 ^ 63 - 1 ∧ minLong = -2 ^ 63 := ⟨rfl,rfl⟩
  have lowest := Int32.le_toInt minVal
  have notHigh := Int32.toInt_lt minVal
  have notLow := Int32.le_toInt maxVal
  have highest := Int32.toInt_lt maxVal
  cases signed str with
  | none => rfl
  | some z =>
    unfold clamped limited
    dsimp only
    by_cases large : maxLong < z
    · rw [if_pos large,if_neg (by omega),if_pos (by omega)]
      dsimp only
      rw [if_neg (by simp; omega),if_pos (by simp; omega)]
    · rw [if_neg large]
      by_cases small : z < minLong
      · rw [if_pos small,if_pos (by omega)]
        dsimp only
        rw [if_pos (by simp; omega)]
      · rw [if_neg small]
        simp only [Option.any_some,decide_eq_true_eq]

end Pjproject.Strtol
