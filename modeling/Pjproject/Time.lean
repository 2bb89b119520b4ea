import Mathlib

/-! Time values of pj/types.h and their normalisation in pj/types.c. `long` is
modelled by `Int`: signed overflow is undefined in the source and no theorem
speaks about it. -/
namespace Pjproject.Time

structure TimeVal where
  sec : Int
  msec : Int
  deriving DecidableEq, Repr

def timeValMsec (t : TimeVal) : Int := t.sec * 1000 + t.msec

def timeValEq (a b : TimeVal) : Bool := a.sec == b.sec && a.msec == b.msec
def timeValGt (a b : TimeVal) : Bool :=
  decide (a.sec > b.sec) || (a.sec == b.sec && decide (a.msec > b.msec))
def timeValGte (a b : TimeVal) : Bool := timeValGt a b || timeValEq a b
def timeValLt (a b : TimeVal) : Bool := !timeValGte a b
def timeValLte (a b : TimeVal) : Bool := !timeValGt a b

/- The do-while loop of the negative branch. The fuel is the number of rounds,
which the caller reads off the value. -/
def normalizeLoop : Nat → TimeVal → TimeVal
  | 0, t => t
  | fuel + 1, t =>
    if t.msec ≤ -1000 then normalizeLoop fuel ⟨t.sec - 1,t.msec + 1000⟩ else t

/- The two halves of pj_time_val_normalize, in the order the source runs them. -/
def normalizeFraction (t : TimeVal) : TimeVal :=
  if t.msec ≥ 1000 then ⟨t.sec + t.msec / 1000,t.msec % 1000⟩
  else if t.msec ≤ -1000 then normalizeLoop t.msec.natAbs t
  else t

def normalizeSign (t : TimeVal) : TimeVal :=
  if t.sec ≥ 1 ∧ t.msec < 0 then ⟨t.sec - 1,t.msec + 1000⟩
  else if t.sec < 0 ∧ t.msec > 0 then ⟨t.sec + 1,t.msec - 1000⟩
  else t

def timeValNormalize (t : TimeVal) : TimeVal := normalizeSign (normalizeFraction t)

def timeValAdd (a b : TimeVal) : TimeVal := timeValNormalize ⟨a.sec + b.sec,a.msec + b.msec⟩
def timeValSub (a b : TimeVal) : TimeVal := timeValNormalize ⟨a.sec - b.sec,a.msec - b.msec⟩

/- What normalisation establishes: a fraction below one second, of the sign of the
seconds. -/
structure Normal (t : TimeVal) : Prop where
  low : -1000 < t.msec
  high : t.msec < 1000
  positive : 1 ≤ t.sec → 0 ≤ t.msec
  negative : t.sec < 0 → t.msec ≤ 0

theorem normalizeLoopMsec (fuel : Nat) (t : TimeVal) : timeValMsec (normalizeLoop fuel t) = timeValMsec t := by
  induction fuel generalizing t with
  | zero => rfl
  | succ fuel ih =>
    unfold normalizeLoop
    split
    · rw [ih]; simp only [timeValMsec]; omega
    · rfl

theorem normalizeLoopBounds (fuel : Nat) (t : TimeVal) (enough : -(fuel : Int) * 1000 ≤ t.msec)
    (start : t.msec ≤ 0) : -1000 < (normalizeLoop fuel t).msec ∧ (normalizeLoop fuel t).msec ≤ 0 := by
  induction fuel generalizing t with
  | zero => unfold normalizeLoop; omega
  | succ fuel ih =>
    unfold normalizeLoop
    split
    · rename_i low
      exact ih ⟨t.sec - 1,t.msec + 1000⟩ (by push_cast at enough ⊢; omega) (by simp only; omega)
    · omega

theorem normalizeMsec (t : TimeVal) : timeValMsec (timeValNormalize t) = timeValMsec t := by
  have fraction : timeValMsec (normalizeFraction t) = timeValMsec t := by
    unfold normalizeFraction
    split
    · simp only [timeValMsec]; omega
    · split
      · exact normalizeLoopMsec _ _
      · rfl
  rw [← fraction,timeValNormalize]
  generalize normalizeFraction t = u
  unfold normalizeSign
  split
  · simp only [timeValMsec]; omega
  · split
    · simp only [timeValMsec]; omega
    · rfl

theorem normalizeNormal (t : TimeVal) : Normal (timeValNormalize t) := by
  have fraction : -1000 < (normalizeFraction t).msec ∧ (normalizeFraction t).msec < 1000 := by
    unfold normalizeFraction
    split
    · simp only; omega
    · split
      · have := normalizeLoopBounds t.msec.natAbs t (by omega) (by omega)
        omega
      · omega
  rw [timeValNormalize]
  generalize normalizeFraction t = u at fraction
  unfold normalizeSign
  split
  · constructor <;> simp only <;> omega
  · split
    · constructor <;> simp only <;> omega
    · constructor <;> omega

theorem subMsec (a b : TimeVal) : timeValMsec (timeValSub a b) = timeValMsec a - timeValMsec b := by
  rw [timeValSub,normalizeMsec]
  simp only [timeValMsec]
  omega

/- The comparison macros order time values lexicographically. -/
instance : LinearOrder TimeVal :=
  LinearOrder.lift' (fun t => toLex (t.sec, t.msec)) (by
    intro a b same
    cases a; cases b
    simpa using same)

theorem ltLex (a b : TimeVal) : a < b ↔ a.sec < b.sec ∨ (a.sec = b.sec ∧ a.msec < b.msec) :=
  Prod.Lex.toLex_lt_toLex

theorem leLex (a b : TimeVal) : a ≤ b ↔ a.sec < b.sec ∨ (a.sec = b.sec ∧ a.msec ≤ b.msec) :=
  Prod.Lex.toLex_le_toLex

theorem timeValGtIff (a b : TimeVal) : timeValGt a b = true ↔ b < a := by
  rw [ltLex]
  simp only [timeValGt,Bool.or_eq_true,Bool.and_eq_true,decide_eq_true_eq,beq_iff_eq]
  omega

theorem timeValLteIff (a b : TimeVal) : timeValLte a b = true ↔ a ≤ b := by
  rw [timeValLte,Bool.not_eq_true',← Bool.not_eq_true,timeValGtIff,not_lt]

theorem timeValGteIff (a b : TimeVal) : timeValGte a b = true ↔ b ≤ a := by
  rw [leLex]
  simp only [timeValGte,timeValGt,timeValEq,Bool.or_eq_true,Bool.and_eq_true,
    decide_eq_true_eq,beq_iff_eq]
  omega

theorem timeValLtIff (a b : TimeVal) : timeValLt a b = true ↔ a < b := by
  rw [timeValLt,Bool.not_eq_true',← Bool.not_eq_true,timeValGteIff,not_le]

theorem Normal.le {a b : TimeVal} (left : Normal a) (right : Normal b) :
    a ≤ b ↔ timeValMsec a ≤ timeValMsec b := by
  rw [leLex]
  obtain ⟨la,ha,pa,na⟩ := left
  obtain ⟨lb,hb,pb,nb⟩ := right
  simp only [timeValMsec]
  omega

theorem Normal.nonnegative {t : TimeVal} (normal : Normal t) : (t.sec < 0 ∨ t.msec < 0) ↔ timeValMsec t < 0 := by
  obtain ⟨low,high,positive,negative⟩ := normal
  simp only [timeValMsec]
  omega

end Pjproject.Time
