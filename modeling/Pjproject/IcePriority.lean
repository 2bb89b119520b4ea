import Pjproject.IceCheckList

/-! The priority of a pair as CALC_CHECK_PRIO makes it, in two words of 32 bits, against the number it stands for. -/
namespace Pjproject.Ice

/- pj_timestamp. -/
structure Timestamp where
  hi : UInt32
  lo : UInt32
  deriving DecidableEq, Repr

def Timestamp.number (t : Timestamp) : Nat := t.hi.toNat * 2 ^ 32 + t.lo.toNat

/- CALC_CHECK_PRIO, for the priorities of the local and of the remote candidate. -/
def calcCheckPrioWords (role : Role) (lprio rprio : UInt32) : Timestamp :=
  let (o, a) := if role = .controlling then (lprio, rprio) else (rprio, lprio)
  { hi := if o < a then o else a
    lo := ((if a < o then o else a) <<< 1) + if a < o then 1 else 0 }

/- pj_cmp_timestamp, on the words. -/
def cmpTimestamp (t1 t2 : Timestamp) : Int :=
  if t1.hi < t2.hi ∨ t1.hi = t2.hi ∧ t1.lo < t2.lo then -1
  else if t2.hi < t1.hi ∨ t1.hi = t2.hi ∧ t2.lo < t1.lo then 1
  else 0

/- The formula that the comment in CALC_CHECK_PRIO gives. -/
def pairPriority (controlling controlled : Nat) : Nat :=
  2 ^ 32 * min controlling controlled + 2 * max controlling controlled + if controlled < controlling then 1 else 0

def compareNumbers (a b : Nat) : Int := if a < b then -1 else if b < a then 1 else 0

theorem wordsLess {a b c d : Nat} (fits : b < 2 ^ 32) (fits' : d < 2 ^ 32) :
    a * 2 ^ 32 + b < c * 2 ^ 32 + d ↔ a < c ∨ a = c ∧ b < d := by
  omega

theorem cmpTimestampNumbers (t1 t2 : Timestamp) : cmpTimestamp t1 t2 = compareNumbers t1.number t2.number := by
  unfold cmpTimestamp compareNumbers Timestamp.number
  have less := wordsLess (a := t1.hi.toNat) (c := t2.hi.toNat) t1.lo.toNat_lt t2.lo.toNat_lt
  have more := wordsLess (a := t2.hi.toNat) (c := t1.hi.toNat) t2.lo.toNat_lt t1.lo.toNat_lt
  rw [eq_comm (a := t2.hi.toNat)] at more
  simp only [less,more,UInt32.lt_iff_toNat_lt,← UInt32.toNat_inj]

theorem doubledWraps (x : UInt32) (plus : Bool) :
    ((x <<< 1) + if plus then 1 else 0 : UInt32).toNat = (x.toNat * 2 + plus.toNat) % 2 ^ 32 := by
  have doubled : (x <<< 1).toNat = x.toNat * 2 % 2 ^ 32 := by
    rw [UInt32.toNat_shiftLeft,Nat.shiftLeft_eq]
    rfl
  rw [UInt32.toNat_add,doubled,Nat.mod_add_mod]
  cases plus with
  | false => rfl
  | true => rfl

theorem wordsOf (o a : UInt32) : (Timestamp.mk (if o < a then o else a)
      (((if a < o then o else a) <<< 1) + if a < o then 1 else 0)).number =
    min o.toNat a.toNat * 2 ^ 32 + (max o.toNat a.toNat * 2 + if a.toNat < o.toNat then 1 else 0) % 2 ^ 32 := by
  have low := doubledWraps (if a < o then o else a) (decide (a < o))
  simp only [decide_eq_true_eq] at low
  unfold Timestamp.number
  rw [low]
  simp only [UInt32.lt_iff_toNat_lt]
  by_cases less : a.toNat < o.toNat
  · have other : ¬ o.toNat < a.toNat := Nat.lt_asymm less
    simp only [less,other,if_true,if_false,decide_true,Bool.toNat_true,Nat.min_eq_right (Nat.le_of_lt less),
      Nat.max_eq_left (Nat.le_of_lt less)]
  · have least : (if o.toNat < a.toNat then o else a).toNat = o.toNat := by
      split <;> omega
    simp only [least,less,if_false,decide_false,Bool.toNat_false,Nat.min_eq_left (Nat.not_lt.mp less),
      Nat.max_eq_right (Nat.not_lt.mp less)]

theorem wordsNumber (role : Role) {lcand rcand : Cand} {l r : UInt32} (ownPrio : lcand.prio = l.toNat)
    (otherPrio : rcand.prio = r.toNat) : (calcCheckPrioWords role l r).number = calcCheckPrio role lcand rcand := by
  unfold calcCheckPrioWords calcCheckPrio
  rw [ownPrio,otherPrio]
  by_cases controlling : role = .controlling
  · simp only [if_pos controlling]
    exact wordsOf l r
  · simp only [if_neg controlling]
    exact wordsOf r l

theorem agentsAgree (l r : UInt32) : calcCheckPrioWords .controlling l r = calcCheckPrioWords .controlled r l := rfl

theorem controllingNumber (l r : UInt32) : (calcCheckPrioWords .controlling l r).number =
    min l.toNat r.toNat * 2 ^ 32 + (max l.toNat r.toNat * 2 + if r.toNat < l.toNat then 1 else 0) % 2 ^ 32 :=
  wordsOf l r

theorem controllingFormula (l r : UInt32) :
    (calcCheckPrioWords .controlling l r).number = pairPriority l.toNat r.toNat ↔
      l.toNat < 2 ^ 31 ∧ r.toNat < 2 ^ 31 := by
  rw [controllingNumber]
  unfold pairPriority
  have one : (if r.toNat < l.toNat then 1 else 0) ≤ 1 := by split <;> decide
  generalize (if r.toNat < l.toNat then 1 else 0) = odd at one
  constructor
  · intro same
    omega
  · rintro ⟨left,right⟩
    rw [Nat.mod_eq_of_lt (by omega)]
    omega

theorem pairPriorityExact (l r : UInt32) :
    (calcCheckPrioWords .controlling l r = calcCheckPrioWords .controlled r l ∧
      (calcCheckPrioWords .controlling l r).number = pairPriority l.toNat r.toNat ∧
      ∀ l' r' : UInt32, l'.toNat < 2 ^ 31 → r'.toNat < 2 ^ 31 →
        cmpTimestamp (calcCheckPrioWords .controlling l r) (calcCheckPrioWords .controlling l' r') =
          compareNumbers (pairPriority l.toNat r.toNat) (pairPriority l'.toNat r'.toNat)) ↔
    l.toNat < 2 ^ 31 ∧ r.toNat < 2 ^ 31 := by
  refine ⟨fun holds => (controllingFormula l r).mp holds.2.1,fun small => ?_⟩
  have number := (controllingFormula l r).mpr small
  refine ⟨agentsAgree l r,number,fun l' r' small' small'' => ?_⟩
  rw [cmpTimestampNumbers,number,(controllingFormula l' r').mpr ⟨small',small''⟩]

/- Two remote priorities that are out of range: the pair with the lower ones comes first. -/
theorem highPriorityWraps : ¬ ∀ l r : UInt32,
    calcCheckPrioWords .controlling l r = calcCheckPrioWords .controlled r l ∧
      (calcCheckPrioWords .controlling l r).number = pairPriority l.toNat r.toNat := by
  intro claim
  exact absurd (claim 2130706431 2147483648).2 (by decide)

/- The formula for a check of an agent in a role. -/
def Check.formula (role : Role) (c : Check) : Nat :=
  if role = .controlling then pairPriority c.lcand.prio c.rcand.prio else pairPriority c.rcand.prio c.lcand.prio

theorem prioFormula (role : Role) (c : Check) (priced : c.prio = calcCheckPrio role c.lcand c.rcand) (own : c.lcand.prio < 2 ^ 31)
    (other : c.rcand.prio < 2 ^ 31) : c.prio = c.formula role := by
  have words : ∀ cand : Cand, cand.prio < 2 ^ 31 → cand.prio = (UInt32.ofNat cand.prio).toNat := by
    intro cand small
    exact (UInt32.toNat_ofNat_of_lt' (Nat.lt_trans small (by decide))).symm
  have number := wordsNumber role (words c.lcand own) (words c.rcand other)
  rw [priced,← number]
  unfold Check.formula
  split
  · next controlling =>
    subst controlling
    have exact_ := (controllingFormula (.ofNat c.lcand.prio) (.ofNat c.rcand.prio)).mpr
    rw [← words c.lcand own,← words c.rcand other] at exact_
    exact exact_ ⟨own,other⟩
  · next other_ =>
    have turned : calcCheckPrioWords role (.ofNat c.lcand.prio) (.ofNat c.rcand.prio) =
        calcCheckPrioWords .controlling (.ofNat c.rcand.prio) (.ofNat c.lcand.prio) := by
      unfold calcCheckPrioWords
      rw [if_neg other_,if_pos rfl]
    have exact_ := (controllingFormula (.ofNat c.rcand.prio) (.ofNat c.lcand.prio)).mpr
    rw [← words c.lcand own,← words c.rcand other] at exact_
    rw [turned]
    exact exact_ ⟨other,own⟩

theorem sortedByFormula (role : Role) (list : List Check) (comp : List Comp)
    (priced : ∀ c ∈ list, c.prio = calcCheckPrio role c.lcand c.rcand)
    (small : ∀ c ∈ list, c.lcand.prio < 2 ^ 31 ∧ c.rcand.prio < 2 ^ 31) :
    (sortChecklist list comp).1.Pairwise (fun a b => b.formula role ≤ a.formula role) := by
  obtain ⟨perm,sorted⟩ := sortChecklistSorts list comp
  have number : ∀ c ∈ (sortChecklist list comp).1, c.prio = c.formula role := by
    intro c member
    have inside := perm.mem_iff.mp member
    exact prioFormula role c (priced c inside) (small c inside).1 (small c inside).2
  refine sorted.imp_of_mem ?_
  intro a b left right
  rw [number a left,number b right]
  exact id

theorem sortedPair : (sortChecklist (([1,2] : List Nat).map fun prio =>
      let c : Cand := ⟨0,1,0,.host,[],prio,⟨false,0,0⟩,⟨false,0,0⟩⟩
      ⟨c,c,calcCheckPrio .controlling c c,.frozen,false,0,none⟩) []).1.Pairwise
    fun a b => b.formula .controlling ≤ a.formula .controlling :=
  sortedByFormula .controlling _ [] (by decide) (by decide)

end Pjproject.Ice
