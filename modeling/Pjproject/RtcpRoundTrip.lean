import Pjproject.Rtcp

/-! The round-trip time that parse_rtcp_report takes from LSR and DLSR of a report, beside arrival, sending and holding on a
clock that does not wrap. -/
namespace Pjproject.Rtcp

/- pj_math_stat without its squares; the mean is a rounded floating point number. -/
structure MathStat where
  n : Nat
  max : Int32
  min : Int32
  last : Int32
  mean : Int32

structure NtpRec where
  hi : UInt32
  lo : UInt32

def normalizeFactor : UInt32 := 3

section Code
variable (meanAfter : MathStat → Int32 → Int32)

def MathStat.update (stat : MathStat) (val : Int32) : MathStat where
  n := stat.n + 1
  last := val
  min := if stat.n = 0 ∨ val < stat.min then val else stat.min
  max := if stat.n = 0 ∨ stat.max < val then val else stat.max
  mean := meanAfter stat val

/- The middle 32 bits of the current time. -/
def NtpRec.middle (ntp : NtpRec) : UInt32 := ((ntp.hi &&& 0xFFFF) <<< 16) + (ntp.lo >>> 16)

/- From 1/65536 of a second to microseconds. -/
def toUsec (eedelay : UInt64) : UInt64 :=
  if eedelay < 4294 then (eedelay * 1000000) >>> 16 else ((eedelay * 1000) >>> 16) * 1000

/- A value that is exceptionally high becomes a multiple of the average. -/
def MathStat.normalize (stat : MathStat) (rtt : UInt32) : UInt32 :=
  if stat.mean.toUInt32 * normalizeFactor < rtt ∧ stat.n ≠ 0 then stat.mean.toUInt32 * normalizeFactor else rtt

def roundTrip (ntp : NtpRec) (report : Report) (rtt : MathStat) : MathStat :=
  let dlsr := report.dlsr.getD 0
  if report.lsr ≠ 0 ∧ dlsr ≠ 0 then
    let now := ntp.middle
    let eedelay := toUsec (now - report.lsr - dlsr).toUInt64
    if now - dlsr ≥ report.lsr then
      if eedelay > 30 * 1000 * 1000 then rtt else rtt.update meanAfter (rtt.normalize eedelay.toUInt32).toInt32
    else rtt
  else rtt

end Code

/- A report that was sent and answered: arrival in 1/2^32 of a second, sending and holding in 1/65536. -/
structure Exchange where
  arrived : Nat
  sent : Nat
  held : UInt32

namespace Exchange

def ntp (x : Exchange) : NtpRec := ⟨UInt32.ofNat (x.arrived / 2 ^ 32),UInt32.ofNat x.arrived⟩

def lsr (x : Exchange) : UInt32 := UInt32.ofNat x.sent

/- DLSR is looked at only when LSR is not zero. -/
def report (x : Exchange) (totalLost jitter : UInt32) : Report := ⟨totalLost,jitter,x.lsr,if x.lsr = 0 then none else some x.held⟩

/- The true round-trip time, in 1/2^32 of a second. -/
def trip (x : Exchange) : Int := x.arrived - (x.sent + x.held.toNat) * 2 ^ 16

def Sensible (x : Exchange) : Prop := 0 ≤ x.trip ∧ x.trip ≤ 30 * 2 ^ 32

instance (x : Exchange) : Decidable x.Sensible := inferInstanceAs (Decidable (_ ∧ _))

/- Microseconds up to rounding: of the arrival to 1/65536 of a second, and of the result to a microsecond, or to a millisecond
from 65 of them on. -/
def Close (x : Exchange) (usec : UInt32) : Prop :=
  usec.toNat * 2 ^ 32 ≤ x.trip * 1000000 ∧
    x.trip * 1000000 < (usec.toNat + (if x.trip < 4294 * 2 ^ 16 then 17 else 1016)) * 2 ^ 32

end Exchange

section Arithmetic
variable {x : Exchange}

theorem middleIs (x : Exchange) : x.ntp.middle = UInt32.ofNat (x.arrived / 2 ^ 16) := by
  refine UInt32.toNat_inj.mp ?_
  unfold NtpRec.middle Exchange.ntp
  simp only [UInt32.toNat_add,UInt32.toNat_shiftLeft,UInt32.toNat_shiftRight,UInt32.toNat_and,UInt32.toNat_ofNat']
  have low : ∀ n : Nat, n &&& UInt32.toNat 0xFFFF = n % 2 ^ 16 := fun n => Nat.and_two_pow_sub_one_eq_mod n 16
  rw [low,show UInt32.toNat 16 % 32 = 16 from rfl,Nat.shiftLeft_eq,Nat.shiftRight_eq_div_pow]
  omega

/- What the trip is in 1/65536 of a second, the fraction of the arrival cut off. -/
def Exchange.units (x : Exchange) : Nat := x.arrived / 2 ^ 16 - (x.sent + x.held.toNat)

theorem sensibleUnits (sensible : x.Sensible) : x.arrived / 2 ^ 16 = x.sent + x.held.toNat + x.units ∧ x.units ≤ 30 * 2 ^ 16 ∧
    x.units * 2 ^ 16 ≤ x.trip ∧ x.trip < (x.units + 1) * 2 ^ 16 := by
  obtain ⟨after,within⟩ := sensible
  unfold Exchange.trip at *
  unfold Exchange.units
  refine ⟨?_,?_,?_,?_⟩ <;> omega

theorem delayIs (sensible : x.Sensible) : (x.ntp.middle - x.lsr - x.held).toNat = x.units := by
  obtain ⟨arrived,most,_⟩ := sensibleUnits sensible
  rw [middleIs,arrived]
  unfold Exchange.lsr
  simp only [UInt32.toNat_sub,UInt32.toNat_ofNat']
  have held := x.held.toNat_lt
  omega

theorem guardIs (sensible : x.Sensible) : x.lsr ≤ x.ntp.middle - x.held ↔ x.lsr.toNat + x.units < 2 ^ 32 := by
  obtain ⟨arrived,most,_⟩ := sensibleUnits sensible
  rw [UInt32.le_iff_toNat_le,middleIs,arrived]
  unfold Exchange.lsr
  simp only [UInt32.toNat_sub,UInt32.toNat_ofNat']
  have held := x.held.toNat_lt
  omega

theorem usecIs {units : UInt32} (most : units.toNat ≤ 30 * 2 ^ 16) : (toUsec units.toUInt64).toNat =
    if units.toNat < 4294 then units.toNat * 1000000 / 2 ^ 16 else units.toNat * 1000 / 2 ^ 16 * 1000 := by
  have small : units.toUInt64 < 4294 ↔ units.toNat < 4294 := by
    rw [UInt64.lt_iff_toNat_lt,UInt32.toNat_toUInt64]
    rfl
  unfold toUsec
  by_cases less : units.toNat < 4294
  · rw [if_pos (small.mpr less),if_pos less]
    simp only [UInt64.toNat_shiftRight,UInt64.toNat_mul,UInt32.toNat_toUInt64,UInt64.toNat_ofNat,
      Nat.shiftRight_eq_div_pow,Nat.reduceMod,Nat.reducePow]
    omega
  · rw [if_neg (fun h => less (small.mp h)),if_neg less]
    simp only [UInt64.toNat_shiftRight,UInt64.toNat_mul,UInt32.toNat_toUInt64,UInt64.toNat_ofNat,
      Nat.shiftRight_eq_div_pow,Nat.reduceMod,Nat.reducePow]
    have whole : units.toNat * 1000 % 18446744073709551616 = units.toNat * 1000 := Nat.mod_eq_of_lt (by omega)
    rw [whole]
    exact Nat.mod_eq_of_lt (by omega)

theorem usecClose (sensible : x.Sensible) {units : UInt32} (same : units.toNat = x.units) :
    (toUsec units.toUInt64).toNat ≤ 30 * 1000 * 1000 ∧ x.Close (toUsec units.toUInt64).toUInt32 := by
  obtain ⟨_,most,low,high⟩ := sensibleUnits sensible
  have usec := usecIs (same ▸ most)
  rw [same] at usec
  have small : (toUsec units.toUInt64).toNat ≤ 30 * 1000 * 1000 := by
    rw [usec]
    split <;> omega
  have word : (toUsec units.toUInt64).toUInt32.toNat = (toUsec units.toUInt64).toNat := by
    rw [UInt64.toNat_toUInt32]
    omega
  refine ⟨small,?_⟩
  unfold Exchange.Close
  rw [word,usec]
  by_cases less : x.units < 4294
  · rw [if_pos less,if_pos (by omega)]
    constructor <;> omega
  · rw [if_neg less,if_neg (by omega)]
    constructor <;> omega

end Arithmetic

section Measuring
variable {meanAfter : MathStat → Int32 → Int32} {x : Exchange} {totalLost jitter : UInt32} {stat : MathStat}

/- The statistics take one more sample: the true value up to rounding, or what the normalization makes of it. -/
def Measures (meanAfter : MathStat → Int32 → Int32) (x : Exchange) (totalLost jitter : UInt32) (stat : MathStat) : Prop :=
  ∃ usec : UInt32, x.Close usec ∧ roundTrip meanAfter x.ntp (x.report totalLost jitter) stat =
    stat.update meanAfter (stat.normalize usec).toInt32

/- A report tells of a sender report when LSR and DLSR are present; and the comparison needs that the clock does not wrap between
sending and the arrival less the holding. -/
def Exchange.Straight (x : Exchange) : Prop := x.lsr ≠ 0 ∧ x.held ≠ 0 ∧ x.lsr.toNat + x.units < 2 ^ 32

theorem presentDlsr (x : Exchange) : (x.report totalLost jitter).lsr ≠ 0 ∧ (x.report totalLost jitter).dlsr.getD 0 ≠ 0 ↔
    x.lsr ≠ 0 ∧ x.held ≠ 0 := by
  unfold Exchange.report
  by_cases present : x.lsr = 0
  · exact iff_of_false (fun both => both.1 present) fun both => both.1 present
  · dsimp only
    rw [if_neg present]
    exact Iff.rfl

theorem tripIs (sensible : x.Sensible) : roundTrip meanAfter x.ntp (x.report totalLost jitter) stat =
    if x.lsr ≠ 0 ∧ x.held ≠ 0 ∧ x.lsr.toNat + x.units < 2 ^ 32 then
      stat.update meanAfter (stat.normalize (toUsec (x.ntp.middle - x.lsr - x.held).toUInt64).toUInt32).toInt32
    else stat := by
  have present := @presentDlsr totalLost jitter x
  unfold roundTrip
  dsimp only
  by_cases here : x.lsr ≠ 0 ∧ x.held ≠ 0
  · have dlsr : (x.report totalLost jitter).dlsr.getD 0 = x.held := by
      unfold Exchange.report
      rw [if_neg here.1]
      rfl
    rw [if_pos (present.mpr here),dlsr,show (x.report totalLost jitter).lsr = x.lsr from rfl]
    have small := (usecClose sensible (delayIs sensible)).1
    have few : ¬toUsec (x.ntp.middle - x.lsr - x.held).toUInt64 > 30 * 1000 * 1000 := fun more =>
      absurd small (Nat.not_le.mpr (UInt64.lt_iff_toNat_lt.mp more))
    by_cases straight : x.lsr.toNat + x.units < 2 ^ 32
    · rw [if_pos ((guardIs sensible).mpr straight),if_neg few,if_pos ⟨here.1,here.2,straight⟩]
    · rw [if_neg (fun guard => straight ((guardIs sensible).mp guard)),if_neg fun all => straight all.2.2]
  · rw [if_neg (fun both => here (present.mp both)),if_neg fun all => here ⟨all.1,all.2.1⟩]

/- For a sensible time the statistics are updated with it, unless LSR or DLSR are absent or the comparison is fooled. -/
theorem measuresExactly (meanAfter : MathStat → Int32 → Int32) {x : Exchange} (sensible : x.Sensible) (totalLost jitter : UInt32)
    (stat : MathStat) : Measures meanAfter x totalLost jitter stat ↔ x.Straight := by
  unfold Measures Exchange.Straight
  rw [tripIs sensible]
  by_cases straight : x.lsr ≠ 0 ∧ x.held ≠ 0 ∧ x.lsr.toNat + x.units < 2 ^ 32
  · rw [if_pos straight]
    exact iff_of_true ⟨_,(usecClose sensible (delayIs sensible)).2,rfl⟩ straight
  · rw [if_neg straight]
    refine iff_of_false ?_ straight
    rintro ⟨usec,_,same⟩
    exact absurd (congrArg MathStat.n same) (Nat.ne_of_lt (Nat.lt_succ_self _))

/- A second is held, and the answer comes after ten milliseconds. -/
def tenMillis : Exchange := ⟨(5000 + 65536 + 655) * 2 ^ 16,5000,65536⟩

theorem tenMillisMeasured : Measures (fun _ val => val) tenMillis 0 0 ⟨0,0,0,0,0⟩ :=
  (measuresExactly (fun _ val => val) (by decide) 0 0 ⟨0,0,0,0,0⟩).mpr (by unfold Exchange.Straight; decide)

/- The same, sent in the last 1/65536 of a second before the middle bits wrap. -/
def acrossWrap : Exchange := ⟨(2 ^ 32 - 1 + 65536 + 655) * 2 ^ 16,2 ^ 32 - 1,65536⟩

theorem wrapIgnored : acrossWrap.Sensible ∧ roundTrip (fun _ val => val) acrossWrap.ntp (acrossWrap.report 0 0) ⟨0,0,0,0,0⟩ =
    ⟨0,0,0,0,0⟩ ∧ ¬Measures (fun _ val => val) acrossWrap 0 0 ⟨0,0,0,0,0⟩ := by
  have ignored : roundTrip (fun _ val => val) acrossWrap.ntp (acrossWrap.report 0 0) ⟨0,0,0,0,0⟩ = ⟨0,0,0,0,0⟩ := by rfl
  refine ⟨by decide,ignored,?_⟩
  rintro ⟨usec,_,same⟩
  rw [ignored] at same
  exact absurd (congrArg MathStat.n same) (Nat.ne_of_lt (Nat.lt_succ_self 0))

end Measuring

end Pjproject.Rtcp
