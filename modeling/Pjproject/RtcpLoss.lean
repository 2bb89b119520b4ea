import Pjproject.Rtp
import Pjproject.RtcpRoundTrip

/-! What rtcp.c counts of the packets that come in, and the report block it makes of that, beside what really came. Extended
reports, raw jitter and delay variation are not compiled in; the sender info of a sender report is left out. -/
namespace Pjproject.RtcpLoss
open Pjproject.Rtp (SeqSession Status seqMod maxDropout maxMisorder)
open Pjproject.Rtcp (MathStat)

def ignoreFirstPackets : Nat := 25

/- pjmedia_rtcp_stream_stat of the receiving direction. The words that a report is computed from are numbers, reduced where C
reduces them. -/
structure RxStat where
  pkt : Nat := 0
  bytes : UInt32 := 0
  discard : UInt32 := 0
  loss : Nat := 0
  reorder : UInt32 := 0
  dup : UInt32 := 0
  lossPeriod : MathStat := ⟨0,0,0,0,0⟩
  jitter : MathStat := ⟨0,0,0,0,0⟩

structure Session where
  seqCtrl : SeqSession := {}
  rtpLastTs : UInt32 := 0xFFFFFFFF
  clockRate : UInt32
  pktSize : UInt32
  received : Nat := 0
  expPrior : Nat := 0
  rxPrior : Nat := 0
  transit : Int32 := 0
  jitter : UInt32 := 0
  tsFreq : UInt64
  rxLsr : UInt32 := 0
  rxLsrTime : UInt64 := 0
  peerSsrc : UInt32 := 0
  rx : RxStat := {}

/- pjmedia_rtcp_init2, with the frequency of the clock. -/
def Session.init2 (clockRate samplesPerFrame : UInt32) (tsFreq : UInt64) : Session :=
  { clockRate := clockRate, pktSize := samplesPerFrame, tsFreq := tsFreq }

def Session.initSeq (sess : Session) : Session :=
  { sess with received := 0, expPrior := 0, rxPrior := 0, transit := 0, jitter := 0 }

/- What pjmedia_rtcp_rx_rtp2 does with every packet. -/
def Session.rxAny (sess : Session) (st : Status) (payload : UInt32) : Session :=
  let rx := { sess.rx with
    pkt := (sess.rx.pkt + 1) % 2 ^ 32, bytes := sess.rx.bytes + payload
    dup := if st.dup then sess.rx.dup + 1 else sess.rx.dup
    reorder := if st.outorder ∧ ¬st.probation then sess.rx.reorder + 1 else sess.rx.reorder }
  if st.restart then { sess with rx := rx }.initSeq else { sess with rx := rx }

structure Block where
  ssrc : UInt32
  fractLost : Nat
  totalLost2 : Nat
  totalLost1 : Nat
  totalLost0 : Nat
  lastSeq : Nat
  jitter : UInt32
  lsr : UInt32
  dlsr : UInt32

def Block.totalLost (block : Block) : Nat := block.totalLost2 * 2 ^ 16 + block.totalLost1 * 2 ^ 8 + block.totalLost0

section Code
variable (meanAfter : MathStat → Int32 → Int32)

def Session.countLoss (sess : Session) (diff : Nat) : Session :=
  if 1 < diff then
    let period := UInt32.ofNat (diff - 1) * sess.pktSize * 1000 / sess.clockRate * 1000
    { sess with rx := { sess.rx with
        loss := (sess.rx.loss + (diff - 1)) % 2 ^ 32, lossPeriod := sess.rx.lossPeriod.update meanAfter period.toInt32 } }
  else sess

def Session.jitterUsec (sess : Session) (jitter : UInt32) : UInt32 :=
  if jitter < 4294 then jitter * 1000000 / sess.clockRate else jitter * 1000 / sess.clockRate * 1000

def Session.measureJitter (sess : Session) (rtpTs : UInt32) (now : UInt64) : Session :=
  let arrival := (now * sess.clockRate.toUInt64 / sess.tsFreq).toUInt32
  let transit := (arrival - rtpTs).toInt32
  if sess.transit = 0 ∨ sess.received < ignoreFirstPackets then
    { sess with transit := transit, rx := { sess.rx with jitter := { sess.rx.jitter with min := -1 } } }
  else
    let d := if transit - sess.transit < 0 then -(transit - sess.transit) else transit - sess.transit
    let jitter := sess.jitter + (d.toUInt32 - ((sess.jitter + 8) >>> 4))
    { sess with
      jitter := jitter, transit := transit
      rx := { sess.rx with jitter := sess.rx.jitter.update meanAfter (sess.jitterUsec (jitter >>> 4)).toInt32 } }

/- The part of pjmedia_rtcp_rx_rtp2 for good packets. -/
def Session.rxGood (sess : Session) (diff : Nat) (rtpTs : UInt32) (now : UInt64) : Session :=
  let sess := Session.countLoss meanAfter { sess with received := (sess.received + 1) % 2 ^ 32 } diff
  let sess := if diff = 1 ∧ rtpTs ≠ sess.rtpLastTs then sess.measureJitter meanAfter rtpTs now else sess
  { sess with rtpLastTs := rtpTs }

/- pjmedia_rtcp_rx_rtp2; now is the timestamp of the system. -/
def Session.rxRtp2 (sess : Session) (seq : Nat) (rtpTs payload : UInt32) (now : UInt64) : Session :=
  let control := if sess.rx.pkt = 0 then sess.seqCtrl.init (seq % seqMod) else sess.seqCtrl
  let (seqCtrl, st) := control.update (seq % seqMod)
  let sess := { sess with seqCtrl := seqCtrl }.rxAny st payload
  if st.bad then { sess with rx := { sess.rx with discard := sess.rx.discard + 1 } }
  else sess.rxGood meanAfter st.diff rtpTs now

end Code

/- What parse_rtcp_report keeps of a sender report. -/
def Session.rxSr (sess : Session) (lsr : UInt32) (now : UInt64) : Session := { sess with rxLsr := lsr, rxLsrTime := now }

/- The report block of pjmedia_rtcp_build_rtcp. The cumulative loss is what was counted packet by packet. -/
def Session.buildRtcp (sess : Session) (now : UInt64) : Session × Block :=
  let lastSeq := (sess.seqCtrl.cycles / seqMod % seqMod * seqMod + sess.seqCtrl.maxSeq) % 2 ^ 32
  let expected := (lastSeq + 2 ^ 32 - sess.seqCtrl.baseSeq) % 2 ^ 32
  let expectedInterval := (expected + 2 ^ 32 - sess.expPrior) % 2 ^ 32
  let receivedInterval := (sess.received + 2 ^ 32 - sess.rxPrior) % 2 ^ 32
  let lostInterval := if receivedInterval ≤ expectedInterval then expectedInterval - receivedInterval else 0
  let heard := ¬(sess.rxLsrTime = 0 ∨ sess.rxLsr = 0)
  ({ sess with expPrior := expected, rxPrior := sess.received },
    { ssrc := sess.peerSsrc
      fractLost := if expectedInterval = 0 ∨ lostInterval = 0 then 0
        else lostInterval * 2 ^ 8 % 2 ^ 32 / expectedInterval % 2 ^ 8
      totalLost2 := sess.rx.loss / 2 ^ 16 % 2 ^ 8
      totalLost1 := sess.rx.loss / 2 ^ 8 % 2 ^ 8
      totalLost0 := sess.rx.loss % 2 ^ 8
      lastSeq := lastSeq
      jitter := sess.jitter >>> 4
      lsr := if heard then sess.rxLsr else 0
      dlsr := if heard then ((now <<< 16) / sess.tsFreq - (sess.rxLsrTime <<< 16) / sess.tsFreq).toUInt32 else 0 })

/- A packet comes with its extended number, of which it carries 16 bits; a sender report comes; a report is built. -/
inductive Step where
  | rtp (number : Nat) (rtpTs payload : UInt32) (now : UInt64)
  | sr (lsr : UInt32) (now : UInt64)
  | report (now : UInt64)

def Session.step (meanAfter : MathStat → Int32 → Int32) (sess : Session) : Step → Session
  | .rtp number rtpTs payload now => sess.rxRtp2 meanAfter (number % seqMod) rtpTs payload now
  | .sr lsr now => sess.rxSr lsr now
  | .report now => (sess.buildRtcp now).1

/- What really came: the extended numbers so far, and how many packets were expected and received at the last report. -/
structure Stream where
  came : List Nat := []
  expectedPrior : Nat := 0
  receivedPrior : Nat := 0

namespace Stream

def received (s : Stream) : Nat := s.came.length

def base (s : Stream) : Nat := s.came.headD 0

def top (s : Stream) : Nat := s.came.foldl max 0

/- The extended highest minus the base plus one. -/
def expected (s : Stream) : Nat := if s.came = [] then 0 else s.top - s.base + 1

def add (s : Stream) (number : Nat) : Stream := { s with came := s.came ++ [number] }

def step (s : Stream) : Step → Stream
  | .rtp number _ _ _ => s.add number
  | .sr _ _ => s
  | .report _ => { s with expectedPrior := s.expected, receivedPrior := s.received }

/- Distinct numbers, in any order in the window. -/
def InWindow (s : Stream) : Step → Prop
  | .rtp number _ _ _ =>
    s.came = [] ∨ number ∉ s.came ∧ s.top < number + maxMisorder ∧ number < s.top + maxDropout
  | _ => True

/- No packet comes late, nothing is lost among the first two packets or before the first report, and neither of the first two
carries the number 0. -/
def InOrder (s : Stream) : Step → Prop
  | .rtp number _ _ _ =>
    (s.received < 2 → number % seqMod ≠ 0) ∧
      (s.came ≠ [] → s.top < number ∧ (s.received = 1 ∨ s.expectedPrior = 0 → number = s.top + 1)) ∧
      (s.add number).expected < 2 ^ 32 ∧ (s.add number).expected < (s.add number).received + 2 ^ 24
  | _ => True

instance (s : Stream) : DecidablePred s.InWindow
  | .rtp .. => inferInstanceAs (Decidable (_ ∨ _))
  | .sr .. => .isTrue trivial
  | .report .. => .isTrue trivial

instance (s : Stream) : DecidablePred s.InOrder
  | .rtp .. => inferInstanceAs (Decidable (_ ∧ _))
  | .sr .. => .isTrue trivial
  | .report .. => .isTrue trivial

end Stream

def Every (ok : Stream → Step → Prop) : Stream → List Step → Prop
  | _, [] => True
  | s, step :: rest => ok s step ∧ Every ok (s.step step) rest

instance decidableEvery (ok : Stream → Step → Prop) [known : ∀ s step, Decidable (ok s step)] :
    ∀ s steps, Decidable (Every ok s steps)
  | _, [] => .isTrue trivial
  | s, step :: rest =>
    match known s step, decidableEvery ok (s.step step) rest with
    | .isTrue here, .isTrue later => .isTrue ⟨here,later⟩
    | .isFalse here, _ => .isFalse fun both => here both.1
    | _, .isFalse later => .isFalse fun both => later both.2

/- The block tells what was lost in all, and the fraction that was lost since the last report. -/
structure Right (s : Stream) (block : Block) : Prop where
  lost : (block.totalLost : Int) = s.expected - s.received
  fraction : block.fractLost =
    (s.expected - s.expectedPrior - (s.received - s.receivedPrior)) * 2 ^ 8 / (s.expected - s.expectedPrior)

/- The numbers of a session that the loss is computed from. -/
structure Figures where
  seqCtrl : SeqSession
  received : Nat
  expPrior : Nat
  rxPrior : Nat
  pkt : Nat
  loss : Nat

def Session.figures (sess : Session) : Figures :=
  ⟨sess.seqCtrl,sess.received,sess.expPrior,sess.rxPrior,sess.rx.pkt,sess.rx.loss⟩

section Counting
variable {meanAfter : MathStat → Int32 → Int32} {base top count number : Nat} {ctl : SeqSession}

theorem countLossFigures (sess : Session) (diff : Nat) (short : sess.rx.loss + (diff - 1) < 2 ^ 32) :
    (sess.countLoss meanAfter diff).figures = { sess.figures with loss := sess.rx.loss + (diff - 1) } := by
  unfold Session.countLoss
  split
  · exact congrArg (Figures.mk _ _ _ _ _) (Nat.mod_eq_of_lt short)
  · rw [Nat.sub_eq_zero_of_le (by omega)]
    rfl

theorem measureJitterFigures (sess : Session) (rtpTs : UInt32) (now : UInt64) :
    (sess.measureJitter meanAfter rtpTs now).figures = sess.figures := by
  unfold Session.measureJitter
  dsimp only
  split <;> rfl

theorem rxGoodFigures (sess : Session) (diff : Nat) (rtpTs : UInt32) (now : UInt64) (short : sess.rx.loss + (diff - 1) < 2 ^ 32) :
    (sess.rxGood meanAfter diff rtpTs now).figures =
      { sess.figures with received := (sess.received + 1) % 2 ^ 32, loss := sess.rx.loss + (diff - 1) } := by
  have counted := @countLossFigures meanAfter { sess with received := (sess.received + 1) % 2 ^ 32 } diff short
  unfold Session.rxGood
  dsimp only
  split
  · exact (measureJitterFigures _ rtpTs now).trans counted
  · exact counted

theorem rxTaken {sess : Session} {st : Status} {control : SeqSession} (rtpTs payload : UInt32) (now : UInt64)
    (meets : (if sess.rx.pkt = 0 then sess.seqCtrl.init (number % seqMod) else sess.seqCtrl) = control)
    (updated : control.update (number % seqMod) = (ctl, st)) (good : st.bad = false) (plain : st.restart = false)
    (short : sess.rx.loss + (st.diff - 1) < 2 ^ 32) :
    (sess.rxRtp2 meanAfter (number % seqMod) rtpTs payload now).figures =
      { sess.figures with
        seqCtrl := ctl, received := (sess.received + 1) % 2 ^ 32, pkt := (sess.rx.pkt + 1) % 2 ^ 32
        loss := sess.rx.loss + (st.diff - 1) } := by
  unfold Session.rxRtp2
  dsimp only
  rw [Nat.mod_mod,meets,updated,good,if_neg Bool.false_ne_true]
  dsimp only
  unfold Session.rxAny
  rw [plain,if_neg Bool.false_ne_true]
  exact rxGoodFigures _ st.diff rtpTs now short

/- Where the sequence control is when packets came in order from base to top: out of its probation with the second one. -/
structure Follows (base top count : Nat) (ctl : SeqSession) : Prop where
  order : base ≤ top
  baseSeq : ctl.baseSeq = base % seqMod
  maxSeq : ctl.maxSeq = top % seqMod
  cycles : ctl.cycles = seqMod * (top / seqMod - base / seqMod) % 2 ^ 32
  probation : ctl.probation = 2 - count

theorem followsFirst (ctl : SeqSession) (nonzero : number % seqMod ≠ 0) : ∃ next,
    (ctl.init (number % seqMod)).update (number % seqMod) = (next, { probation := true, diff := 1 }) ∧
      Follows number number 1 next := by
  have before : number % seqMod = (number % seqMod + seqMod - 1) % seqMod + 1 := by
    unfold seqMod at *
    omega
  refine ⟨{ ctl.init (number % seqMod) with probation := 1, maxSeq := number % seqMod },?_,?_⟩
  · unfold SeqSession.update SeqSession.probe
    rw [if_pos (show (ctl.init (number % seqMod)).probation ≠ 0 from Nat.succ_ne_zero 1),
      if_pos (show number % seqMod = (ctl.init (number % seqMod)).maxSeq + 1 from before)]
    rfl
  · refine ⟨Nat.le_refl _,rfl,rfl,?_,rfl⟩
    rw [Nat.sub_self]
    rfl

theorem followsNext (follows : Follows base top count ctl) (begun : count ≠ 0) (ahead : top < number)
    (near : number < top + maxDropout) (probing : count = 1 → number = top + 1 ∧ number % seqMod ≠ 0) : ∃ next,
    ctl.update (number % seqMod) = (next, { diff := number - top }) ∧ Follows base number (count + 1) next := by
  obtain ⟨order,baseSeq,maxSeq,cycles,probation⟩ := follows
  by_cases second : count = 1
  · obtain ⟨next,nonzero⟩ := probing second
    have number_ : number % seqMod = ctl.maxSeq + 1 := by
      unfold seqMod at *
      omega
    refine ⟨{ ctl with probation := ctl.probation - 1, maxSeq := number % seqMod },?_,?_⟩
    · unfold SeqSession.update SeqSession.probe
      rw [if_pos (by omega),if_pos number_,probation,second,next,Nat.add_sub_cancel_left]
      rfl
    · refine ⟨by omega,baseSeq,rfl,?_,?_⟩
      · have row : number / seqMod = top / seqMod := by
          unfold seqMod at *
          omega
        rw [row]
        exact cycles
      · change ctl.probation - 1 = 2 - (count + 1)
        omega
  · have delta := @Rtp.udeltaAhead top number (Nat.le_of_lt ahead) (by unfold seqMod maxDropout at *; omega)
    refine ⟨{ ctl with
      cycles := if number % seqMod < ctl.maxSeq then (ctl.cycles + seqMod) % 2 ^ 32 else ctl.cycles
      maxSeq := number % seqMod },?_,?_⟩
    · unfold SeqSession.update
      rw [if_neg (by omega),maxSeq,delta,if_neg (by omega),if_pos (by omega)]
    · refine ⟨by omega,baseSeq,rfl,?_,?_⟩
      · change (if number % seqMod < ctl.maxSeq then (ctl.cycles + seqMod) % 2 ^ 32 else ctl.cycles) = _
        rw [maxSeq,cycles]
        unfold seqMod maxDropout at *
        split <;> omega
      · change ctl.probation = _
        omega

theorem followsExpected (follows : Follows base top count ctl) (span : top - base + 1 < 2 ^ 32) :
    ((ctl.cycles / seqMod % seqMod * seqMod + ctl.maxSeq) % 2 ^ 32 + 2 ^ 32 - ctl.baseSeq) % 2 ^ 32 = top - base := by
  obtain ⟨order,baseSeq,maxSeq,cycles,probation⟩ := follows
  rw [baseSeq,maxSeq,cycles]
  unfold seqMod
  omega

end Counting

section Truth
variable {s : Stream} {number : Nat}

theorem receivedAdd (s : Stream) (number : Nat) : (s.add number).received = s.received + 1 := List.length_append

theorem addBegun (s : Stream) (number : Nat) : (s.add number).came ≠ [] :=
  List.append_ne_nil_of_right_ne_nil _ (List.cons_ne_nil _ _)

theorem topAdd (s : Stream) (number : Nat) : (s.add number).top = max s.top number := List.foldl_append

theorem expectedFirst (none : s.came = []) : (s.add number).expected = 1 ∧ (s.add number).base = number ∧
    (s.add number).top = number := by
  have base : (s.add number).base = number := by
    unfold Stream.base Stream.add
    rw [none]
    rfl
  have top : (s.add number).top = number := by
    unfold Stream.top Stream.add
    rw [none]
    exact Nat.zero_max number
  refine ⟨?_,base,top⟩
  unfold Stream.expected
  rw [if_neg (addBegun s number),base,top,Nat.sub_self]

theorem expectedNext (begun : s.came ≠ []) (ahead : s.top < number) : s.expected = s.top - s.base + 1 ∧
    (s.add number).expected = number - s.base + 1 ∧ (s.add number).base = s.base ∧ (s.add number).top = number := by
  have base : (s.add number).base = s.base := by
    unfold Stream.base Stream.add
    cases came : s.came with
    | nil => exact absurd came begun
    | cons => rfl
  have top := (topAdd s number).trans (Nat.max_eq_right (Nat.le_of_lt ahead))
  refine ⟨if_neg begun,?_,base,top⟩
  unfold Stream.expected
  rw [if_neg (addBegun s number),base,top]

end Truth

/- The figures of a session that took packets in order. -/
structure Held (s : Stream) (f : Figures) : Prop where
  pkt : f.pkt = s.received
  received : f.received = s.received
  lost : f.loss + s.received = s.expected
  few : f.loss < 2 ^ 24
  span : s.expected < 2 ^ 32
  expPrior : f.expPrior = s.expectedPrior - 1
  rxPrior : f.rxPrior = s.receivedPrior
  priors : s.receivedPrior ≤ s.expectedPrior ∧ s.receivedPrior ≤ s.received ∧ s.expectedPrior ≤ s.expected
  moved : s.expectedPrior < s.expected → s.receivedPrior < s.received
  whole : s.expectedPrior = 0 → f.loss = 0
  fresh : s.came = [] → f.seqCtrl = {}
  follows : s.came ≠ [] → Follows s.base s.top s.received f.seqCtrl

section Runs
variable {meanAfter : MathStat → Int32 → Int32} {s : Stream} {sess : Session}

theorem Held.initial (clockRate samplesPerFrame : UInt32) (tsFreq : UInt64) :
    Held {} (Session.init2 clockRate samplesPerFrame tsFreq).figures where
  pkt := rfl
  received := rfl
  lost := rfl
  few := Nat.two_pow_pos 24
  span := Nat.two_pow_pos 32
  expPrior := rfl
  rxPrior := rfl
  priors := ⟨Nat.le_refl _,Nat.le_refl _,Nat.le_refl _⟩
  moved := fun less => absurd less (by decide)
  whole := fun _ => rfl
  fresh := fun _ => rfl
  follows := fun begun => absurd rfl begun

theorem Held.expected (held : Held s sess.figures) :
    ((sess.seqCtrl.cycles / seqMod % seqMod * seqMod + sess.seqCtrl.maxSeq) % 2 ^ 32 + 2 ^ 32 - sess.seqCtrl.baseSeq) % 2 ^ 32 =
      s.expected - 1 := by
  by_cases begun : s.came = []
  · rw [show sess.seqCtrl = {} from held.fresh begun,show s.expected = 0 from if_pos begun]
    rfl
  · have span := held.span
    have isExpected : s.expected = s.top - s.base + 1 := if_neg begun
    rw [isExpected] at span ⊢
    rw [Nat.add_sub_cancel]
    exact followsExpected (held.follows begun) span

theorem Held.add {f : Figures} (held : Held s f) {number diff : Nat} {next : SeqSession} (positive : 0 < diff)
    (expected : (s.add number).expected = s.expected + diff) (tight : s.expectedPrior = 0 → diff = 1)
    (span : (s.add number).expected < 2 ^ 32) (few : (s.add number).expected < (s.add number).received + 2 ^ 24)
    (follows : Follows (s.add number).base (s.add number).top (s.add number).received next) :
    Held (s.add number) { f with
      seqCtrl := next, received := (f.received + 1) % 2 ^ 32, pkt := (f.pkt + 1) % 2 ^ 32, loss := f.loss + (diff - 1) } := by
  obtain ⟨priors,priorReceived,priorExpected⟩ := held.priors
  have lost := held.lost
  have count := receivedAdd s number
  refine ⟨?_,?_,?_,?_,span,held.expPrior,held.rxPrior,⟨priors,?_,?_⟩,?_,?_,?_,fun _ => follows⟩
  · rw [held.pkt,count]
    exact Nat.mod_eq_of_lt (by omega)
  · rw [held.received,count]
    exact Nat.mod_eq_of_lt (by omega)
  · change f.loss + (diff - 1) + _ = _
    omega
  · change f.loss + (diff - 1) < _
    omega
  · exact Nat.le_trans priorReceived (count ▸ Nat.le_succ _)
  · exact Nat.le_trans priorExpected (expected ▸ Nat.le_add_right _ _)
  · exact fun _ => Nat.lt_of_le_of_lt priorReceived (count ▸ Nat.lt_succ_self _)
  · intro first
    change f.loss + (diff - 1) = 0
    rw [held.whole first,tight first]
  · exact fun none => absurd none (addBegun s number)

theorem Held.rtp (held : Held s sess.figures) {number : Nat} (rtpTs payload : UInt32) (now : UInt64)
    (window : s.InWindow (.rtp number rtpTs payload now)) (ordered : s.InOrder (.rtp number rtpTs payload now)) :
    Held (s.add number) (sess.rxRtp2 meanAfter (number % seqMod) rtpTs payload now).figures := by
  obtain ⟨nonzero,order,span,few⟩ := ordered
  have count := receivedAdd s number
  have pkt : sess.rx.pkt = s.received := held.pkt
  have lost : sess.rx.loss + s.received = s.expected := held.lost
  by_cases begun : s.came = []
  · have none : s.received = 0 := congrArg List.length begun
    obtain ⟨expected,base,top⟩ := @expectedFirst s number begun
    obtain ⟨next,updated,follows⟩ := followsFirst sess.seqCtrl (nonzero (none ▸ Nat.two_pos))
    have short : sess.rx.loss + (1 - 1) < 2 ^ 32 := Nat.lt_trans held.few (by decide)
    rw [rxTaken rtpTs payload now (if_pos (pkt.trans none)) updated rfl rfl short]
    refine held.add Nat.one_pos ?_ (fun _ => rfl) span few ?_
    · rw [expected,show s.expected = 0 from if_pos begun]
      rfl
    · rw [base,top,count,none]
      exact follows
  · obtain ⟨ahead,whole⟩ := order begun
    obtain ⟨old,expected,base,top⟩ := expectedNext begun ahead
    obtain ⟨_,_,near⟩ := window.resolve_left begun
    have some_ : s.received ≠ 0 := fun zero => begun (List.length_eq_zero_iff.mp zero)
    have low := (held.follows begun).order
    obtain ⟨next,updated,follows⟩ := followsNext (held.follows begun) some_ ahead near
      (fun one => ⟨whole (.inl one),nonzero (by omega)⟩)
    rw [rxTaken rtpTs payload now (if_neg (pkt ▸ some_)) updated rfl rfl (by dsimp only; omega)]
    refine held.add (Nat.sub_pos_of_lt ahead) ?_ (fun first => ?_) span few ?_
    · change _ = s.expected + (number - s.top)
      omega
    · exact (congrArg (· - s.top) (whole (.inr first))).trans (Nat.add_sub_cancel_left _ _)
    · rw [base,top,count]
      exact follows

theorem Held.report (held : Held s sess.figures) (now : UInt64) :
    Held (s.step (.report now)) (sess.buildRtcp now).1.figures := by
  have reported : (sess.buildRtcp now).1 = { sess with expPrior := s.expected - 1, rxPrior := sess.received } := by
    unfold Session.buildRtcp
    dsimp only
    rw [held.expected]
  rw [reported]
  refine ⟨held.pkt,held.received,held.lost,held.few,held.span,rfl,held.received,⟨?_,Nat.le_refl _,Nat.le_refl _⟩,
    fun less => absurd less (Nat.lt_irrefl _),fun none => ?_,held.fresh,held.follows⟩
  · exact Nat.le.intro ((Nat.add_comm _ _).trans held.lost)
  · exact Nat.eq_zero_of_add_eq_zero_right (held.lost.trans none)

theorem Held.step (held : Held s sess.figures) (step : Step) (window : s.InWindow step) (ordered : s.InOrder step) :
    Held (s.step step) (sess.step meanAfter step).figures := by
  cases step with
  | rtp number rtpTs payload now => exact held.rtp rtpTs payload now window ordered
  | sr => exact held
  | report now => exact held.report now

theorem Held.run (steps : List Step) (s : Stream) (sess : Session) (held : Held s sess.figures)
    (window : Every Stream.InWindow s steps) (ordered : Every Stream.InOrder s steps) (n : Nat) :
    Held ((steps.take n).foldl Stream.step s) ((steps.take n).foldl (Session.step meanAfter) sess).figures := by
  induction steps generalizing s sess n with
  | nil =>
    rw [List.take_nil]
    exact held
  | cons step rest ih =>
    cases n with
    | zero => exact held
    | succ n => exact ih _ _ (held.step step window.1 ordered.1) window.2 ordered.2 n

theorem fractionWord {x y : Nat} (some_ : 0 < x → 0 < y) (few : x - y < 2 ^ 24) :
    (if x = 0 ∨ (if y ≤ x then x - y else 0) = 0 then 0
      else (if y ≤ x then x - y else 0) * 2 ^ 8 % 2 ^ 32 / x % 2 ^ 8) = (x - y) * 2 ^ 8 / x := by
  have lost : (if y ≤ x then x - y else 0) = x - y := by
    split
    · rfl
    · omega
  rw [lost]
  split
  · next none =>
    rcases none with zero | same
    · rw [zero,Nat.zero_sub,Nat.zero_mul]
    · rw [same,Nat.zero_mul,Nat.zero_div]
  · next more =>
    have short : (x - y) * 2 ^ 8 < x * 2 ^ 8 := by omega
    rw [Nat.mod_eq_of_lt (show (x - y) * 2 ^ 8 < 2 ^ 32 by omega),Nat.mod_eq_of_lt (Nat.div_lt_of_lt_mul short)]

theorem Held.right (held : Held s sess.figures) (now : UInt64) : Right s (sess.buildRtcp now).2 := by
  have expected := held.expected
  have received : sess.received = s.received := held.received
  have lost : sess.rx.loss + s.received = s.expected := held.lost
  have few : sess.rx.loss < 2 ^ 24 := held.few
  have span := held.span
  have expPrior : sess.expPrior = s.expectedPrior - 1 := held.expPrior
  have rxPrior : sess.rxPrior = s.receivedPrior := held.rxPrior
  obtain ⟨priors,priorReceived,priorExpected⟩ := held.priors
  constructor
  · change ((sess.rx.loss / 2 ^ 16 % 2 ^ 8 * 2 ^ 16 + sess.rx.loss / 2 ^ 8 % 2 ^ 8 * 2 ^ 8 + sess.rx.loss % 2 ^ 8 : Nat) : Int) = _
    omega
  · unfold Session.buildRtcp
    dsimp only
    rw [expected,expPrior,received,rxPrior]
    have receivedInterval : (s.received + 2 ^ 32 - s.receivedPrior) % 2 ^ 32 = s.received - s.receivedPrior := by omega
    have expectedInterval : (s.expected - 1 + 2 ^ 32 - (s.expectedPrior - 1)) % 2 ^ 32 = s.expected - 1 - (s.expectedPrior - 1) := by
      omega
    rw [receivedInterval,expectedInterval]
    by_cases first : s.expectedPrior = 0
    · -- the missing one does not show where nothing is lost
      have none : sess.rx.loss = 0 := held.whole first
      have same : s.expected = s.received := by omega
      have begin_ : s.receivedPrior = 0 := by omega
      rw [first,begin_,same,Nat.sub_self,Nat.zero_mul,Nat.zero_div]
      exact if_pos (by split <;> omega)
    · have interval : s.expected - 1 - (s.expectedPrior - 1) = s.expected - s.expectedPrior := by omega
      rw [interval]
      exact fractionWord (fun more => Nat.sub_pos_of_lt (held.moved (Nat.lt_of_sub_pos more))) (by omega)

/- Whatever is lost of a stream that stays in order, every report tells it. -/
theorem lossesToldInOrder (meanAfter : MathStat → Int32 → Int32) (clockRate samplesPerFrame : UInt32) (tsFreq : UInt64)
    (steps : List Step) (window : Every Stream.InWindow {} steps) (ordered : Every Stream.InOrder {} steps) (n : Nat)
    (now : UInt64) :
    Right ((steps.take n).foldl Stream.step {})
      (((steps.take n).foldl (Session.step meanAfter) (Session.init2 clockRate samplesPerFrame tsFreq)).buildRtcp now).2 :=
  ((Held.initial clockRate samplesPerFrame tsFreq).run steps {} _ window ordered n).right now

/- Packets at equal times, with reports between them. -/
def arrive (number : Nat) : Step := .rtp number (UInt32.ofNat (160 * number)) 160 0

/- Two packets are lost over the wrap, and then one. -/
theorem wrappedLossesTold : let steps := [arrive 65533,arrive 65534,.report 0,arrive 65537,arrive 65539]
    Every Stream.InWindow {} steps ∧ Every Stream.InOrder {} steps ∧ Right ((steps.take 5).foldl Stream.step {})
      (((steps.take 5).foldl (Session.step fun _ val => val) (Session.init2 8000 160 1000)).buildRtcp 0).2 :=
  ⟨by decide,by decide,lossesToldInOrder (fun _ val => val) 8000 160 1000 _ (by decide) (by decide) 5 0⟩

/- One packet overtakes another: nothing is lost, and one packet stays reported as lost. One of four is lost before the first
report, and its fraction is nought. -/
theorem lateStaysLost :
    let block := fun steps : List Step =>
      ((steps.foldl (Session.step fun _ val => val) (Session.init2 8000 160 1000)).buildRtcp 0).2
    (¬ ∀ steps, Every Stream.InWindow {} steps → Right (steps.foldl Stream.step {}) (block steps)) ∧
      (block [arrive 100,arrive 101,arrive 103,arrive 102]).totalLost = 1 ∧
      ¬Right ([arrive 100,arrive 101,arrive 103].foldl Stream.step {}) (block [arrive 100,arrive 101,arrive 103]) := by
  intro block
  refine ⟨fun holds => ?_,by decide,fun right => ?_⟩
  · have right := (holds [arrive 100,arrive 101,arrive 103,arrive 102] (by decide)).lost
    exact absurd right (by decide)
  · exact absurd right.fraction (by decide)

end Runs

end Pjproject.RtcpLoss
