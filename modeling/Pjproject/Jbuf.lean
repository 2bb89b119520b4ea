import Pjproject.JbufFrameList

/-! The jitter buffer: burst level, prefetching and the two discard algorithms around the
frame list. The delay and burst statistics are only reported, never read, and are left out. -/
namespace Pjproject.Media

def maxBurstMsec : Nat := 1000
def initCycle : Nat := 10
def defaultInitDelay : Nat := 15
def discMinGap : Nat := 200
def proDiscMinBurst : Nat := 1
def proDiscMaxBurst : Nat := 100
def proDiscT1 : Nat := 2000
def proDiscT2 : Nat := 10000
def staDiscSafeShrinkingDiff : Int := 1
def stableHistoryLimit : Nat := 20

/- `(unsigned)x` for an int `x`. -/
def toUInt32 (x : Int) : Nat := (x % 4294967296).toNat

inductive DiscardAlgo where
  | none
  | static
  | progressive
  deriving DecidableEq, Repr

inductive LastOp where
  | init
  | put
  | get
  deriving DecidableEq, Repr

inductive Status where
  | initializing
  | processing
  deriving DecidableEq, Repr

structure Jbuf where
  frameSize : Nat
  framePtime : Nat
  maxCount : Nat
  initPrefetch : Int
  minPrefetch : Int
  maxPrefetch : Int
  maxBurst : Int
  minShrinkGap : Int
  discardAlgo : DiscardAlgo
  framelist : FrameList
  level : Int
  maxHistLevel : Int
  stableHist : Nat
  lastOp : LastOp
  effLevel : Int
  prefetch : Int
  prefetching : Bool
  status : Status
  initCycleCnt : Nat
  discardRef : Int
  discardDist : Int
  lost : Nat
  discard : Nat
  empty : Nat

def Jbuf.reset (jb : Jbuf) : Jbuf :=
  { jb with
    level := 0
    lastOp := .init
    stableHist := 0
    status := .initializing
    initCycleCnt := 0
    maxHistLevel := 0
    prefetching := jb.prefetch ≠ 0
    discardDist := 0
    framelist := jb.framelist.reset }

def create (frameSize ptime maxCount : UInt32) : Jbuf :=
  let fourFifths := maxCount.toNat * 4 % 4294967296 / 5
  let threeQuarters := maxCount.toNat * 3 % 4294967296 / 4
  Jbuf.reset
    { frameSize := frameSize.toNat
      framePtime := ptime.toNat
      maxCount := maxCount.toNat
      initPrefetch := 0
      minPrefetch := 0
      maxPrefetch := fourFifths
      maxBurst := max (maxBurstMsec / ptime.toNat : Nat) threeQuarters
      minShrinkGap := (discMinGap / ptime.toNat : Nat)
      discardAlgo := .progressive
      framelist := .init frameSize.toNat maxCount.toNat
      level := 0, maxHistLevel := 0, stableHist := 0, lastOp := .init, effLevel := 0
      prefetch := min (defaultInitDelay : Int) fourFifths
      prefetching := false, status := .initializing, initCycleCnt := 0
      discardRef := 0, discardDist := 0, lost := 0, discard := 0, empty := 0 }

/- A setter with a failed argument check returns an error and changes nothing. -/
def Jbuf.setDiscard (jb : Jbuf) (algo : DiscardAlgo) : Jbuf := { jb with discardAlgo := algo }

def Jbuf.setFixed (jb : Jbuf) (prefetch : Nat) : Jbuf :=
  if prefetch ≤ jb.maxCount then
    Jbuf.setDiscard
      { jb with
        minPrefetch := toInt32 prefetch
        maxPrefetch := toInt32 prefetch
        prefetch := toInt32 prefetch
        initPrefetch := toInt32 prefetch } .none
  else jb

def Jbuf.setAdaptive (jb : Jbuf) (prefetch minPrefetch maxPrefetch : Nat) : Jbuf :=
  if minPrefetch ≤ maxPrefetch ∧ prefetch ≤ maxPrefetch ∧ maxPrefetch ≤ jb.maxCount then
    { jb with
      prefetch := toInt32 prefetch
      initPrefetch := toInt32 prefetch
      minPrefetch := toInt32 minPrefetch
      maxPrefetch := toInt32 maxPrefetch }
  else jb

/- The level fell: the effective level follows only after a stable history. -/
def Jbuf.decreaseLevel (jb : Jbuf) : Jbuf :=
  let jb := { jb with stableHist := jb.stableHist + 1 }
  if jb.stableHist > stableHistoryLimit then
    let third := (jb.effLevel - jb.maxHistLevel).tdiv 3
    let diff := if third < 1 then 1 else third
    let effLevel := jb.effLevel - diff
    let prefetch :=
      if jb.initPrefetch ≠ 0 then
        let raised := if effLevel < jb.minPrefetch then jb.minPrefetch else effLevel
        if raised > jb.maxPrefetch then jb.maxPrefetch else raised
      else jb.prefetch
    { jb with effLevel, prefetch, maxHistLevel := 0, stableHist := 0 }
  else jb

/- The level rose: the effective level follows at once. -/
def Jbuf.increaseLevel (jb : Jbuf) : Jbuf :=
  let effLevel := min jb.maxHistLevel (toInt32 (jb.maxCount * 4 / 5 % 4294967296))
  let prefetch :=
    if jb.initPrefetch ≠ 0 then
      let lowered := if effLevel > jb.maxPrefetch then jb.maxPrefetch else effLevel
      if lowered < jb.minPrefetch then jb.minPrefetch else lowered
    else jb.prefetch
  { jb with effLevel, prefetch, stableHist := 0 }

def Jbuf.calculateJitter (jb : Jbuf) : Jbuf :=
  let jb := { jb with maxHistLevel := max jb.maxHistLevel jb.level }
  if jb.level < jb.effLevel then jb.decreaseLevel
  else if jb.level > jb.effLevel then jb.increaseLevel
  else { jb with stableHist := 0 }

def Jbuf.discardStatic (jb : Jbuf) : Jbuf :=
  let burstLevel := max jb.effLevel jb.level
  -- the difference is unsigned, and read as an int
  let diff := toInt32 (toUInt32 (jb.framelist.effSize - burstLevel * 2))
  if diff ≥ staDiscSafeShrinkingDiff then
    let seqOrigin := jb.framelist.origin
    let jb := { jb with discardRef := if seqOrigin < jb.discardRef then seqOrigin else jb.discardRef }
    if seqOrigin - jb.discardRef ≥ jb.minShrinkGap then
      let (removed, framelist) := jb.framelist.removeHead 1
      { jb with framelist, discardRef := framelist.origin, discard := jb.discard + removed }
    else jb
  else jb

/- The time in which the overflow is to be discarded, by burst level. -/
def discardDuration (burstLevel : Nat) : Nat :=
  if burstLevel ≤ proDiscMinBurst then proDiscT1
  else if burstLevel ≥ proDiscMaxBurst then proDiscT2
  else proDiscT1 + (proDiscT2 - proDiscT1) * (burstLevel - proDiscMinBurst) /
    (proDiscMaxBurst - proDiscMinBurst)

def Jbuf.scheduleDiscard (jb : Jbuf) (discardDist : Nat) (lastSeq : Int) : Jbuf :=
  { jb with
    discardRef :=
      if jb.discardDist = 0 then lastSeq
      else if lastSeq < jb.discardRef then lastSeq
      else jb.discardRef
    discardDist := max jb.minShrinkGap (toInt32 discardDist) }

def Jbuf.performDiscard (jb : Jbuf) (lastSeq : Int) : Jbuf :=
  let due := jb.discardRef + jb.discardDist
  if lastSeq ≥ due then
    let discardSeq := if due < jb.framelist.origin then jb.framelist.origin else due
    { jb with framelist := (jb.framelist.discard discardSeq).2, discardRef := discardSeq }
  else jb

def Jbuf.discardProgressive (jb : Jbuf) : Jbuf :=
  if jb.lastOp ≠ .put then jb
  else
    let curSize := jb.framelist.effSize
    let burstLevel := toUInt32 (max jb.effLevel jb.level)
    if curSize ≤ burstLevel then { jb with discardDist := 0 }
    else
      let discardDist := discardDuration burstLevel / (curSize - burstLevel) / jb.framePtime
      let lastSeq := jb.framelist.origin + jb.framelist.size - 1
      (jb.scheduleDiscard discardDist lastSeq).performDiscard lastSeq

def Jbuf.runDiscard (jb : Jbuf) : Jbuf :=
  if jb.status = .processing then
    match jb.discardAlgo with
    | .none => jb
    | .static => jb.discardStatic
    | .progressive => jb.discardProgressive
  else jb

/- The operation changed: `none` when the buffer is still counting its first cycles. -/
def Jbuf.switchOp (jb : Jbuf) (oper : LastOp) : Jbuf × Bool :=
  let jb := { jb with lastOp := oper }
  match jb.status with
  | .initializing =>
    let jb := { jb with initCycleCnt := jb.initCycleCnt + 1 }
    if jb.initCycleCnt ≥ initCycle ∧ oper = .get then
      ({ jb with status := .processing, level := min jb.level jb.maxBurst }, true)
    else ({ jb with level := 0 }, false)
  | .processing => (jb, true)

def Jbuf.update (jb : Jbuf) (oper : LastOp) : Jbuf :=
  if jb.lastOp ≠ oper then
    let (jb, goOn) := jb.switchOp oper
    if goOn then
      let jb := if oper = .get ∧ jb.level ≤ jb.maxBurst then jb.calculateJitter else jb
      Jbuf.runDiscard { jb with level := 0 }
    else jb
  else jb.runDiscard

/- `while (status == PJ_ETOOMANY)`: remove as few frames as let this one in. -/
def Jbuf.makeRoom (frameSeq : Int) (frame : Frame) : Nat → Jbuf → PutStatus → Option (PutStatus × Jbuf)
  | 0, _, _ => none
  | fuel + 1, jb, status =>
    if status = .tooMany then
      let distance := (frameSeq - jb.framelist.origin) - toInt32 jb.maxCount + 1
      let (removed, framelist) := jb.framelist.removeHead (toUInt32 distance)
      let (status, framelist) := framelist.putAt frameSeq frame
      makeRoom frameSeq frame fuel { jb with framelist, discard := jb.discard + removed } status
    else some (status, jb)

/- The status is what the `discarded` output is computed from. -/
def Jbuf.putFrame3 (jb : Jbuf) (frame : List UInt8) (bitInfo : UInt32) (frameSeq : Int) (ts : UInt32)
    (fuel : Nat) : Option (PutStatus × Jbuf) :=
  let curSize := toInt32 jb.framelist.effSize
  let kept : Frame := { bytes := frame.take jb.frameSize, bitInfo, ts }
  let (status, framelist) := jb.framelist.putAt frameSeq kept
  match Jbuf.makeRoom frameSeq kept fuel { jb with framelist } status with
  | none => none
  | some (status, jb) =>
    let newSize := toInt32 jb.framelist.effSize
    if status = .success then
      let jb := { jb with
        prefetching := if newSize ≥ jb.prefetch then false else jb.prefetching
        level := jb.level + (if newSize > curSize then newSize - curSize else 1) }
      some (status, jb.update .put)
    else some (status, { jb with discard := jb.discard + 1 })

def Jbuf.getFrame3 (jb : Jbuf) (maxSize : Option Nat) (fuel : Nat) : Option (Output × Jbuf) :=
  let finish (out : Output) (jb : Jbuf) := (out, Jbuf.update { jb with level := jb.level + 1 } .get)
  if jb.prefetching then
    let out : Output :=
      { type := .zeroPrefetch, bytes := [], size := 0, bitInfo := none, ts := none, seq := none }
    some (finish out { jb with empty := jb.empty + 1 })
  else
    match jb.framelist.get maxSize fuel with
    | none => none
    | some (some out, framelist) =>
      let jb := { jb with framelist }
      some (finish out (if out.type = .normal then jb else { jb with lost := jb.lost + 1 }))
    | some (none, framelist) =>
      let out : Output :=
        { type := .zeroEmpty
          bytes := List.replicate framelist.frameSize 0
          size := 0
          bitInfo := none
          ts := none
          seq := none }
      some (finish out
        { jb with
          framelist
          prefetching := if jb.prefetch ≠ 0 then true else jb.prefetching
          empty := jb.empty + 1 })

def Jbuf.peekFrame (jb : Jbuf) (offset fuel : Nat) : Option Output :=
  match jb.framelist.peek offset fuel with
  | none => none
  | some none =>
    some { type := .zeroEmpty, bytes := [], size := 0, bitInfo := none, ts := none, seq := none }
  | some (some out) => some out

/- `while (discarded_num < last_discard_num)`: discarded frames do not count as removed. -/
def FrameList.removeMore : Nat → FrameList → Nat → Nat → Option (Nat × FrameList)
  | 0, _, _, _ => none
  | fuel + 1, fl, lastDiscardNum, count =>
    if fl.discardedNum < lastDiscardNum then
      let frameCnt := lastDiscardNum - fl.discardedNum
      let (removed, next) := fl.removeHead frameCnt
      removeMore fuel next fl.discardedNum (count - frameCnt + removed)
    else some (count, fl)

def Jbuf.removeFrame (jb : Jbuf) (frameCnt fuel : Nat) : Option (Nat × Jbuf) :=
  let (count, framelist) := jb.framelist.removeHead frameCnt
  match framelist.removeMore fuel jb.framelist.discardedNum count with
  | none => none
  | some (count, framelist) => some (count, { jb with framelist })

end Pjproject.Media
