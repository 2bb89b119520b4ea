import Pjproject.Lib.Ring

/-! The frame list of the jitter buffer: parallel arrays read as a circular buffer.
Sequence numbers are integers: signed arithmetic is exact as long as it does not overflow. -/
namespace Pjproject.Media

def invalidOffset : Int := -9999
def maxFrameIndex : Int := 0xFFFFFFFF / 9000
def maxMisorder : Int := 100
def maxDropout : Int := 3000

/- `(int)n` for an unsigned `n`. -/
def toInt32 (n : Nat) : Int := if n < 2147483648 then n else (n : Int) - 4294967296

inductive SlotType where
  | missing
  | normal
  | discarded
  deriving DecidableEq, Repr

/- The arrays have `maxCount` entries. One entry of `content` is the slot's `frameSize` bytes. -/
structure FrameList where
  frameSize : Nat
  maxCount : Nat
  content : Nat → List UInt8
  frameType : Nat → SlotType
  contentLen : Nat → Nat
  bitInfo : Nat → UInt32
  ts : Nat → UInt32
  head : Nat
  size : Nat
  discardedNum : Nat
  origin : Int

def FrameList.reset (fl : FrameList) : FrameList :=
  { fl with
    head := 0
    origin := invalidOffset
    size := 0
    discardedNum := 0
    frameType := fun _ => .missing
    contentLen := fun _ => 0 }

def FrameList.init (frameSize maxCount : Nat) : FrameList :=
  FrameList.reset
    { frameSize, maxCount
      content := fun _ => List.replicate frameSize 0
      frameType := fun _ => .missing
      contentLen := fun _ => 0
      bitInfo := fun _ => 0
      ts := fun _ => 0
      head := 0, size := 0, discardedNum := 0, origin := 0 }

/- `size - discarded_num`, in unsigned arithmetic. -/
def FrameList.effSize (fl : FrameList) : Nat := (4294967296 + fl.size - fl.discardedNum) % 4294967296

/- `memset` of `len` entries from `start` on. -/
def fill {α : Type} (a : Nat → α) (start len : Nat) (v : α) : Nat → α :=
  fun i => if start ≤ i ∧ i < start + len then v else a i

/- The loop that takes the discarded frames of one segment out of the counter. -/
def uncount (frameType : Nat → SlotType) : Nat → Nat → Nat → Nat
  | _, 0, num => num
  | i, len + 1, num =>
    uncount frameType (i + 1) len (if frameType i = .discarded then num - 1 else num)

def FrameList.clearSegment (fl : FrameList) (start len : Nat) : FrameList :=
  { fl with
    discardedNum := uncount fl.frameType start len fl.discardedNum
    frameType := fill fl.frameType start len .missing
    contentLen := fill fl.contentLen start len 0 }

def FrameList.removeHead (fl : FrameList) (count : Nat) : Nat × FrameList :=
  let count := if count > fl.size then fl.size else count
  if count = 0 then (0, fl)
  else
    let step1 := if fl.head + count > fl.maxCount then fl.maxCount - fl.head else count
    let step2 := count - step1
    let cleared := (fl.clearSegment fl.head step1).clearSegment 0 step2
    (count,
      { cleared with
        origin := fl.origin + count
        head := (fl.head + count) % fl.maxCount
        size := fl.size - count })

/- What a read returns: `none` stands for an output that is left as it was. -/
inductive FrameType where
  | missing
  | normal
  | zeroPrefetch
  | zeroEmpty
  deriving DecidableEq, Repr

structure Output where
  type : FrameType
  bytes : List UInt8
  size : Nat
  bitInfo : Option UInt32
  ts : Option UInt32
  seq : Option Int
  deriving DecidableEq, Repr

/- `while (frame_type[head] == DISCARDED)`: whether a frame was skipped, and the list after it. -/
def FrameList.skipDiscarded : Nat → FrameList → Bool → Option (Bool × FrameList)
  | 0, _, _ => none
  | fuel + 1, fl, prev =>
    if fl.frameType fl.head = .discarded then skipDiscarded fuel (fl.removeHead 1).2 true
    else some (prev, fl)

def FrameList.popHead (fl : FrameList) : FrameList :=
  { fl with
    frameType := Function.update fl.frameType fl.head .missing
    contentLen := Function.update fl.contentLen fl.head 0
    bitInfo := Function.update fl.bitInfo fl.head 0
    ts := Function.update fl.ts fl.head 0
    origin := fl.origin + 1
    head := (fl.head + 1) % fl.maxCount
    size := fl.size - 1 }

/- `maxSize` is the reader's buffer length, `none` when the reader gives no length. -/
def FrameList.headOutput (fl : FrameList) (maxSize : Option Nat) (prevDiscarded : Bool) : Output :=
  if prevDiscarded then
    { type := .missing, bytes := [], size := 0, bitInfo := some 0, ts := some (fl.ts fl.head),
      seq := some fl.origin }
  else
    let frmSize := fl.contentLen fl.head
    let copySize := min (maxSize.getD frmSize) frmSize
    { type := if fl.frameType fl.head = .normal then .normal else .missing
      bytes := (fl.content fl.head).take copySize
      size := copySize
      bitInfo := some (fl.bitInfo fl.head)
      ts := some (fl.ts fl.head)
      seq := some fl.origin }

/- The outer option is the loop's fuel, the inner one the function's truth value. -/
def FrameList.get (fl : FrameList) (maxSize : Option Nat) (fuel : Nat) :
    Option (Option Output × FrameList) :=
  if fl.size = 0 then some (none, fl)
  else
    match fl.skipDiscarded fuel false with
    | none => none
    | some (prevDiscarded, fl) =>
      if fl.size = 0 then some (none, fl)
      else some (some (fl.headOutput maxSize prevDiscarded), fl.popHead)

/- The search for the peeked slot, over the slots that are not discarded. -/
def FrameList.peekPos (fl : FrameList) : Nat → Nat → Nat → Option Nat
  | 0, _, _ => none
  | fuel + 1, pos, idx =>
    if fl.frameType pos = .discarded then peekPos fl fuel ((pos + 1) % fl.maxCount) idx
    else if idx = 0 then some pos
    else peekPos fl fuel ((pos + 1) % fl.maxCount) (idx - 1)

def FrameList.peek (fl : FrameList) (offset fuel : Nat) : Option (Option Output) :=
  if offset ≥ fl.effSize then some none
  else
    match fl.peekPos fuel fl.head offset with
    | none => none
    | some pos =>
      some (some
        { type := if fl.frameType pos = .normal then .normal else .missing
          bytes := fl.content pos
          size := fl.contentLen pos
          bitInfo := some (fl.bitInfo pos)
          ts := some (fl.ts pos)
          seq := some (fl.origin + offset) })

inductive PutStatus where
  | success
  | invalid
  | tooSmall
  | tooMany
  | existing
  deriving DecidableEq, Repr

structure Frame where
  bytes : List UInt8
  bitInfo : UInt32
  ts : UInt32
  deriving DecidableEq, Repr

/- A frame before the origin is too late, restarts the numbering, or resets the list. -/
def FrameList.rebase (fl : FrameList) (index : Int) : Option (FrameList × Int) :=
  let distance := index - fl.origin
  if distance < 0 then
    if fl.origin - index < maxMisorder then none
    -- `origin + size` is computed in unsigned arithmetic
    else if (fl.origin + fl.size) % 4294967296 ≥ maxFrameIndex then
      some ({ fl with origin := index - fl.size }, fl.size)
    else some ({ fl.reset with origin := index }, 0)
  else some (fl, distance)

/- An empty list takes the frame's number as its origin. -/
def FrameList.adopt (fl : FrameList) (index distance : Int) : FrameList × Int :=
  if fl.size = 0 then ({ fl with origin := index }, 0) else (fl, distance)

def FrameList.accept (fl : FrameList) (index distance : Int) : Option (FrameList × Int) :=
  if distance ≥ toInt32 fl.maxCount then
    if distance > maxDropout then some ({ fl.reset with origin := index }, 0) else none
  else some (fl, distance)

/- `memcpy` of the frame over the slot's bytes. -/
def overwrite (old frame : List UInt8) : List UInt8 := frame ++ old.drop frame.length

def FrameList.store (fl : FrameList) (index distance : Int) (frame : Frame) : PutStatus × FrameList :=
  let pos := (fl.head + distance.toNat) % fl.maxCount
  if fl.frameType pos ≠ .missing then (.existing, fl)
  else
    (.success,
      { fl with
        frameType := Function.update fl.frameType pos .normal
        contentLen := Function.update fl.contentLen pos frame.bytes.length
        bitInfo := Function.update fl.bitInfo pos frame.bitInfo
        ts := Function.update fl.ts pos frame.ts
        size := if fl.origin + fl.size ≤ index then distance.toNat + 1 else fl.size
        content := Function.update fl.content pos (overwrite (fl.content pos) frame.bytes) })

def FrameList.putAt (fl : FrameList) (index : Int) (frame : Frame) : PutStatus × FrameList :=
  if frame.bytes.length > fl.frameSize then (.invalid, fl)
  else
    match fl.rebase index with
    | none => (.tooSmall, fl)
    | some (fl, distance) =>
      let (fl, distance) := fl.adopt index distance
      match fl.accept index distance with
      | none => (.tooMany, fl)
      | some (fl, distance) => fl.store index distance frame

/- The status is false when the index is outside the window. -/
def FrameList.discard (fl : FrameList) (index : Int) : Bool × FrameList :=
  if index ≥ fl.origin ∧ index < fl.origin + fl.size then
    let pos := (fl.head + (index - fl.origin).toNat) % fl.maxCount
    (true,
      { fl with
        frameType := Function.update fl.frameType pos .discarded
        discardedNum := fl.discardedNum + 1 })
  else (false, fl)

end Pjproject.Media
