import Pjproject.Lib.Spans

/-! The circular buffer of circbuf.h: samples in an array of its capacity, from a start on and around its end. Positions are
offsets from the start of the array; lengths are unsigned ints. -/
namespace Pjproject.CircBuffer
open Lib.Spans

abbrev Sample := Int16

/- Differences and sums of unsigned ints. -/
def sub32 (a b : Nat) : Nat := (a + (2 ^ 32 - b)) % 2 ^ 32

def add32 (a b : Nat) : Nat := (a + b) % 2 ^ 32

/- How many samples pjmedia_copy_samples and pjmedia_move_samples take: a count of bytes is shifted out of an unsigned int. -/
def copied (count : Nat) : Nat := count * 2 % 2 ^ 32 / 2

structure CircBuf where
  buf : Nat → Sample
  capacity : Nat
  start : Nat
  len : Nat

/- Two regions with their lengths, the second one of which may be NULL. -/
structure Regions where
  reg1 : Nat
  len1 : Nat
  reg2 : Option Nat
  len2 : Nat

inductive Output where
  | ok
  | tooBig
  | samples (data : List Sample)
  | regions (regions : Regions)
  -- a loop that does not end
  | endless

namespace CircBuf

def create (capacity : Nat) : CircBuf := ⟨fun _ => 0,capacity,0,0⟩

def reset (cb : CircBuf) : CircBuf := { cb with start := 0, len := 0 }

def setLen (cb : CircBuf) (len : Nat) : CircBuf := { cb with len }

def advReadPtr (cb : CircBuf) (count : Nat) : CircBuf :=
  if cb.len ≤ count then cb.reset
  else
    let start := cb.start + count
    { cb with start := if cb.capacity ≤ start then start - cb.capacity else start, len := cb.len - count }

def advWritePtr (cb : CircBuf) (count : Nat) : Output × CircBuf :=
  if cb.capacity < add32 count cb.len then (.tooBig, cb) else (.ok, { cb with len := add32 cb.len count })

def getReadRegions (cb : CircBuf) : Regions :=
  if cb.capacity < cb.start + cb.len then
    ⟨cb.start,cb.capacity - cb.start,some 0,sub32 cb.len (cb.capacity - cb.start)⟩
  else ⟨cb.start,cb.len,none,0⟩

def getWriteRegions (cb : CircBuf) : Regions :=
  let reg1 := cb.start + cb.len
  let reg1 := if cb.capacity ≤ reg1 then reg1 - cb.capacity else reg1
  let len1 := sub32 cb.capacity cb.len
  if cb.capacity < reg1 + len1 then ⟨reg1,cb.capacity - reg1,some 0,cb.start⟩ else ⟨reg1,len1,none,0⟩

def read (cb : CircBuf) (count : Nat) : Output × CircBuf :=
  if cb.len < count then (.tooBig, cb)
  else
    let r := cb.getReadRegions
    let data :=
      if count ≤ r.len1 then span cb.buf r.reg1 (copied count)
      else span cb.buf r.reg1 (copied r.len1) ++ span cb.buf (r.reg2.getD 0) (copied (count - r.len1))
    (.samples data, cb.advReadPtr count)

def write (cb : CircBuf) (data : List Sample) : Output × CircBuf :=
  if sub32 cb.capacity cb.len < data.length then (.tooBig, cb)
  else
    let r := cb.getWriteRegions
    let buf :=
      if data.length ≤ r.len1 then store cb.buf r.reg1 (data.take (copied data.length))
      else
        let buf := store cb.buf r.reg1 (data.take (copied r.len1))
        store buf (r.reg2.getD 0) ((data.drop r.len1).take (copied (data.length - r.len1)))
    { cb with buf }.advWritePtr data.length

def copy (cb : CircBuf) (startIdx count : Nat) : Output :=
  if cb.len < add32 count startIdx then .tooBig
  else
    let r := cb.getReadRegions
    if startIdx < r.len1 then
      let tmpLen := min (r.len1 - startIdx) count
      .samples (span cb.buf (r.reg1 + startIdx) (copied tmpLen) ++
        if tmpLen < count then span cb.buf (r.reg2.getD 0) (copied (count - tmpLen)) else [])
    else .samples (span cb.buf (r.reg2.getD 0 + startIdx - r.len1) (copied count))

/- The loop of pjmedia_circ_buf_pack_buffer with the second region at the start of the array: the array and where the first
region has got to. -/
def rollLeft : Nat → (Nat → Sample) → Nat → Nat → Nat → Nat → Option ((Nat → Sample) × Nat)
  | 0, _, _, _, _, _ => none
  | fuel + 1, buf, reg1, reg1cnt, reg2cnt, gap =>
    let gap := if reg2cnt < gap then reg2cnt else gap
    let buf := store buf (reg1 - gap) (span buf reg1 (copied reg1cnt))
    let buf := store buf (reg1 + reg1cnt - gap) (span buf 0 (copied gap))
    let buf := if gap < reg2cnt then store buf 0 (span buf gap (copied (reg2cnt - gap))) else buf
    if 0 < reg2cnt - gap then rollLeft fuel buf (reg1 - gap) (reg1cnt + gap) (reg2cnt - gap) gap else some (buf, reg1 - gap)

/- Samples are shifted to the left edge. -/
def shiftLeft (cb : CircBuf) (buf : Nat → Sample) (reg1 : Nat) : CircBuf :=
  { cb with buf := if reg1 ≠ 0 then store buf 0 (span buf reg1 (copied cb.len)) else buf, start := 0 }

def packBuffer (cb : CircBuf) : Output × CircBuf :=
  let r := cb.getReadRegions
  if r.len2 ≠ 0 then
    let gap := sub32 cb.capacity cb.len
    if gap = 0 then (.tooBig, cb)
    else
      match rollLeft r.len2 cb.buf r.reg1 r.len1 r.len2 gap with
      | none => (.endless, cb)
      | some (buf, reg1) => (.ok, cb.shiftLeft buf reg1)
  else (.ok, cb.shiftLeft cb.buf r.reg1)

end CircBuf

inductive Op where
  | write (data : List Sample)
  | read (count : Nat)
  | copy (startIdx count : Nat)
  | advReadPtr (count : Nat)
  | advWritePtr (count : Nat)
  | setLen (len : Nat)
  | getReadRegions
  | getWriteRegions
  | packBuffer
  | reset

def step (cb : CircBuf) : Op → Output × CircBuf
  | .write data => cb.write data
  | .read count => cb.read count
  | .copy startIdx count => (cb.copy startIdx count, cb)
  | .advReadPtr count => (.ok, cb.advReadPtr count)
  | .advWritePtr count => cb.advWritePtr count
  | .setLen len => (.ok, cb.setLen len)
  | .getReadRegions => (.regions cb.getReadRegions, cb)
  | .getWriteRegions => (.regions cb.getWriteRegions, cb)
  | .packBuffer => cb.packBuffer
  | .reset => (.ok, cb.reset)

def Regions.samples (buf : Nat → Sample) (r : Regions) : List Sample :=
  span buf r.reg1 r.len1 ++ (r.reg2.map fun reg2 => span buf reg2 r.len2).getD []

/- The samples in the two read regions, and those that lie in the two write regions. -/
def CircBuf.contents (cb : CircBuf) : List Sample := cb.getReadRegions.samples cb.buf

def CircBuf.spare (cb : CircBuf) : List Sample := cb.getWriteRegions.samples cb.buf

/- How a call changes a queue of at most so many samples: spare is what lies behind it for the caller to put there, and a region
is known by the samples it holds. A queue that is full may be refused to be packed. -/
def Follows (capacity : Nat) (holds : Regions → List Sample) (spare q : List Sample) : Op → Output → List Sample → Prop
  | .write data, out, q' => if data.length ≤ capacity - q.length then out = .ok ∧ q' = q ++ data else out = .tooBig ∧ q' = q
  | .read count, out, q' => if count ≤ q.length then out = .samples (q.take count) ∧ q' = q.drop count else out = .tooBig ∧ q' = q
  | .copy startIdx count, out, q' =>
    q' = q ∧ out = if count + startIdx ≤ q.length then .samples ((q.drop startIdx).take count) else .tooBig
  | .advReadPtr count, out, q' => out = .ok ∧ q' = q.drop count
  | .advWritePtr count, out, q' =>
    if count ≤ capacity - q.length then out = .ok ∧ q' = q ++ spare.take count else out = .tooBig ∧ q' = q
  | .setLen len, out, q' => out = .ok ∧ q' = (q ++ spare).take len
  | .getReadRegions, out, q' => q' = q ∧ ∃ r, out = .regions r ∧ holds r = q
  | .getWriteRegions, out, q' => q' = q ∧ ∃ r, out = .regions r ∧ holds r = spare ∧ spare.length = capacity - q.length
  | .packBuffer, out, q' => q' = q ∧ (out = .ok ∨ out = .tooBig ∧ q.length = capacity)
  | .reset, out, q' => out = .ok ∧ q' = []

def Regions.covers (r : Regions) (i : Nat) : Prop :=
  r.reg1 ≤ i ∧ i < r.reg1 + r.len1 ∨ ∃ reg2, r.reg2 = some reg2 ∧ reg2 ≤ i ∧ i < reg2 + r.len2

/- Sums of lengths stay within an unsigned int, and so do the bytes of what is copied; a length that is set passes the check for it,
which is compiled out. -/
def Sound (cb : CircBuf) : Op → Prop
  | .write data => data.length ≤ cb.capacity - cb.len → data.length < 2 ^ 31
  | .read count => count ≤ cb.len → count < 2 ^ 31
  | .copy startIdx count => count + startIdx < 2 ^ 32 ∧ (count + startIdx ≤ cb.len → count < 2 ^ 31)
  | .advWritePtr count => count + cb.len < 2 ^ 32
  | .setLen len => len ≤ cb.capacity
  | .packBuffer => cb.len < 2 ^ 31
  | _ => True

instance (cb : CircBuf) : (op : Op) → Decidable (Sound cb op)
  | .write _ | .read _ => inferInstanceAs (Decidable (_ → _))
  | .copy _ _ => inferInstanceAs (Decidable (_ ∧ _))
  | .advWritePtr _ | .packBuffer => inferInstanceAs (Decidable (_ < _))
  | .setLen _ => inferInstanceAs (Decidable (_ ≤ _))
  | .advReadPtr _ | .getReadRegions | .getWriteRegions | .reset => inferInstanceAs (Decidable True)

/- Between the calls the caller may put samples in the write regions. -/
inductive Reached (capacity : Nat) : CircBuf → Prop where
  | create : Reached capacity (.create capacity)
  | step {cb} (before : Reached capacity cb) (op : Op) (sound : Sound cb op) : Reached capacity (step cb op).2
  | put {cb} (before : Reached capacity cb) (buf : Nat → Sample)
      (spared : ∀ i, ¬cb.getWriteRegions.covers i → buf i = cb.buf i) : Reached capacity { cb with buf }

end Pjproject.CircBuffer
