import Pjproject.Lib.Bytes

/-! The receive side of rtcp.c and rtcp_fb.c: the walk over a compound packet and the parsers it calls, reading the memory
that the packet lies in. What the statistics are computed from is kept in place of the statistics. -/
namespace Pjproject.Rtcp
open Lib.Bytes

def sr : UInt8 := 200
def rr : UInt8 := 201
def sdes : UInt8 := 202
def bye : UInt8 := 203
def rtpfb : UInt8 := 205
def psfb : UInt8 := 206
def xr : UInt8 := 207

def sdesBufLen : Nat := 64

/- What is taken from a receiver report. DLSR is looked at only when LSR is not zero. -/
structure Report where
  totalLost : UInt32
  jitter : UInt32
  lsr : UInt32
  dlsr : Option UInt32
  deriving DecidableEq

/- An item of peer_sdes lies in peer_sdes_buf_. -/
structure SdesItem where
  type : UInt8
  offset : Nat
  length : Nat
  deriving DecidableEq

structure Nack where
  pid : UInt16
  blp : UInt16
  deriving DecidableEq

inductive Event where
  | nack (nack : Nack)
  | pli
  deriving DecidableEq

structure Session where
  rxLsr : UInt32 := 0
  reports : List Report := []
  peerSdes : List SdesItem := []
  peerSdesBuf : Memory := fun _ => 0
  byes : List Nat := []
  events : List Event := []

inductive Status where
  | success
  | etoosmall
  | enotfound
  deriving DecidableEq

/- The only failure of a walk: it has not ended when its rounds are used up. -/
inductive Fault where
  | outOfFuel
  deriving DecidableEq

abbrev Rx := Reads Fault

def ptAt (pkt : Memory) (pos : Nat) : Rx UInt8 := readByte pkt (pos + 1)

def countAt (pkt : Memory) (pos : Nat) : Rx UInt8 := do return (← readByte pkt pos) &&& 0x1F

def lengthAt (pkt : Memory) (pos : Nat) : Rx UInt16 := read16 pkt (pos + 2)

def parseSr (pkt : Memory) (pos : Nat) (sess : Session) : Rx Session := do
  let ntpSec ← read32 pkt (pos + 8)
  let ntpFrac ← read32 pkt (pos + 12)
  return { sess with rxLsr := (ntpSec &&& 0x0000FFFF) <<< 16 ||| (ntpFrac >>> 16) &&& 0xFFFF }

def parseRr (pkt : Memory) (pos : Nat) (sess : Session) : Rx Session := do
  let lost2 ← readByte pkt (pos + 5)
  let lost1 ← readByte pkt (pos + 6)
  let lost0 ← readByte pkt (pos + 7)
  let jitter ← read32 pkt (pos + 12)
  let lsr ← read32 pkt (pos + 16)
  let totalLost := (lost2.toUInt32 <<< 16) + (lost1.toUInt32 <<< 8) + lost0.toUInt32
  if lsr = 0 then return { sess with reports := ⟨totalLost,jitter,lsr,none⟩ :: sess.reports }
  else
    let dlsr ← read32 pkt (pos + 20)
    return { sess with reports := ⟨totalLost,jitter,lsr,some dlsr⟩ :: sess.reports }

/- parse_rtcp_report, without the extended reports, which are not compiled in. -/
def parseRtcpReport (pkt : Memory) (pos size : Nat) (sess : Session) : Rx Session := do
  let pt ← ptAt pkt pos
  let count ← countAt pkt pos
  if pt = sr then
    let sess ← parseSr pkt pos sess
    if 0 < count ∧ 52 ≤ size then parseRr pkt (pos + 28) sess else return sess
  else if pt = rr ∧ 0 < count then parseRr pkt (pos + 8) sess
  else return sess

/- The loop of parse_rtcp_sdes: `p` is where it reads, `used` what of the session's buffer is taken. -/
def sdesItems (pkt : Memory) (pEnd : Nat) : Nat → Nat → Nat → Session → Rx Session
  | 0, p, _, sess => if p < pEnd then Reads.fail .outOfFuel else return sess
  | fuel + 1, p, used, sess =>
    if p < pEnd then do
      let sdesType ← readByte pkt p
      if sdesType = 0 ∨ p + 1 = pEnd then return sess
      else
        let sdesLen ← readByte pkt (p + 1)
        let next := p + 2 + sdesLen.toNat
        if pEnd < next then return sess
        else
          let value ← readSlice pkt (p + 2) sdesLen.toNat
          if used + sdesLen.toNat < sdesBufLen then
            let sess := { sess with peerSdesBuf := write sess.peerSdesBuf used value }
            let sess := if sdesType ≤ 7 then
              { sess with peerSdes := sess.peerSdes ++ [⟨sdesType,used,sdesLen.toNat⟩] } else sess
            sdesItems pkt pEnd fuel next (used + sdesLen.toNat) sess
          else sdesItems pkt pEnd fuel next used sess
    else return sess

def parseRtcpSdes (pkt : Memory) (pos size : Nat) (sess : Session) : Rx Session :=
  sdesItems pkt (pos + size) size (pos + 8) 0 { sess with peerSdes := [] }

/- The reason goes over whatever the session's SDES buffer held. -/
def parseRtcpBye (pkt : Memory) (pos size : Nat) (sess : Session) : Rx Session :=
  if size ≤ 8 then return sess
  else do
    let length ← readByte pkt (pos + 8)
    let slen := min sdesBufLen length.toNat
    let reason ← readSlice pkt (pos + 9) slen
    return { sess with peerSdesBuf := write sess.peerSdesBuf 0 reason, byes := slen :: sess.byes }

/- pjmedia_rtcp_fb_parse_nack for an array of `room` entries. -/
def nacks (pkt : Memory) : Nat → Nat → Rx (List Nack)
  | 0, _ => return []
  | n + 1, p => do
    let pid ← read16 pkt p
    let blp ← read16 pkt (p + 2)
    let rest ← nacks pkt n (p + 4)
    return ⟨pid,blp⟩ :: rest

def parseNack (pkt : Memory) (pos length : Nat) (room : UInt32) : Rx (Status × List Nack) :=
  if length < 8 then return (.etoosmall, [])
  else do
    let pt ← ptAt pkt pos
    let count ← countAt pkt pos
    if pt ≠ rtpfb ∨ count ≠ 1 then return (.enotfound, [])
    else
      let words ← lengthAt pkt pos
      let cnt : UInt32 := words.toUInt32 - 2
      if length < ((cnt + 3) * 4).toNat then return (.etoosmall, [])
      else
        let found ← nacks pkt (min room cnt).toNat (pos + 8)
        return (.success, found)

def parsePli (pkt : Memory) (pos length : Nat) : Rx Status :=
  if length < 12 then return .etoosmall
  else do
    let pt ← ptAt pkt pos
    let count ← countAt pkt pos
    return if pt ≠ psfb ∨ count ≠ 1 then .enotfound else .success

/- parse_rtcp_fb. The first entry of the array is published also when the parser left it as it was. -/
def parseRtcpFb (pkt : Memory) (pos size : Nat) (sess : Session) : Rx Session := do
  let (status, found) ← parseNack pkt pos size 1
  if status = .success then return { sess with events := .nack (found.headD ⟨0,0⟩) :: sess.events }
  else
    let status ← parsePli pkt pos size
    return if status = .success then { sess with events := .pli :: sess.events } else sess

def dispatch (pkt : Memory) (pos len : Nat) (pt : UInt8) (sess : Session) : Rx Session :=
  if pt = sr ∨ pt = rr ∨ pt = xr then parseRtcpReport pkt pos len sess
  else if pt = sdes then parseRtcpSdes pkt pos len sess
  else if pt = bye then parseRtcpBye pkt pos len sess
  else if pt = rtpfb ∨ pt = psfb then parseRtcpFb pkt pos len sess
  else return sess

/- pjmedia_rtcp_rx_rtcp from `pos` on. -/
def rxRtcp (pkt : Memory) (size : Nat) : Nat → Nat → Session → Rx Session
  | 0, pos, sess => if pos < size then Reads.fail .outOfFuel else return sess
  | fuel + 1, pos, sess =>
    if pos < size then do
      let length ← lengthAt pkt pos
      let len := (length.toNat + 1) * 4
      if size < pos + len then return sess
      else
        let pt ← ptAt pkt pos
        let sess ← dispatch pkt pos len pt sess
        rxRtcp pkt size fuel (pos + len) sess
    else return sess

end Pjproject.Rtcp
