import Pjproject.SdpPools
import Pjproject.JsonModel

/-! The session descriptions of sdp.c as the negotiator reads them: media lines, their attributes, and the checks of a
description. Of an attribute array only its elements are kept; what no function here reads is left out. -/
namespace Pjproject.SdpNeg
open Multipart (Text ascii cur isDigit lower)
open Sdp (NegState)

inductive Status where
  | ebug
  | sdpEinorigin
  | sdpEinname
  | sdpEinconn
  | sdpEinmedia
  | sdpEnofmt
  | sdpEmissingconn
  | sdpEinpt
  | sdpEmissingrtpmap
  | negEinstate
  | negEinvansmedia
  | negEinvanstp
  | negEansnomedia
  deriving DecidableEq, Repr

structure Conn where
  netType : Text
  addrType : Text
  addr : Text
  deriving DecidableEq, Repr

structure Bandw where
  modifier : Text
  value : UInt32
  deriving DecidableEq, Repr

structure Attr where
  name : Text
  value : Text
  deriving DecidableEq, Repr

structure Media where
  media : Text
  port : UInt16
  portCount : UInt32
  transport : Text
  fmt : List Text
  conn : Option Conn
  bandw : List Bandw
  attr : List Attr
  deriving DecidableEq, Repr

structure Origin where
  user : Text
  id : UInt32
  version : UInt32
  netType : Text
  addrType : Text
  addr : Text
  deriving DecidableEq, Repr

structure Session where
  origin : Origin
  name : Text
  conn : Option Conn
  media : List Media
  deriving DecidableEq, Repr

def maxSdpMedia : Nat := 16

/- The payload type of a format, and the one an attribute value begins with; zero without a digit. -/
def ptNumber (s : Text) : Nat := Json.strtoul s % 2 ^ 32

def Attr.isOf (name fmt : Text) (a : Attr) : Bool := a.name = name && ptNumber a.value = ptNumber fmt

/- pjmedia_sdp_attr_find with a format, and pjmedia_sdp_attr_remove of what it has found. -/
def findAttr (attr : List Attr) (name fmt : Text) : Option Attr := attr.find? (Attr.isOf name fmt)

def removeAttr (attr : List Attr) (name fmt : Text) : List Attr := attr.eraseP (Attr.isOf name fmt)

def rtpmap : Text := ascii "rtpmap"
def fmtp : Text := ascii "fmtp"

def check (cond : Bool) (e : Status) : Except Status Unit := if cond then .ok () else .error e

def validateSdpConn (c : Conn) : Except Status Unit := do
  check (c.netType = ascii "IN") .sdpEinconn
  check (c.addrType = ascii "IP4" || c.addrType = ascii "IP6") .sdpEinconn
  check (c.addr ≠ []) .sdpEinconn

/- pj_strtoul3 in base ten, on a text that begins with a digit: none when the value is too big. -/
def strtoul3 (s : Text) : Option Nat :=
  let value := (s.takeWhile isDigit).foldl (fun value c => value * 10 + (c.toNat - 48)) 0
  if value < 2 ^ 64 then some value else none

def validateFmt (m : Media) (fmt : Text) : Except Status Unit :=
  if isDigit (cur fmt) then
    match strtoul3 fmt with
    | none => .error .sdpEinpt
    | some pt => do
      check (pt ≤ 127) .sdpEinpt
      if m.port ≠ 0 ∧ pt ≥ 96 then check (findAttr m.attr rtpmap fmt).isSome .sdpEmissingrtpmap
  else .ok ()

def validateMedia (sdp : Session) (m : Media) : Except Status Unit := do
  check (m.media ≠ []) .sdpEinmedia
  check (m.transport ≠ []) .sdpEinmedia
  check (m.fmt ≠ [] || m.port = 0) .sdpEnofmt
  match m.conn with
  | some c => validateSdpConn c
  | none => check sdp.conn.isSome .sdpEmissingconn
  m.fmt.forM (validateFmt m)

/- pjmedia_sdp_validate, which is strict. -/
def validate (sdp : Session) : Except Status Unit := do
  check (sdp.origin.user ≠ []) .sdpEinorigin
  check (sdp.origin.netType = ascii "IN") .sdpEinorigin
  check (sdp.origin.addrType = ascii "IP4" || sdp.origin.addrType = ascii "IP6") .sdpEinorigin
  check (sdp.origin.addr ≠ []) .sdpEinorigin
  check (sdp.name ≠ []) .sdpEinname
  sdp.conn.forM validateSdpConn
  sdp.media.forM (validateMedia sdp)

def Media.deactivate (m : Media) : Media := { m with port := 0, attr := [] }

def localhost : Conn := ⟨ascii "IN",ascii "IP4",ascii "127.0.0.1"⟩

/- sdp_media_clone_deactivate. -/
def Media.cloneDeactivate (remMed localMed : Media) (localSess : Session) : Media :=
  let res := remMed.deactivate
  if res.conn.isNone ∧ localSess.conn.isNone then { res with conn := some (localMed.conn.getD localhost) } else res

def sessionOf (media : List Media) : Session where
  origin := ⟨ascii "-",1,1,ascii "IN",ascii "IP4",ascii "10.0.0.1"⟩
  name := ascii "pjmedia"
  conn := some ⟨ascii "IN",ascii "IP4",ascii "10.0.0.1"⟩
  media := media

section Found

variable {attr : List Attr} {name fmt : Text} {a : Attr}

theorem isOfIff : Attr.isOf name fmt a = true ↔ a.name = name ∧ ptNumber a.value = ptNumber fmt := by
  simp [Attr.isOf]

theorem findAttrSplit (found : findAttr attr name fmt = some a) :
    ∃ front back, attr = front ++ a :: back ∧ removeAttr attr name fmt = front ++ back ∧
      Attr.isOf name fmt a = true ∧ ∀ b ∈ front, Attr.isOf name fmt b = false := by
  obtain ⟨kind,front,back,rfl,first⟩ := List.find?_eq_some_iff_append.mp found
  have before : ∀ b ∈ front, Attr.isOf name fmt b = false := by simpa using first
  refine ⟨front,back,rfl,?_,kind,before⟩
  unfold removeAttr
  rw [List.eraseP_append_right _ (by simpa using before),List.eraseP_cons_of_pos kind]

end Found

end Pjproject.SdpNeg
