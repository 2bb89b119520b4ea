import Pjproject.Lib.ExchangeSort
import Pjproject.SdpModel

/-! The answer to an offer of ours: process_m_answer for one media line. The texts of the reasons are left out, and what
an error leaves behind of the offer. -/
namespace Pjproject.SdpNeg
open Multipart (Text ascii cur isDigit lower isSpace)
open Json (isAlpha)
open Lib.ExchangeSort (exchangeSort)

section Transport

inductive TpProto where
  | unknown
  | udp
  | rtpAvp
  | rtpSavp
  | dtlsSrtp
  | rtpAvpf
  | rtpSavpf
  | dtlsSrtpf
  deriving DecidableEq, Repr

/- PJMEDIA_TP_PROTO_HAS_FLAG for PJMEDIA_TP_PROTO_RTP_AVP. -/
def TpProto.isRtpAvp : TpProto → Bool
  | .unknown => false
  | .udp => false
  | _ => true

/- Where pj_stricmp is zero. -/
def strieq (a b : Text) : Bool := a.map lower = b.map lower

def slash : UInt8 := 47

/- The rest behind a token that is the whole text has length minus one, and equals nothing. -/
def transportGetProto (tp : Text) : TpProto :=
  let idx := (tp.takeWhile (· == slash)).length
  if idx = tp.length then .unknown
  else
    let token := (tp.drop idx).takeWhile (· != slash)
    if tp.length = token.length then .unknown
    else
      let rest := tp.drop (token.length + 1)
      if strieq token (ascii "RTP") then
        if strieq rest (ascii "AVP") then .rtpAvp
        else if strieq rest (ascii "SAVP") then .rtpSavp
        else if strieq rest (ascii "AVPF") then .rtpAvpf
        else if strieq rest (ascii "SAVPF") then .rtpSavpf
        else .unknown
      else if strieq token (ascii "UDP") then
        if rest = [] then .udp
        else if strieq rest (ascii "TLS/RTP/SAVP") then .dtlsSrtp
        else if strieq rest (ascii "TLS/RTP/SAVPF") then .dtlsSrtpf
        else .unknown
      else .unknown

def transportCmp (t1 t2 : Text) : Bool :=
  strieq t1 t2 || ((transportGetProto t1).isRtpAvp && (transportGetProto t2).isRtpAvp)

end Transport

section Direction

inductive Dir where
  | inactive
  | encoding
  | decoding
  | encodingDecoding
  deriving DecidableEq, Repr

def maxSdpAttr : Nat := 68

def hasAttr (attr : List Attr) (name : Text) : Bool := attr.any (·.name = name)

/- pjmedia_sdp_media_add_attr, which refuses when the array is full. -/
def addAttr (attr : List Attr) (a : Attr) : List Attr := if attr.length < maxSdpAttr then attr ++ [a] else attr

def directions : List Text := [ascii "inactive",ascii "sendrecv",ascii "sendonly",ascii "recvonly"]

def removeAllMediaDirections (attr : List Attr) : List Attr := attr.filter fun a => !directions.contains a.name

def mediaDir (attr : List Attr) : Dir :=
  if hasAttr attr (ascii "sendonly") then .encoding
  else if hasAttr attr (ascii "recvonly") then .decoding
  else if hasAttr attr (ascii "inactive") then .inactive
  else .encodingDecoding

def newDir (remote : List Attr) (oldDir : Dir) : Dir :=
  if hasAttr remote (ascii "inactive") then .inactive
  else if hasAttr remote (ascii "sendonly") then
    match oldDir with
    | .encodingDecoding => .decoding
    | .decoding => .decoding
    | _ => .inactive
  else if hasAttr remote (ascii "recvonly") then
    match oldDir with
    | .encodingDecoding => .encoding
    | .encoding => .encoding
    | _ => .inactive
  else oldDir

def dirAttr : Dir → Option Attr
  | .inactive => some ⟨ascii "inactive",[]⟩
  | .encoding => some ⟨ascii "sendonly",[]⟩
  | .decoding => some ⟨ascii "recvonly",[]⟩
  | .encodingDecoding => none

def updateMediaDirection (remote attr : List Attr) : List Attr :=
  let oldDir := mediaDir attr
  let dir := newDir remote oldDir
  if dir = oldDir then attr
  else (dirAttr dir).elim (removeAllMediaDirections attr) (addAttr (removeAllMediaDirections attr))

end Direction

section Rtpmaps

structure Rtpmap where
  pt : Text
  encName : Text
  clockRate : Nat
  param : Text
  deriving DecidableEq, Repr

/- cs_token of sdp.c. -/
def isToken (c : UInt8) : Bool := isAlpha c || isDigit c || (ascii "!#$%&'*+-.^_`\x7b|\x7d~").contains c

/- The scanner skips spaces and tabs here, and stops at the end of a line as it does at the end. -/
def skipSpace (s : Text) : Text := s.dropWhile isSpace

/- pjmedia_sdp_attr_get_rtpmap, whose status no caller here reads: on an error the fields keep what they have. None when
the value is empty, which leaves all of them as they were. -/
def getRtpmap (value : Text) : Option Rtpmap :=
  if value = [] then none
  else
    let s := skipSpace value
    let pt := s.takeWhile isToken
    let s := skipSpace (s.dropWhile isToken)
    let encName := s.takeWhile isToken
    let s := skipSpace (s.dropWhile isToken)
    if pt = [] then some ⟨[],[],0,[]⟩
    else if encName = [] ∨ cur s ≠ slash then some ⟨pt,encName,0,[]⟩
    else
      let s := skipSpace s.tail
      let token := s.takeWhile isDigit
      let s := skipSpace (s.dropWhile isDigit)
      let param := if token ≠ [] ∧ cur s = slash then skipSpace s.tail else []
      some ⟨pt,encName,Json.strtoul token % 2 ^ 32,param⟩

end Rtpmaps

section Formats

/- The registered callbacks of custom_fmt_match without options: of a format they read its fmtp. -/
variable (customFmtMatch : Text → Option Attr → Option Attr → Bool)

/- Whether an answered format is one for an offered rtpmap; none when a rtpmap without a value is compared. -/
def rtpmapMatch (offered : Rtpmap) (offeredFmtp : Option Attr) (answer : Media) (fmt : Text) : Option Bool :=
  match findAttr answer.attr rtpmap fmt with
  | none => some false
  | some a => (getRtpmap a.value).map fun answered =>
    strieq offered.encName answered.encName && offered.clockRate = answered.clockRate &&
      (strieq offered.param answered.param || answered.param = ascii "1") &&
      customFmtMatch offered.encName offeredFmtp (findAttr answer.attr fmtp fmt)

/- The first format that passes; the number of formats when none does. -/
def firstMatch (test : Text → Option Bool) : List Text → Option Nat
  | [] => some 0
  | fmt :: rest =>
    match test fmt with
    | none => none
    | some true => some 0
    | some false => (firstMatch test rest).map (· + 1)

/- The answered format for an offered one with this rtpmap and fmtp. -/
def findAnswer (map fmtp : Option Attr) (answer : Media) (fmt : Text) : Option (Except Status Nat) :=
  if ptNumber fmt < 96 then (firstMatch (fun other => some (fmt = other)) answer.fmt).map .ok
  else
    match map with
    | none => some (.error .ebug)
    | some a => (getRtpmap a.value).bind fun offered =>
      (firstMatch (rtpmapMatch customFmtMatch offered fmtp answer) answer.fmt).map .ok

/- Its rtpmap and its fmtp are removed. -/
def dropFormat (attr : List Attr) (fmt : Text) : List Attr := removeAttr (removeAttr attr rtpmap fmt) fmtp fmt

/- The offered formats one after the other, those with an answer together with its place. -/
def matchLoop (answer : Media) :
    List Text → List (Text × Nat) → List Attr → Option (Except Status (List (Text × Nat) × List Attr))
  | [], kept, attr => some (.ok (kept, attr))
  | fmt :: rest, kept, attr =>
    match findAnswer customFmtMatch (findAttr attr rtpmap fmt) (findAttr attr fmtp fmt) answer fmt with
    | none => none
    | some (.error e) => some (.error e)
    | some (.ok j) =>
      if j = answer.fmt.length then matchLoop answer rest kept (dropFormat attr fmt)
      else matchLoop answer rest (kept ++ [(fmt, j)]) attr

/- The answered formats: one is kept when offer_fmt_prior[i] - del_cnt is i. -/
def trimLoop (prior : List Nat) : Nat → Nat → List Text → List Attr → List Text × List Attr
  | _, _, [], attr => ([], attr)
  | i, delCnt, fmt :: rest, attr =>
    if prior[i]? = some (i + delCnt) then
      let (kept, attr) := trimLoop prior (i + 1) delCnt rest attr
      (fmt :: kept, attr)
    else trimLoop prior i (delCnt + 1) rest (dropFormat attr fmt)

/- The offer and the answer as they are left. -/
def processFormats (offer answer : Media) : Option (Except Status (Media × Media)) :=
  match matchLoop customFmtMatch answer offer.fmt [] offer.attr with
  | none => none
  | some (.error e) => some (.error e)
  | some (.ok (kept, attr)) =>
    if kept = [] then some (.error .negEansnomedia)
    else
      let sorted := exchangeSort Prod.snd kept
      let (fmt, ansAttr) := trimLoop (sorted.map Prod.snd) 0 0 answer.fmt answer.attr
      some (.ok ({ offer with fmt := sorted.map Prod.fst, attr := attr }, { answer with fmt := fmt, attr := ansAttr }))

def processMAnswer (offer answer : Media) (allowAsym : Bool) : Option (Except Status (Media × Media)) :=
  if answer.media ≠ offer.media then some (.error .negEinvansmedia)
  else if ¬transportCmp answer.transport offer.transport then some (.error .negEinvanstp)
  else if answer.port = 0 then some (.ok (offer.deactivate, answer))
  else if offer.port = 0 then some (.ok (offer, answer))
  else
    let offer := { offer with attr := updateMediaDirection answer.attr offer.attr }
    if allowAsym then
      -- The answered formats are looked for among themselves.
      if answer.fmt.any fun remFmt => (answer.fmt.take offer.fmt.length).contains remFmt then some (.ok (offer, answer))
      else some (.error .negEansnomedia)
    else processFormats customFmtMatch offer answer

end Formats

end Pjproject.SdpNeg
