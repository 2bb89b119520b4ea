import Pjproject.StunMsg

/-! The STUN decoder of pjnath/stun_msg.c: pj_stun_msg_check, the attribute decoders and
the attribute walk of pj_stun_msg_decode, called without a place for an error response.
Every read of the packet is recorded, so that the results can speak about where the
decoder looks. -/
namespace Pjproject.Stun
open Lib.Bytes

structure DecodeOptions where
  isDatagram : Bool
  checkPacket : Bool
  noFingerprintCheck : Bool
  deriving DecidableEq, Repr

def stunMsgCheck (env : Env) (pdu : Memory) (pduLen : Nat) (options : DecodeOptions) : Reads Status Unit :=
  if pduLen < stunMsgHdrLen then .fail .einstunmsglen
  else do
    let first ← readByte pdu 0
    if first ≠ 0 ∧ first ≠ 1 then .fail .einstunmsgtype
    else
      let length ← read16 pdu 2
      let msgLen := length.toNat
      if msgLen + 20 > pduLen ∨ (options.isDatagram = true ∧ msgLen + 20 ≠ pduLen) then .fail .einstunmsglen
      else if msgLen % 4 ≠ 0 then .fail .einstunmsglen
      else
        let magic ← read32 pdu 4
        if magic = stunMagic ∧ options.noFingerprintCheck = false then
          let attrType ← read16 pdu (msgLen + 20 - 8)
          if attrType = attrFingerprint then
            let attrLen ← read16 pdu (msgLen + 20 - 8 + 2)
            let fingerprint ← read32 pdu (msgLen + 20 - 8 + 4)
            if attrLen ≠ 4 then .fail .estuninattrlen
            else
              let covered ← readSlice pdu 0 (msgLen + 20 - 8)
              if env.crc32 covered ^^^ stunXorFingerprint ≠ fingerprint then .fail .estunfingerprint
              else pure ()
          else pure ()
        else pure ()

/- The attribute decoders. `attrType` and `length` are the header that GETATTRHDR reads at
`pos`, as the walk has read it already. -/
def decodeSockaddr (pdu : Memory) (pos : Nat) (length : UInt16) : Reads Status SockAddr :=
  if length ≠ 8 ∧ length ≠ 20 then .fail .estuninattrlen
  else do
    let family ← readByte pdu (pos + attrHdrLen + 1)
    if family = 1 then
      if length ≠ 8 then .fail .estuninattrlen
      else
        let port ← read16 pdu (pos + attrHdrLen + 2)
        let addr ← readArray pdu (pos + attrHdrLen + 4) 4
        pure (.ipv4 port addr)
    else if family = 2 then
      if length ≠ 20 then .fail .estuninattrlen
      else
        let port ← read16 pdu (pos + attrHdrLen + 2)
        let addr ← readArray pdu (pos + attrHdrLen + 4) 16
        pure (.ipv6 port addr)
    else .fail .einvaf

def decodeSockaddrAttr (pdu : Memory) (pos : Nat) (attrType length : UInt16)
    (desc : findAttrDesc attrType = some .sockaddr) : Reads Status Attr := do
  let addr ← decodeSockaddr pdu pos length
  pure ⟨attrType,length,.sockaddr false addr,.inl desc⟩

def decodeXoredSockaddrAttr (hdr : MsgHdr) (pdu : Memory) (pos : Nat) (attrType length : UInt16)
    (desc : findAttrDesc attrType = some .xoredSockaddr) : Reads Status Attr := do
  let addr ← decodeSockaddr pdu pos length
  pure ⟨attrType,length,.sockaddr true (xorAddr hdr addr),.inr desc⟩

def decodeStringAttr (pdu : Memory) (pos : Nat) (attrType length : UInt16)
    (desc : findAttrDesc attrType = some .string) : Reads Status Attr := do
  let value ← readSlice pdu (pos + attrHdrLen) length.toNat
  pure ⟨attrType,length,.string value,desc⟩

def decodeEmptyAttr (attrType length : UInt16) (desc : findAttrDesc attrType = some .empty) :
    Reads Status Attr :=
  if length ≠ 0 then .fail .estuninattrlen else pure ⟨attrType,length,.empty,desc⟩

/- The value is read before the length is checked. -/
def decodeUintAttr (pdu : Memory) (pos : Nat) (attrType length : UInt16)
    (desc : findAttrDesc attrType = some .uint) : Reads Status Attr := do
  let value ← read32 pdu (pos + 4)
  if length ≠ 4 then .fail .estuninattrlen else pure ⟨attrType,length,.uint value,desc⟩

def decodeUint64Attr (pdu : Memory) (pos : Nat) (attrType length : UInt16)
    (desc : findAttrDesc attrType = some .uint64) : Reads Status Attr :=
  if length ≠ 8 then .fail .estuninattrlen
  else do
    let hi ← read32 pdu (pos + 4)
    let lo ← read32 pdu (pos + 8)
    pure ⟨attrType,length,.uint64 hi lo,desc⟩

def decodeMsgintAttr (pdu : Memory) (pos : Nat) (attrType length : UInt16)
    (desc : findAttrDesc attrType = some .msgint) : Reads Status Attr :=
  if length ≠ 20 then .fail .estuninattrlen
  else do
    let hmac ← readArray pdu (pos + 4) 20
    pure ⟨attrType,length,.msgint hmac,desc⟩

/- The reason's length is `length - 4` in a signed type. A negative one is converted to
size_t by the copy, which then runs over almost the whole address space. -/
def decodeErrcodeAttr (pdu : Memory) (pos : Nat) (attrType length : UInt16)
    (desc : findAttrDesc attrType = some .errcode) : Reads Status Attr := do
  let hundreds ← readByte pdu (pos + 6)
  let number ← readByte pdu (pos + 7)
  if length < 4 then ⟨pos + attrHdrLen + 4 + (2 ^ 64 + length.toNat - 4),.error .fault⟩
  else
    let reason ← readSlice pdu (pos + attrHdrLen + 4) (length.toNat - 4)
    pure ⟨attrType,length,.errcode ((hundreds.toNat * 100 + number.toNat : Nat) : Int) reason,desc⟩

def decodeUnknownAttr (pdu : Memory) (pos : Nat) (attrType length : UInt16)
    (desc : findAttrDesc attrType = some .unknown) : Reads Status Attr :=
  if many : length.toNat / 2 > stunMaxAttr then .fail .etoomany
  else do
    -- attrs[i] = pj_ntohs(punk_attr[i])
    let _ ← readWords pdu (pos + attrHdrLen) (length.toNat / 2)
    pure ⟨attrType,length,.unknown (words pdu (pos + attrHdrLen) (length.toNat / 2)),
      ⟨desc,by rw [wordsLength]; omega⟩⟩

/- The copy is zero initialised, so that its magic is 0. -/
def decodeBinaryAttr (pdu : Memory) (pos : Nat) (attrType length : UInt16)
    (desc : findAttrDesc attrType = some .binary) : Reads Status Attr := do
  let _ ← readSlice pdu (pos + attrHdrLen) length.toNat
  pure ⟨attrType,length,.binary 0 (slice pdu (pos + attrHdrLen) length.toNat),
    ⟨.inl desc,by rw [sliceLength]; have := length.toNat_lt; omega⟩⟩

def decodeAttr (hdr : MsgHdr) (pdu : Memory) (pos : Nat) (attrType length : UInt16) (kind : AttrKind)
    (desc : findAttrDesc attrType = some kind) : Reads Status Attr :=
  match kind, desc with
  | .sockaddr, desc => decodeSockaddrAttr pdu pos attrType length desc
  | .xoredSockaddr, desc => decodeXoredSockaddrAttr hdr pdu pos attrType length desc
  | .string, desc => decodeStringAttr pdu pos attrType length desc
  | .empty, desc => decodeEmptyAttr attrType length desc
  | .uint, desc => decodeUintAttr pdu pos attrType length desc
  | .uint64, desc => decodeUint64Attr pdu pos attrType length desc
  | .msgint, desc => decodeMsgintAttr pdu pos attrType length desc
  | .errcode, desc => decodeErrcodeAttr pdu pos attrType length desc
  | .unknown, desc => decodeUnknownAttr pdu pos attrType length desc
  | .binary, desc => decodeBinaryAttr pdu pos attrType length desc

/- The generic attribute for a type without a descriptor. -/
def decodeGenericAttr (pdu : Memory) (pos : Nat) (attrType length : UInt16)
    (desc : findAttrDesc attrType = none) : Reads Status Attr := do
  let _ ← readSlice pdu (pos + attrHdrLen) length.toNat
  pure (binaryAttrCreate attrType (slice pdu (pos + attrHdrLen) length.toNat)
    ⟨.inr desc,by rw [sliceLength]; have := length.toNat_lt; omega⟩)

/- The walk's variables: `pdu - start_pdu`, `pdu_len`, the attributes so far and the two
flags. -/
structure Walk where
  pos : Nat
  remaining : Nat
  attrs : List Attr
  hasMsgInt : Bool
  hasFingerprint : Bool
  bounded : attrs.length ≤ stunMaxAttr

/- The order of MESSAGE-INTEGRITY and FINGERPRINT: the new flags, or the error. -/
def checkOrder (attrType : UInt16) (hasMsgInt hasFingerprint : Bool) : Except Status (Bool × Bool) :=
  if attrType = attrMessageIntegrity ∧ hasFingerprint = false then
    if hasMsgInt then .error .estundupattr else .ok (true, hasFingerprint)
  else if attrType = attrFingerprint then
    if hasFingerprint then .error .estundupattr else .ok (hasMsgInt, true)
  else if hasFingerprint then .error .estunfingerpos
  else .ok (hasMsgInt, hasFingerprint)

def Walk.add (w : Walk) (attrValLen : Nat) (attr : Attr) (hasMsgInt hasFingerprint : Bool) :
    Reads Status Walk :=
  if room : w.attrs.length < stunMaxAttr then
    pure {
      pos := if attrValLen + 4 ≥ w.remaining then w.pos + w.remaining else w.pos + (attrValLen + 4)
      remaining := if attrValLen + 4 ≥ w.remaining then 0 else w.remaining - (attrValLen + 4)
      attrs := w.attrs ++ [attr]
      hasMsgInt := hasMsgInt
      hasFingerprint := hasFingerprint
      bounded := by simp only [List.length_append,List.length_cons,List.length_nil]; omega }
  else .fail .estuntoomanyattr

/- One round of the walk, for the attribute at `w.pos`. -/
def walkStep (hdr : MsgHdr) (pdu : Memory) (w : Walk) : Reads Status Walk := do
  let attrType ← read16 pdu w.pos
  let length ← read16 pdu (w.pos + 2)
  let attrValLen := pad4 length.toNat
  if w.remaining < attrValLen then .fail .estuninattrlen
  else
    match desc : findAttrDesc attrType with
    | none =>
      if attrType ≤ 0x7FFF then .fail (.stunCode 420)
      else if w.attrs.length ≥ stunMaxAttr then .fail .estuntoomanyattr
      else
        let attr ← decodeGenericAttr pdu w.pos attrType length desc
        w.add attrValLen attr w.hasMsgInt w.hasFingerprint
    | some kind =>
      let attr ← decodeAttr hdr pdu w.pos attrType length kind desc
      match checkOrder attrType w.hasMsgInt w.hasFingerprint with
      | .error status => .fail status
      | .ok (hasMsgInt, hasFingerprint) => w.add attrValLen attr hasMsgInt hasFingerprint

/- A round uses up at least four bytes, or all of them: the fuel outlasts the walk. -/
def walkAttrs (hdr : MsgHdr) (pdu : Memory) : Nat → Walk → Reads Status Walk
  | 0, w => pure w
  | fuel + 1, w =>
    if 4 ≤ w.remaining then do
      let w ← walkStep hdr pdu w
      walkAttrs hdr pdu fuel w
    else pure w

def headerAt (pdu : Memory) : MsgHdr :=
  { type := word16 (pdu 0) (pdu 1)
    length := word16 (pdu 2) (pdu 3)
    magic := word32 (pdu 4) (pdu 5) (pdu 6) (pdu 7)
    tsxId := fun i => pdu (8 + i) }

theorem headerCongr {m m' : Memory} (same : ∀ i, i < 20 → m' i = m i) : headerAt m' = headerAt m := by
  have tsxId : (fun i : Fin 12 => m' (8 + i)) = fun i : Fin 12 => m (8 + i) :=
    funext fun i => same _ (by omega)
  simp only [headerAt,tsxId,same 0 (by omega),same 1 (by omega),same 2 (by omega),same 3 (by omega),
    same 4 (by omega),same 5 (by omega),same 6 (by omega),same 7 (by omega)]

def firstWalk (hdr : MsgHdr) : Walk := ⟨stunMsgHdrLen,hdr.length.toNat,[],false,false,Nat.zero_le _⟩

/- The decoder behind its optional check: the header, the walk and the trailing bytes. It
returns the message and the length that was parsed. -/
def decodeBody (pdu : Memory) : Reads Status (Msg × Nat) := do
  let _ ← readSlice pdu 0 stunMsgHdrLen
  let hdr := headerAt pdu
  let w ← walkAttrs hdr pdu hdr.length.toNat (firstWalk hdr)
  if w.remaining > 0 then .fail .einstunmsglen
  else pure (⟨hdr,w.attrs,w.bounded⟩, w.pos)

def stunMsgDecode (env : Env) (pdu : Memory) (pduLen : Nat) (options : DecodeOptions) :
    Reads Status (Msg × Nat) :=
  if pduLen = 0 then .fail .einval
  else if options.checkPacket then do
    stunMsgCheck env pdu pduLen options
    decodeBody pdu
  else decodeBody pdu

end Pjproject.Stun
