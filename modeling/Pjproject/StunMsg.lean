import Pjproject.Lib.Bytes

/-! STUN messages of pjnath/stun_msg.c: the attributes, the descriptor table and the
encoder. The packet buffer is a memory, and an attribute encoder is modelled by the
block of bytes it writes from its buffer pointer on, the number it reports in *printed
and its status. `unsigned` and `size_t` arithmetic wraps as in the source; ports and
integers are kept in host order. The old-style MESSAGE-INTEGRITY is not configured
(PJ_STUN_OLD_STYLE_MI_FINGERPRINT is 0). -/
namespace Pjproject.Stun
open Lib.Bytes

inductive Status where
  | success
  | einval
  | einvalidop
  | ebug
  | etoosmall
  | etoomany
  | einstunmsglen
  | einstunmsgtype
  | estuntoomanyattr
  | estuninattrlen
  | estundupattr
  | estunfingerprint
  | estunmsgintpos
  | estunfingerpos
  | einvaf
  | stunCode (code : Nat)
  /- Not a status of the source: the call does not return. -/
  | fault
  deriving DecidableEq, Repr

def stunMagic : UInt32 := 0x2112A442
def stunMaxAttr : Nat := 16
def stunXorFingerprint : UInt32 := 0x5354554e
def attrHdrLen : Nat := 4
def stunMsgHdrLen : Nat := 20
def stunGenericIpv4AddrLen : Nat := 8
def stunGenericIpv6AddrLen : Nat := 20

def attrUsername : UInt16 := 0x0006
def attrMessageIntegrity : UInt16 := 0x0008
def attrErrorCode : UInt16 := 0x0009
def attrUnknownAttributes : UInt16 := 0x000A
def attrRealm : UInt16 := 0x0014
def attrNonce : UInt16 := 0x0015
def attrEndMandatoryAttr : UInt16 := 0x0031
def attrStartExtendedAttr : UInt16 := 0x8021
def attrSoftware : UInt16 := 0x8022
def attrFingerprint : UInt16 := 0x8028
def attrEndExtendedAttr : UInt16 := 0x802B

/- Which pair of decoder and encoder a descriptor names. -/
inductive AttrKind where
  | sockaddr
  | xoredSockaddr
  | string
  | empty
  | uint
  | uint64
  | msgint
  | errcode
  | unknown
  | binary
  deriving DecidableEq, Repr

def mandatoryAttrDesc : List (Option AttrKind) :=
  [none,some .sockaddr,some .sockaddr,some .uint,some .sockaddr,some .sockaddr,some .string,
    some .string,some .msgint,some .errcode,some .unknown,some .sockaddr,some .uint,some .uint,
    none,some .uint,some .uint,none,some .xoredSockaddr,some .binary,some .string,some .string,
    some .xoredSockaddr,some .uint,some .uint,some .uint,some .empty,none,none,none,none,none,
    some .xoredSockaddr,some .uint,some .uint64,some .xoredSockaddr,some .uint,some .empty,
    none,none,none,none,some .uint,none,none,none,none,none,some .uint,none]

def extendedAttrDesc : List (Option AttrKind) :=
  [none,some .string,some .sockaddr,some .uint,none,none,none,some .uint,some .uint64,
    some .uint64]

def findAttrDesc (attrType : UInt16) : Option AttrKind :=
  if attrType < attrEndMandatoryAttr then mandatoryAttrDesc.getD attrType.toNat none
  else if attrStartExtendedAttr ≤ attrType ∧ attrType < attrEndExtendedAttr then
    extendedAttrDesc.getD (attrType.toNat - attrStartExtendedAttr.toNat) none
  else none

inductive SockAddr where
  | ipv4 (port : UInt16) (addr : Fin 4 → UInt8)
  | ipv6 (port : UInt16) (addr : Fin 16 → UInt8)
  | other
  deriving DecidableEq

inductive Body where
  | sockaddr (xorEd : Bool) (addr : SockAddr)
  | empty
  | string (value : List UInt8)
  | uint (value : UInt32)
  | uint64 (hi lo : UInt32)
  | msgint (hmac : Fin 20 → UInt8)
  | errcode (errCode : Int) (reason : List UInt8)
  | unknown (attrs : List UInt16)
  | binary (magic : UInt32) (data : List UInt8)
  deriving DecidableEq

/- The struct behind an attribute pointer is the one its type stands for: the descriptor's,
or the generic binary one for a type without a descriptor. The lengths are those of the
C fields: an array of PJ_STUN_MAX_ATTR types, an `unsigned` data length. -/
def Body.fits (attrType : UInt16) : Body → Prop
  | .sockaddr _ _ => findAttrDesc attrType = some .sockaddr ∨ findAttrDesc attrType = some .xoredSockaddr
  | .empty => findAttrDesc attrType = some .empty
  | .string _ => findAttrDesc attrType = some .string
  | .uint _ => findAttrDesc attrType = some .uint
  | .uint64 _ _ => findAttrDesc attrType = some .uint64
  | .msgint _ => findAttrDesc attrType = some .msgint
  | .errcode _ _ => findAttrDesc attrType = some .errcode
  | .unknown attrs => findAttrDesc attrType = some .unknown ∧ attrs.length ≤ stunMaxAttr
  | .binary _ data => (findAttrDesc attrType = some .binary ∨ findAttrDesc attrType = none) ∧ data.length < 2 ^ 32

theorem usernameIsString : findAttrDesc attrUsername = some .string := rfl
theorem realmIsString : findAttrDesc attrRealm = some .string := rfl
theorem nonceIsString : findAttrDesc attrNonce = some .string := rfl
theorem softwareIsString : findAttrDesc attrSoftware = some .string := rfl
theorem digestIsMsgint : findAttrDesc attrMessageIntegrity = some .msgint := rfl
theorem fingerprintIsUint : findAttrDesc attrFingerprint = some .uint := rfl

structure Attr where
  type : UInt16
  length : UInt16
  body : Body
  fits : body.fits type

structure MsgHdr where
  type : UInt16
  length : UInt16
  magic : UInt32
  tsxId : Fin 12 → UInt8
  deriving DecidableEq

structure Msg where
  hdr : MsgHdr
  attrs : List Attr
  bounded : attrs.length ≤ stunMaxAttr

/- The functions that create attributes. -/
def sockaddrAttrCreate (attrType : UInt16) (xorEd : Bool) (addr : SockAddr) (addrLen : UInt16)
    (fits : (Body.sockaddr xorEd addr).fits attrType) : Attr :=
  ⟨attrType,addrLen + 4,.sockaddr xorEd addr,fits⟩

def emptyAttrCreate (attrType : UInt16) (fits : Body.empty.fits attrType) : Attr :=
  ⟨attrType,0,.empty,fits⟩

def stringAttrCreate (attrType : UInt16) (value : List UInt8) (fits : (Body.string value).fits attrType) :
    Attr := ⟨attrType,UInt16.ofNat value.length,.string value,fits⟩

def uintAttrCreate (attrType : UInt16) (value : UInt32) (fits : (Body.uint value).fits attrType) : Attr :=
  ⟨attrType,4,.uint value,fits⟩

def uint64AttrCreate (attrType : UInt16) (hi lo : UInt32) (fits : (Body.uint64 hi lo).fits attrType) : Attr :=
  ⟨attrType,8,.uint64 hi lo,fits⟩

def msgintAttrCreate : Attr := ⟨attrMessageIntegrity,20,.msgint fun _ => 0,rfl⟩

def errcodeAttrCreate (errCode : Int) (reason : List UInt8) : Attr :=
  ⟨attrErrorCode,UInt16.ofNat (4 + reason.length),.errcode errCode reason,rfl⟩

def unknownAttrCreate (attrs : List UInt16) (few : attrs.length < stunMaxAttr) : Attr :=
  ⟨attrUnknownAttributes,UInt16.ofNat (attrs.length * 2),.unknown attrs,⟨rfl,few.le⟩⟩

def binaryAttrCreate (attrType : UInt16) (data : List UInt8)
    (fits : (Body.binary stunMagic data).fits attrType) : Attr :=
  ⟨attrType,UInt16.ofNat data.length,.binary stunMagic data,fits⟩

/- The library code outside this file, and the setting of pj_stun_set_padding_char. -/
structure Env where
  hmacSha1 : List UInt8 → List UInt8 → Fin 20 → UInt8
  crc32 : List UInt8 → UInt32
  paddingChar : UInt8

def u32 (n : Nat) : Nat := n % 2 ^ 32

/- What an attribute encoder did: its status, the bytes it wrote from `buf` on, and
*printed. -/
structure Printed where
  status : Status
  bytes : List UInt8
  printed : Nat

def magicBytes : Fin 4 → UInt8 := ![0x21,0x12,0xA4,0x42]

/- The key an XORed address is combined with: the magic cookie, then the transaction id. -/
def xorKey (hdr : MsgHdr) : Fin 16 → UInt8 := Fin.append magicBytes hdr.tsxId

def xorAddr (hdr : MsgHdr) : SockAddr → SockAddr
  | .ipv4 port addr => .ipv4 (port ^^^ 0x2112) fun i => addr i ^^^ magicBytes i
  | .ipv6 port addr => .ipv6 (port ^^^ 0x2112) fun i => addr i ^^^ xorKey hdr i
  | .other => .other

/- The type is written before the length is checked. -/
def encodeSockaddrAttr (attrType : UInt16) (xorEd : Bool) (sockaddr : SockAddr) (len : Nat)
    (hdr : MsgHdr) : Printed :=
  match if xorEd then xorAddr hdr sockaddr else sockaddr with
  | .ipv4 port addr =>
    if len < attrHdrLen + stunGenericIpv4AddrLen then ⟨.etoosmall,be16 attrType,0⟩
    else ⟨.success,be16 attrType ++ (be16 8 ++ ([0,1] ++ (be16 port ++ List.ofFn addr))),12⟩
  | .ipv6 port addr =>
    if len < attrHdrLen + stunGenericIpv6AddrLen then ⟨.etoosmall,be16 attrType,0⟩
    else ⟨.success,be16 attrType ++ (be16 20 ++ ([0,2] ++ (be16 port ++ List.ofFn addr))),24⟩
  | .other => ⟨.einvaf,be16 attrType,0⟩

/- Legacy peers, and the SOFTWARE attribute, get a length that counts the padding. -/
def paddedLength (attrType : UInt16) (hdr : MsgHdr) : Bool :=
  hdr.magic != stunMagic || attrType == attrSoftware

def stringPad (paddingChar : UInt8) (n : Nat) : List UInt8 :=
  if n % 4 ≠ 0 then List.replicate (4 - n % 4) paddingChar else []

def encodeStringAttr (paddingChar : UInt8) (attrType : UInt16) (value : List UInt8) (len : Nat)
    (hdr : MsgHdr) : Printed :=
  let printed := u32 (u32 value.length + attrHdrLen + 3) / 4 * 4
  if len < printed then ⟨.etoosmall,[],0⟩
  else
    let length := if paddedLength attrType hdr then pad4 value.length else value.length
    ⟨.success,be16 attrType ++ (be16 (UInt16.ofNat length) ++
      (value ++ stringPad paddingChar value.length)),printed⟩

def encodeEmptyAttr (attrType : UInt16) (len : Nat) : Printed :=
  if len < attrHdrLen then ⟨.etoosmall,[],0⟩ else ⟨.success,be16 attrType ++ be16 0,attrHdrLen⟩

def encodeUintAttr (attrType : UInt16) (value : UInt32) (len : Nat) : Printed :=
  if len < 8 then ⟨.etoosmall,[],0⟩ else ⟨.success,be16 attrType ++ (be16 4 ++ be32 value),8⟩

def encodeUint64Attr (attrType : UInt16) (hi lo : UInt32) (len : Nat) : Printed :=
  if len < 12 then ⟨.etoosmall,[],0⟩
  else ⟨.success,be16 attrType ++ (be16 8 ++ (be32 hi ++ be32 lo)),12⟩

def encodeMsgintAttr (attrType length : UInt16) (hmac : Fin 20 → UInt8) (len : Nat) : Printed :=
  if len < 24 then ⟨.etoosmall,[],0⟩
  else ⟨.success,be16 attrType ++ (be16 length ++ List.ofFn hmac),24⟩

def uint8OfInt (n : Int) : UInt8 := UInt8.ofNat (n % 256).toNat

/- The length that is checked is not padded, the one that is reported is; the padding is
not written. The same holds of UNKNOWN-ATTRIBUTES. -/
def encodeErrcodeAttr (attrType : UInt16) (errCode : Int) (reason : List UInt8) (len : Nat) : Printed :=
  if len < u32 (attrHdrLen + 4 + u32 reason.length) then ⟨.etoosmall,[],0⟩
  else ⟨.success,be16 attrType ++ (be16 (UInt16.ofNat (4 + reason.length)) ++ (be16 0 ++
    ([uint8OfInt (errCode.tdiv 100),uint8OfInt (errCode.tmod 100)] ++ reason))),
    u32 (attrHdrLen + 4 + u32 reason.length + 3) / 4 * 4⟩

def encodeUnknownAttr (attrType : UInt16) (attrs : List UInt16) (len : Nat) : Printed :=
  if len < attrHdrLen + attrs.length * 2 then ⟨.etoosmall,[],0⟩
  else ⟨.success,be16 attrType ++ (be16 (UInt16.ofNat (attrs.length * 2)) ++ attrs.flatMap be16),
    (attrHdrLen + attrs.length * 2 + 3) / 4 * 4⟩

def encodeBinaryAttr (attrType : UInt16) (data : List UInt8) (len : Nat) : Printed :=
  let printed := u32 (data.length + attrHdrLen + 3) / 4 * 4
  if len < printed then ⟨.etoosmall,[],0⟩
  else ⟨.success,be16 attrType ++ (be16 (UInt16.ofNat data.length) ++ data),printed⟩

def encodeAttr (env : Env) (hdr : MsgHdr) (a : Attr) (len : Nat) : Printed :=
  match a.body with
  | .sockaddr xorEd addr => encodeSockaddrAttr a.type xorEd addr len hdr
  | .empty => encodeEmptyAttr a.type len
  | .string value => encodeStringAttr env.paddingChar a.type value len hdr
  | .uint value => encodeUintAttr a.type value len
  | .uint64 hi lo => encodeUint64Attr a.type hi lo len
  | .msgint hmac => encodeMsgintAttr a.type a.length hmac len
  | .errcode errCode reason => encodeErrcodeAttr a.type errCode reason len
  | .unknown attrs => encodeUnknownAttr a.type attrs len
  | .binary magic data =>
    if findAttrDesc a.type = none ∧ magic ≠ stunMagic then ⟨.ebug,[],0⟩
    else encodeBinaryAttr a.type data len

/- The encoder's variables: the buffer, one past the highest offset written, `buf - start`
and `buf_size`. `room` records the values the last two have had together. -/
structure Encoding where
  mem : Memory
  top : Nat
  pos : Nat
  bufSize : UInt64
  room : List (Nat × UInt64)

def Encoding.put (e : Encoding) (pos : Nat) (bytes : List UInt8) : Encoding :=
  { e with mem := write e.mem pos bytes, top := if bytes = [] then e.top else max e.top (pos + bytes.length) }

def Encoding.advance (e : Encoding) (printed : Nat) : Encoding :=
  let pos := e.pos + printed
  let bufSize := e.bufSize - UInt64.ofNat printed
  { e with pos := pos, bufSize := bufSize, room := e.room ++ [(pos, bufSize)] }

/- One call of an attribute encoder, with the counter cast to `unsigned`. -/
def Encoding.call (e : Encoding) (encoder : Nat → Printed) : Status × Encoding :=
  let result := encoder (u32 e.bufSize.toNat)
  let e := e.put e.pos result.bytes
  if result.status = .success then (.success, e.advance result.printed) else (result.status, e)

def stopsEncoding (a : Attr) : Bool := a.type == attrMessageIntegrity || a.type == attrFingerprint

/- The first loop: attributes up to MESSAGE-INTEGRITY or FINGERPRINT, and what is left. -/
def encodeAttrs (env : Env) (hdr : MsgHdr) : List Attr → Encoding → Status × Encoding × List Attr
  | [], e => (.success, e, [])
  | a :: rest, e =>
    if stopsEncoding a then (.success, e, a :: rest)
    else
      match e.call (encodeAttr env hdr a) with
      | (.success, e) => encodeAttrs env hdr rest e
      | (status, e) => (status, e, a :: rest)

/- The second loop, over the attributes behind the one the first loop stopped at. -/
def scanRest : Option Attr → Option Attr → List Attr → Except Status (Option Attr × Option Attr)
  | amsgint, afingerprint, [] => .ok (amsgint, afingerprint)
  | amsgint, afingerprint, a :: rest =>
    if afingerprint.isSome then .error .estunfingerpos
    else if a.type = attrMessageIntegrity then
      if amsgint.isSome then .error .estunmsgintpos else scanRest (some a) afingerprint rest
    else if a.type = attrFingerprint then scanRest amsgint (some a) rest
    else scanRest amsgint afingerprint rest

def scanStopped : List Attr → Except Status (Option Attr × Option Attr)
  | [] => .ok (none, none)
  | a :: rest =>
    if a.type = attrMessageIntegrity then scanRest (some a) none rest else scanRest none (some a) rest

structure EncodeResult where
  status : Status
  encoding : Encoding
  hmac : Option (Fin 20 → UInt8)
  fingerprint : Option UInt32
  msgLen : Option Nat

def putHeader (hdr : MsgHdr) : List UInt8 :=
  be16 hdr.type ++ (be16 0 ++ (be32 hdr.magic ++ List.ofFn hdr.tsxId))

def encodeFingerprint (env : Env) (hmac : Option (Fin 20 → UInt8)) (e : Encoding) :
    Option Attr → EncodeResult
  | none => ⟨.success,e,hmac,none,some e.pos⟩
  | some a =>
    let e := e.put 2 (be16 (word16 (e.mem 2) (e.mem 3) + 8))
    let value := env.crc32 (slice e.mem 0 e.pos) ^^^ stunXorFingerprint
    match e.call (encodeUintAttr a.type value) with
    | (.success, e) => ⟨.success,e,hmac,some value,some e.pos⟩
    | (status, e) => ⟨status,e,hmac,some value,none⟩

/- `i` is the second loop's index, which that loop leaves at the number of attributes. -/
def encodeIntegrity (env : Env) (msg : Msg) (key : Option (List UInt8)) (i : Nat) (e : Encoding)
    (afingerprint : Option Attr) : Option Attr → EncodeResult
  | none => encodeFingerprint env none e afingerprint
  | some a =>
    match key with
    | none => ⟨.einvalidop,e,none,none,none⟩
    | some key =>
      let count := msg.attrs.length
      let beforeLast := i = u32 (count + 2 ^ 32 - 2)
      if 1 < count ∧ i < count - 2 then ⟨.estunmsgintpos,e,none,none,none⟩
      else if beforeLast ∧ msg.attrs[i + 1]?.map Attr.type ≠ some attrFingerprint then
        ⟨.estunmsgintpos,e,none,none,none⟩
      else
        let afingerprint := if beforeLast then msg.attrs[i + 1]? else afingerprint
        let hmac := env.hmacSha1 key (slice e.mem 0 e.pos)
        match e.call (encodeMsgintAttr a.type a.length hmac) with
        | (.success, e) => encodeFingerprint env (some hmac) e afingerprint
        | (status, e) => ⟨status,e,some hmac,none,none⟩

def bodyLength (amsgint : Option Attr) (pos : Nat) : UInt16 :=
  if amsgint.isSome then UInt16.ofNat (pos - 20 + 24) else UInt16.ofNat (pos - 20)

/- pj_stun_msg_encode, with options 0, the only value it accepts. -/
def stunMsgEncode (env : Env) (msg : Msg) (buf : Memory) (bufSize : UInt64) (key : Option (List UInt8)) :
    EncodeResult :=
  let e : Encoding := ⟨buf,0,0,bufSize,[]⟩
  if bufSize = 0 then ⟨.einval,e,none,none,none⟩
  else if bufSize < 20 then ⟨.etoosmall,e,none,none,none⟩
  else
    let e := (e.put 0 (putHeader msg.hdr)).advance stunMsgHdrLen
    match encodeAttrs env msg.hdr msg.attrs e with
    | (.success, e, stopped) =>
      match scanStopped stopped with
      | .error status => ⟨status,e,none,none,none⟩
      | .ok (amsgint, afingerprint) =>
        let e := e.put 2 (be16 (bodyLength amsgint e.pos))
        encodeIntegrity env msg key msg.attrs.length e afingerprint amsgint
    | (status, e, _) => ⟨status,e,none,none,none⟩

/- The encoder stores the digest and the checksum it computes in the message. -/
def EncodeResult.body (r : EncodeResult) (a : Attr) : Body :=
  match a.body with
  | .uint value => .uint (if a.type = attrFingerprint then r.fingerprint.getD value else value)
  | .msgint hmac => .msgint (if a.type = attrMessageIntegrity then r.hmac.getD hmac else hmac)
  | body => body

end Pjproject.Stun
