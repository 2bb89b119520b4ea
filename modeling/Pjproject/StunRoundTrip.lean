import Pjproject.StunBounds
import Pjproject.StunEncodeBounds

/-! What the decoder makes of the encoder's bytes. One attribute at a time: the bytes an
encoder has put at the walk's position are read back by the decoder its type names. The
rest is an induction over the attributes. -/
namespace Pjproject.Stun
open Lib.Bytes

def sockaddrSize : SockAddr → Nat
  | .ipv4 _ _ => 8
  | .ipv6 _ _ => 20
  | .other => 20

/- The bytes of an attribute in a packet, padding included. -/
def attrSize (a : Attr) : Nat :=
  match a.body with
  | .sockaddr _ addr => 4 + sockaddrSize addr
  | .empty => 4
  | .string value => 4 + pad4 value.length
  | .uint _ => 8
  | .uint64 _ _ => 12
  | .msgint _ => 24
  | .errcode _ reason => 8 + pad4 reason.length
  | .unknown attrs => 4 + pad4 (2 * attrs.length)
  | .binary _ data => 4 + pad4 data.length

def bodySize (attrs : List Attr) : Nat := (attrs.map attrSize).sum

theorem bodySizeCons (a : Attr) (attrs : List Attr) : bodySize (a :: attrs) = attrSize a + bodySize attrs := rfl

theorem bodySizeAppend (attrs more : List Attr) : bodySize (attrs ++ more) = bodySize attrs + bodySize more := by
  simp [bodySize]

/- The decoder takes the attribute: a type the peer may meet, and MESSAGE-INTEGRITY with the
length that pj_stun_msgint_attr_create sets. -/
def Accepted (a : Attr) : Prop :=
  (findAttrDesc a.type = none → ¬ a.type ≤ 0x7FFF) ∧
  match a.body with
  | .msgint _ => a.length = 20
  | _ => True

/- The value survives the wire too: an address is XORed exactly under the types whose
decoder undoes it, and the hundreds of an error code fit a byte. -/
def Carried (a : Attr) : Prop :=
  match a.body with
  | .sockaddr xorEd _ => xorEd = true ↔ findAttrDesc a.type = some .xoredSockaddr
  | .errcode errCode _ => 0 ≤ errCode ∧ errCode < 25600
  | _ => True

def wireLength (hdr : MsgHdr) (a : Attr) : Nat :=
  match a.body with
  | .sockaddr _ addr => sockaddrSize addr
  | .empty => 0
  | .string value => if paddedLength a.type hdr then pad4 value.length else value.length
  | .uint _ => 4
  | .uint64 _ _ => 8
  | .msgint _ => 20
  | .errcode _ reason => 4 + reason.length
  | .unknown attrs => 2 * attrs.length
  | .binary _ data => data.length

/- The value the peer should read: a string keeps the padding that its length counts, and
the magic of a binary attribute is the mark of the function that made the structure. -/
def received (env : Env) (hdr : MsgHdr) (attrType : UInt16) : Body → Body
  | .string value =>
    .string (if paddedLength attrType hdr then value ++ stringPad env.paddingChar value.length else value)
  | .binary _ data => .binary (if findAttrDesc attrType = none then stunMagic else 0) data
  | body => body

def arrives (env : Env) (hdr : MsgHdr) (a : Attr) : Body :=
  match a.body with
  | .sockaddr xorEd addr =>
    let shown := if xorEd then xorAddr hdr addr else addr
    if findAttrDesc a.type = some .xoredSockaddr then .sockaddr true (xorAddr hdr shown) else .sockaddr false shown
  | .errcode errCode reason =>
    .errcode (((uint8OfInt (errCode.tdiv 100)).toNat * 100 + (uint8OfInt (errCode.tmod 100)).toNat : Nat) : Int) reason
  | body => received env hdr a.type body

def Attr.view (a : Attr) : UInt16 × UInt16 × Body := (a.type, a.length, a.body)

def sent (env : Env) (hdr : MsgHdr) (a : Attr) : UInt16 × UInt16 × Body :=
  (a.type, UInt16.ofNat (wireLength hdr a), arrives env hdr a)

/- The encoder of the attribute has written it at `pos`. -/
def Written (env : Env) (hdr : MsgHdr) (m : Memory) (pos : Nat) (a : Attr) : Prop :=
  ∃ len, (encodeAttr env hdr a len).status = .success ∧ Holds m pos (encodeAttr env hdr a len).bytes

def sockaddrBytes : SockAddr → List UInt8
  | .ipv4 port addr => [0,1] ++ (be16 port ++ List.ofFn addr)
  | .ipv6 port addr => [0,2] ++ (be16 port ++ List.ofFn addr)
  | .other => []

/- The value of an attribute, behind its header. -/
def valueBytes (env : Env) (hdr : MsgHdr) (a : Attr) : List UInt8 :=
  match a.body with
  | .sockaddr xorEd addr => sockaddrBytes (if xorEd then xorAddr hdr addr else addr)
  | .empty => []
  | .string value => value ++ stringPad env.paddingChar value.length
  | .uint value => be32 value
  | .uint64 hi lo => be32 hi ++ be32 lo
  | .msgint hmac => List.ofFn hmac
  | .errcode errCode reason =>
    be16 0 ++ ([uint8OfInt (errCode.tdiv 100),uint8OfInt (errCode.tmod 100)] ++ reason)
  | .unknown attrs => attrs.flatMap be16
  | .binary _ data => data

variable {env : Env} {len pos n : Nat} {a f : Attr} {hdr hdr' : MsgHdr} {pdu m : Memory} {attrType : UInt16} {w : Walk}
  {pre : List Attr} {amsgint afingerprint : Option Attr} {msg : Msg} {key : Option (List UInt8)} {r : EncodeResult}

theorem lengthChecked {need printed : Nat} {refused bytes : List UInt8}
    (done : (if len < need then (⟨.etoosmall,refused,0⟩ : Printed) else ⟨.success,bytes,printed⟩).status =
      .success) : (if len < need then (⟨.etoosmall,refused,0⟩ : Printed) else ⟨.success,bytes,printed⟩) =
      ⟨.success,bytes,printed⟩ := by
  split at done
  · simp at done
  · rename_i room
    exact if_neg room

theorem encodeAttrSuccess (accepted : Accepted a)
    (small : attrSize a < 65536) (done : (encodeAttr env hdr a len).status = .success) :
    (encodeAttr env hdr a len).bytes =
      be16 a.type ++ (be16 (UInt16.ofNat (wireLength hdr a)) ++ valueBytes env hdr a) ∧
    (encodeAttr env hdr a len).printed = attrSize a ∧ ∀ xorEd, a.body ≠ .sockaddr xorEd .other := by
  obtain ⟨type,length,body,fits⟩ := a
  cases body with
  | sockaddr xorEd addr =>
    cases addr with
    | other => cases xorEd <;> simp [encodeAttr,encodeSockaddrAttr,xorAddr] at done
    | _ =>
      cases xorEd with
      | false =>
        have written := lengthChecked done
        simp only [encodeAttr,encodeSockaddrAttr,Bool.false_eq_true,if_false]
        rw [written]
        exact ⟨rfl,rfl,by simp⟩
      | true =>
        have written := lengthChecked done
        simp only [encodeAttr,encodeSockaddrAttr,if_true,xorAddr]
        rw [written]
        exact ⟨rfl,rfl,by simp⟩
  | empty =>
    have written := lengthChecked done
    simp only [encodeAttr,encodeEmptyAttr]
    rw [written]
    exact ⟨by simp [wireLength,valueBytes],rfl,by simp⟩
  | string =>
    have written := lengthChecked done
    simp only [encodeAttr,encodeStringAttr]
    rw [written]
    refine ⟨rfl,?_,by simp⟩
    simp only [attrSize,u32,attrHdrLen,pad4] at small ⊢
    omega
  | uint =>
    have written := lengthChecked done
    simp only [encodeAttr,encodeUintAttr]
    rw [written]
    exact ⟨rfl,rfl,by simp⟩
  | uint64 hi lo =>
    have written := lengthChecked done
    simp only [encodeAttr,encodeUint64Attr]
    rw [written]
    exact ⟨rfl,rfl,by simp⟩
  | msgint =>
    have created : length = 20 := accepted.2
    have written := lengthChecked done
    simp only [encodeAttr,encodeMsgintAttr]
    rw [written,created]
    exact ⟨rfl,rfl,by simp⟩
  | errcode =>
    have written := lengthChecked done
    simp only [encodeAttr,encodeErrcodeAttr]
    rw [written]
    refine ⟨rfl,?_,by simp⟩
    simp only [attrSize,u32,attrHdrLen,pad4] at small ⊢
    omega
  | unknown =>
    have written := lengthChecked done
    simp only [encodeAttr,encodeUnknownAttr]
    rw [written]
    refine ⟨?_,?_,by simp⟩
    · simp only [wireLength,valueBytes,Nat.mul_comm]
    · simp only [attrSize,attrHdrLen,pad4]
      omega
  | binary magic data =>
    simp only [encodeAttr,encodeBinaryAttr] at done ⊢
    split at done
    · simp at done
    · rename_i marked
      rw [if_neg marked,lengthChecked done]
      refine ⟨rfl,?_,by simp⟩
      simp only [attrSize,u32,attrHdrLen,pad4] at small ⊢
      omega

theorem wireLengthSize (hdr : MsgHdr) (a : Attr) : pad4 (wireLength hdr a) + 4 = attrSize a := by
  obtain ⟨type,length,body,fits⟩ := a
  cases body with
  | sockaddr xorEd addr => cases addr <;> simp [wireLength,attrSize,sockaddrSize,pad4]
  | string =>
    simp only [wireLength,attrSize]
    split <;> (unfold pad4; omega)
  | errcode =>
    simp only [wireLength,attrSize]
    unfold pad4
    omega
  | unknown => exact Nat.add_comm _ _
  | binary => exact Nat.add_comm _ _
  | _ => simp [wireLength,attrSize,pad4]

theorem wireLengthToNat (hdr : MsgHdr) (small : attrSize a < 65536) :
    (UInt16.ofNat (wireLength hdr a)).toNat = wireLength hdr a := by
  have size := wireLengthSize hdr a
  have least := (pad4Le (wireLength hdr a)).1
  rw [UInt16.toNat_ofNat']
  omega

theorem xorAddrTwice (hdr : MsgHdr) (addr : SockAddr) : xorAddr hdr (xorAddr hdr addr) = addr := by
  cases addr with
  | other => rfl
  | _ => simp [xorAddr]

theorem xorAddrCongr (same : hdr'.tsxId = hdr.tsxId) (addr : SockAddr) :
    xorAddr hdr' addr = xorAddr hdr addr := by
  have key : xorKey hdr' = xorKey hdr := by unfold xorKey; rw [same]
  cases addr with
  | ipv6 port addr => simp only [xorAddr,key]
  | _ => rfl

theorem sockaddrSizeXor (hdr : MsgHdr) (addr : SockAddr) : sockaddrSize (xorAddr hdr addr) = sockaddrSize addr := by
  cases addr <;> rfl

theorem decodeSockaddrWritten {shown : SockAddr} (known : shown ≠ .other)
    (value : Holds pdu (pos + 4) (sockaddrBytes shown)) :
    (decodeSockaddr pdu pos (UInt16.ofNat (sockaddrSize shown))).result = .ok shown := by
  unfold decodeSockaddr
  cases shown with
  | other => exact absurd rfl known
  | ipv4 port addr =>
    simp only [sockaddrBytes,holdsAppend,Holds] at value
    obtain ⟨⟨_,family,_⟩,stored,bytes⟩ := value
    have number : pdu (pos + 5) = 1 := family
    have array := holdsOfFn bytes
    have word := holdsBe16 stored
    simp only [List.length_cons,List.length_nil,be16Length,Nat.zero_add,Nat.reduceAdd,
      Nat.add_assoc] at array word
    simp [readByteBind,read16Bind,readArrayBind,number,attrHdrLen,sockaddrSize,array,word,Nat.add_assoc]
  | ipv6 port addr =>
    simp only [sockaddrBytes,holdsAppend,Holds] at value
    obtain ⟨⟨_,family,_⟩,stored,bytes⟩ := value
    have number : pdu (pos + 5) = 2 := family
    have array := holdsOfFn bytes
    have word := holdsBe16 stored
    simp only [List.length_cons,List.length_nil,be16Length,Nat.zero_add,Nat.reduceAdd,
      Nat.add_assoc] at array word
    simp [readByteBind,read16Bind,readArrayBind,number,attrHdrLen,sockaddrSize,array,word,Nat.add_assoc]

theorem errCodeBytes {errCode : Int} (low : 0 ≤ errCode) (high : errCode < 25600) :
    (((uint8OfInt (errCode.tdiv 100)).toNat * 100 + (uint8OfInt (errCode.tmod 100)).toNat : Nat) : Int) = errCode := by
  obtain ⟨n,rfl⟩ := Int.eq_ofNat_of_zero_le low
  rw [Int.tdiv_eq_ediv_of_nonneg low,Int.tmod_eq_emod_of_nonneg low]
  unfold uint8OfInt
  rw [UInt8.toNat_ofNat',UInt8.toNat_ofNat']
  omega

theorem decodeErrcodeResult (pdu : Memory) (pos : Nat) {length : UInt16}
    (desc : findAttrDesc attrType = some .errcode) (long : 4 ≤ length.toNat) :
    ∃ attr, (decodeErrcodeAttr pdu pos attrType length desc).result = .ok attr ∧
      attr.view = (attrType, length, .errcode (((pdu (pos + 6)).toNat * 100 + (pdu (pos + 7)).toNat : Nat) : Int)
        (slice pdu (pos + 8) (length.toNat - 4))) := by
  have enough : ¬ length < 4 := by
    rw [UInt16.lt_iff_toNat_lt]
    simpa using long
  unfold decodeErrcodeAttr
  simp only [readByteBind,if_neg enough]
  exact ⟨_,rfl,rfl⟩

theorem decodeUnknownResult (pdu : Memory) (pos : Nat) {length : UInt16}
    (desc : findAttrDesc attrType = some .unknown) (few : length.toNat / 2 ≤ stunMaxAttr) :
    ∃ attr, (decodeUnknownAttr pdu pos attrType length desc).result = .ok attr ∧
      attr.view = (attrType, length, .unknown (words pdu (pos + 4) (length.toNat / 2))) := by
  unfold decodeUnknownAttr
  rw [dif_neg (Nat.not_lt.mpr few)]
  exact ⟨_,rfl,rfl⟩

theorem arrivesCarried (env : Env) (hdr : MsgHdr) (carried : Carried a) :
    arrives env hdr a = received env hdr a.type a.body := by
  obtain ⟨type,created,body,fits⟩ := a
  cases body with
  | sockaddr xorEd =>
    have flag : xorEd = true ↔ findAttrDesc type = some .xoredSockaddr := carried
    cases xorEd with
    | false => simp_all [arrives,received]
    | true => simp_all [arrives,received,xorAddrTwice]
  | errcode =>
    simp only [arrives,received]
    rw [errCodeBytes carried.1 carried.2]
  | _ => rfl

theorem decodeAttrWritten (same : hdr'.tsxId = hdr.tsxId) (accepted : Accepted a) (small : attrSize a < 65536)
    (addressed : ∀ xorEd, a.body ≠ .sockaddr xorEd .other)
    (value : Holds pdu (pos + 4) (valueBytes env hdr a)) {kind : AttrKind}
    (desc : findAttrDesc a.type = some kind) :
    ∃ attr, (decodeAttr hdr' pdu pos a.type (UInt16.ofNat (wireLength hdr a)) kind desc).result = .ok attr ∧
      attr.view = sent env hdr a := by
  have length := wireLengthToNat hdr small
  obtain ⟨type,created,body,fits⟩ := a
  simp only at desc
  cases body with
  | sockaddr xorEd addr =>
    have known : addr ≠ .other := by
      rintro rfl
      exact addressed xorEd rfl
    have masked : (if xorEd then xorAddr hdr addr else addr) ≠ .other := by
      cases xorEd with
      | false => exact known
      | true => cases addr <;> simp_all [xorAddr]
    have size : wireLength hdr ⟨type,created,.sockaddr xorEd addr,fits⟩ =
        sockaddrSize (if xorEd then xorAddr hdr addr else addr) := by
      cases xorEd with
      | false => rfl
      | true => exact (sockaddrSizeXor hdr addr).symm
    have decoded := decodeSockaddrWritten masked value
    rw [← size] at decoded
    rcases fits with plain | xored
    · cases plain.symm.trans desc
      simp only [decodeAttr,decodeSockaddrAttr]
      rw [bindOk decoded]
      exact ⟨_,rfl,by simp [Attr.view,sent,arrives,plain]⟩
    · cases xored.symm.trans desc
      simp only [decodeAttr,decodeXoredSockaddrAttr]
      rw [bindOk decoded]
      exact ⟨_,rfl,by simp [Attr.view,sent,arrives,xored,xorAddrCongr same]⟩
  | empty =>
    cases (show findAttrDesc type = some .empty from fits).symm.trans desc
    exact ⟨_,rfl,rfl⟩
  | string text =>
    cases (show findAttrDesc type = some .string from fits).symm.trans desc
    refine ⟨_,rfl,?_⟩
    simp only [Attr.view,sent,arrives,received,attrHdrLen,length]
    simp only [valueBytes] at value
    simp only [wireLength]
    split
    · rename_i padded
      have all := holdsSlice value
      rw [List.length_append,stringPadLength] at all
      rw [all]
    · rw [holdsSlice (holdsAppend.mp value).1]
  | uint number =>
    cases (show findAttrDesc type = some .uint from fits).symm.trans desc
    have word := holdsBe32 value
    refine ⟨⟨type,4,.uint number,fits⟩,?_,rfl⟩
    simp [decodeAttr,decodeUintAttr,read32Bind,wireLength,word]
  | uint64 hi lo =>
    cases (show findAttrDesc type = some .uint64 from fits).symm.trans desc
    obtain ⟨high,low⟩ := holdsAppend.mp value
    have first := holdsBe32 high
    have second := holdsBe32 low
    simp only [be32Length,Nat.add_assoc] at first second
    refine ⟨⟨type,8,.uint64 hi lo,fits⟩,?_,rfl⟩
    simp [decodeAttr,decodeUint64Attr,read32Bind,wireLength,first,second,Nat.add_assoc]
  | msgint hmac =>
    cases (show findAttrDesc type = some .msgint from fits).symm.trans desc
    have array := holdsOfFn value
    refine ⟨⟨type,20,.msgint hmac,fits⟩,?_,rfl⟩
    simp [decodeAttr,decodeMsgintAttr,readArrayBind,wireLength,array]
  | errcode errCode reason =>
    cases (show findAttrDesc type = some .errcode from fits).symm.trans desc
    simp only [valueBytes,holdsAppend,Holds,be16Length,List.length_cons,List.length_nil] at value
    obtain ⟨_,⟨hundreds,number,_⟩,text⟩ := value
    have copied := holdsSlice text
    simp only [wireLength] at length ⊢
    obtain ⟨attr,decoded,view⟩ := decodeErrcodeResult pdu pos desc
      (show 4 ≤ (UInt16.ofNat (4 + reason.length)).toNat by omega)
    refine ⟨attr,decoded,?_⟩
    rw [view,length,show pdu (pos + 6) = _ from hundreds,show pdu (pos + 7) = _ from number,
      Nat.add_sub_cancel_left,show slice pdu (pos + 8) reason.length = _ from copied]
    rfl
  | unknown attrs =>
    obtain ⟨known,few⟩ := fits
    cases known.symm.trans desc
    have words := holdsWords value
    simp only [wireLength] at length ⊢
    have count : (UInt16.ofNat (2 * attrs.length)).toNat / 2 = attrs.length := by omega
    obtain ⟨attr,decoded,view⟩ := decodeUnknownResult pdu pos desc (count.trans_le few)
    refine ⟨attr,decoded,?_⟩
    rw [view,count,words]
    rfl
  | binary =>
    have known : findAttrDesc type = some .binary := by
      rcases fits.1 with known | unknown
      · exact known
      · simp [unknown] at desc
    cases known.symm.trans desc
    refine ⟨_,rfl,?_⟩
    simp only [Attr.view,sent,arrives,received,attrHdrLen,length,known,reduceCtorEq,if_false]
    simp only [wireLength,valueBytes] at value ⊢
    rw [holdsSlice value]

theorem decodeGenericWritten (small : attrSize a < 65536) (value : Holds pdu (pos + 4) (valueBytes env hdr a))
    (desc : findAttrDesc a.type = none) :
    ∃ attr, (decodeGenericAttr pdu pos a.type (UInt16.ofNat (wireLength hdr a)) desc).result = .ok attr ∧
      attr.view = sent env hdr a := by
  have length := wireLengthToNat hdr small
  obtain ⟨type,created,body,fits⟩ := a
  simp only at desc
  cases body with
  | binary =>
    refine ⟨_,rfl,?_⟩
    simp only [Attr.view,sent,arrives,received,binaryAttrCreate,attrHdrLen,length,desc,if_true]
    simp only [wireLength,valueBytes] at value ⊢
    rw [holdsSlice value]
  | _ => simp [Body.fits,desc] at fits

/- MESSAGE-INTEGRITY comes once, and nothing comes behind FINGERPRINT. -/
def Ordered : Bool → Bool → List Attr → Prop
  | _, _, [] => True
  | hasMsgInt, hasFingerprint, a :: rest =>
    hasFingerprint = false ∧ (a.type = attrMessageIntegrity → hasMsgInt = false) ∧
    Ordered (hasMsgInt || a.type == attrMessageIntegrity) (a.type == attrFingerprint) rest

theorem addRoom {attr : Attr} {msgInt fingerprint : Bool}
    (room : w.attrs.length < stunMaxAttr) (enough : len + 4 ≤ w.remaining) :
    ∃ next, (w.add len attr msgInt fingerprint).result = .ok next ∧ next.attrs = w.attrs ++ [attr] ∧
      next.pos = w.pos + (len + 4) ∧ next.remaining = w.remaining - (len + 4) ∧
      next.hasMsgInt = msgInt ∧ next.hasFingerprint = fingerprint := by
  unfold Walk.add
  rw [dif_pos room]
  refine ⟨_,rfl,rfl,?_,?_,rfl,rfl⟩
  · simp only
    split <;> omega
  · simp only
    split <;> omega

theorem checkOrderFirst {hasMsgInt : Bool} (once : attrType = attrMessageIntegrity → hasMsgInt = false) :
    checkOrder attrType hasMsgInt false =
      .ok (hasMsgInt || attrType == attrMessageIntegrity, attrType == attrFingerprint) := by
  unfold checkOrder
  by_cases integrity : attrType = attrMessageIntegrity
  · rw [if_pos ⟨integrity,rfl⟩,once integrity,integrity]
    rfl
  · rw [if_neg fun both => integrity both.1]
    by_cases fingerprint : attrType = attrFingerprint
    · rw [if_pos fingerprint,fingerprint]
      simp [show (attrFingerprint == attrMessageIntegrity) = false from rfl]
    · rw [if_neg fingerprint]
      simp [integrity,fingerprint]

theorem walkStepWritten (same : hdr'.tsxId = hdr.tsxId) (accepted : Accepted a) (small : attrSize a < 65536)
    (written : Written env hdr pdu w.pos a) (room : w.attrs.length < stunMaxAttr)
    (enough : attrSize a ≤ w.remaining) (last : w.hasFingerprint = false)
    (once : a.type = attrMessageIntegrity → w.hasMsgInt = false) :
    ∃ next, (walkStep hdr' pdu w).result = .ok next ∧
      next.attrs.map Attr.view = w.attrs.map Attr.view ++ [sent env hdr a] ∧
      next.pos = w.pos + attrSize a ∧ next.remaining = w.remaining - attrSize a ∧
      next.hasMsgInt = (w.hasMsgInt || a.type == attrMessageIntegrity) ∧
      next.hasFingerprint = (a.type == attrFingerprint) := by
  obtain ⟨len,done,holds⟩ := written
  obtain ⟨bytes,_,addressed⟩ := encodeAttrSuccess accepted small done
  rw [bytes,holdsAppend,holdsAppend,be16Length,be16Length] at holds
  obtain ⟨typeBytes,lengthBytes,value⟩ := holds
  have length := wireLengthToNat hdr small
  have size := wireLengthSize hdr a
  have added : ∀ attr msgInt fingerprint, ∃ next,
      (w.add (pad4 (wireLength hdr a)) attr msgInt fingerprint).result = .ok next ∧
      next.attrs = w.attrs ++ [attr] ∧ next.pos = w.pos + attrSize a ∧
      next.remaining = w.remaining - attrSize a ∧ next.hasMsgInt = msgInt ∧ next.hasFingerprint = fingerprint := by
    intro attr msgInt fingerprint
    rw [← size] at enough ⊢
    exact addRoom room enough
  unfold walkStep
  simp only [read16Bind]
  have typeRead := holdsBe16 typeBytes
  have lengthRead := holdsBe16 lengthBytes
  generalize word16 (pdu w.pos) (pdu (w.pos + 1)) = attrType at typeRead
  generalize word16 (pdu (w.pos + 2)) (pdu (w.pos + 2 + 1)) = attrLen at lengthRead
  subst typeRead lengthRead
  rw [length,if_neg (by omega)]
  split
  · rename_i desc
    have optional : ¬ a.type ≤ 0x7FFF := accepted.1 desc
    obtain ⟨attr,decoded,view⟩ := decodeGenericWritten small value desc
    obtain ⟨next,stepped,attrs,pos,remaining,msgInt,fingerprint⟩ := added attr w.hasMsgInt w.hasFingerprint
    have plain : (a.type == attrMessageIntegrity) = false ∧ (a.type == attrFingerprint) = false := by
      constructor
      · refine beq_false_of_ne fun integrity => ?_
        rw [integrity] at desc
        exact absurd desc (by decide)
      · refine beq_false_of_ne fun fp => ?_
        rw [fp] at desc
        exact absurd desc (by decide)
    rw [if_neg optional,if_neg (by omega),bindOk decoded]
    refine ⟨next,stepped,?_,pos,remaining,?_,?_⟩
    · rw [attrs,List.map_append,← view]
      rfl
    · rw [msgInt,plain.1,Bool.or_false]
    · rw [fingerprint,plain.2,last]
  · rename_i kind desc
    obtain ⟨attr,decoded,view⟩ := decodeAttrWritten same accepted small addressed value desc
    obtain ⟨next,stepped,attrs,rest⟩ :=
      added attr (w.hasMsgInt || a.type == attrMessageIntegrity) (a.type == attrFingerprint)
    rw [bindOk decoded]
    simp only [last,checkOrderFirst once]
    refine ⟨next,stepped,?_,rest⟩
    rw [attrs,List.map_append,← view]
    rfl

def Stored (env : Env) (hdr : MsgHdr) (m : Memory) : Nat → List Attr → Prop
  | _, [] => True
  | pos, a :: rest => Written env hdr m pos a ∧ Stored env hdr m (pos + attrSize a) rest

theorem walkAttrsStored (same : hdr'.tsxId = hdr.tsxId)
    (attrs : List Attr) (accepted : ∀ a ∈ attrs, Accepted a) (fuel : Nat)
    (stored : Stored env hdr pdu w.pos attrs) (remaining : w.remaining = bodySize attrs)
    (small : bodySize attrs < 65536) (enough : w.remaining ≤ fuel)
    (room : w.attrs.length + attrs.length ≤ stunMaxAttr) (ordered : Ordered w.hasMsgInt w.hasFingerprint attrs) :
    ∃ last, (walkAttrs hdr' pdu fuel w).result = .ok last ∧ last.remaining = 0 ∧
      last.pos = w.pos + bodySize attrs ∧
      last.attrs.map Attr.view = w.attrs.map Attr.view ++ attrs.map (sent env hdr) := by
  induction attrs generalizing w fuel with
  | nil =>
    refine ⟨w,?_,remaining,rfl,by simp⟩
    have none : w.remaining = 0 := remaining
    cases fuel with
    | zero => rfl
    | succ =>
      unfold walkAttrs
      rw [if_neg (by omega)]
      rfl
  | cons a attrs ih =>
    obtain ⟨written,stored⟩ := stored
    obtain ⟨last,once,ordered⟩ := ordered
    have four : 4 ≤ attrSize a := by
      have := wireLengthSize hdr a
      omega
    rw [bodySizeCons] at remaining small
    rw [List.length_cons] at room
    obtain ⟨next,stepped,views,pos,left,msgInt,fingerprint⟩ :=
      walkStepWritten same (accepted a List.mem_cons_self) (by omega) written (by omega) (by omega) last once
    have count : next.attrs.length = w.attrs.length + 1 := by
      have := congrArg List.length views
      simpa using this
    cases fuel with
    | zero => omega
    | succ fuel =>
      obtain ⟨final,ran,nothing,stop,all⟩ :=
        ih (fun b mem => accepted b (List.mem_cons_of_mem _ mem)) fuel (by rw [pos]; exact stored) (by omega)
          (by omega) (by omega) (by omega) (by rw [msgInt,fingerprint]; exact ordered)
      unfold walkAttrs
      rw [if_pos (by omega),bindOk stepped]
      refine ⟨final,ran,nothing,by rw [bodySizeCons]; omega,?_⟩
      rw [all,views,List.append_assoc]
      rfl

theorem valueLength (env : Env) (hdr : MsgHdr) (a : Attr) (addressed : ∀ xorEd, a.body ≠ .sockaddr xorEd .other) :
    (valueBytes env hdr a).length ≤ pad4 (wireLength hdr a) := by
  obtain ⟨type,length,body,fits⟩ := a
  cases body with
  | sockaddr xorEd addr =>
    cases addr with
    | other => exact absurd rfl (addressed xorEd)
    | _ => cases xorEd <;> simp [valueBytes,wireLength,sockaddrBytes,sockaddrSize,xorAddr,be16Length,pad4]
  | string =>
    simp only [valueBytes,wireLength,List.length_append,stringPadLength]
    split
    · exact (pad4Le _).1
    · exact Nat.le_refl _
  | errcode errCode reason =>
    simp only [valueBytes,wireLength,List.length_append,be16Length,List.length_cons,List.length_nil]
    have := (pad4Le (4 + reason.length)).1
    omega
  | unknown =>
    simp only [valueBytes,wireLength,flatMapBe16Length]
    exact (pad4Le _).1
  | binary => exact (pad4Le _).1
  | _ => simp [valueBytes,wireLength,be32Length,pad4]

theorem Written.congr {m' : Memory}
    (written : Written env hdr m pos a) (accepted : Accepted a) (small : attrSize a < 65536)
    (same : ∀ i, pos ≤ i → i < pos + attrSize a → m' i = m i) : Written env hdr m' pos a := by
  obtain ⟨len,done,holds⟩ := written
  obtain ⟨bytes,_,addressed⟩ := encodeAttrSuccess accepted small done
  have size := wireLengthSize hdr a
  have value := valueLength env hdr a addressed
  refine ⟨len,done,holds.congr fun i low high => same i low ?_⟩
  rw [bytes,List.length_append,List.length_append,be16Length,be16Length] at high
  omega

theorem Stored.congr {m' : Memory} {attrs : List Attr}
    (stored : Stored env hdr m pos attrs) (accepted : ∀ a ∈ attrs, Accepted a) (small : bodySize attrs < 65536)
    (same : ∀ i, pos ≤ i → i < pos + bodySize attrs → m' i = m i) : Stored env hdr m' pos attrs := by
  induction attrs generalizing pos with
  | nil => trivial
  | cons a attrs ih =>
    rw [bodySizeCons] at small same
    exact ⟨stored.1.congr (accepted a List.mem_cons_self) (by omega) fun i low high => same i low (by omega),
      ih stored.2 (fun b mem => accepted b (List.mem_cons_of_mem _ mem)) (by omega)
        fun i low high => same i (by omega) (by omega)⟩

theorem storedAppend {attrs more : List Attr} : Stored env hdr m pos (attrs ++ more) ↔
      Stored env hdr m pos attrs ∧ Stored env hdr m (pos + bodySize attrs) more := by
  induction attrs generalizing pos with
  | nil => simp [Stored,bodySize]
  | cons a attrs ih =>
    simp only [List.cons_append,Stored,ih,bodySizeCons,Nat.add_assoc,and_assoc]

/- A packet under construction: the header with this length, these attributes behind it,
and the encoder at its end. -/
structure Packet (env : Env) (hdr : MsgHdr) (length : UInt16) (attrs : List Attr) (e : Encoding) : Prop where
  header : headerAt e.mem = { hdr with length := length }
  stored : Stored env hdr e.mem stunMsgHdrLen attrs
  pos : e.pos = stunMsgHdrLen + bodySize attrs

theorem headerWritten (holds : Holds m 0 (putHeader hdr)) :
    headerAt m = { hdr with length := 0 } := by
  simp only [putHeader,holdsAppend,be16Length,be32Length] at holds
  obtain ⟨typeBytes,lengthBytes,magicBytes,tsxIdBytes⟩ := holds
  have type : word16 (m 0) (m 1) = hdr.type := holdsBe16 typeBytes
  have length : word16 (m 2) (m 3) = 0 := holdsBe16 lengthBytes
  have magic : word32 (m 4) (m 5) (m 6) (m 7) = hdr.magic := holdsBe32 magicBytes
  have tsxId : (fun i : Fin 12 => m (8 + i)) = hdr.tsxId := holdsOfFn tsxIdBytes
  simp only [headerAt,type,length,magic,tsxId]

theorem headerPatch (m : Memory) (v : UInt16) :
    headerAt (write m 2 (be16 v)) = { headerAt m with length := v } := by
  have word := holdsBe16 (holdsWrite m 2 (be16 v))
  have low : ∀ i, i < 2 → write m 2 (be16 v) i = m i := fun i before => writeBefore before
  have high : ∀ i, 4 ≤ i → write m 2 (be16 v) i = m i := fun i after => writeAfter after
  have tsxId : (fun i : Fin 12 => write m 2 (be16 v) (8 + i)) = fun i : Fin 12 => m (8 + i) :=
    funext fun i => high _ (by omega)
  simp only [headerAt,tsxId,word,low 0 (by omega),low 1 (by omega),high 4 (by omega),high 5 (by omega),
    high 6 (by omega),high 7 (by omega)]

section Building
variable {length : UInt16} {attrs : List Attr} {e : Encoding}

theorem Packet.patch (packet : Packet env hdr length attrs e) (accepted : ∀ a ∈ attrs, Accepted a)
    (small : bodySize attrs < 65536) (v : UInt16) : Packet env hdr v attrs (e.put 2 (be16 v)) where
  header := by
    simp only [Encoding.put,headerPatch,packet.header]
  stored := packet.stored.congr accepted small fun i low _ => writeAfter (by
    simp only [stunMsgHdrLen] at low
    rw [be16Length]
    omega)
  pos := packet.pos

theorem Packet.call (packet : Packet env hdr length attrs e) {a : Attr} (accepted : ∀ b ∈ attrs ++ [a], Accepted b)
    (small : bodySize (attrs ++ [a]) < 65536) {e' : Encoding}
    (done : e.call (encodeAttr env hdr a) = (.success, e')) :
    Packet env hdr length (attrs ++ [a]) e' ∧ ∀ i, i < e.pos → e'.mem i = e.mem i := by
  have last : Accepted a := accepted a (List.mem_append_right _ List.mem_cons_self)
  have size : bodySize (attrs ++ [a]) = bodySize attrs + attrSize a := by simp [bodySize]
  have success : (encodeAttr env hdr a (u32 e.bufSize.toNat)).status = .success := by
    rw [← callStatus,done]
  obtain ⟨_,printed,_⟩ := encodeAttrSuccess last (by omega) success
  rw [callSuccess success] at done
  obtain rfl := (Prod.mk.inj done).2
  have pos := packet.pos
  have before : ∀ i, i < e.pos →
      ((e.put e.pos (encodeAttr env hdr a (u32 e.bufSize.toNat)).bytes).advance
        (encodeAttr env hdr a (u32 e.bufSize.toNat)).printed).mem i = e.mem i := fun i low => writeBefore low
  refine ⟨⟨?_,?_,?_⟩,before⟩
  · rw [headerCongr fun i low => before i (by simp only [stunMsgHdrLen] at pos; omega),packet.header]
  · rw [storedAppend,← pos]
    refine ⟨packet.stored.congr (fun b mem => accepted b (List.mem_append_left _ mem)) (by omega)
      fun i _ high => before i (by omega),⟨u32 e.bufSize.toNat,success,holdsWrite _ _ _⟩,trivial⟩
  · simp only [Encoding.advance,Encoding.put,printed,size]
    omega

theorem encodeAttrsPacket (more : List Attr) (packet : Packet env hdr length attrs e)
    (accepted : ∀ b ∈ attrs ++ more, Accepted b) (small : bodySize (attrs ++ more) < 65536) {e' : Encoding}
    {stopped : List Attr} (done : encodeAttrs env hdr more e = (.success, e', stopped)) :
    ∃ encoded, more = encoded ++ stopped ∧ (∀ a ∈ encoded, stopsEncoding a = false) ∧
      (∀ a ∈ stopped.head?, stopsEncoding a = true) ∧ Packet env hdr length (attrs ++ encoded) e' := by
  induction more generalizing attrs e with
  | nil =>
    cases done
    exact ⟨[],rfl,by simp,by simp,by simpa using packet⟩
  | cons a more ih =>
    unfold encodeAttrs at done
    split at done
    · rename_i stops
      cases done
      exact ⟨[],rfl,by simp,by simpa using stops,by simpa using packet⟩
    · rename_i goes
      cases found : e.call (encodeAttr env hdr a) with
      | mk status =>
        rw [found] at done
        cases status with
        | success =>
          simp only at done
          have here : attrs ++ a :: more = attrs ++ [a] ++ more := by simp
          rw [here] at accepted small
          rw [bodySizeAppend] at small
          obtain ⟨called,_⟩ :=
            packet.call (fun b mem => accepted b (List.mem_append_left _ mem)) (by omega) found
          obtain ⟨encoded,same,going,stop,packet⟩ := ih called accepted (by rw [bodySizeAppend]; omega) done
          refine ⟨a :: encoded,by rw [same]; rfl,?_,stop,by simpa using packet⟩
          intro b mem
          rcases List.mem_cons.mp mem with rfl | later
          · simpa using goes
          · exact going b later
        | _ => simp at done

theorem bodyFits (r : EncodeResult) (a : Attr) : (r.body a).fits a.type := by
  obtain ⟨type,created,body,fits⟩ := a
  cases body with
  | _ => exact fits

def EncodeResult.fill (r : EncodeResult) (a : Attr) : Attr := ⟨a.type,a.length,r.body a,bodyFits r a⟩

theorem attrSizeFill (r : EncodeResult) (a : Attr) : attrSize (r.fill a) = attrSize a := by
  obtain ⟨type,created,body,fits⟩ := a
  cases body with
  | _ => rfl

theorem acceptedFill (r : EncodeResult) (a : Attr) : Accepted (r.fill a) ↔ Accepted a := by
  obtain ⟨type,created,body,fits⟩ := a
  cases body with
  | _ => exact Iff.rfl

theorem carriedFill (r : EncodeResult) (a : Attr) : Carried (r.fill a) ↔ Carried a := by
  obtain ⟨type,created,body,fits⟩ := a
  cases body with
  | _ => exact Iff.rfl

theorem fillPlain (r : EncodeResult) {a : Attr} (plain : stopsEncoding a = false) : r.fill a = a := by
  simp only [stopsEncoding,Bool.or_eq_false_iff,beq_eq_false_iff_ne] at plain
  obtain ⟨type,created,body,fits⟩ := a
  cases body with
  | uint => simp only [EncodeResult.fill,EncodeResult.body,if_neg plain.2]
  | msgint => simp only [EncodeResult.fill,EncodeResult.body,if_neg plain.1]
  | _ => rfl

theorem encodeFingerprintPacket (packet : Packet env hdr length attrs e) {afingerprint : Option Attr}
    (accepted : ∀ b ∈ attrs ++ afingerprint.toList, Accepted b)
    (small : bodySize (attrs ++ afingerprint.toList) < 65536)
    (typed : ∀ f ∈ afingerprint, f.type = attrFingerprint) {hmac : Option (Fin 20 → UInt8)} {n : Nat}
    {r : EncodeResult} (result : encodeFingerprint env hmac e afingerprint = r) (done : r.msgLen = some n) :
    r.hmac = hmac ∧ n = r.encoding.pos ∧ Packet env hdr (if afingerprint.isSome then length + 8 else length)
      (attrs ++ afingerprint.toList.map r.fill) r.encoding ∧
    (∀ i, 4 ≤ i → i < e.pos → r.encoding.mem i = e.mem i) ∧ (afingerprint.isSome →
      r.fingerprint = some (env.crc32 (slice r.encoding.mem 0 e.pos) ^^^ stunXorFingerprint)) := by
  cases afingerprint with
  | none =>
    subst result
    exact ⟨rfl,(Option.some.inj done).symm,by simpa [encodeFingerprint] using packet,fun i _ _ => rfl,by simp⟩
  | some a =>
    have isFingerprint := typed a rfl
    have patched := packet.patch (fun b mem => accepted b (List.mem_append_left _ mem))
      (by rw [bodySizeAppend] at small; omega) (word16 (e.mem 2) (e.mem 3) + 8)
    have field : word16 (e.mem 2) (e.mem 3) = length := congrArg MsgHdr.length packet.header
    obtain ⟨type,created,body,fits⟩ := a
    simp only at isFingerprint
    subst isFingerprint
    cases body with
    | uint old =>
      simp only [encodeFingerprint] at result
      generalize crc : env.crc32 _ ^^^ stunXorFingerprint = value at result
      have filled : ∀ r : EncodeResult, r.fingerprint = some value →
          r.fill ⟨attrFingerprint,created,.uint old,fits⟩ = ⟨attrFingerprint,created,.uint value,fits⟩ := by
        intro r stored
        simp [EncodeResult.fill,EncodeResult.body,stored]
      cases found : (e.put 2 (be16 (word16 (e.mem 2) (e.mem 3) + 8))).call (encodeUintAttr attrFingerprint value) with
      | mk status =>
        rw [found] at result
        cases status with
        | success =>
          subst result
          have acceptedValue : ∀ b ∈ attrs ++ [⟨attrFingerprint,created,.uint value,fits⟩], Accepted b := by
            intro b mem
            rcases List.mem_append.mp mem with old | new
            · exact accepted b (List.mem_append_left _ old)
            · rw [List.mem_singleton.mp new]
              exact accepted ⟨attrFingerprint,created,.uint old,fits⟩ (List.mem_append_right _ List.mem_cons_self)
          have smallValue : bodySize (attrs ++ [⟨attrFingerprint,created,.uint value,fits⟩]) < 65536 := by
            rw [bodySizeAppend] at small ⊢
            exact small
          obtain ⟨called,before⟩ := patched.call acceptedValue smallValue found
          refine ⟨rfl,(Option.some.inj done).symm,?_,?_,fun _ => ?_⟩
          · rw [field] at called
            simpa [filled] using called
          · intro i low high
            rw [before i high]
            exact writeAfter low
          · rw [← crc]
            simp only [Encoding.put] at before ⊢
            rw [sliceCongr fun i _ high => before i (by omega)]
        | _ =>
          subst result
          simp at done
    | _ => simp [Body.fits,show findAttrDesc attrFingerprint = some .uint by decide] at fits

end Building

/- Nothing but FINGERPRINT comes behind MESSAGE-INTEGRITY. -/
def Tailed : List Attr → Prop
  | [] => True
  | a :: rest =>
    if a.type = attrMessageIntegrity then rest = [] ∨ ∃ f, rest = [f] ∧ f.type = attrFingerprint else Tailed rest

theorem tailedDrop {rest : List Attr} (plain : ∀ a ∈ pre, a.type ≠ attrMessageIntegrity) :
    Tailed (pre ++ rest) ↔ Tailed rest := by
  induction pre with
  | nil => exact Iff.rfl
  | cons a pre ih =>
    simp only [List.cons_append,Tailed,if_neg (plain a List.mem_cons_self)]
    exact ih fun b mem => plain b (List.mem_cons_of_mem _ mem)

theorem scanShape {stopped : List Attr}
    (stop : ∀ a ∈ stopped.head?, stopsEncoding a = true) (tailed : Tailed stopped)
    (found : scanStopped stopped = .ok (amsgint, afingerprint)) :
    stopped = amsgint.toList ++ afingerprint.toList ∧ (∀ a ∈ amsgint, a.type = attrMessageIntegrity) ∧
    ∀ f ∈ afingerprint, f.type = attrFingerprint := by
  cases stopped with
  | nil =>
    cases found
    simp
  | cons a rest =>
    by_cases integrity : a.type = attrMessageIntegrity
    · rw [scanStopped,if_pos integrity] at found
      rw [Tailed,if_pos integrity] at tailed
      rcases tailed with rfl | ⟨f,rfl,fingerprint⟩
      · cases found
        exact ⟨rfl,by simpa using integrity,by simp⟩
      · have other : ¬ f.type = attrMessageIntegrity := by
          rw [fingerprint]
          decide
        simp only [scanRest,Option.isSome_none,Bool.false_eq_true,if_false,if_neg other,
          if_pos fingerprint] at found
        cases found
        exact ⟨rfl,by simpa using integrity,by simpa using fingerprint⟩
    · have fingerprint : a.type = attrFingerprint := by
        have := stop a rfl
        simpa [stopsEncoding,integrity] using this
      rw [scanStopped,if_neg integrity] at found
      cases rest with
      | nil =>
        cases found
        exact ⟨rfl,by simp,by simpa using fingerprint⟩
      | cons => simp [scanRest] at found

/- The check on the position of MESSAGE-INTEGRITY looks at the second loop's index, which
is at the end by then: it never fires. -/
theorem encodeIntegrityEq (env : Env) (msg : Msg) (key : List UInt8) (e : Encoding) (afingerprint : Option Attr)
    (a : Attr) :
    encodeIntegrity env msg (some key) msg.attrs.length e afingerprint (some a) =
      match e.call (encodeMsgintAttr a.type a.length (env.hmacSha1 key (slice e.mem 0 e.pos))) with
      | (.success, e') =>
        encodeFingerprint env (some (env.hmacSha1 key (slice e.mem 0 e.pos))) e' afingerprint
      | (status, e') => ⟨status,e',some (env.hmacSha1 key (slice e.mem 0 e.pos)),none,none⟩ := by
  have bound : msg.attrs.length ≤ 16 := msg.bounded
  have notLast : ¬ msg.attrs.length = u32 (msg.attrs.length + 2 ^ 32 - 2) := by
    unfold u32
    omega
  simp only [encodeIntegrity]
  rewrite [if_neg (by omega),if_neg (fun both => notLast both.1),if_neg notLast]
  rfl

theorem sliceHeader (header : headerAt m = hdr) (n : Nat) :
    slice m 0 (20 + n) = be16 hdr.type ++ (be16 hdr.length ++ slice m 4 (16 + n)) := by
  have type : be16 hdr.type = [m 0,m 1] := by rw [← header]; exact be16Word _ _
  have length : be16 hdr.length = [m 2,m 3] := by rw [← header]; exact be16Word _ _
  rw [type,length,show 20 + n = 4 + (16 + n) by omega,sliceAppend]
  rfl

/- What a successful call of the encoder has produced. -/
structure Encoded (env : Env) (msg : Msg) (key : Option (List UInt8)) (r : EncodeResult) (n : Nat)
    (pre : List Attr) (amsgint afingerprint : Option Attr) : Prop where
  shape : msg.attrs = pre ++ (amsgint.toList ++ afingerprint.toList)
  plain : ∀ a ∈ pre, stopsEncoding a = false
  integrity : ∀ a ∈ amsgint, a.type = attrMessageIntegrity
  fingerprint : ∀ f ∈ afingerprint, f.type = attrFingerprint
  length : n = stunMsgHdrLen + bodySize msg.attrs
  packet : Packet env msg.hdr (UInt16.ofNat (bodySize msg.attrs)) (msg.attrs.map r.fill) r.encoding
  digest : amsgint.isSome → ∃ k, key = some k ∧
    r.hmac = some (env.hmacSha1 k (be16 msg.hdr.type ++ (be16 (UInt16.ofNat (bodySize pre + 24)) ++
      slice r.encoding.mem 4 (16 + bodySize pre))))
  checksum : afingerprint.isSome →
    r.fingerprint = some (env.crc32 (slice r.encoding.mem 0 (n - 8)) ^^^ stunXorFingerprint)

theorem fingerprintSize (isFingerprint : f.type = attrFingerprint) : attrSize f = 8 := by
  obtain ⟨type,created,body,fits⟩ := f
  simp only at isFingerprint
  subst isFingerprint
  cases body with
  | uint => rfl
  | _ => simp [Body.fits,show findAttrDesc attrFingerprint = some .uint by decide] at fits

theorem integrityBody (isIntegrity : a.type = attrMessageIntegrity) :
    ∃ created hmac fits, a = ⟨attrMessageIntegrity,created,.msgint hmac,fits⟩ := by
  obtain ⟨type,created,body,fits⟩ := a
  simp only at isIntegrity
  subst isIntegrity
  cases body with
  | msgint hmac => exact ⟨created,hmac,fits,rfl⟩
  | _ => simp [Body.fits,show findAttrDesc attrMessageIntegrity = some .msgint by decide] at fits

theorem fingerprintBodySize (typed : ∀ f ∈ afingerprint, f.type = attrFingerprint) :
    bodySize afingerprint.toList = if afingerprint.isSome then 8 else 0 := by
  cases afingerprint with
  | none => rfl
  | some f => simp [bodySize,fingerprintSize (typed f rfl)]

theorem bodySizeFill (r : EncodeResult) (attrs : List Attr) : bodySize (attrs.map r.fill) = bodySize attrs := by
  simp only [bodySize,List.map_map]
  congr 1
  exact List.map_congr_left fun a _ => attrSizeFill r a

theorem fillPre (r : EncodeResult) (plain : ∀ a ∈ pre, stopsEncoding a = false) : pre.map r.fill = pre := by
  rw [List.map_congr_left fun a mem => fillPlain r (plain a mem),List.map_id']

theorem encodePlain {e : Encoding}
    (shape : msg.attrs = pre ++ afingerprint.toList) (plain : ∀ a ∈ pre, stopsEncoding a = false)
    (typed : ∀ f ∈ afingerprint, f.type = attrFingerprint) (accepted : ∀ a ∈ msg.attrs, Accepted a)
    (small : bodySize msg.attrs < 65536) (packet : Packet env msg.hdr (UInt16.ofNat (bodySize pre)) pre e)
    (result : encodeFingerprint env none e afingerprint = r) (done : r.msgLen = some n) :
    Encoded env msg key r n pre none afingerprint := by
  rw [shape] at accepted small
  obtain ⟨_,length,last,_,checksum⟩ := encodeFingerprintPacket packet accepted small typed result done
  have size : bodySize msg.attrs = bodySize pre + if afingerprint.isSome then 8 else 0 := by
    rw [shape,bodySizeAppend,fingerprintBodySize typed]
  have attrs : msg.attrs.map r.fill = pre ++ afingerprint.toList.map r.fill := by
    rw [shape,List.map_append,fillPre r plain]
  have final : n = stunMsgHdrLen + bodySize msg.attrs := by
    rw [length,last.pos,← attrs,bodySizeFill]
  refine ⟨by simpa using shape,plain,by simp,typed,final,?_,by simp,fun some => ?_⟩
  · rw [attrs,size]
    cases afingerprint with
    | none => exact last
    | some => simpa using last
  · rw [checksum some,final,size,packet.pos,if_pos some]
    rfl

theorem encodeProtected {e : Encoding}
    (shape : msg.attrs = pre ++ (a :: afingerprint.toList)) (plain : ∀ a ∈ pre, stopsEncoding a = false)
    (isIntegrity : a.type = attrMessageIntegrity) (typed : ∀ f ∈ afingerprint, f.type = attrFingerprint)
    (accepted : ∀ a ∈ msg.attrs, Accepted a) (small : bodySize msg.attrs < 65536)
    (packet : Packet env msg.hdr (UInt16.ofNat (bodySize pre + 24)) pre e)
    (result : encodeIntegrity env msg key msg.attrs.length e afingerprint (some a) = r) (done : r.msgLen = some n) :
    Encoded env msg key r n pre (some a) afingerprint := by
  cases key with
  | none =>
    subst result
    simp [encodeIntegrity] at done
  | some key =>
    rw [encodeIntegrityEq] at result
    obtain ⟨created,old,fits,rfl⟩ := integrityBody isIntegrity
    generalize digest : env.hmacSha1 key (slice e.mem 0 e.pos) = hmac at result
    have member : ⟨attrMessageIntegrity,created,.msgint old,fits⟩ ∈ msg.attrs := by
      rw [shape]
      exact List.mem_append_right _ List.mem_cons_self
    have step : ∀ b ∈ pre ++ [⟨attrMessageIntegrity,created,.msgint hmac,fits⟩], Accepted b := by
      intro b mem
      rcases List.mem_append.mp mem with before | here
      · exact accepted b (by rw [shape]; exact List.mem_append_left _ before)
      · rw [List.mem_singleton.mp here]
        exact accepted ⟨attrMessageIntegrity,created,.msgint old,fits⟩ member
    have size : bodySize msg.attrs = bodySize pre + 24 + if afingerprint.isSome then 8 else 0 := by
      rw [shape,bodySizeAppend,bodySizeCons,fingerprintBodySize typed,Nat.add_assoc]
      rfl
    have sizeStep : bodySize (pre ++ [⟨attrMessageIntegrity,created,.msgint hmac,fits⟩]) = bodySize pre + 24 := by
      rw [bodySizeAppend]
      rfl
    cases found : e.call (encodeMsgintAttr attrMessageIntegrity created hmac) with
    | mk status =>
      rw [found] at result
      cases status with
      | success =>
        obtain ⟨called,before⟩ := packet.call step (by omega) found
        have all : ∀ b ∈ pre ++ [⟨attrMessageIntegrity,created,.msgint hmac,fits⟩] ++ afingerprint.toList,
            Accepted b := by
          intro b mem
          rcases List.mem_append.mp mem with early | late
          · exact step b early
          · exact accepted b (by
              rw [shape]
              exact List.mem_append_right _ (List.mem_cons_of_mem _ late))
        have smallAll : bodySize (pre ++ [⟨attrMessageIntegrity,created,.msgint hmac,fits⟩] ++
            afingerprint.toList) < 65536 := by
          rw [bodySizeAppend,sizeStep,fingerprintBodySize typed]
          omega
        obtain ⟨stored,length,last,same,checksum⟩ :=
          encodeFingerprintPacket called all smallAll typed result done
        have attrs : msg.attrs.map r.fill =
            pre ++ [⟨attrMessageIntegrity,created,.msgint hmac,fits⟩] ++ afingerprint.toList.map r.fill := by
          rw [shape,List.map_append,fillPre r plain,List.map_cons,List.append_assoc]
          simp [EncodeResult.fill,EncodeResult.body,stored]
        have final : n = stunMsgHdrLen + bodySize msg.attrs := by
          rw [length,last.pos,← attrs,bodySizeFill]
        have pos := packet.pos
        have pos' := called.pos
        rw [sizeStep] at pos'
        simp only [stunMsgHdrLen] at pos pos'
        refine ⟨shape,plain,by simp,typed,final,?_,fun _ => ⟨key,rfl,?_⟩,fun some => ?_⟩
        · rw [attrs,size]
          cases afingerprint with
          | none => exact last
          | some => simpa using last
        · rw [stored,← digest,pos,sliceHeader packet.header]
          rw [show slice e.mem 4 (16 + bodySize pre) = slice r.encoding.mem 4 (16 + bodySize pre) from
            (sliceCongr fun i low high => by rw [same i low (by omega),before i (by omega)]).symm]
        · rw [checksum some,final,size,called.pos,sizeStep,if_pos some]
          rfl
      | _ =>
        subst result
        simp at done

theorem encodePacket {buf : Memory} {bufSize : UInt64}
    (result : stunMsgEncode env msg buf bufSize key = r) (done : r.msgLen = some n)
    (accepted : ∀ a ∈ msg.attrs, Accepted a) (small : bodySize msg.attrs < 65536) (tailed : Tailed msg.attrs) :
    ∃ pre amsgint afingerprint, Encoded env msg key r n pre amsgint afingerprint := by
  rw [encodeEq] at result
  split at result
  · subst result
    simp at done
  split at result
  · subst result
    simp at done
  have start : Packet env msg.hdr 0 [] (afterHeader msg buf bufSize) :=
    ⟨headerWritten (holdsWrite buf 0 (putHeader msg.hdr)),trivial,rfl⟩
  unfold encodeRest at result
  cases found : encodeAttrs env msg.hdr msg.attrs (afterHeader msg buf bufSize) with
  | mk status rest =>
    obtain ⟨e,stopped⟩ := rest
    rw [found] at result
    cases status with
    | success =>
      obtain ⟨pre,shape,plain,stop,packet⟩ := encodeAttrsPacket msg.attrs start accepted small found
      have before : ∀ a ∈ pre, a.type ≠ attrMessageIntegrity := by
        intro a mem integrity
        have goes := plain a mem
        simp [stopsEncoding,integrity] at goes
      have suffix : Tailed stopped := by
        rw [shape,tailedDrop before] at tailed
        exact tailed
      have smallPre : bodySize pre < 65536 := by
        rw [shape,bodySizeAppend] at small
        omega
      have acceptedPre : ∀ a ∈ pre, Accepted a := fun a mem =>
        accepted a (by rw [shape]; exact List.mem_append_left _ mem)
      have pos : e.pos = 20 + bodySize pre := packet.pos
      cases scanned : scanStopped stopped with
      | error =>
        simp only [scanned] at result
        subst result
        simp at done
      | ok pair =>
        obtain ⟨amsgint,afingerprint⟩ := pair
        obtain ⟨rest,integrity,fingerprint⟩ := scanShape stop suffix scanned
        simp only [scanned] at result
        rw [rest] at shape
        have patched := Packet.patch packet acceptedPre smallPre (bodyLength amsgint e.pos)
        refine ⟨pre,amsgint,afingerprint,?_⟩
        cases amsgint with
        | none =>
          have field : bodyLength none e.pos = UInt16.ofNat (bodySize pre) := by
            simp [bodyLength,pos]
          rw [field] at patched result
          exact encodePlain shape plain fingerprint accepted small patched result done
        | some a =>
          have field : bodyLength (some a) e.pos = UInt16.ofNat (bodySize pre + 24) := by
            simp only [bodyLength,pos,Option.isSome_some,if_true]
            congr 1
            omega
          rw [field] at patched result
          exact encodeProtected shape plain (integrity a rfl) fingerprint accepted small patched result done
    | _ =>
      subst result
      simp at done

theorem orderedPlain {hasMsgInt : Bool} {rest : List Attr} (plain : ∀ a ∈ pre, stopsEncoding a = false)
    (ordered : Ordered hasMsgInt false rest) : Ordered hasMsgInt false (pre ++ rest) := by
  induction pre with
  | nil => exact ordered
  | cons a pre ih =>
    have here := plain a List.mem_cons_self
    simp only [stopsEncoding,Bool.or_eq_false_iff] at here
    refine ⟨rfl,fun integrity => ?_,?_⟩
    · simp [integrity] at here
    · rw [here.1,here.2,Bool.or_false]
      exact ih fun b mem => plain b (List.mem_cons_of_mem _ mem)

theorem Encoded.ordered (encoded : Encoded env msg key r n pre amsgint afingerprint) :
    Ordered false false (msg.attrs.map r.fill) := by
  rw [encoded.shape,List.map_append,fillPre r encoded.plain]
  refine orderedPlain encoded.plain ?_
  cases amsgint with
  | none =>
    cases afingerprint with
    | none => trivial
    | some => exact ⟨rfl,fun _ => rfl,trivial⟩
  | some a =>
    have integrity : (r.fill a).type = attrMessageIntegrity := encoded.integrity a rfl
    cases afingerprint with
    | none => exact ⟨rfl,fun _ => rfl,trivial⟩
    | some f =>
      have fingerprint : (r.fill f).type = attrFingerprint := encoded.fingerprint f rfl
      refine ⟨rfl,fun _ => rfl,?_,?_,trivial⟩
      · rw [integrity]
        rfl
      · intro again
        rw [fingerprint] at again
        exact absurd again (by decide)

theorem Encoded.decode (encoded : Encoded env msg key r n pre amsgint afingerprint) (accepted : ∀ a ∈ msg.attrs, Accepted a)
    (small : bodySize msg.attrs < 65536) :
    ∃ decoded : Msg, (decodeBody r.encoding.mem).result = .ok (decoded, n) ∧
      decoded.hdr = { msg.hdr with length := UInt16.ofNat (bodySize msg.attrs) } ∧
      decoded.attrs.map Attr.view = (msg.attrs.map r.fill).map (sent env msg.hdr) := by
  have header := encoded.packet.header
  have length : (headerAt r.encoding.mem).length.toNat = bodySize msg.attrs := by
    rw [header]
    simp only [UInt16.toNat_ofNat']
    omega
  have filled : ∀ a ∈ msg.attrs.map r.fill, Accepted a := by
    intro b mem
    obtain ⟨a,old,rfl⟩ := List.mem_map.mp mem
    exact (acceptedFill r a).mpr (accepted a old)
  have count : 0 + (msg.attrs.map r.fill).length ≤ stunMaxAttr := by
    have := msg.bounded
    rw [List.length_map]
    omega
  have same : (headerAt r.encoding.mem).tsxId = msg.hdr.tsxId := by rw [header]
  have stored : Stored env msg.hdr r.encoding.mem (firstWalk (headerAt r.encoding.mem)).pos (msg.attrs.map r.fill) :=
    encoded.packet.stored
  obtain ⟨last,walked,nothing,pos,views⟩ :=
    walkAttrsStored same (msg.attrs.map r.fill) filled (headerAt r.encoding.mem).length.toNat stored
      (by rw [bodySizeFill]; exact length) (by rw [bodySizeFill]; exact small) (Nat.le_refl _) count encoded.ordered
  have all : last.pos = n := by
    rw [pos,bodySizeFill,encoded.length]
    rfl
  refine ⟨⟨headerAt r.encoding.mem,last.attrs,last.bounded⟩,?_,header,by simpa [firstWalk] using views⟩
  unfold decodeBody
  simp only [readSliceBind]
  rw [bindOk walked]
  simp only
  rw [if_neg (by omega),all]
  rfl

theorem bodySizeAligned (attrs : List Attr) : bodySize attrs % 4 = 0 := by
  induction attrs with
  | nil => rfl
  | cons a =>
    have size := wireLengthSize ⟨0,0,0,fun _ => 0⟩ a
    rw [bodySizeCons]
    unfold pad4 at size
    omega

theorem storedLast {attrs : List Attr}
    (stored : Stored env hdr m pos (attrs ++ [f])) : Written env hdr m (pos + bodySize attrs) f :=
  (storedAppend.mp stored).2.1

/- The check that PJ_STUN_CHECK_PACKET asks for lets the packet pass: the type is one of
those it knows, and the last eight bytes are a FINGERPRINT only if the message has one. -/
def Checkable (options : DecodeOptions) (msg : Msg) (m : Memory) (n : Nat) : Prop :=
  options.checkPacket = true → msg.hdr.type < 0x200 ∧
    (options.noFingerprintCheck = true ∨ msg.hdr.magic ≠ stunMagic ∨
      (∃ f ∈ msg.attrs, f.type = attrFingerprint) ∨ typeAt m (n - 8) ≠ attrFingerprint)

theorem Encoded.fingerprintAt
    (encoded : Encoded env msg key r n pre amsgint afingerprint) (accepted : ∀ a ∈ msg.attrs, Accepted a)
    (small : bodySize msg.attrs < 65536) (member : f ∈ msg.attrs) (typed : f.type = attrFingerprint) :
    28 ≤ n ∧ lengthAt r.encoding.mem (n - 8) = 4 ∧
    word32 (r.encoding.mem (n - 8 + 4)) (r.encoding.mem (n - 8 + 4 + 1)) (r.encoding.mem (n - 8 + 4 + 2))
      (r.encoding.mem (n - 8 + 4 + 3)) = env.crc32 (slice r.encoding.mem 0 (n - 8)) ^^^ stunXorFingerprint := by
  have last : afingerprint = some f := by
    rw [encoded.shape] at member
    rcases List.mem_append.mp member with early | late
    · have := encoded.plain f early
      simp [stopsEncoding,typed] at this
    · rcases List.mem_append.mp late with integrity | fingerprint
      · have := encoded.integrity f (by simpa using integrity)
        rw [typed] at this
        exact absurd this (by decide)
      · simpa using fingerprint
  subst last
  have checksum := encoded.checksum rfl
  obtain ⟨type,created,body,fits⟩ := f
  simp only at typed
  subst typed
  cases body with
  | uint old =>
    have attrs : msg.attrs.map r.fill = (pre ++ amsgint.toList).map r.fill ++ [⟨attrFingerprint,created,
        .uint (env.crc32 (slice r.encoding.mem 0 (n - 8)) ^^^ stunXorFingerprint),fits⟩] := by
      rw [encoded.shape,← List.append_assoc,List.map_append]
      simp [EncodeResult.fill,EncodeResult.body,checksum]
    have size : bodySize msg.attrs = bodySize ((pre ++ amsgint.toList).map r.fill) + 8 := by
      rw [← bodySizeFill r,attrs,bodySizeAppend]
      rfl
    have length := encoded.length
    have written := encoded.packet.stored
    rw [attrs] at written
    obtain ⟨len,done,holds⟩ := storedLast written
    have start : stunMsgHdrLen + bodySize ((pre ++ amsgint.toList).map r.fill) = n - 8 := by omega
    rw [start] at holds
    have plain : Accepted ⟨attrFingerprint,created,
        .uint (env.crc32 (slice r.encoding.mem 0 (n - 8)) ^^^ stunXorFingerprint),fits⟩ :=
      accepted ⟨attrFingerprint,created,.uint old,fits⟩ member
    obtain ⟨bytes,_⟩ := encodeAttrSuccess plain (show 8 < 65536 by decide) done
    rw [bytes,holdsAppend,holdsAppend] at holds
    simp only [stunMsgHdrLen] at length
    refine ⟨by omega,?_,?_⟩
    · exact holdsBe16 holds.2.1
    · exact holdsBe32 holds.2.2
  | _ => simp [Body.fits,show findAttrDesc attrFingerprint = some .uint by decide] at fits

theorem firstByte {a b : UInt8} (known : word16 a b < 0x200) : ¬ (a ≠ 0 ∧ a ≠ 1) := by
  rintro ⟨notZero,notOne⟩
  have bound := b.toNat_lt
  have high := a.toNat_lt
  have zero : a.toNat ≠ 0 := fun same => notZero (UInt8.toNat_inj.mp same)
  have one : a.toNat ≠ 1 := fun same => notOne (UInt8.toNat_inj.mp same)
  rw [UInt16.lt_iff_toNat_lt] at known
  simp only [word16,UInt16.toNat_ofNat',UInt16.reduceToNat] at known
  omega

theorem Encoded.check (encoded : Encoded env msg key r n pre amsgint afingerprint) (accepted : ∀ a ∈ msg.attrs, Accepted a)
    (small : bodySize msg.attrs < 65536) {options : DecodeOptions} (wanted : options.checkPacket = true)
    (checkable : Checkable options msg r.encoding.mem n) :
    (stunMsgCheck env r.encoding.mem n options).result = .ok () := by
  obtain ⟨known,guarded⟩ := checkable wanted
  have header := encoded.packet.header
  have type : word16 (r.encoding.mem 0) (r.encoding.mem 1) = msg.hdr.type := congrArg MsgHdr.type header
  have field : word16 (r.encoding.mem 2) (r.encoding.mem (2 + 1)) = UInt16.ofNat (bodySize msg.attrs) :=
    congrArg MsgHdr.length header
  have magic : word32 (r.encoding.mem 4) (r.encoding.mem (4 + 1)) (r.encoding.mem (4 + 2)) (r.encoding.mem (4 + 3)) =
    msg.hdr.magic := congrArg MsgHdr.magic header
  have value : (UInt16.ofNat (bodySize msg.attrs)).toNat = bodySize msg.attrs := by
    rw [UInt16.toNat_ofNat']
    omega
  have length : n = 20 + bodySize msg.attrs := encoded.length
  have aligned := bodySizeAligned msg.attrs
  have first := firstByte (show word16 (r.encoding.mem 0) (r.encoding.mem 1) < 0x200 by rw [type]; exact known)
  have start : bodySize msg.attrs + 20 - 8 = n - 8 := by omega
  unfold stunMsgCheck
  rw [if_neg (by simp only [stunMsgHdrLen]; omega),readByteResult,if_neg first,read16Result,field,value,
    if_neg (by omega),if_neg (by omega),read32Result,magic]
  split
  · rename_i checked
    rw [read16Result,start]
    split
    · rename_i looks
      rcases guarded with off | other | ⟨f,member,typed⟩ | different
      · simp [off] at checked
      · exact absurd checked.1 other
      · obtain ⟨_,four,word⟩ := encoded.fingerprintAt accepted small member typed
        unfold lengthAt at four
        rw [read16Result,read32Result,four,word,if_neg (by simp),readSliceResult,if_neg (by simp)]
        rfl
      · exact absurd looks different
    · rfl
  · rfl

/- Decoding what the encoder made gives the message back: its type, magic and transaction
id, and the type and value of every attribute. -/
structure RoundTrips (env : Env) (msg : Msg) (r : EncodeResult) (n : Nat) (options : DecodeOptions)
    (decoded : Msg) : Prop where
  decodes : (stunMsgDecode env r.encoding.mem n options).result = .ok (decoded, n)
  type : decoded.hdr.type = msg.hdr.type
  magic : decoded.hdr.magic = msg.hdr.magic
  tsxId : decoded.hdr.tsxId = msg.hdr.tsxId
  attrs : decoded.attrs.map (fun a => (a.type, a.body)) =
    msg.attrs.map fun a => (a.type, received env msg.hdr a.type (r.body a))

theorem Encoded.decodeResult
    (encoded : Encoded env msg key r n pre amsgint afingerprint) (accepted : ∀ a ∈ msg.attrs, Accepted a)
    (small : bodySize msg.attrs < 65536) {options : DecodeOptions}
    (checkable : Checkable options msg r.encoding.mem n) :
    (stunMsgDecode env r.encoding.mem n options).result = (decodeBody r.encoding.mem).result := by
  have length := encoded.length
  simp only [stunMsgHdrLen] at length
  unfold stunMsgDecode
  rw [if_neg (by omega)]
  split
  · rename_i wanted
    rw [bindOk (encoded.check accepted small wanted checkable)]
  · rfl

theorem decodeEncode (env : Env) (msg : Msg) (buf : Memory) (bufSize : UInt64) (key : Option (List UInt8))
    (n : Nat) (options : DecodeOptions)
    (noIntegrity : ∀ a ∈ msg.attrs, a.type ≠ attrMessageIntegrity)
    (accepted : ∀ a ∈ msg.attrs, Accepted a) (carried : ∀ a ∈ msg.attrs, Carried a) (small : bodySize msg.attrs < 65536)
    (done : (stunMsgEncode env msg buf bufSize key).msgLen = some n)
    (checkable : Checkable options msg (stunMsgEncode env msg buf bufSize key).encoding.mem n) :
    ∃ decoded, RoundTrips env msg (stunMsgEncode env msg buf bufSize key) n options decoded := by
  have tailed : Tailed msg.attrs := by
    rw [← List.append_nil msg.attrs,tailedDrop noIntegrity]
    trivial
  obtain ⟨pre,amsgint,afingerprint,encoded⟩ := encodePacket rfl done accepted small tailed
  obtain ⟨decoded,result,header,views⟩ := encoded.decode accepted small
  refine ⟨decoded,?_,?_,?_,?_,?_⟩
  · rw [encoded.decodeResult accepted small checkable,result]
  · rw [header]
  · rw [header]
  · rw [header]
  · have pairs := congrArg (List.map fun v : UInt16 × UInt16 × Body => (v.1, v.2.2)) views
    simp only [List.map_map] at pairs
    refine Eq.trans pairs (List.map_congr_left fun a member => ?_)
    have same := arrivesCarried env msg.hdr ((carriedFill (stunMsgEncode env msg buf bufSize key) a).mpr
      (carried a member))
    simp only [Function.comp_apply,sent,same]
    rfl

/- A request with a SOFTWARE that is padded and a FINGERPRINT. -/
def softwareRequest : Msg :=
  ⟨⟨0x0001,0,stunMagic,fun _ => 7⟩,
    [stringAttrCreate attrSoftware [112,106,110] rfl,uintAttrCreate attrFingerprint 0 rfl],by decide⟩

theorem softwareRequestRoundTrip :
    ∃ decoded, RoundTrips plainEnv softwareRequest (stunMsgEncode plainEnv softwareRequest (fun _ => 255) 100 none)
      36 datagram decoded := by
  have fine : ∀ a ∈ softwareRequest.attrs, Accepted a ∧ Carried a := by
    intro a mem
    simp only [softwareRequest,List.mem_cons,List.not_mem_nil,or_false] at mem
    rcases mem with rfl | rfl
    · exact ⟨⟨by decide,trivial⟩,trivial⟩
    · exact ⟨⟨by decide,trivial⟩,trivial⟩
  exact decodeEncode plainEnv softwareRequest (fun _ => 255) 100 none 36 datagram (by decide)
    (fun a mem => (fine a mem).1) (fun a mem => (fine a mem).2) (by decide) (by decide) fun _ => ⟨by decide,.inr (.inr (.inl ⟨uintAttrCreate attrFingerprint 0 rfl,by simp [softwareRequest],
      rfl⟩))⟩

/- The attributes that the create functions make, MESSAGE-INTEGRITY apart. -/
inductive Created : Attr → Prop where
  | sockaddr (attrType : UInt16) (xorEd : Bool) (addr : SockAddr) (addrLen : UInt16)
      (fits : (Body.sockaddr xorEd addr).fits attrType) :
      Created (sockaddrAttrCreate attrType xorEd addr addrLen fits)
  | empty (attrType : UInt16) (fits : Body.empty.fits attrType) : Created (emptyAttrCreate attrType fits)
  | string (attrType : UInt16) (value : List UInt8) (fits : (Body.string value).fits attrType) :
      Created (stringAttrCreate attrType value fits)
  | uint (attrType : UInt16) (value : UInt32) (fits : (Body.uint value).fits attrType) :
      Created (uintAttrCreate attrType value fits)
  | uint64 (attrType : UInt16) (hi lo : UInt32) (fits : (Body.uint64 hi lo).fits attrType) :
      Created (uint64AttrCreate attrType hi lo fits)
  | errcode (errCode : Int) (reason : List UInt8) : Created (errcodeAttrCreate errCode reason)
  | unknown (attrs : List UInt16) (few : attrs.length < stunMaxAttr) : Created (unknownAttrCreate attrs few)
  | binary (attrType : UInt16) (data : List UInt8) (fits : (Body.binary stunMagic data).fits attrType) :
      Created (binaryAttrCreate attrType data fits)

/- A binary attribute of the unassigned type 0x0031, a MAPPED-ADDRESS that is XORed, and an
error code whose hundreds do not fit a byte. -/
def unassignedAttr : Attr := binaryAttrCreate 0x0031 [1,2,3,4] ⟨.inr (by decide),by decide⟩

def xoredMappedAddress : Attr :=
  sockaddrAttrCreate 0x0001 true (.ipv4 5060 ![10,0,0,1]) 4 (.inl (by decide))

def largeErrorCode : Attr := errcodeAttrCreate 25600 []

def bindingRequest (a : Attr) : Msg := ⟨⟨0x0001,0,stunMagic,fun _ => 0⟩,[a],Nat.le_add_left 1 15⟩

def encodeOne (a : Attr) : EncodeResult := stunMsgEncode plainEnv (bindingRequest a) (fun _ => 0) 100 none

def unchecked : DecodeOptions := ⟨true,false,false⟩

/- A message of this one attribute is encoded, and not decoded to the same attribute. -/
def Lost (a : Attr) : Prop :=
  Created a ∧ (encodeOne a).msgLen ≠ none ∧
  ¬ ∃ n decoded, (encodeOne a).msgLen = some n ∧
    RoundTrips plainEnv (bindingRequest a) (encodeOne a) n unchecked decoded

def decodedValues (m : Memory) (n : Nat) : Option (List (UInt16 × Body)) :=
  match (stunMsgDecode plainEnv m n unchecked).result with
  | .ok (decoded, _) => some (decoded.attrs.map fun a => (a.type, a.body))
  | .error _ => none

theorem lostOfValues (created : Created a) (length : (encodeOne a).msgLen = some n)
    (differ : decodedValues (encodeOne a).encoding.mem n ≠
      some [(a.type, received plainEnv (bindingRequest a).hdr a.type ((encodeOne a).body a))]) : Lost a := by
  refine ⟨created,by simp [length],?_⟩
  rintro ⟨n',decoded,same,trips⟩
  cases length.symm.trans same
  apply differ
  unfold decodedValues
  rw [trips.decodes]
  exact congrArg some trips.attrs

theorem attributesLost : Lost unassignedAttr ∧ Lost xoredMappedAddress ∧ Lost largeErrorCode :=
  ⟨lostOfValues (n := 28) (.binary _ _ _) (by decide) (by decide),
    lostOfValues (n := 32) (.sockaddr _ _ _ _ _) (by decide) (by decide),
    lostOfValues (n := 28) (.errcode _ _) (by decide) (by decide)⟩

end Pjproject.Stun
