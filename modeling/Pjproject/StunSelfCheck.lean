import Pjproject.StunComplete

/-! Whether pj_stun_msg_check lets pass what pj_stun_msg_encode has made. The check takes the last eight bytes for a
FINGERPRINT when they begin like one. -/
namespace Pjproject.Stun
open Lib.Bytes

theorem knownType {a b : UInt8} : word16 a b < 0x200 ↔ a = 0 ∨ a = 1 := by
  constructor
  · intro known
    by_contra other
    exact firstByte known (not_or.mp other)
  · have bound := b.toNat_lt
    rw [UInt16.lt_iff_toNat_lt]
    rintro (rfl | rfl) <;> simp only [word16,UInt16.toNat_ofNat',UInt16.reduceToNat,UInt8.reduceToNat] <;> omega

theorem fieldAgrees {n : Nat} (start : 20 ≤ n) : (UInt16.ofNat (n - stunMsgHdrLen)).toNat + 20 = n ↔ n < 65556 := by
  simp only [stunMsgHdrLen,UInt16.toNat_ofNat']
  omega

theorem Outline.stamps {env : Env} {msg : Msg} {r : EncodeResult} {n : Nat} {pre middle : List Attr}
    {amsgint afingerprint : Option Attr} (outline : Outline env msg r n pre middle amsgint afingerprint) {f : Attr}
    (member : f ∈ msg.attrs) (typed : f.type = attrFingerprint) : Stamped env r.encoding.mem n := by
  have stops : stopsEncoding f = true := by simp [stopsEncoding,typed]
  refine outline.stamped ?_
  rw [outline.shape] at member
  rcases List.mem_append.mp member with early | late
  · exact absurd stops (by rw [outline.plain f early]; decide)
  · rcases List.mem_append.mp late with integrity | later
    · have other := outline.integrity f (by simpa using integrity)
      rw [typed] at other
      exact absurd other (by decide)
    · rcases List.mem_append.mp later with passed | last
      · exact absurd stops (by rw [outline.passed f passed]; decide)
      · cases found : afingerprint with
        | none =>
          rw [found] at last
          exact (List.not_mem_nil last).elim
        | some => rfl

theorem fingerprintChecked {env : Env} {m : Memory} {n : Nat} :
    (if typeAt m (n - 8) = attrFingerprint then do
        let attrLen ← read16 m (n - 8 + 2)
        let fingerprint ← read32 m (n - 8 + 4)
        if attrLen ≠ 4 then Reads.fail Status.estuninattrlen
        else
          let covered ← readSlice m 0 (n - 8)
          if env.crc32 covered ^^^ stunXorFingerprint ≠ fingerprint then .fail .estunfingerprint else pure ()
      else pure ()).result = .ok () ↔ (typeAt m (n - 8) = attrFingerprint → Stamped env m n) := by
  by_cases looks : typeAt m (n - 8) = attrFingerprint
  · rw [if_pos looks,read16Result,read32Result]
    constructor
    · intro passed _
      by_cases four : lengthAt m (n - 8) = 4
      · rw [if_neg (not_not.mpr four),readSliceResult] at passed
        by_cases equal : env.crc32 (slice m 0 (n - 8)) ^^^ stunXorFingerprint =
            word32 (m (n - 8 + 4)) (m (n - 8 + 4 + 1)) (m (n - 8 + 4 + 2)) (m (n - 8 + 4 + 3))
        · exact ⟨looks,four,equal.symm⟩
        · rw [if_pos equal] at passed
          simp at passed
      · rw [if_pos four] at passed
        simp at passed
    · intro stamped
      obtain ⟨-,four,value⟩ := stamped looks
      rw [if_neg (not_not.mpr four),readSliceResult,if_neg (not_not.mpr value.symm)]
      rfl
  · rw [if_neg looks]
    exact ⟨fun _ same => absurd same looks,fun _ => rfl⟩

theorem Outline.checked {env : Env} {msg : Msg} {r : EncodeResult} {n : Nat} {pre middle : List Attr}
    {amsgint afingerprint : Option Attr} (outline : Outline env msg r n pre middle amsgint afingerprint) :
    (stunMsgCheck env r.encoding.mem n datagram).result = .ok () ↔ msg.hdr.type < 0x200 ∧ n < 65556 ∧
        (msg.hdr.magic = stunMagic → typeAt r.encoding.mem (n - 8) = attrFingerprint →
          Stamped env r.encoding.mem n) := by
  have packet := outline.packet
  have header := packet.header
  have long : 20 ≤ n := by
    rw [outline.length]
    exact packet.start
  have aligned : n % 4 = 0 := by
    rw [outline.length]
    exact packet.aligned
  generalize r.encoding.mem = m at header
  have type : word16 (m 0) (m 1) = msg.hdr.type := congrArg MsgHdr.type header
  have field : word16 (m 2) (m (2 + 1)) = UInt16.ofNat (n - stunMsgHdrLen) := congrArg MsgHdr.length header
  have magic : word32 (m 4) (m (4 + 1)) (m (4 + 2)) (m (4 + 3)) = msg.hdr.magic := congrArg MsgHdr.magic header
  have agrees := fieldAgrees long
  unfold stunMsgCheck
  rw [if_neg (by simp only [stunMsgHdrLen]; omega),readByteResult]
  by_cases known : msg.hdr.type < 0x200
  · rw [if_neg (firstByte (by rw [type]; exact known)),read16Result,field]
    by_cases fits : n < 65556
    · have length := agrees.mpr fits
      have start : (UInt16.ofNat (n - stunMsgHdrLen)).toNat + 20 - 8 = n - 8 := by omega
      rw [if_neg (by rintro (larger | ⟨-,other⟩) <;> omega),if_neg (by omega),read32Result,magic,start]
      by_cases cookie : msg.hdr.magic = stunMagic
      · rw [if_pos ⟨cookie,rfl⟩,read16Result]
        exact fingerprintChecked.trans
          ⟨fun stamped => ⟨known,fits,fun _ => stamped⟩,fun all => all.2.2 cookie⟩
      · rw [if_neg fun both => cookie both.1]
        exact ⟨fun _ => ⟨known,fits,fun same => absurd same cookie⟩,fun _ => rfl⟩
    · rw [if_pos (.inr ⟨rfl,fun same => fits (agrees.mp same)⟩)]
      exact ⟨fun passed => (by cases passed),fun all => absurd all.2.1 fits⟩
  · have refused : m 0 ≠ 0 ∧ m 0 ≠ 1 := by
      rw [← type,knownType,not_or] at known
      exact known
    rw [if_pos refused]
    exact ⟨fun passed => (by cases passed),fun all => absurd all.1 known⟩

/- The packet that the encoder returns passes the check for a datagram exactly if its type is one that the check
knows, its length fits the header's field, and, under the magic cookie, its last eight bytes do not look like a
FINGERPRINT or are a right one; those of a message with a FINGERPRINT are. -/
theorem encodedChecked (env : Env) (msg : Msg) (buf : Memory) (bufSize : UInt64) (key : Option (List UInt8)) (n : Nat)
    (done : (stunMsgEncode env msg buf bufSize key).msgLen = some n) :
    let m := (stunMsgEncode env msg buf bufSize key).encoding.mem
    ((stunMsgCheck env m n datagram).result = .ok () ↔
      msg.hdr.type < 0x200 ∧ n < 65556 ∧
        (msg.hdr.magic = stunMagic → typeAt m (n - 8) = attrFingerprint → Stamped env m n)) ∧
      ((∃ f ∈ msg.attrs, f.type = attrFingerprint) → Stamped env m n) := by
  obtain ⟨pre,middle,amsgint,afingerprint,outline⟩ := encodeOutline rfl done
  exact ⟨outline.checked,fun ⟨f,member,typed⟩ => outline.stamps member typed⟩

theorem softwareRequestChecked :
    (stunMsgCheck plainEnv (stunMsgEncode plainEnv softwareRequest (fun _ => 255) 100 none).encoding.mem 36
      datagram).result = .ok () := by
  have checked := encodedChecked plainEnv softwareRequest (fun _ => 255) 100 none 36 (by decide +kernel)
  exact checked.1.mpr ⟨by decide,by decide,fun _ _ => checked.2
    ⟨uintAttrCreate attrFingerprint 0 rfl,by simp [softwareRequest],rfl⟩⟩

/- A message of a type that the check does not know, a request without attributes whose transaction id looks like
a FINGERPRINT, and one whose length does not fit the field. -/
def bareRequest (type : UInt16) (tsxId : Fin 12 → UInt8) : Msg := ⟨⟨type,0,stunMagic,tsxId⟩,[],Nat.zero_le 16⟩

def encodeBare (type : UInt16) (tsxId : Fin 12 → UInt8) : EncodeResult :=
  stunMsgEncode plainEnv (bareRequest type tsxId) (fun _ => 0) 20 none

def zeroAttr (size : Nat) (short : size < 2 ^ 32) : Attr :=
  binaryAttrCreate 0x9000 (List.replicate size 0) ⟨.inr (by decide),by rw [List.length_replicate]; exact short⟩

theorem oneAttrFits : 1 ≤ stunMaxAttr := by decide

def largeRequest (size : Nat) (short : size < 2 ^ 32) : Msg :=
  ⟨⟨0x0001,0,stunMagic,fun _ => 7⟩,[zeroAttr size short],oneAttrFits⟩

theorem zeroAttrSize {size : Nat} (short : size < 2 ^ 32) : attrSize (zeroAttr size short) = 4 + pad4 size := by
  show 4 + pad4 (List.replicate size (0 : UInt8)).length = _
  rw [List.length_replicate]

theorem zeroAttrEncoded {size : Nat} (short : size < 2 ^ 32) {hdr : MsgHdr} {len : Nat} (fits : size + 8 ≤ len) :
    (encodeAttr plainEnv hdr (zeroAttr size short) len).status = .success := by
  show (encodeBinaryAttr 0x9000 (List.replicate size 0) len).status = .success
  unfold encodeBinaryAttr
  rw [List.length_replicate,if_neg]
  simp only [u32,attrHdrLen]
  omega

theorem largeRequestEncoded {size : Nat} (short : size < 2 ^ 32) {n : Nat} (fits : size ≤ 90000)
    (length : 24 + pad4 size = n) :
    (stunMsgEncode plainEnv (largeRequest size short) (fun _ => 0) 100000 none).msgLen = some n := by
  generalize startDef : afterHeader (largeRequest size short) (fun _ => 0) 100000 = e
  have pos : e.pos = 20 := by
    rw [← startDef]
    rfl
  have room : e.bufSize = 99980 := by
    rw [← startDef]
    show (100000 : UInt64) - UInt64.ofNat stunMsgHdrLen = 99980
    decide
  have counter : u32 e.bufSize.toNat = 99980 := by
    rw [room]
    rfl
  have success := @zeroAttrEncoded size short (largeRequest size short).hdr (u32 e.bufSize.toNat) (by omega)
  have whole := (encodeAttrReport success).2.2.2.mpr (by
    rw [zeroAttrSize]
    unfold pad4
    omega)
  have called := callSuccess success
  rw [whole,zeroAttrSize] at called
  generalize putDef : (e.put e.pos (encodeAttr plainEnv (largeRequest size short).hdr (zeroAttr size short)
    (u32 e.bufSize.toNat)).bytes) = put at called
  have putPos : put.pos = 20 := by
    rw [← putDef]
    exact pos
  have plain : stopsEncoding (zeroAttr size short) = false := rfl
  rw [encodeEq,if_neg (by decide),if_neg (by decide),startDef]
  unfold encodeRest
  rw [show (largeRequest size short).attrs = [zeroAttr size short] from rfl]
  unfold encodeAttrs
  rw [plain,called]
  show some (put.pos + (4 + pad4 size)) = some n
  rw [putPos,← length]
  congr 1
  omega

theorem encodedRefused :
    ((encodeBare 0x0200 fun _ => 7).msgLen = some 20 ∧
      (stunMsgCheck plainEnv (encodeBare 0x0200 fun _ => 7).encoding.mem 20 datagram).result ≠ .ok ()) ∧
    ((encodeBare 0x0001 ![0,0,0,0,0x80,0x28,0,4,1,2,3,4]).msgLen = some 20 ∧
      (stunMsgCheck plainEnv (encodeBare 0x0001 ![0,0,0,0,0x80,0x28,0,4,1,2,3,4]).encoding.mem 20
        datagram).result ≠ .ok ()) ∧
    ((stunMsgEncode plainEnv (largeRequest 65536 (by decide)) (fun _ => 0) 100000 none).msgLen = some 65560 ∧
      (stunMsgCheck plainEnv
        (stunMsgEncode plainEnv (largeRequest 65536 (by decide)) (fun _ => 0) 100000 none).encoding.mem 65560
        datagram).result ≠ .ok ()) := by
  refine ⟨⟨by decide +kernel,?_⟩,⟨by decide +kernel,?_⟩,largeRequestEncoded (by decide) (by decide) (by decide),?_⟩
  · intro passed
    exact absurd passed (by decide +kernel)
  · intro passed
    exact absurd passed (by decide +kernel)
  · intro passed
    have done := @largeRequestEncoded 65536 (by decide) 65560 (by decide) (by decide)
    obtain ⟨_,_,_,_,outline⟩ := encodeOutline rfl done
    exact absurd (outline.checked.mp passed).2.1 (by decide)

end Pjproject.Stun
