import Pjproject.StunMsg

/-! Where the STUN encoder writes, and what its size counter is worth. An attribute that
does not fit is refused, except that an address writes its type first, and that
ERROR-CODE and UNKNOWN-ATTRIBUTES check an unpadded length and then advance by the padded
one. The condition below says exactly when that does no harm. -/
namespace Pjproject.Stun
open Lib.Bytes

/- The room an attribute needs when `room` bytes of the buffer are left. The long strings
are those for which the 32-bit length arithmetic wraps. -/
def RoomFor (a : Attr) (room : Nat) : Prop :=
  match a.body with
  | .sockaddr _ _ => 2 ≤ room
  | .string value =>
    value.length + 7 < 2 ^ 32 ∨ u32 room < u32 (value.length + 7) / 4 * 4 ∨ 4 + pad4 value.length ≤ room
  | .errcode _ reason =>
    u32 room < u32 (8 + reason.length) ∨
      (8 + reason.length ≤ room ∧ u32 (8 + reason.length + 3) / 4 * 4 ≤ room)
  | .unknown attrs => u32 room < 4 + 2 * attrs.length ∨ pad4 (4 + 2 * attrs.length) ≤ room
  | .binary magic data =>
    data.length + 7 < 2 ^ 32 ∨ (findAttrDesc a.type = none ∧ magic ≠ stunMagic) ∨
      u32 room < u32 (data.length + 7) / 4 * 4 ∨ 4 + data.length ≤ room
  | _ => True

/- Over the attributes that are encoded one after the other. -/
def RoomForAll (env : Env) (hdr : MsgHdr) : Nat → List Attr → Prop
  | _, [] => True
  | room, a :: rest =>
    stopsEncoding a = true ∨
      (RoomFor a room ∧ ((encodeAttr env hdr a (u32 room)).status = .success →
        RoomForAll env hdr (room - (encodeAttr env hdr a (u32 room)).printed) rest))

/- An encoder's block and its report stay within the room there is. -/
def Printed.Fits (p : Printed) (room : Nat) : Prop :=
  p.bytes.length ≤ room ∧ (p.status = .success → p.printed ≤ room)

theorem stringPadLength (c : UInt8) (n : Nat) : n + (stringPad c n).length = pad4 n := by
  unfold stringPad pad4
  split
  · rw [List.length_replicate]
    omega
  · rw [List.length_nil]
    omega

theorem flatMapBe16Length (attrs : List UInt16) : (attrs.flatMap be16).length = 2 * attrs.length := by
  induction attrs with
  | nil => rfl
  | cons a attrs ih =>
    simp only [List.flatMap_cons,List.length_append,ih,be16Length,List.length_cons]
    omega

theorem encodeSockaddrFits {t : UInt16} {xorEd : Bool} {addr : SockAddr} {hdr : MsgHdr} {room : Nat} :
    (encodeSockaddrAttr t xorEd addr (u32 room) hdr).Fits room ↔ 2 ≤ room := by
  have small : u32 room ≤ room := Nat.mod_le _ _
  unfold encodeSockaddrAttr
  split
  · split
    · simp [Printed.Fits,be16Length]
    · rename_i enough
      simp only [attrHdrLen,stunGenericIpv4AddrLen] at enough
      simp [Printed.Fits,be16Length]
      omega
  · split
    · simp [Printed.Fits,be16Length]
    · rename_i enough
      simp only [attrHdrLen,stunGenericIpv6AddrLen] at enough
      simp [Printed.Fits,be16Length]
      omega
  · simp [Printed.Fits,be16Length]

variable {env : Env} {limit i n : Nat} {e small large : Encoding} {hmac : Option (Fin 20 → UInt8)} {msg : Msg}
  {key : Option (List UInt8)}

theorem roomForIff {hdr : MsgHdr} {a : Attr} {room : Nat} :
    (encodeAttr env hdr a (u32 room)).Fits room ↔ RoomFor a room := by
  have small : u32 room ≤ room := Nat.mod_le _ _
  obtain ⟨type,length,body,fits⟩ := a
  cases body with
  | sockaddr => exact encodeSockaddrFits
  | empty =>
    simp only [encodeAttr,encodeEmptyAttr,RoomFor]
    split
    · simp [Printed.Fits]
    · rename_i accepted
      simp only [attrHdrLen,Nat.not_lt] at accepted
      simp [Printed.Fits,be16Length,attrHdrLen,accepted.trans small]
  | string value =>
    simp only [encodeAttr,encodeStringAttr,RoomFor]
    have pad := stringPadLength env.paddingChar value.length
    have wrap : u32 (u32 value.length + attrHdrLen + 3) = u32 (value.length + 7) := by
      unfold u32 attrHdrLen
      omega
    rw [wrap]
    have least := (pad4Le value.length).1
    split
    · rename_i refused
      simp [Printed.Fits,refused]
    · rename_i accepted
      simp only [Printed.Fits,List.length_append,be16Length]
      unfold u32 pad4 at *
      omega
  | uint value =>
    simp only [encodeAttr,encodeUintAttr,RoomFor]
    split
    · simp [Printed.Fits]
    · rename_i accepted
      simp [Printed.Fits,be16Length,be32Length,(Nat.not_lt.mp accepted).trans small]
  | uint64 hi lo =>
    simp only [encodeAttr,encodeUint64Attr,RoomFor]
    split
    · simp [Printed.Fits]
    · rename_i accepted
      simp [Printed.Fits,be16Length,be32Length,(Nat.not_lt.mp accepted).trans small]
  | msgint hmac =>
    simp only [encodeAttr,encodeMsgintAttr,RoomFor]
    split
    · simp [Printed.Fits]
    · rename_i accepted
      simp [Printed.Fits,be16Length,(Nat.not_lt.mp accepted).trans small]
  | errcode errCode reason =>
    simp only [encodeAttr,encodeErrcodeAttr,RoomFor]
    have wrap : u32 (attrHdrLen + 4 + u32 reason.length) = u32 (8 + reason.length) := by
      unfold u32 attrHdrLen
      omega
    have report : u32 (attrHdrLen + 4 + u32 reason.length + 3) = u32 (8 + reason.length + 3) := by
      unfold u32 attrHdrLen
      omega
    rw [wrap,report]
    split
    · rename_i refused
      simp [Printed.Fits,refused]
    · rename_i accepted
      simp only [Printed.Fits,List.length_append,be16Length,List.length_cons,List.length_nil,
        accepted,false_or,forall_const]
      omega
  | unknown attrs =>
    simp only [encodeAttr,encodeUnknownAttr,RoomFor]
    rw [show attrHdrLen + attrs.length * 2 = 4 + 2 * attrs.length by unfold attrHdrLen; omega]
    split
    · rename_i refused
      simp [Printed.Fits,refused]
    · rename_i accepted
      simp only [Printed.Fits,List.length_append,be16Length,flatMapBe16Length,accepted,false_or,
        forall_const,pad4]
      omega
  | binary magic data =>
    have bound := fits.2
    simp only [encodeAttr,RoomFor]
    split
    · rename_i wrong
      simp [Printed.Fits,wrong]
    · rename_i right
      simp only [right,false_or,encodeBinaryAttr]
      rw [show data.length + attrHdrLen + 3 = data.length + 7 by unfold attrHdrLen; omega]
      split
      · rename_i refused
        simp [Printed.Fits,refused]
      · rename_i accepted
        simp only [Printed.Fits,List.length_append,be16Length]
        unfold u32 at *
        omega

theorem encodeAttrPrinted (env : Env) (hdr : MsgHdr) (a : Attr) (len : Nat) :
    (encodeAttr env hdr a len).printed < 2 ^ 32 := by
  obtain ⟨type,length,body,fits⟩ := a
  cases body with
  | sockaddr =>
    simp only [encodeAttr,encodeSockaddrAttr]
    split <;> (try split) <;> simp
  | empty => simp only [encodeAttr,encodeEmptyAttr]; split <;> simp [attrHdrLen]
  | string =>
    simp only [encodeAttr,encodeStringAttr]
    split
    · simp
    · simp only [u32]
      omega
  | uint => simp only [encodeAttr,encodeUintAttr]; split <;> simp
  | uint64 hi lo => simp only [encodeAttr,encodeUint64Attr]; split <;> simp
  | msgint => simp only [encodeAttr,encodeMsgintAttr]; split <;> simp
  | errcode =>
    simp only [encodeAttr,encodeErrcodeAttr]
    split
    · simp
    · simp only [u32]
      omega
  | unknown attrs =>
    have few : attrs.length ≤ 16 := fits.2
    simp only [encodeAttr,encodeUnknownAttr]
    split
    · simp
    · simp only [attrHdrLen]
      omega
  | binary =>
    simp only [encodeAttr,encodeBinaryAttr]
    split
    · simp
    · split
      · simp
      · simp only [u32]
        omega

/- No write and no value of the counter has gone past the buffer. -/
structure Inside (limit : Nat) (e : Encoding) : Prop where
  top : e.top ≤ limit
  room : ∀ p ∈ e.room, p.1 + p.2.toNat ≤ limit

structure Tracked (limit : Nat) (e : Encoding) : Prop extends Inside limit e where
  sum : e.pos + e.bufSize.toNat = limit

/- Writes, counter values and the position are never taken back. -/
structure Grows (e e' : Encoding) : Prop where
  top : e.top ≤ e'.top
  room : ∀ p ∈ e.room, p ∈ e'.room
  pos : e.pos ≤ e'.pos

theorem Grows.refl (e : Encoding) : Grows e e := ⟨Nat.le_refl _,fun _ mem => mem,Nat.le_refl _⟩

theorem Grows.trans {a b c : Encoding} (ab : Grows a b) (bc : Grows b c) : Grows a c :=
  ⟨ab.top.trans bc.top,fun p mem => bc.room p (ab.room p mem),ab.pos.trans bc.pos⟩

theorem Inside.before {limit e e'} (inside : Inside limit e') (grows : Grows e e') : Inside limit e :=
  ⟨grows.top.trans inside.top,fun p mem => inside.room p (grows.room p mem)⟩

theorem putGrows (e : Encoding) (pos : Nat) (bytes : List UInt8) : Grows e (e.put pos bytes) := by
  refine ⟨?_,fun _ mem => mem,Nat.le_refl _⟩
  simp only [Encoding.put]
  split
  · exact Nat.le_refl _
  · exact Nat.le_max_left _ _

theorem callGrows (e : Encoding) (encoder : Nat → Printed) : Grows e (e.call encoder).2 := by
  unfold Encoding.call
  simp only
  split
  · refine (putGrows e e.pos _).trans ⟨Nat.le_refl _,fun p mem => ?_,Nat.le_add_right _ _⟩
    simp only [Encoding.advance]
    exact List.mem_append_left _ mem
  · exact putGrows e e.pos _

theorem callStatus (e : Encoding) (encoder : Nat → Printed) :
    (e.call encoder).1 = (encoder (u32 e.bufSize.toNat)).status := by
  unfold Encoding.call
  simp only
  split
  · rename_i done
    exact done.symm
  · rfl

theorem putInside {pos : Nat} (inside : Inside limit e) (start : pos ≤ limit)
    (bytes : List UInt8) : Inside limit (e.put pos bytes) ↔ pos + bytes.length ≤ limit := by
  constructor
  · rintro ⟨top,_⟩
    simp only [Encoding.put] at top
    split at top
    · rename_i empty
      rw [empty,List.length_nil]
      omega
    · omega
  · intro fits
    refine ⟨?_,inside.room⟩
    have top := inside.top
    simp only [Encoding.put]
    split <;> omega

theorem subRoom (room : UInt64) {printed : Nat} (small : printed < 2 ^ 32) : (room - UInt64.ofNat printed).toNat =
      if printed ≤ room.toNat then room.toNat - printed else 2 ^ 64 + room.toNat - printed := by
  have bound := room.toNat_lt
  rw [UInt64.toNat_sub,UInt64.toNat_ofNat']
  split <;> omega

theorem callInside (tracked : Tracked limit e) {encoder : Nat → Printed}
    (small : (encoder (u32 e.bufSize.toNat)).printed < 2 ^ 32) :
    (Inside limit (e.call encoder).2 ↔ (encoder (u32 e.bufSize.toNat)).Fits e.bufSize.toNat) ∧
    ((encoder (u32 e.bufSize.toNat)).Fits e.bufSize.toNat → Tracked limit (e.call encoder).2) := by
  have sum := tracked.sum
  have put := putInside tracked.toInside (show e.pos ≤ limit by omega) (encoder (u32 e.bufSize.toNat)).bytes
  unfold Encoding.call
  generalize encoder (u32 e.bufSize.toNat) = p at small put
  simp only
  split
  · rename_i done
    have rest := subRoom e.bufSize small
    have iff : Inside limit ((e.put e.pos p.bytes).advance p.printed) ↔ p.Fits e.bufSize.toNat := by
      constructor
      · rintro ⟨top,room⟩
        have written := put.mp ⟨top,tracked.room⟩
        have last := room _ (List.mem_append_right _ (List.mem_singleton.mpr rfl))
        simp only [Encoding.put] at last
        rw [rest] at last
        refine ⟨by omega,fun _ => ?_⟩
        split at last <;> omega
      · rintro ⟨written,reported⟩
        have reported := reported done
        have inside := put.mpr (by omega)
        refine ⟨inside.top,fun q mem => ?_⟩
        rcases List.mem_append.mp mem with old | new
        · exact tracked.room q old
        · rw [List.mem_singleton.mp new]
          simp only [Encoding.put]
          rw [rest,if_pos reported]
          omega
    refine ⟨iff,fun fits => ⟨iff.mpr fits,?_⟩⟩
    have reported := fits.2 done
    simp only [Encoding.advance,Encoding.put]
    rw [rest,if_pos reported]
    omega
  · rename_i failed
    have iff : Inside limit (e.put e.pos p.bytes) ↔ p.Fits e.bufSize.toNat := by
      rw [put]
      exact ⟨fun fits => ⟨by omega,fun done => absurd done failed⟩,fun fits => by have := fits.1; omega⟩
    exact ⟨iff,fun fits => ⟨iff.mpr fits,sum⟩⟩

theorem callSuccess {encoder : Nat → Printed} (done : (encoder (u32 e.bufSize.toNat)).status = .success) :
    e.call encoder = (.success, (e.put e.pos (encoder (u32 e.bufSize.toNat)).bytes).advance
      (encoder (u32 e.bufSize.toNat)).printed) := by
  unfold Encoding.call
  simp only [done,if_true]

theorem encodeAttrsGrows (env : Env) (hdr : MsgHdr) (attrs : List Attr) (e : Encoding) :
    Grows e (encodeAttrs env hdr attrs e).2.1 := by
  induction attrs generalizing e with
  | nil => exact .refl e
  | cons a rest ih =>
    unfold encodeAttrs
    split
    · exact .refl e
    · have here := callGrows e (encodeAttr env hdr a)
      split
      · rename_i done
        rw [done] at here
        exact here.trans (ih _)
      · rename_i done
        rw [done] at here
        exact here

theorem encodeAttrsInside (env : Env) (hdr : MsgHdr) (attrs : List Attr) (tracked : Tracked limit e) :
    (Inside limit (encodeAttrs env hdr attrs e).2.1 ↔ RoomForAll env hdr e.bufSize.toNat attrs) ∧
    (RoomForAll env hdr e.bufSize.toNat attrs → Tracked limit (encodeAttrs env hdr attrs e).2.1) := by
  induction attrs generalizing e with
  | nil => exact ⟨⟨fun _ => trivial,fun _ => tracked.toInside⟩,fun _ => tracked⟩
  | cons a rest ih =>
    unfold encodeAttrs RoomForAll
    by_cases stops : stopsEncoding a = true
    · rw [if_pos stops]
      exact ⟨⟨fun _ => .inl stops,fun _ => tracked.toInside⟩,fun _ => tracked⟩
    rw [if_neg stops]
    simp only [stops,Bool.false_eq_true,false_or]
    have small := encodeAttrPrinted env hdr a (u32 e.bufSize.toNat)
    obtain ⟨inside,next⟩ := callInside tracked small
    rw [roomForIff] at inside next
    have status := callStatus e (encodeAttr env hdr a)
    split
    · rename_i e' done
      rw [done] at inside next status
      simp only at inside next status
      have grows := encodeAttrsGrows env hdr rest e'
      rw [← status]
      have left : RoomFor a e.bufSize.toNat →
          e'.bufSize.toNat = e.bufSize.toNat - (encodeAttr env hdr a (u32 e.bufSize.toNat)).printed := by
        intro room
        rw [callSuccess status.symm] at done
        have fits : (encodeAttr env hdr a (u32 e.bufSize.toNat)).Fits e.bufSize.toNat := roomForIff.mpr room
        have reported := fits.2 status.symm
        have size : e'.bufSize = e.bufSize - UInt64.ofNat (encodeAttr env hdr a (u32 e.bufSize.toNat)).printed := by
          rw [← (Prod.mk.inj done).2]
          rfl
        rw [size,subRoom _ small,if_pos reported]
      constructor
      · constructor
        · intro all
          have room := inside.mp (all.before grows)
          refine ⟨room,fun _ => ?_⟩
          rw [← left room]
          exact (ih (next room)).1.mp all
        · rintro ⟨room,later⟩
          rw [← left room] at later
          exact (ih (next room)).1.mpr (later rfl)
      · rintro ⟨room,later⟩
        rw [← left room] at later
        exact (ih (next room)).2 (later rfl)
    · rename_i status' e' failed done
      rw [done] at inside next status
      simp only at inside next status
      rw [← status]
      constructor
      · exact ⟨fun all => ⟨inside.mp all,fun same => absurd same failed⟩,fun all => inside.mpr all.1⟩
      · exact fun all => next all.1

theorem encodeMsgintFits (t length : UInt16) (hmac : Fin 20 → UInt8) (room : Nat) :
    (encodeMsgintAttr t length hmac (u32 room)).Fits room := by
  have small : u32 room ≤ room := Nat.mod_le _ _
  unfold encodeMsgintAttr
  split
  · simp [Printed.Fits]
  · rename_i accepted
    simp [Printed.Fits,be16Length,(Nat.not_lt.mp accepted).trans small]

theorem encodeUintFits (t : UInt16) (value : UInt32) (room : Nat) :
    (encodeUintAttr t value (u32 room)).Fits room := by
  have small : u32 room ≤ room := Nat.mod_le _ _
  unfold encodeUintAttr
  split
  · simp [Printed.Fits]
  · rename_i accepted
    simp [Printed.Fits,be16Length,be32Length,(Nat.not_lt.mp accepted).trans small]

theorem fixedPrinted (t length : UInt16) (hmac : Fin 20 → UInt8) (value : UInt32) (len : Nat) :
    (encodeMsgintAttr t length hmac len).printed < 2 ^ 32 ∧ (encodeUintAttr t value len).printed < 2 ^ 32 := by
  unfold encodeMsgintAttr encodeUintAttr
  constructor <;> split <;> simp

theorem Tracked.patch (tracked : Tracked limit e) (long : 4 ≤ limit) (v : UInt16) :
    Tracked limit (e.put 2 (be16 v)) :=
  ⟨(putInside tracked.toInside (by omega) (be16 v)).mpr (by simpa [be16Length] using long),tracked.sum⟩

/- A result whose writes, counters and reported length are inside the buffer. -/
structure ResultInside (limit : Nat) (r : EncodeResult) : Prop where
  inside : Inside limit r.encoding
  reported : ∀ n, r.msgLen = some n → n ≤ limit

theorem encodeFingerprintInside (tracked : Tracked limit e) (long : 4 ≤ limit) (afingerprint : Option Attr) :
    ResultInside limit (encodeFingerprint env hmac e afingerprint) := by
  cases afingerprint with
  | none =>
    refine ⟨tracked.toInside,fun n same => ?_⟩
    cases same
    have := tracked.sum
    omega
  | some a =>
    simp only [encodeFingerprint]
    have patched := tracked.patch long (word16 (e.mem 2) (e.mem 3) + 8)
    generalize e.put 2 (be16 (word16 (e.mem 2) (e.mem 3) + 8)) = e' at patched
    generalize env.crc32 (slice e'.mem 0 e'.pos) ^^^ stunXorFingerprint = value
    have next := (callInside patched (fixedPrinted a.type 0 (fun _ => 0) value _).2).2
      (encodeUintFits a.type value _)
    split
    · rename_i last done
      rw [done] at next
      refine ⟨next.toInside,fun n same => ?_⟩
      cases same
      have sum : last.pos + last.bufSize.toNat = limit := next.sum
      omega
    · rename_i done
      rw [done] at next
      exact ⟨next.toInside,by simp⟩

theorem encodeIntegrityInside (tracked : Tracked limit e) (long : 4 ≤ limit) (afingerprint amsgint : Option Attr) :
    ResultInside limit (encodeIntegrity env msg key i e afingerprint amsgint) := by
  cases amsgint with
  | none => exact encodeFingerprintInside tracked long afingerprint
  | some a =>
    cases key with
    | none => exact ⟨tracked.toInside,by simp [encodeIntegrity]⟩
    | some key =>
      simp only [encodeIntegrity]
      split
      · exact ⟨tracked.toInside,by simp⟩
      split
      · exact ⟨tracked.toInside,by simp⟩
      generalize env.hmacSha1 key (slice e.mem 0 e.pos) = hmac
      have next := (callInside tracked (fixedPrinted a.type a.length hmac 0 _).1).2
        (encodeMsgintFits a.type a.length hmac _)
      split
      · rename_i done
        rw [done] at next
        exact encodeFingerprintInside next long _
      · rename_i done
        rw [done] at next
        exact ⟨next.toInside,by simp⟩

theorem encodeFingerprintGrows (env : Env) (hmac : Option (Fin 20 → UInt8)) (e : Encoding)
    (afingerprint : Option Attr) : Grows e (encodeFingerprint env hmac e afingerprint).encoding := by
  cases afingerprint with
  | none => exact .refl e
  | some a =>
    simp only [encodeFingerprint]
    have patched := putGrows e 2 (be16 (word16 (e.mem 2) (e.mem 3) + 8))
    generalize e.put 2 (be16 (word16 (e.mem 2) (e.mem 3) + 8)) = e' at patched
    have next := callGrows e' (encodeUintAttr a.type (env.crc32 (slice e'.mem 0 e'.pos) ^^^ stunXorFingerprint))
    split
    · rename_i done
      rw [done] at next
      exact patched.trans next
    · rename_i done
      rw [done] at next
      exact patched.trans next

theorem encodeIntegrityGrows (env : Env) (msg : Msg) (key : Option (List UInt8)) (i : Nat) (e : Encoding)
    (afingerprint amsgint : Option Attr) :
    Grows e (encodeIntegrity env msg key i e afingerprint amsgint).encoding := by
  cases amsgint with
  | none => exact encodeFingerprintGrows env none e afingerprint
  | some a =>
    cases key with
    | none => exact .refl e
    | some key =>
      simp only [encodeIntegrity]
      split
      · exact .refl e
      split
      · exact .refl e
      have next := callGrows e (encodeMsgintAttr a.type a.length (env.hmacSha1 key (slice e.mem 0 e.pos)))
      split
      · rename_i done
        rw [done] at next
        exact next.trans (encodeFingerprintGrows env _ _ _)
      · rename_i done
        rw [done] at next
        exact next

/- Two sizes of the buffer: what one accepts, the other either refuses as too small or
encodes in the same number of bytes. -/
def Agree (first second : Nat → Printed) : Prop :=
  ∀ m n, (second n).status = .success → (first m).status = .etoosmall ∨
    ((first m).status = .success ∧ (first m).printed = (second n).printed)

theorem lengthCheckAgrees {need printed : Nat} {refused refused' bytes bytes' : List UInt8} {status : Status} :
    Agree (fun len => if len < need then ⟨.etoosmall,refused,0⟩ else ⟨status,bytes,printed⟩)
      (fun len => if len < need then ⟨.etoosmall,refused',0⟩ else ⟨status,bytes',printed⟩) := by
  intro m n done
  by_cases enough : n < need
  · simp [enough] at done
  · by_cases few : m < need
    · exact .inl (by simp [few])
    · simp only [enough,if_false] at done
      exact .inr (by simp [few,enough,done])

theorem encodeAttrAgrees (env : Env) (hdr : MsgHdr) (a : Attr) :
    Agree (encodeAttr env hdr a) (encodeAttr env hdr a) := by
  obtain ⟨type,length,body,fits⟩ := a
  cases body with
  | sockaddr xorEd addr =>
    intro m n
    simp only [encodeAttr,encodeSockaddrAttr]
    cases (if xorEd = true then xorAddr hdr addr else addr) with
    | ipv4 port bytes => exact lengthCheckAgrees m n
    | ipv6 port bytes => exact lengthCheckAgrees m n
    | other => exact fun done => absurd done (by simp)
  | empty => exact lengthCheckAgrees
  | string => exact lengthCheckAgrees
  | uint => exact lengthCheckAgrees
  | uint64 hi lo => exact lengthCheckAgrees
  | msgint => exact lengthCheckAgrees
  | errcode => exact lengthCheckAgrees
  | unknown => exact lengthCheckAgrees
  | binary magic =>
    intro m n done
    simp only [encodeAttr] at done ⊢
    by_cases wrong : findAttrDesc type = none ∧ magic ≠ stunMagic
    · rw [if_pos wrong] at done
      simp at done
    · rw [if_neg wrong] at done ⊢
      rw [if_neg wrong]
      exact lengthCheckAgrees m n done

theorem callAgrees (same : small.pos = large.pos) {first second : Nat → Printed}
    (agree : Agree first second) (done : (large.call second).1 = .success) : (small.call first).1 = .etoosmall ∨
      ((small.call first).1 = .success ∧ (small.call first).2.pos = (large.call second).2.pos) := by
  rw [callStatus] at done
  rw [callStatus]
  rcases agree (u32 small.bufSize.toNat) _ done with refused | ⟨accepted,printed⟩
  · exact .inl refused
  · refine .inr ⟨accepted,?_⟩
    rw [callSuccess accepted,callSuccess done]
    simp only [Encoding.advance,Encoding.put]
    rw [same,printed]

theorem encodeAttrsAgree (env : Env) (hdr : MsgHdr) (attrs : List Attr)
    (same : small.pos = large.pos) (done : (encodeAttrs env hdr attrs large).1 = .success) :
    (encodeAttrs env hdr attrs small).1 = .etoosmall ∨ ((encodeAttrs env hdr attrs small).1 = .success ∧
        (encodeAttrs env hdr attrs small).2.1.pos = (encodeAttrs env hdr attrs large).2.1.pos ∧
        (encodeAttrs env hdr attrs small).2.2 = (encodeAttrs env hdr attrs large).2.2) := by
  induction attrs generalizing small large with
  | nil => exact .inr ⟨rfl,same,rfl⟩
  | cons a rest ih =>
    have agrees := callAgrees same (encodeAttrAgrees env hdr a)
    unfold encodeAttrs at done ⊢
    by_cases stops : stopsEncoding a = true
    · rw [if_pos stops,if_pos stops]
      exact .inr ⟨rfl,same,rfl⟩
    rw [if_neg stops] at done ⊢
    rw [if_neg stops]
    generalize large.call (encodeAttr env hdr a) = next at done agrees ⊢
    generalize small.call (encodeAttr env hdr a) = next' at agrees ⊢
    obtain ⟨status,large'⟩ := next
    obtain ⟨status',small'⟩ := next'
    cases status with
    | success =>
      rcases agrees rfl with refused | ⟨accepted,pos⟩
      · simp only at refused
        exact .inl (by rw [refused])
      · simp only at accepted
        rw [accepted]
        exact ih pos done
    | _ => simp at done

theorem encodeFingerprintAgrees {hmac' : Option (Fin 20 → UInt8)}
    (same : small.pos = large.pos) (afingerprint : Option Attr)
    (done : (encodeFingerprint env hmac large afingerprint).msgLen = some n) :
    (encodeFingerprint env hmac' small afingerprint).status = .etoosmall ∨
      (encodeFingerprint env hmac' small afingerprint).msgLen = some n := by
  cases afingerprint with
  | none =>
    right
    rw [← done]
    simp only [encodeFingerprint,same]
  | some a =>
    simp only [encodeFingerprint] at done ⊢
    have pos : (small.put 2 (be16 (word16 (small.mem 2) (small.mem 3) + 8))).pos =
        (large.put 2 (be16 (word16 (large.mem 2) (large.mem 3) + 8))).pos := same
    generalize small.put 2 (be16 (word16 (small.mem 2) (small.mem 3) + 8)) = small' at pos
    generalize large.put 2 (be16 (word16 (large.mem 2) (large.mem 3) + 8)) = large' at pos done
    generalize env.crc32 (slice small'.mem 0 small'.pos) ^^^ stunXorFingerprint = value
    generalize env.crc32 (slice large'.mem 0 large'.pos) ^^^ stunXorFingerprint = value' at done
    have agree : Agree (encodeUintAttr a.type value) (encodeUintAttr a.type value') := lengthCheckAgrees
    have agrees := callAgrees pos agree
    generalize small'.call (encodeUintAttr a.type value) = next at agrees ⊢
    generalize large'.call (encodeUintAttr a.type value') = next' at agrees done
    obtain ⟨status,e⟩ := next
    obtain ⟨status',e'⟩ := next'
    cases status' with
    | success =>
      rcases agrees rfl with refused | ⟨accepted,pos⟩
      · simp only at refused
        exact .inl (by rw [refused])
      · simp only at accepted pos
        rw [accepted,← done]
        exact .inr (congrArg some pos)
    | _ => simp at done

theorem encodeIntegrityAgrees (same : small.pos = large.pos) (afingerprint amsgint : Option Attr)
    (done : (encodeIntegrity env msg key i large afingerprint amsgint).msgLen = some n) :
    (encodeIntegrity env msg key i small afingerprint amsgint).status = .etoosmall ∨
      (encodeIntegrity env msg key i small afingerprint amsgint).msgLen = some n := by
  cases amsgint with
  | none => exact encodeFingerprintAgrees same afingerprint done
  | some a =>
    cases key with
    | none => simp [encodeIntegrity] at done
    | some key =>
      simp only [encodeIntegrity] at done ⊢
      split at done
      · simp at done
      split at done
      · simp at done
      rename_i first second
      rw [if_neg first,if_neg second]
      have agree : Agree (encodeMsgintAttr a.type a.length (env.hmacSha1 key (slice small.mem 0 small.pos)))
        (encodeMsgintAttr a.type a.length (env.hmacSha1 key (slice large.mem 0 large.pos))) := lengthCheckAgrees
      have agrees := callAgrees same agree
      generalize small.call (encodeMsgintAttr a.type a.length (env.hmacSha1 key (slice small.mem 0 small.pos))) =
        next at agrees ⊢
      generalize large.call (encodeMsgintAttr a.type a.length (env.hmacSha1 key (slice large.mem 0 large.pos))) =
        next' at agrees done
      obtain ⟨status,e⟩ := next
      obtain ⟨status',e'⟩ := next'
      cases status' with
      | success =>
        rcases agrees rfl with refused | ⟨accepted,pos⟩
        · simp only at refused
          exact .inl (by rw [refused])
        · simp only at accepted pos
          rw [accepted]
          exact encodeFingerprintAgrees pos _ done
      | _ => simp at done

/- The encoder behind its size checks, once the header is written. -/
def afterHeader (msg : Msg) (buf : Memory) (bufSize : UInt64) : Encoding :=
  ((⟨buf,0,0,bufSize,[]⟩ : Encoding).put 0 (putHeader msg.hdr)).advance stunMsgHdrLen

def encodeRest (env : Env) (msg : Msg) (key : Option (List UInt8)) (e : Encoding) : EncodeResult :=
  match encodeAttrs env msg.hdr msg.attrs e with
  | (.success, e, stopped) =>
    match scanStopped stopped with
    | .error status => ⟨status,e,none,none,none⟩
    | .ok (amsgint, afingerprint) =>
      encodeIntegrity env msg key msg.attrs.length (e.put 2 (be16 (bodyLength amsgint e.pos))) afingerprint amsgint
  | (status, e, _) => ⟨status,e,none,none,none⟩

theorem encodeEq (env : Env) (msg : Msg) (buf : Memory) (bufSize : UInt64) (key : Option (List UInt8)) :
    stunMsgEncode env msg buf bufSize key =
      if bufSize = 0 then ⟨.einval,⟨buf,0,0,bufSize,[]⟩,none,none,none⟩
      else if bufSize < 20 then ⟨.etoosmall,⟨buf,0,0,bufSize,[]⟩,none,none,none⟩
      else encodeRest env msg key (afterHeader msg buf bufSize) := rfl

theorem afterHeaderTracked (msg : Msg) (buf : Memory) {bufSize : UInt64} (long : 20 ≤ bufSize.toNat) :
    Tracked bufSize.toNat (afterHeader msg buf bufSize) ∧
    (afterHeader msg buf bufSize).bufSize.toNat = bufSize.toNat - 20 := by
  have rest : (bufSize - UInt64.ofNat 20).toNat = bufSize.toNat - 20 := by
    rw [subRoom bufSize (by decide),if_pos long]
  have header : (putHeader msg.hdr).length = 20 := by simp [putHeader,be16Length,be32Length]
  have filled : putHeader msg.hdr ≠ [] := by
    intro empty
    simp [empty] at header
  refine ⟨⟨⟨?_,?_⟩,?_⟩,rest⟩
  · simp only [afterHeader,Encoding.advance,Encoding.put,header,if_neg filled]
    omega
  · intro p mem
    simp only [afterHeader,Encoding.advance,Encoding.put,List.nil_append,List.mem_singleton] at mem
    rw [mem]
    simp only [stunMsgHdrLen]
    rw [rest]
    omega
  · simp only [afterHeader,Encoding.advance,Encoding.put,stunMsgHdrLen]
    rw [rest]
    omega

theorem encodeRestInside (env : Env) (msg : Msg) (key : Option (List UInt8))
    (tracked : Tracked limit e) (long : 4 ≤ limit) :
    ResultInside limit (encodeRest env msg key e) ↔ RoomForAll env msg.hdr e.bufSize.toNat msg.attrs := by
  obtain ⟨iff,next⟩ := encodeAttrsInside env msg.hdr msg.attrs tracked
  unfold encodeRest
  generalize encodeAttrs env msg.hdr msg.attrs e = loop at iff next
  obtain ⟨status,e',stopped⟩ := loop
  simp only at iff next
  cases status with
  | success =>
    simp only
    split
    · exact ⟨fun result => iff.mp result.inside,fun room => ⟨(next room).toInside,by simp⟩⟩
    · rename_i amsgint afingerprint _
      have grows := (putGrows e' 2 (be16 (bodyLength amsgint e'.pos))).trans
        (encodeIntegrityGrows env msg key msg.attrs.length _ afingerprint amsgint)
      constructor
      · exact fun result => iff.mp (result.inside.before grows)
      · exact fun room => encodeIntegrityInside ((next room).patch long _) long afingerprint amsgint
  | _ => exact ⟨fun result => iff.mp result.inside,fun room => ⟨(next room).toInside,by simp⟩⟩

theorem encodeFingerprintLength
    {afingerprint : Option Attr} (done : (encodeFingerprint env hmac e afingerprint).msgLen = some n) :
    (encodeFingerprint env hmac e afingerprint).encoding.pos = n := by
  cases afingerprint with
  | none => exact Option.some.inj done
  | some =>
    simp only [encodeFingerprint] at done ⊢
    generalize Encoding.call _ _ = next at done ⊢
    obtain ⟨status,last⟩ := next
    cases status with
    | success => exact Option.some.inj done
    | _ => simp at done

theorem encodeIntegrityLength {afingerprint amsgint : Option Attr}
    (done : (encodeIntegrity env msg key i e afingerprint amsgint).msgLen = some n) :
    (encodeIntegrity env msg key i e afingerprint amsgint).encoding.pos = n := by
  cases amsgint with
  | none => exact encodeFingerprintLength done
  | some a =>
    cases key with
    | none => simp [encodeIntegrity] at done
    | some key =>
      simp only [encodeIntegrity] at done ⊢
      split at done
      · simp at done
      split at done
      · simp at done
      rename_i first second
      rw [if_neg first,if_neg second]
      generalize Encoding.call _ _ = next at done ⊢
      obtain ⟨status,last⟩ := next
      cases status with
      | success => exact encodeFingerprintLength done
      | _ => simp at done

theorem encodeRestLength (done : (encodeRest env msg key e).msgLen = some n) : e.pos ≤ n := by
  have grows := encodeAttrsGrows env msg.hdr msg.attrs e
  unfold encodeRest at done
  generalize encodeAttrs env msg.hdr msg.attrs e = loop at grows done
  obtain ⟨status,e',stopped⟩ := loop
  cases status with
  | success =>
    cases found : scanStopped stopped with
    | error => simp [found] at done
    | ok pair =>
      obtain ⟨amsgint,afingerprint⟩ := pair
      simp only [found] at done
      have later := (putGrows e' 2 (be16 (bodyLength amsgint e'.pos))).trans
        (encodeIntegrityGrows env msg key msg.attrs.length _ afingerprint amsgint)
      rw [← encodeIntegrityLength done]
      exact grows.pos.trans later.pos
  | _ => simp at done

theorem encodeRestAgrees (same : small.pos = large.pos) (done : (encodeRest env msg key large).msgLen = some n) :
    (encodeRest env msg key small).status = .etoosmall ∨ (encodeRest env msg key small).msgLen = some n := by
  have agrees := encodeAttrsAgree env msg.hdr msg.attrs same
  unfold encodeRest at done ⊢
  generalize encodeAttrs env msg.hdr msg.attrs large = loop at agrees done
  generalize encodeAttrs env msg.hdr msg.attrs small = loop' at agrees ⊢
  obtain ⟨status,e,stopped⟩ := loop
  obtain ⟨status',e',stopped'⟩ := loop'
  cases status with
  | success =>
    rcases agrees rfl with refused | ⟨accepted,pos,rest⟩
    · simp only at refused
      exact .inl (by rw [refused])
    · simp only at accepted pos rest
      rw [accepted,rest]
      cases found : scanStopped stopped with
      | error => simp [found] at done
      | ok pair =>
        obtain ⟨amsgint,afingerprint⟩ := pair
        simp only [found] at done ⊢
        have equal : (e'.put 2 (be16 (bodyLength amsgint e'.pos))).pos =
            (e.put 2 (be16 (bodyLength amsgint e.pos))).pos := pos
        exact encodeIntegrityAgrees equal afingerprint amsgint done
  | _ => simp at done

/- The message has an encoding, given enough room. -/
def Encodable (env : Env) (msg : Msg) (buf : Memory) (key : Option (List UInt8)) : Prop :=
  ∃ bufSize n, (stunMsgEncode env msg buf bufSize key).msgLen = some n

/- The encoder writes inside the buffer, its counter is never more than what is left, the
length it reports is within the buffer, and a message that has an encoding longer than
the buffer is refused as too large. -/
structure EncodesInside (env : Env) (msg : Msg) (buf : Memory) (bufSize : UInt64)
    (key : Option (List UInt8)) : Prop where
  writes : (stunMsgEncode env msg buf bufSize key).encoding.top ≤ bufSize.toNat
  counters : ∀ p ∈ (stunMsgEncode env msg buf bufSize key).encoding.room, p.1 + p.2.toNat ≤ bufSize.toNat
  reported : ∀ n, (stunMsgEncode env msg buf bufSize key).msgLen = some n → n ≤ bufSize.toNat
  refused : ∀ larger n, (stunMsgEncode env msg buf larger key).msgLen = some n → bufSize.toNat < n →
    (stunMsgEncode env msg buf bufSize key).status = .etoosmall

theorem encodableLong {buf : Memory} {bufSize : UInt64}
    (done : (stunMsgEncode env msg buf bufSize key).msgLen = some n) :
    20 ≤ bufSize.toNat ∧ (encodeRest env msg key (afterHeader msg buf bufSize)).msgLen = some n := by
  rw [encodeEq] at done
  split at done
  · simp at done
  split at done
  · simp at done
  rename_i long
  rw [UInt64.lt_iff_toNat_lt,Nat.not_lt] at long
  exact ⟨long,done⟩

theorem encodesInsideIff (env : Env) (msg : Msg) (buf : Memory) (bufSize : UInt64) (key : Option (List UInt8)) :
    EncodesInside env msg buf bufSize key ↔
      (bufSize ≠ 0 ∨ ¬ Encodable env msg buf key) ∧
      (20 ≤ bufSize.toNat → RoomForAll env msg.hdr (bufSize.toNat - 20) msg.attrs) := by
  by_cases zero : bufSize = 0
  · subst zero
    have shape : stunMsgEncode env msg buf 0 key = ⟨.einval,⟨buf,0,0,0,[]⟩,none,none,none⟩ := rfl
    constructor
    · intro inside
      refine ⟨.inr ?_,fun long => absurd long (by decide)⟩
      rintro ⟨larger,n,done⟩
      have long : 20 ≤ n := encodeRestLength (encodableLong done).2
      have small := inside.refused larger n done (by simp; omega)
      simp [shape] at small
    · rintro ⟨either,_⟩
      have no := either.resolve_left (by simp)
      refine ⟨by simp [shape],by simp [shape],by simp [shape],?_⟩
      exact fun larger n done _ => absurd ⟨larger,n,done⟩ no
  · simp only [ne_eq,zero,not_false_eq_true,true_or,true_and]
    by_cases long : 20 ≤ bufSize.toNat
    · simp only [long,forall_const]
      have shape : stunMsgEncode env msg buf bufSize key = encodeRest env msg key (afterHeader msg buf bufSize) := by
        rw [encodeEq,if_neg zero,if_neg]
        rw [UInt64.lt_iff_toNat_lt,Nat.not_lt]
        exact long
      obtain ⟨tracked,room⟩ := afterHeaderTracked msg buf long
      have iff := encodeRestInside env msg key tracked (by omega)
      rw [room,← shape] at iff
      rw [← iff]
      constructor
      · exact fun inside => ⟨⟨inside.writes,inside.counters⟩,inside.reported⟩
      · intro result
        refine ⟨result.inside.top,result.inside.room,result.reported,fun larger n done more => ?_⟩
        rw [shape]
        rcases encodeRestAgrees (show (afterHeader msg buf bufSize).pos = (afterHeader msg buf larger).pos from rfl)
          (encodableLong done).2 with refused | accepted
        · exact refused
        · rw [← shape] at accepted
          have := result.reported n accepted
          omega
    · have shape : stunMsgEncode env msg buf bufSize key =
          ⟨.etoosmall,⟨buf,0,0,bufSize,[]⟩,none,none,none⟩ := by
        rw [encodeEq,if_neg zero,if_pos]
        rw [UInt64.lt_iff_toNat_lt]
        simpa using long
      simp only [long,false_implies,iff_true]
      exact ⟨by simp [shape],by simp [shape],by simp [shape],fun _ _ _ _ => by rw [shape]⟩

/- An error response whose reason has one character, and a buffer of 29 bytes: the nine
bytes of the attribute fit, the counter goes on from 9 to 9 - 12. -/
def shortReasonMsg : Msg :=
  ⟨⟨0x0111,0,stunMagic,fun _ => 0⟩,[errcodeAttrCreate 400 [120]],by decide⟩

theorem paddingWrapsCounter :
    ¬ ∀ (env : Env) (msg : Msg) (buf : Memory) (bufSize : UInt64) (key : Option (List UInt8)),
      EncodesInside env msg buf bufSize key := by
  intro all
  have reported := (all ⟨fun _ _ _ => 0,fun _ => 0,0⟩ shortReasonMsg (fun _ => 0) 29 none).reported 32 (by decide)
  exact absurd reported (by decide)

end Pjproject.Stun
