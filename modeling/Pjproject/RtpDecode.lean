import Mathlib

/-! The header of a received RTP packet in rtp.c: which bytes the decoder looks at, and where it puts the
payload. -/
namespace Pjproject.Rtp

def rtpVersion : Nat := 2
def sizeofHdr : Nat := 12
def sizeofExtHdr : Nat := 4

inductive DecodeError where
  | einver
  | einlen
  deriving DecidableEq, Repr

/- The pointers of pjmedia_rtp_dec_hdr and of the payload, as offsets into the packet. -/
structure DecHdr where
  extHdr : Option Nat := none
  ext : Option Nat := none
  extLen : Nat := 0
  deriving DecidableEq, Repr

structure Decoded where
  decHdr : DecHdr
  payload : Nat
  payloadlen : Nat
  deriving DecidableEq, Repr

/- The packet and the memory after it. -/
structure Packet where
  bytes : List UInt8
  beyond : Nat → UInt8

def Packet.byte (pkt : Packet) (i : Nat) : Nat :=
  (if h : i < pkt.bytes.length then pkt.bytes.get ⟨i,h⟩ else pkt.beyond (i - pkt.bytes.length)).toNat

/- The bit fields of the first byte. -/
def Packet.cc (pkt : Packet) : Nat := pkt.byte 0 % 16
def Packet.x (pkt : Packet) : Bool := pkt.byte 0 / 16 % 2 = 1
def Packet.p (pkt : Packet) : Bool := pkt.byte 0 / 32 % 2 = 1
def Packet.v (pkt : Packet) : Nat := pkt.byte 0 / 64

/- A computation that keeps the indices of the bytes it has read, in failing too. -/
structure Reading (α : Type) where
  result : Except DecodeError α
  reads : List Nat

def Reading.pure {α : Type} (a : α) : Reading α := ⟨.ok a,[]⟩

def Reading.bind {α β : Type} (m : Reading α) (f : α → Reading β) : Reading β :=
  match m.result with
  | .ok a => ⟨(f a).result,m.reads ++ (f a).reads⟩
  | .error e => ⟨.error e,m.reads⟩

instance : Monad Reading where
  pure := Reading.pure
  bind := Reading.bind

def fail {α : Type} (e : DecodeError) : Reading α := ⟨.error e,[]⟩

def Packet.read (pkt : Packet) (i : Nat) : Reading Nat := ⟨.ok (pkt.byte i),[i]⟩

/- The conversion of an int to unsigned. -/
def unsigned (n : Int) : Nat := (n % 2 ^ 32).toNat

/- The part of pjmedia_rtp_decode_rtp2 for a header with an extension; the offset is that of the extension. -/
def Packet.decodeExt (pkt : Packet) (offset : Nat) : Reading (DecHdr × Nat) := do
  let high ← pkt.read (offset + 2)
  let low ← pkt.read (offset + 3)
  let extLen := 256 * high + low
  return (⟨some offset,some (offset + sizeofExtHdr),extLen⟩, offset + (extLen + 1) * 4)

def Packet.removePadding (pkt : Packet) (payload payloadlen : Nat) : Reading Nat := do
  if pkt.p ∧ payloadlen > 0 then
    let padLen ← pkt.read (payload + (payloadlen - 1))
    if padLen ≤ payloadlen then return unsigned (payloadlen - padLen) else return payloadlen
  else return payloadlen

/- The end of pjmedia_rtp_decode_rtp2, from the offset of the payload on. -/
def Packet.setPayload (pkt : Packet) (decHdr : DecHdr) (offset : Nat) : Reading Decoded :=
  if offset > pkt.bytes.length then fail .einlen
  else do
    let payloadlen ← pkt.removePadding offset (unsigned (pkt.bytes.length - offset))
    return ⟨decHdr,offset,payloadlen⟩

/- pjmedia_rtp_decode_rtp2. -/
def Packet.decodeRtp2 (pkt : Packet) : Reading Decoded := do
  let _ ← pkt.read 0
  if pkt.v ≠ rtpVersion then fail .einver
  else
    let offset := sizeofHdr + pkt.cc * 4
    let (decHdr, offset) ← if pkt.x then pkt.decodeExt offset else Reading.pure ({}, offset)
    pkt.setPayload decHdr offset

/- No byte after the packet is read, and the payload is a part of the packet. -/
structure Inside (pkt : Packet) (decoding : Reading Decoded) : Prop where
  reads : ∀ i ∈ decoding.reads, i < pkt.bytes.length
  payload : ∀ decoded, decoding.result = .ok decoded →
    decoded.payload ≤ pkt.bytes.length ∧ decoded.payload + decoded.payloadlen ≤ pkt.bytes.length

theorem unsignedLe {n : Int} (m : Nat) (le : n ≤ m) (nonneg : 0 ≤ n) : unsigned n ≤ m := by
  unfold unsigned
  omega

theorem removePaddingInside (pkt : Packet) (payload payloadlen : Nat) :
    ((pkt.removePadding payload payloadlen).reads = [] ∨
        (0 < payloadlen ∧ (pkt.removePadding payload payloadlen).reads = [payload + (payloadlen - 1)])) ∧
      ∃ left, (pkt.removePadding payload payloadlen).result = .ok left ∧ left ≤ payloadlen := by
  unfold Packet.removePadding
  split
  · next padded =>
    obtain ⟨-,positive⟩ := padded
    dsimp only [bind,Reading.bind,Packet.read]
    split
    · next short => exact ⟨.inr ⟨positive,rfl⟩,_,rfl,unsignedLe payloadlen (by omega) (by omega)⟩
    · exact ⟨.inr ⟨positive,rfl⟩,_,rfl,Nat.le_refl payloadlen⟩
  · exact ⟨.inl rfl,_,rfl,Nat.le_refl payloadlen⟩

theorem setPayloadInside (pkt : Packet) (decHdr : DecHdr) (offset : Nat) :
    Inside pkt (pkt.setPayload decHdr offset) := by
  unfold Packet.setPayload
  split
  · exact ⟨fun i inside => (by cases inside),fun _ failed => (by cases failed)⟩
  · next room =>
    obtain ⟨reads,left,result,shorter⟩ :=
      removePaddingInside pkt offset (unsigned ((pkt.bytes.length : Int) - offset))
    have bound : unsigned ((pkt.bytes.length : Int) - offset) ≤ pkt.bytes.length - offset :=
      unsignedLe (pkt.bytes.length - offset) (by omega) (by omega)
    dsimp only [bind,Reading.bind]
    rw [result]
    refine ⟨fun i inside => ?_,fun final done => ?_⟩
    · have inside : i ∈ (pkt.removePadding offset (unsigned ((pkt.bytes.length : Int) - offset))).reads := by
        rcases List.mem_append.mp inside with first | later
        · exact first
        · cases later
      rcases reads with none_ | ⟨positive,one⟩
      · rw [none_] at inside
        cases inside
      · rw [one,List.mem_singleton] at inside
        omega
    · cases done
      exact ⟨show offset ≤ pkt.bytes.length by omega,show offset + left ≤ pkt.bytes.length by omega⟩

theorem decodeRtp2Ways (pkt : Packet) : (pkt.v ≠ rtpVersion → pkt.decodeRtp2 = ⟨.error .einver,[0]⟩) ∧
      (pkt.v = rtpVersion → pkt.x = false → ∃ decHdr,
        pkt.decodeRtp2.result = (pkt.setPayload decHdr (sizeofHdr + pkt.cc * 4)).result ∧
        pkt.decodeRtp2.reads = 0 :: (pkt.setPayload decHdr (sizeofHdr + pkt.cc * 4)).reads) ∧
      (pkt.v = rtpVersion → pkt.x = true → ∃ decHdr offset, sizeofHdr + pkt.cc * 4 + sizeofExtHdr ≤ offset ∧
        pkt.decodeRtp2.result = (pkt.setPayload decHdr offset).result ∧ pkt.decodeRtp2.reads =
          [0,sizeofHdr + pkt.cc * 4 + 2,sizeofHdr + pkt.cc * 4 + 3] ++ (pkt.setPayload decHdr offset).reads) := by
  refine ⟨fun other => ?_,fun same plain => ?_,fun same extended => ?_⟩
  · unfold Packet.decodeRtp2
    rw [if_pos other]
    rfl
  · unfold Packet.decodeRtp2
    rw [if_neg (not_not.mpr same),plain]
    exact ⟨_,rfl,rfl⟩
  · unfold Packet.decodeRtp2
    rw [if_neg (not_not.mpr same),extended]
    refine ⟨_,_,?_,rfl,rfl⟩
    simp only [sizeofExtHdr]
    omega

/- For a packet with a whole fixed header: the decoder stays inside exactly where it does not look for the length
of an extension that the packet is too short for. -/
theorem decodeRtp2Inside (pkt : Packet) (whole : 12 ≤ pkt.bytes.length) :
    Inside pkt pkt.decodeRtp2 ↔
      pkt.v ≠ rtpVersion ∨ pkt.x = false ∨ sizeofHdr + pkt.cc * 4 + sizeofExtHdr ≤ pkt.bytes.length := by
  obtain ⟨refused,plain,extended⟩ := decodeRtp2Ways pkt
  by_cases same : pkt.v = rtpVersion
  · cases ext : pkt.x
    · obtain ⟨decHdr,result,reads⟩ := plain same ext
      obtain ⟨inside,payload⟩ := setPayloadInside pkt decHdr (sizeofHdr + pkt.cc * 4)
      refine ⟨fun _ => .inr (.inl rfl),fun _ => ⟨fun i read => ?_,fun decoded done => ?_⟩⟩
      · rw [reads] at read
        rcases List.mem_cons.mp read with rfl | later
        · omega
        · exact inside i later
      · exact payload decoded (result.symm.trans done)
    · obtain ⟨decHdr,offset,far,result,reads⟩ := extended same ext
      obtain ⟨inside,payload⟩ := setPayloadInside pkt decHdr offset
      constructor
      · intro within
        have last := within.reads (sizeofHdr + pkt.cc * 4 + 3) (by rw [reads]; simp)
        exact .inr (.inr (by unfold sizeofExtHdr; omega))
      · intro room
        have room : sizeofHdr + pkt.cc * 4 + sizeofExtHdr ≤ pkt.bytes.length := by
          rcases room with other | none_ | room
          · exact absurd same other
          · cases none_
          · exact room
        unfold sizeofExtHdr at room
        refine ⟨fun i read => ?_,fun decoded done => payload decoded (result.symm.trans done)⟩
        rw [reads] at read
        rcases List.mem_append.mp read with header | later
        · simp only [List.mem_cons,List.not_mem_nil,or_false] at header
          omega
        · exact inside i later
  · refine ⟨fun _ => .inl same,fun _ => ?_⟩
    rw [refused same]
    refine ⟨fun i read => ?_,fun decoded done => (by cases done)⟩
    rw [List.mem_singleton.mp read]
    omega

/- A packet with an extension and padding. -/
def paddedPacket : Packet :=
  ⟨[0xb0,0,0,1,0,0,0,0,0,0,0,1,0,0,0,1,9,9,9,9,7,7,0,2],fun _ => 0⟩

theorem paddedPacketInside : Inside paddedPacket paddedPacket.decodeRtp2 :=
  (decodeRtp2Inside paddedPacket (by decide)).mpr (.inr (.inr (by decide)))

example : paddedPacket.decodeRtp2.result = .ok ⟨⟨some 12,some 16,1⟩,20,2⟩ := rfl

/- A bare header that announces an extension: the length is taken from behind the packet. -/
theorem bareHeaderLeaves :
    ¬ Inside ⟨[0x90,0,0,1,0,0,0,0,0,0,0,1],fun _ => 0⟩
      (Packet.decodeRtp2 ⟨[0x90,0,0,1,0,0,0,0,0,0,0,1],fun _ => 0⟩) := by
  intro inside
  exact absurd (inside.reads 14 (by decide)) (by decide)

end Pjproject.Rtp
