import Pjproject.Rtcp

/-! RTCP feedback: the builders of rtcp_fb.c write from the start of the buffer on, without a gap; the parsers read the
memory that begins with what was built. NACK and SLI are lists of items of four bytes. -/
namespace Pjproject.Rtcp
open Lib.Bytes

/- The common header of a session's packets: version, padding flag and count in one byte, and the SSRC. -/
structure Common where
  first : UInt8
  ssrc : UInt32

/- What was reported as the length, and what was written. -/
structure Built where
  length : UInt32
  bytes : List UInt8

def header (common : Common) (pt count : UInt8) (len : UInt32) : List UInt8 :=
  [(common.first &&& 0xE0) ||| count,pt] ++ be16 (len / 4 - 1).toUInt16 ++ be32 common.ssrc

section Items
variable {α : Type}

/- A refusal is none; an empty list is refused by an assertion. -/
def buildItems (pt count : UInt8) (fci : α → List UInt8) (common : Common) (length : UInt64) (cnt : UInt32) (items : Nat → α) :
    Option Built :=
  if cnt = 0 then none
  else
    let len := (3 + cnt) * 4
    if length < len.toUInt64 then none
    else some ⟨len,header common pt count len ++ (List.range cnt.toNat).flatMap fun i => fci (items i)⟩

def readItems (item : Memory → Nat → Rx α) (pkt : Memory) : Nat → Nat → Rx (List α)
  | 0, _ => return []
  | n + 1, p => do
    let found ← item pkt p
    let rest ← readItems item pkt n (p + 4)
    return found :: rest

def parseItems (pt count : UInt8) (item : Memory → Nat → Rx α) (pkt : Memory) (length : Nat) (room : UInt32) :
    Rx (Status × List α) :=
  if length < 8 then return (.etoosmall, [])
  else do
    let pt' ← ptAt pkt 0
    let count' ← countAt pkt 0
    if pt' ≠ pt ∨ count' ≠ count then return (.enotfound, [])
    else
      let words ← lengthAt pkt 0
      let cnt : UInt32 := words.toUInt32 - 2
      if length < ((cnt + 3) * 4).toNat then return (.etoosmall, [])
      else
        let found ← readItems item pkt (min room cnt).toNat 8
        return (.success, found)

end Items

/- pjmedia_rtcp_fb_nack. -/
structure NackItem where
  pid : Int32
  blp : UInt16
  deriving DecidableEq

def NackItem.fci (nack : NackItem) : List UInt8 := be16 nack.pid.toUInt32.toUInt16 ++ be16 nack.blp

def readNack (pkt : Memory) (p : Nat) : Rx NackItem := do
  let pid ← read16 pkt p
  let blp ← read16 pkt (p + 2)
  return ⟨pid.toUInt32.toInt32,blp⟩

def buildNack : Common → UInt64 → UInt32 → (Nat → NackItem) → Option Built := buildItems rtpfb 1 NackItem.fci

def parseNackItems : Memory → Nat → UInt32 → Rx (Status × List NackItem) := parseItems rtpfb 1 readNack

/- pjmedia_rtcp_fb_sli. -/
structure SliItem where
  first : UInt16
  number : UInt16
  pictId : UInt8
  deriving DecidableEq

def SliItem.fci (sli : SliItem) : List UInt8 :=
  [((sli.first >>> 5) &&& 0xFF).toUInt8,((sli.first &&& 31) <<< 3).toUInt8 ||| ((sli.number >>> 10) &&& 7).toUInt8,
    ((sli.number >>> 2) &&& 0xFF).toUInt8,((sli.number &&& 3) <<< 6).toUInt8 ||| (sli.pictId &&& 63)]

def readSli (pkt : Memory) (p : Nat) : Rx SliItem := do
  let p0 ← readByte pkt p
  let p1 ← readByte pkt (p + 1)
  let p2 ← readByte pkt (p + 2)
  let p3 ← readByte pkt (p + 3)
  return ⟨(p0.toUInt16 <<< 5) + ((p1 &&& 0xF8) >>> 3).toUInt16,
    ((p1 &&& 0x07).toUInt16 <<< 10) + (p2.toUInt16 <<< 2) + ((p3 &&& 0xC0) >>> 6).toUInt16,p3 &&& 0x3F⟩

def buildSli : Common → UInt64 → UInt32 → (Nat → SliItem) → Option Built := buildItems psfb 2 SliItem.fci

def parseSli : Memory → Nat → UInt32 → Rx (Status × List SliItem) := parseItems psfb 2 readSli

/- pjmedia_rtcp_fb_rpsi; the bit string is what its pointer points to. -/
structure Rpsi where
  pt : UInt8
  rpsi : Memory
  bitLen : UInt64

def Rpsi.padlen (rpsi : Rpsi) : UInt32 := (32 - (rpsi.bitLen.toUInt32 + 16) % 32) % 32

def Rpsi.fci (rpsi : Rpsi) : List UInt8 :=
  [rpsi.padlen.toUInt8,rpsi.pt &&& 0x7F] ++ slice rpsi.rpsi 0 (rpsi.bitLen / 8).toNat ++
    (if rpsi.bitLen % 8 ≠ 0 then [rpsi.rpsi (rpsi.bitLen / 8).toNat] else []) ++
    (if 8 ≤ rpsi.padlen then List.replicate (rpsi.padlen / 8).toNat 0 else [])

def buildRpsi (common : Common) (length : UInt64) (rpsi : Rpsi) : Option Built :=
  let bitlen := rpsi.bitLen.toUInt32 + 16
  let len := (3 + (bitlen + rpsi.padlen) / 32) * 4
  if length < len.toUInt64 then none else some ⟨len,header common psfb 3 len ++ rpsi.fci⟩

/- The bit string stays in the packet, from an offset on. -/
structure RpsiFound where
  pt : UInt8
  offset : Nat
  bitLen : UInt64

/- The difference of the length field is an int, which becomes a pj_size_t. -/
def parseRpsi (pkt : Memory) (length : UInt64) : Rx (Status × Option RpsiFound) :=
  if length < 8 then return (.etoosmall, none)
  else do
    let pt' ← ptAt pkt 0
    let count' ← countAt pkt 0
    if pt' ≠ psfb ∨ count' ≠ 3 then return (.enotfound, none)
    else
      let words ← lengthAt pkt 0
      let rpsiLen : UInt64 := (words.toUInt64 - 2) * 4
      if length < rpsiLen + 12 then return (.etoosmall, none)
      else
        let padlen ← readByte pkt 8
        let pt ← readByte pkt 9
        return (.success, some ⟨pt &&& 0x7F,10,rpsiLen * 8 - 16 - padlen.toUInt64⟩)

section Reading
variable {α : Type} {item : Memory → Nat → Rx α} {pkt : Memory}

variable {found : List α}

theorem readItemsCons (n p : Nat) (ok : (readItems item pkt (n + 1) p).result = .ok found) :
    ∃ first rest, (item pkt p).result = .ok first ∧ (readItems item pkt n (p + 4)).result = .ok rest ∧ found = first :: rest := by
  unfold readItems at ok
  cases head : (item pkt p).result with
  | error =>
    rw [bindError head] at ok
    cases ok
  | ok first =>
    rw [bindOk head] at ok
    cases tail : (readItems item pkt n (p + 4)).result with
    | error =>
      dsimp only at ok
      rw [bindError tail] at ok
      cases ok
    | ok rest =>
      dsimp only at ok
      rw [bindOk tail] at ok
      cases ok
      exact ⟨first,rest,rfl,rfl,rfl⟩

theorem readItemsLength {n p : Nat} (ok : (readItems item pkt n p).result = .ok found) : found.length = n := by
  induction n generalizing p found with
  | zero =>
    cases ok
    rfl
  | succ n ih =>
    obtain ⟨first,rest,_,tail,rfl⟩ := readItemsCons n p ok
    rw [List.length_cons,ih tail]

def fieldAt (pkt : Memory) : UInt16 := word16 (pkt 2) (pkt 3)

theorem headerResult {β : Type} (pkt : Memory) (f : UInt8 → UInt8 → Rx β) :
    (do
      let pt ← ptAt pkt 0
      let count ← countAt pkt 0
      f pt count).result = (f (pkt 1) (pkt 0 &&& 0x1F)).result := by rfl

theorem lengthResult {β : Type} (pkt : Memory) (f : UInt16 → Rx β) : (lengthAt pkt 0 >>= f).result = (f (fieldAt pkt)).result := by rfl

theorem parseItemsResult (pt count : UInt8) (length : Nat) (room : UInt32) :
    (parseItems pt count item pkt length room).result = if length < 8 then .ok (.etoosmall, [])
      else if pkt 1 ≠ pt ∨ pkt 0 &&& 0x1F ≠ count then .ok (.enotfound, [])
      else if length < (((fieldAt pkt).toUInt32 - 2 + 3) * 4).toNat then .ok (.etoosmall, [])
      else (readItems item pkt (min room ((fieldAt pkt).toUInt32 - 2)).toNat 8).result.map (Status.success, ·) := by
  unfold parseItems
  split
  · rfl
  · rw [headerResult]
    split
    · rfl
    · rw [lengthResult]
      dsimp only
      split
      · rfl
      · cases found : (readItems item pkt (min room ((fieldAt pkt).toUInt32 - 2)).toNat 8).result with
        | error =>
          rw [bindError found]
          rfl
        | ok =>
          rw [bindOk found]
          rfl

theorem parsedItems {pt count : UInt8} {length : Nat} {room : UInt32}
    (ok : (parseItems pt count item pkt length room).result = .ok (.success, found)) :
    8 ≤ length ∧ (readItems item pkt (min room ((fieldAt pkt).toUInt32 - 2)).toNat 8).result = .ok found := by
  rw [parseItemsResult] at ok
  split at ok
  · cases ok
  · next enough =>
    split at ok
    · cases ok
    · split at ok
      · cases ok
      · refine ⟨Nat.le_of_not_lt enough,?_⟩
        cases result : (readItems item pkt (min room ((fieldAt pkt).toUInt32 - 2)).toNat 8).result with
        | error =>
          rw [result] at ok
          cases ok
        | ok =>
          rw [result] at ok
          cases ok
          rfl

end Reading

section Lists
variable {α : Type} {pt count : UInt8} {fci : α → List UInt8} {item : Memory → Nat → Rx α} {common : Common}
  {length : UInt64}
  {cnt : UInt32} {items : Nat → α} {built : Built}

/- What is asked of a feedback packet with items: all of it written, its length field, and the same items for every memory
that begins with it. -/
structure Rereads (parse : Memory → Nat → UInt32 → Rx (Status × List α)) (built : Built) (cnt : UInt32) (items : Nat → α) : Prop where
  written : built.length.toNat ≤ built.bytes.length
  counted : ((word16 (built.bytes.getD 2 0) (built.bytes.getD 3 0)).toNat + 1) * 4 = built.length.toNat
  same : ∀ m, Holds m 0 (built.bytes.take built.length.toNat) →
    (parse m built.length.toNat cnt).result = .ok (.success, (List.range cnt.toNat).map items)

theorem headerLength (common : Common) (pt count : UInt8) (len : UInt32) : (header common pt count len).length = 8 := by rfl

theorem fciLength (four : ∀ a, (fci a).length = 4) (n : Nat) : ((List.range n).flatMap fun i => fci (items i)).length = 4 * n := by
  induction n with
  | zero => rfl
  | succ n ih =>
    rw [List.range_succ,List.flatMap_append,List.length_append,ih,List.flatMap_cons,List.flatMap_nil,List.append_nil,four]
    exact (Nat.mul_succ 4 n).symm

theorem builtItems (ok : buildItems pt count fci common length cnt items = some built) :
    cnt ≠ 0 ∧ ¬length < ((3 + cnt) * 4).toUInt64 ∧
      built = ⟨(3 + cnt) * 4,header common pt count ((3 + cnt) * 4) ++ (List.range cnt.toNat).flatMap fun i => fci (items i)⟩ := by
  unfold buildItems at ok
  split at ok
  · cases ok
  · next some =>
    dsimp only at ok
    split at ok
    · cases ok
    · next room =>
      cases ok
      exact ⟨some,room,rfl⟩

theorem holdsGet {m : Memory} {pos k : Nat} {bytes : List UInt8} {b : UInt8} (holds : Holds m pos bytes) (here : bytes[k]? = some b) :
    m (pos + k) = b := by
  induction bytes generalizing pos k with
  | nil => cases here
  | cons b' bytes ih =>
    obtain ⟨head,tail⟩ := holds
    cases k with
    | zero =>
      cases here
      exact head
    | succ k =>
      rw [show pos + (k + 1) = pos + 1 + k by omega]
      exact ih tail here

theorem fieldBuilt {bytes : List UInt8} {m : Memory} {len : Nat} (holds : Holds m 0 (bytes.take len)) (some : 4 ≤ len)
    (enough : 4 ≤ bytes.length) : fieldAt m = word16 (bytes.getD 2 0) (bytes.getD 3 0) := by
  have read : ∀ k, k < 4 → m (0 + k) = bytes.getD k 0 := by
    intro k less
    refine holdsGet holds ?_
    rw [List.getElem?_take_of_lt (by omega),List.getD_eq_getElem _ _ (by omega),List.getElem?_eq_getElem]
  exact congrArg₂ word16 (read 2 (by decide)) (read 3 (by decide))

/- The length takes four bytes more than the header and the items; and where it wraps, the length field cannot be right with so
many items, unless they are read from behind the packet. -/
theorem itemsNever (four : ∀ a, (fci a).length = 4)
    (reads : ∀ base : Memory, ∃ m m' : Memory, (∀ i < 8, m i = base i) ∧ (∀ i < 8, m' i = base i) ∧ (item m 8).result ≠ (item m' 8).result)
    (ok : buildItems pt count fci common length cnt items = some built) : ¬Rereads (parseItems pt count item) built cnt items := by
  obtain ⟨some,_,rfl⟩ := builtItems ok
  rintro ⟨written,counted,same⟩
  have size : (header common pt count ((3 + cnt) * 4) ++ (List.range cnt.toNat).flatMap fun i => fci (items i)).length =
      8 + 4 * cnt.toNat := by
    rw [List.length_append,headerLength,fciLength four]
  have len : ((3 + cnt) * 4).toNat = (12 + 4 * cnt.toNat) % 2 ^ 32 := by
    simp only [UInt32.toNat_mul,UInt32.toNat_add,UInt32.reduceToNat]
    omega
  dsimp only at written counted same
  generalize header common pt count ((3 + cnt) * 4) ++ (List.range cnt.toNat).flatMap (fun i => fci (items i)) = bytes at *
  generalize (3 + cnt) * 4 = length at *
  have positive : 0 < cnt.toNat := by
    refine Nat.pos_of_ne_zero fun none => some (UInt32.toNat_inj.mp none)
  have bound := cnt.toNat_lt
  have wraps : 2 ^ 32 ≤ 12 + 4 * cnt.toNat := by omega
  generalize fieldIs : word16 (bytes.getD 2 0) (bytes.getD 3 0) = field at counted
  have parsed : ∀ m, Holds m 0 (bytes.take length.toNat) → 8 ≤ length.toNat ∧
      (readItems item m (min cnt (field.toUInt32 - 2)).toNat 8).result = .ok ((List.range cnt.toNat).map items) := by
    intro m holds
    have result := parsedItems (same m holds)
    rwa [fieldBuilt holds (by omega) (by omega),fieldIs] at result
  have start := holdsWrite (fun _ => 0) 0 (bytes.take length.toNat)
  obtain ⟨enough,found⟩ := parsed _ start
  have read := readItemsLength found
  rw [List.length_map,List.length_range] at read
  have most : (min cnt (field.toUInt32 - 2)).toNat ≤ (field.toUInt32 - 2).toNat := by
    change (if cnt ≤ field.toUInt32 - 2 then cnt else field.toUInt32 - 2).toNat ≤ _
    split
    next less => exact UInt32.le_iff_toNat_le.mp less
    next => exact Nat.le_refl _
  have sub : (field.toUInt32 - 2).toNat = (field.toNat + (2 ^ 32 - 2)) % 2 ^ 32 := by
    simp only [UInt32.toNat_sub,UInt16.toNat_toUInt32,UInt32.reduceToNat]
    omega
  have fieldBound := field.toNat_lt
  have one : field.toNat = 1 := by omega
  have short : length.toNat = 8 := by omega
  obtain ⟨n,many⟩ := Nat.exists_eq_succ_of_ne_zero (Nat.ne_of_gt positive)
  have first : ∀ m, (∀ i < 8, m i = write (fun _ => 0) 0 (bytes.take length.toNat) i) → (item m 8).result = .ok (items 0) := by
    intro m alike
    have front : (bytes.take length.toNat).length ≤ 8 := by
      rw [List.length_take]
      omega
    have holds : Holds m 0 (bytes.take length.toNat) := start.congr fun i _ less => alike i (by omega)
    have result := (parsed m holds).2
    rw [← read,many] at result
    obtain ⟨first,rest,head,_,same⟩ := readItemsCons n 8 result
    rw [List.range_succ_eq_map,List.map_cons] at same
    cases same
    exact head
  obtain ⟨m,m',alike,alike',differ⟩ := reads (write (fun _ => 0) 0 (bytes.take length.toNat))
  exact differ ((first m alike).trans (first m' alike').symm)

theorem itemsExactly (four : ∀ a, (fci a).length = 4)
    (reads : ∀ base : Memory, ∃ m m' : Memory, (∀ i < 8, m i = base i) ∧ (∀ i < 8, m' i = base i) ∧ (item m 8).result ≠ (item m' 8).result)
    (common : Common) (length : UInt64) (cnt : UInt32) (items : Nat → α) :
    (∀ built, buildItems pt count fci common length cnt items = some built → Rereads (parseItems pt count item) built cnt items) ↔
      cnt = 0 ∨ length < ((3 + cnt) * 4).toUInt64 := by
  constructor
  · intro right
    by_contra builds
    obtain ⟨some,room⟩ := not_or.mp builds
    have ok : buildItems pt count fci common length cnt items = .some ⟨(3 + cnt) * 4,header common pt count ((3 + cnt) * 4) ++
        (List.range cnt.toNat).flatMap fun i => fci (items i)⟩ := by
      unfold buildItems
      rw [if_neg some]
      exact if_neg room
    exact itemsNever four reads ok (right _ ok)
  · intro refused built ok
    obtain ⟨some,room,_⟩ := builtItems ok
    exact absurd refused (not_or.mpr ⟨some,room⟩)

end Lists

section Readers

theorem nackFour (nack : NackItem) : nack.fci.length = 4 := by rfl

theorem sliFour (sli : SliItem) : sli.fci.length = 4 := by rfl

theorem nackResult (m : Memory) (p : Nat) : (readNack m p).result =
    .ok ⟨(word16 (m p) (m (p + 1))).toUInt32.toInt32,word16 (m (p + 2)) (m (p + 3))⟩ := by rfl

def sliOf (p0 p1 p2 p3 : UInt8) : SliItem :=
  ⟨(p0.toUInt16 <<< 5) + ((p1 &&& 0xF8) >>> 3).toUInt16,
    ((p1 &&& 0x07).toUInt16 <<< 10) + (p2.toUInt16 <<< 2) + ((p3 &&& 0xC0) >>> 6).toUInt16,p3 &&& 0x3F⟩

theorem sliResult (m : Memory) (p : Nat) : (readSli m p).result = .ok (sliOf (m p) (m (p + 1)) (m (p + 2)) (m (p + 3))) := by rfl

/- A memory with the last byte of an item changed, behind the header. -/
def changed (base : Memory) (b : UInt8) : Memory := fun i => if i < 8 then base i else if i = 11 then b else 0

theorem changedAlike (base : Memory) (b : UInt8) : ∀ i < 8, changed base b i = base i := fun _ less => if_pos less

theorem nackReads (base : Memory) : ∃ m m' : Memory, (∀ i < 8, m i = base i) ∧ (∀ i < 8, m' i = base i) ∧
    (readNack m 8).result ≠ (readNack m' 8).result := by
  refine ⟨_,_,changedAlike base 0,changedAlike base 1,?_⟩
  rw [nackResult,nackResult]
  intro same
  injection same with same
  injection same with _ blp
  exact absurd blp (by decide : word16 0 0 ≠ word16 0 1)

theorem sliReads (base : Memory) : ∃ m m' : Memory, (∀ i < 8, m i = base i) ∧ (∀ i < 8, m' i = base i) ∧
    (readSli m 8).result ≠ (readSli m' 8).result := by
  refine ⟨_,_,changedAlike base 0,changedAlike base 1,?_⟩
  rw [sliResult,sliResult]
  intro same
  injection same with same
  exact absurd same (by decide : sliOf 0 0 0 0 ≠ sliOf 0 0 0 1)

end Readers

section Pictures
variable {common : Common} {length : UInt64} {rpsi : Rpsi} {built : Built}

/- What is asked of a picture selection: the same payload type and the same bytes of the bit string. -/
structure RereadsRpsi (built : Built) (rpsi : Rpsi) : Prop where
  written : built.length.toNat ≤ built.bytes.length
  counted : ((word16 (built.bytes.getD 2 0) (built.bytes.getD 3 0)).toNat + 1) * 4 = built.length.toNat
  same : ∀ m, Holds m 0 (built.bytes.take built.length.toNat) → ∃ offset,
    (parseRpsi m built.length.toUInt64).result = .ok (.success, some ⟨rpsi.pt,offset,rpsi.bitLen⟩) ∧
      ∀ i < (rpsi.bitLen.toNat + 7) / 8, m (offset + i) = rpsi.rpsi i

theorem parsedRpsi {m : Memory} {found : RpsiFound} (ok : (parseRpsi m length).result = .ok (.success, some found)) :
    found.offset = 10 ∧ found.bitLen = ((fieldAt m).toUInt64 - 2) * 4 * 8 - 16 - (m 8).toUInt64 := by
  unfold parseRpsi at ok
  split at ok
  · cases ok
  · rw [headerResult] at ok
    split at ok
    · cases ok
    · rw [lengthResult] at ok
      dsimp only at ok
      split at ok
      · cases ok
      · cases ok
        exact ⟨rfl,rfl⟩

theorem builtRpsi (ok : buildRpsi common length rpsi = some built) :
    let len := (3 + (rpsi.bitLen.toUInt32 + 16 + rpsi.padlen) / 32) * 4
    ¬length < len.toUInt64 ∧ built = ⟨len,header common psfb 3 len ++ rpsi.fci⟩ := by
  unfold buildRpsi at ok
  dsimp only at ok
  split at ok
  · cases ok
  · next room =>
    cases ok
    exact ⟨room,rfl⟩

theorem padlenIs (rpsi : Rpsi) : rpsi.padlen.toNat = (32 - (rpsi.bitLen.toNat + 16) % 2 ^ 32 % 32) % 32 := by
  unfold Rpsi.padlen
  simp only [UInt32.toNat_mod,UInt32.toNat_sub,UInt32.toNat_add,UInt64.toNat_toUInt32,UInt32.reduceToNat]
  omega

theorem rpsiLength (rpsi : Rpsi) : ((3 + (rpsi.bitLen.toUInt32 + 16 + rpsi.padlen) / 32) * 4).toNat =
    12 + (rpsi.bitLen.toNat + 16 + rpsi.padlen.toNat) % 2 ^ 32 / 32 * 4 := by
  have pad := padlenIs rpsi
  simp only [UInt32.toNat_mul,UInt32.toNat_add,UInt32.toNat_div,UInt64.toNat_toUInt32,UInt32.reduceToNat]
  omega

theorem rpsiFciLength (rpsi : Rpsi) : rpsi.fci.length * 8 = rpsi.bitLen.toNat + 16 + rpsi.padlen.toNat := by
  have pad := padlenIs rpsi
  have whole : (rpsi.bitLen / 8).toNat = rpsi.bitLen.toNat / 8 := UInt64.toNat_div _ _
  have zeros : (rpsi.padlen / 8).toNat = rpsi.padlen.toNat / 8 := UInt32.toNat_div _ _
  have last : rpsi.bitLen % 8 ≠ 0 ↔ rpsi.bitLen.toNat % 8 ≠ 0 := by
    rw [not_iff_not,← UInt64.toNat_inj,UInt64.toNat_mod]
    rfl
  have many : 8 ≤ rpsi.padlen ↔ 8 ≤ rpsi.padlen.toNat := UInt32.le_iff_toNat_le
  unfold Rpsi.fci
  simp only [List.length_append,List.length_cons,List.length_nil,sliceLength,whole,last,many]
  split <;> split <;> simp only [List.length_cons,List.length_nil,List.length_replicate,zeros] <;> omega

theorem rpsiNever (ok : buildRpsi common length rpsi = some built) : ¬RereadsRpsi built rpsi := by
  obtain ⟨_,rfl⟩ := builtRpsi ok
  rintro ⟨written,counted,same⟩
  have len := rpsiLength rpsi
  have pad := padlenIs rpsi
  dsimp only at written counted same
  have eighth : (header common psfb 3 ((3 + (rpsi.bitLen.toUInt32 + 16 + rpsi.padlen) / 32) * 4) ++ rpsi.fci)[8]? =
      some rpsi.padlen.toUInt8 := by rfl
  rw [List.length_append,headerLength] at written
  have enough : 4 ≤ (header common psfb 3 ((3 + (rpsi.bitLen.toUInt32 + 16 + rpsi.padlen) / 32) * 4) ++ rpsi.fci).length := by
    rw [List.length_append,headerLength]
    omega
  generalize header common psfb 3 ((3 + (rpsi.bitLen.toUInt32 + 16 + rpsi.padlen) / 32) * 4) ++ rpsi.fci = bytes at *
  generalize (3 + (rpsi.bitLen.toUInt32 + 16 + rpsi.padlen) / 32) * 4 = length at *
  generalize fieldIs : word16 (bytes.getD 2 0) (bytes.getD 3 0) = field at counted
  have fci := rpsiFciLength rpsi
  have wide := rpsi.bitLen.toNat_lt
  have found : ∀ m, Holds m 0 (bytes.take length.toNat) →
      rpsi.bitLen = (field.toUInt64 - 2) * 4 * 8 - 16 - rpsi.padlen.toUInt8.toUInt64 ∧
        ∀ i < (rpsi.bitLen.toNat + 7) / 8, m (10 + i) = rpsi.rpsi i := by
    intro m holds
    obtain ⟨offset,parsed,bits⟩ := same m holds
    obtain ⟨rfl,bitLen⟩ := parsedRpsi parsed
    have padByte : m 8 = rpsi.padlen.toUInt8 := by
      have inside : (bytes.take length.toNat)[8]? = some rpsi.padlen.toUInt8 := by
        rw [List.getElem?_take_of_lt (by omega),eighth]
      have read := holdsGet holds inside
      rwa [Nat.zero_add] at read
    rw [fieldBuilt holds (by omega) enough,fieldIs,padByte] at bitLen
    exact ⟨bitLen,bits⟩
  have bitLen := congrArg UInt64.toNat (found _ (holdsWrite (fun _ => 0) 0 _)).1
  simp only [UInt64.toNat_sub,UInt64.toNat_mul,UInt16.toNat_toUInt64,UInt8.toNat_toUInt64,UInt32.toNat_toUInt8,
    UInt64.reduceToNat] at bitLen
  by_cases small : rpsi.bitLen.toNat + 16 + rpsi.padlen.toNat < 2 ^ 32
  · omega
  · -- a bit string that is so long begins behind the packet
    have short : length.toNat ≤ 16 ∧ 64 ≤ rpsi.bitLen.toNat := by omega
    have zero := (found _ (holdsWrite (fun _ => 0) 0 _)).2 6 (by omega)
    have one := (found _ (holdsWrite (fun _ => 1) 0 _)).2 6 (by omega)
    have front : 0 + (bytes.take length.toNat).length ≤ 10 + 6 := by
      rw [List.length_take]
      omega
    rw [writeAfter front] at zero one
    exact absurd (zero.trans one.symm) (by decide)

theorem rpsiExactly (common : Common) (length : UInt64) (rpsi : Rpsi) :
    (∀ built, buildRpsi common length rpsi = some built → RereadsRpsi built rpsi) ↔
      length < ((3 + (rpsi.bitLen.toUInt32 + 16 + rpsi.padlen) / 32) * 4).toUInt64 := by
  constructor
  · intro right
    by_contra room
    have ok : buildRpsi common length rpsi = some ⟨_,header common psfb 3 _ ++ rpsi.fci⟩ := if_neg room
    exact rpsiNever ok (right _ ok)
  · intro refused built ok
    exact absurd refused (builtRpsi ok).1

end Pictures

/- The parser of the walk over a compound packet is this one for NACK, with its entries as they stand in the packet. -/
theorem parseNackIs (pkt : Memory) (length : Nat) (room : UInt32) : (parseNackItems pkt length room).result =
    (parseNack pkt 0 length room).result.map fun found =>
      (found.1, found.2.map fun nack => ⟨nack.pid.toUInt32.toInt32,nack.blp⟩) := by
  have items : ∀ n p, (readItems readNack pkt n p).result =
      (nacks pkt n p).result.map (List.map fun nack => ⟨nack.pid.toUInt32.toInt32,nack.blp⟩) := by
    intro n
    induction n with
    | zero => exact fun p => rfl
    | succ n ih =>
      intro p
      have tail := ih (p + 4)
      rw [readItems,bindOk (nackResult pkt p),nacks,read16Result,read16Result]
      dsimp only
      cases rest : (nacks pkt n (p + 4)).result with
      | error =>
        rw [rest] at tail
        rw [bindError tail,bindError rest]
        rfl
      | ok =>
        rw [rest] at tail
        rw [bindOk tail,bindOk rest]
        rfl
  unfold parseNackItems parseNack
  rw [parseItemsResult]
  split
  · rfl
  · rw [headerResult]
    split
    · rfl
    · rw [lengthResult]
      dsimp only
      split
      · rfl
      · rw [items]
        change ((nacks pkt (min room ((fieldAt pkt).toUInt32 - 2)).toNat (0 + 8)).result.map _).map _ = _
        cases rest : (nacks pkt (min room ((fieldAt pkt).toUInt32 - 2)).toNat (0 + 8)).result with
        | error =>
          rw [bindError rest]
          rfl
        | ok =>
          rw [bindOk rest]
          rfl

/- What does come back, from a memory that holds what was written: the items, where their fields and their number fit. -/
section Rereading
variable {α : Type} {pt count : UInt8} {fci : α → List UInt8} {item : Memory → Nat → Rx α}

variable {m : Memory} {p : Nat}

theorem readItemsBack {items : List α} (holds : Holds m p (items.flatMap fci))
    (four : ∀ a, (fci a).length = 4) (back : ∀ a ∈ items, ∀ p, Holds m p (fci a) → (item m p).result = .ok a) :
    (readItems item m items.length p).result = .ok items := by
  induction items generalizing p with
  | nil => rfl
  | cons a items ih =>
    rw [List.flatMap_cons,holdsAppend,four] at holds
    have head := back a List.mem_cons_self p holds.1
    have tail := ih holds.2 fun a member => back a (List.mem_cons_of_mem _ member)
    rw [List.length_cons,readItems,bindOk head]
    dsimp only
    rw [bindOk tail]
    rfl

theorem itemsReread {common : Common} {length : UInt64} {cnt : UInt32} {items : Nat → α} {built : Built}
    (ok : buildItems pt count fci common length cnt items = some built) (few : cnt.toNat + 2 < 2 ^ 16)
    (four : ∀ a, (fci a).length = 4) (kept : ((common.first &&& 0xE0) ||| count) &&& 0x1F = count)
    (back : ∀ i < cnt.toNat, ∀ p, Holds m p (fci (items i)) → (item m p).result = .ok (items i)) (holds : Holds m 0 built.bytes) :
    (parseItems pt count item m built.length.toNat cnt).result = .ok (.success, (List.range cnt.toNat).map items) := by
  obtain ⟨_,_,rfl⟩ := builtItems ok
  have len : ((3 + cnt) * 4).toNat = 12 + 4 * cnt.toNat := by
    simp only [UInt32.toNat_mul,UInt32.toNat_add,UInt32.reduceToNat]
    omega
  dsimp only at holds ⊢
  rw [holdsAppend,headerLength,← List.flatMap_map items fci,Nat.zero_add] at holds
  obtain ⟨head,body⟩ := holds
  obtain ⟨first,second,third,fourth,_⟩ := head
  have fieldIs : fieldAt m = ((3 + cnt) * 4 / 4 - 1).toUInt16 := by
    unfold fieldAt
    rw [third,fourth]
    exact word16Bytes _
  have words : ((fieldAt m).toUInt32 - 2) = cnt := by
    rw [fieldIs]
    refine UInt32.toNat_inj.mp ?_
    simp only [UInt32.toNat_sub,UInt16.toNat_toUInt32,UInt32.toNat_toUInt16,UInt32.toNat_div,len,UInt32.reduceToNat]
    omega
  have least : min cnt cnt = cnt := ite_self _
  have enough : ¬((3 + cnt) * 4).toNat < ((cnt + 3) * 4).toNat := by
    rw [UInt32.add_comm]
    exact Nat.lt_irrefl _
  have read := readItemsBack body four fun a member p here => by
    obtain ⟨i,less,rfl⟩ := List.mem_map.mp member
    exact back i (List.mem_range.mp less) p here
  rw [List.length_map,List.length_range] at read
  rw [parseItemsResult,words,least,read,if_neg (by omega),if_neg,if_neg enough]
  · rfl
  · rintro (other | other)
    · exact other second
    · rw [first] at other
      exact other kept

theorem nackBack {nack : NackItem} (small : nack.pid.toUInt32.toNat < 2 ^ 16) (holds : Holds m p nack.fci) :
    (readNack m p).result = .ok nack := by
  unfold NackItem.fci at holds
  rw [holdsAppend] at holds
  have word : nack.pid.toUInt32.toUInt16.toUInt32 = nack.pid.toUInt32 := by
    refine UInt32.toNat_inj.mp ?_
    rw [UInt16.toNat_toUInt32,UInt32.toNat_toUInt16]
    exact Nat.mod_eq_of_lt small
  rw [nackResult,holdsBe16 holds.1,show word16 (m (p + 2)) (m (p + 3)) = nack.blp from holdsBe16 holds.2,word,
    Int32.toInt32_toUInt32]

theorem orParts {a b : UInt8} {k n : Nat} (high : a.toNat = n * 2 ^ k) (low : b.toNat < 2 ^ k) :
    (a ||| b).toNat = n * 2 ^ k + b.toNat := by
  rw [UInt8.toNat_or,high,← Nat.shiftLeft_eq,← Nat.shiftLeft_add_eq_or_of_lt low]

theorem maskLow (v k : Nat) : v &&& (2 ^ k - 1) = v % 2 ^ k := Nat.and_two_pow_sub_one_eq_mod v k

theorem sliBytes {sli : SliItem} (first : sli.first.toNat < 2 ^ 13) (number : sli.number.toNat < 2 ^ 13)
    (pictId : sli.pictId.toNat < 2 ^ 6) : sli.fci.map UInt8.toNat = [sli.first.toNat / 32,
      sli.first.toNat % 32 * 8 + sli.number.toNat / 1024,sli.number.toNat / 4 % 256,sli.number.toNat % 4 * 64 + sli.pictId.toNat] := by
  have first8 : ((sli.first >>> 5) &&& 0xFF).toUInt8.toNat = sli.first.toNat / 32 := by
    simp only [UInt16.toNat_toUInt8,UInt16.toNat_and,UInt16.toNat_shiftRight,UInt16.reduceToNat,Nat.reduceMod,Nat.shiftRight_eq_div_pow]
    rw [show (255 : Nat) = 2 ^ 8 - 1 from rfl,maskLow]
    omega
  have first5 : ((sli.first &&& 31) <<< 3).toUInt8.toNat = sli.first.toNat % 32 * 2 ^ 3 := by
    simp only [UInt16.toNat_toUInt8,UInt16.toNat_and,UInt16.toNat_shiftLeft,UInt16.reduceToNat,Nat.reduceMod,Nat.shiftLeft_eq]
    rw [show (31 : Nat) = 2 ^ 5 - 1 from rfl,maskLow]
    omega
  have number3 : ((sli.number >>> 10) &&& 7).toUInt8.toNat = sli.number.toNat / 1024 := by
    simp only [UInt16.toNat_toUInt8,UInt16.toNat_and,UInt16.toNat_shiftRight,UInt16.reduceToNat,Nat.reduceMod,Nat.shiftRight_eq_div_pow]
    rw [show (7 : Nat) = 2 ^ 3 - 1 from rfl,maskLow]
    omega
  have number8 : ((sli.number >>> 2) &&& 0xFF).toUInt8.toNat = sli.number.toNat / 4 % 256 := by
    simp only [UInt16.toNat_toUInt8,UInt16.toNat_and,UInt16.toNat_shiftRight,UInt16.reduceToNat,Nat.reduceMod,Nat.shiftRight_eq_div_pow]
    rw [show (255 : Nat) = 2 ^ 8 - 1 from rfl,maskLow]
    omega
  have number2 : ((sli.number &&& 3) <<< 6).toUInt8.toNat = sli.number.toNat % 4 * 2 ^ 6 := by
    simp only [UInt16.toNat_toUInt8,UInt16.toNat_and,UInt16.toNat_shiftLeft,UInt16.reduceToNat,Nat.reduceMod,Nat.shiftLeft_eq]
    rw [show (3 : Nat) = 2 ^ 2 - 1 from rfl,maskLow]
    omega
  have pict6 : (sli.pictId &&& 63).toNat = sli.pictId.toNat := by
    rw [UInt8.toNat_and,show (63 : UInt8).toNat = 2 ^ 6 - 1 from rfl,maskLow]
    omega
  unfold SliItem.fci
  simp only [List.map_cons,List.map_nil]
  rw [first8,number8,orParts first5 (by rw [number3]; omega),orParts number2 (by rw [pict6]; exact pictId),number3,pict6]
  rfl

theorem sliOfBytes (p0 p1 p2 p3 : UInt8) : (sliOf p0 p1 p2 p3).first.toNat = p0.toNat * 32 + p1.toNat / 8 ∧
    (sliOf p0 p1 p2 p3).number.toNat = p1.toNat % 8 * 1024 + p2.toNat * 4 + p3.toNat / 64 ∧
      (sliOf p0 p1 p2 p3).pictId.toNat = p3.toNat % 64 := by
  have b0 := p0.toNat_lt
  have b1 := p1.toNat_lt
  have b2 := p2.toNat_lt
  have b3 := p3.toNat_lt
  have upper5 : ((p1 &&& 0xF8) >>> 3).toUInt16.toNat = p1.toNat / 8 := by
    rw [UInt8.toNat_toUInt16,UInt8.toNat_shiftRight,UInt8.toNat_and]
    change (p1.toNat &&& 248) >>> 3 = _
    rw [Nat.shiftRight_and_distrib,show 248 >>> 3 = 2 ^ 5 - 1 from rfl,maskLow,Nat.shiftRight_eq_div_pow]
    omega
  have upper2 : ((p3 &&& 0xC0) >>> 6).toUInt16.toNat = p3.toNat / 64 := by
    rw [UInt8.toNat_toUInt16,UInt8.toNat_shiftRight,UInt8.toNat_and]
    change (p3.toNat &&& 192) >>> 6 = _
    rw [Nat.shiftRight_and_distrib,show 192 >>> 6 = 2 ^ 2 - 1 from rfl,maskLow,Nat.shiftRight_eq_div_pow]
    omega
  have lower3 : (p1 &&& 0x07).toUInt16.toNat = p1.toNat % 8 := by
    rw [UInt8.toNat_toUInt16,UInt8.toNat_and]
    exact maskLow _ 3
  refine ⟨?_,?_,?_⟩
  · simp only [sliOf,UInt16.toNat_add,UInt16.toNat_shiftLeft,UInt8.toNat_toUInt16,upper5,UInt16.reduceToNat,Nat.reduceMod,Nat.shiftLeft_eq]
    omega
  · simp only [sliOf,UInt16.toNat_add,UInt16.toNat_shiftLeft,upper2,lower3,UInt16.reduceToNat,Nat.reduceMod,Nat.shiftLeft_eq]
    rw [UInt8.toNat_toUInt16]
    omega
  · exact (UInt8.toNat_and _ _).trans (maskLow _ 6)

theorem sliBack {sli : SliItem} (first : sli.first.toNat < 2 ^ 13) (number : sli.number.toNat < 2 ^ 13)
    (pictId : sli.pictId.toNat < 2 ^ 6) (holds : Holds m p sli.fci) : (readSli m p).result = .ok sli := by
  have bytes := sliBytes first number pictId
  obtain ⟨b0,b1,b2,b3,_⟩ := holds
  change m (p + 2) = _ at b2
  change m (p + 3) = _ at b3
  unfold SliItem.fci at bytes
  rw [← b0,← b1,← b2,← b3] at bytes
  simp only [List.map_cons,List.map_nil,List.cons.injEq,and_true] at bytes
  obtain ⟨p0,p1,p2,p3⟩ := bytes
  obtain ⟨firstIs,numberIs,pictIs⟩ := sliOfBytes (m p) (m (p + 1)) (m (p + 2)) (m (p + 3))
  rw [sliResult]
  generalize sliOf (m p) (m (p + 1)) (m (p + 2)) (m (p + 3)) = found at *
  obtain ⟨f,n,q⟩ := found
  obtain ⟨f',n',q'⟩ := sli
  dsimp only at *
  obtain rfl : f = f' := UInt16.toNat_inj.mp (by omega)
  obtain rfl : n = n' := UInt16.toNat_inj.mp (by omega)
  obtain rfl : q = q' := UInt8.toNat_inj.mp (by omega)
  rfl

theorem countKept {count : UInt8} (small : count &&& 0x1F = count) (first : UInt8) :
    ((first &&& 0xE0) ||| count) &&& 0x1F = count := by
  have split : ((first &&& 0xE0) ||| count) &&& 0x1F = (first &&& 0xE0 &&& 0x1F) ||| (count &&& 0x1F) :=
    UInt8.toBitVec_inj.mp BitVec.and_or_distrib_right
  rw [split,UInt8.and_assoc,small,show (0xE0 : UInt8) &&& 0x1F = 0 from rfl,UInt8.and_zero,UInt8.zero_or]

theorem listsReread {common : Common} {length : UInt64} {cnt : UInt32} {built : Built} (few : cnt.toNat + 2 < 2 ^ 16)
    (holds : Holds m 0 built.bytes) :
    (∀ nack, buildNack common length cnt nack = some built → (∀ i < cnt.toNat, (nack i).pid.toUInt32.toNat < 2 ^ 16) →
      (parseNackItems m built.length.toNat cnt).result = .ok (.success, (List.range cnt.toNat).map nack)) ∧
    ∀ sli, buildSli common length cnt sli = some built →
      (∀ i < cnt.toNat, (sli i).first.toNat < 2 ^ 13 ∧ (sli i).number.toNat < 2 ^ 13 ∧ (sli i).pictId.toNat < 2 ^ 6) →
      (parseSli m built.length.toNat cnt).result = .ok (.success, (List.range cnt.toNat).map sli) := by
  constructor
  · intro nack ok small
    exact itemsReread ok few nackFour (countKept rfl common.first) (fun i less p here => nackBack (small i less) here) holds
  · intro sli ok small
    exact itemsReread ok few sliFour (countKept rfl common.first)
      (fun i less p here => sliBack (small i less).1 (small i less).2.1 (small i less).2.2 here) holds

theorem nackReread : let nack := fun i => if i = 0 then ⟨5,3⟩ else ⟨65535,0⟩
    ∃ built, buildNack ⟨0x80,7⟩ 64 2 nack = some built ∧
      (parseNackItems (write (fun _ => 0) 0 built.bytes) built.length.toNat 2).result = .ok (.success, [⟨5,3⟩,⟨65535,0⟩]) :=
  have few : (2 : UInt32).toNat + 2 < 2 ^ 16 := by decide
  have made : buildNack ⟨0x80,7⟩ 64 2 (fun i => if i = 0 then ⟨5,3⟩ else ⟨65535,0⟩) = some _ := rfl
  ⟨_,made,(listsReread few (holdsWrite _ 0 _)).1 _ made fun i _ => by split <;> decide⟩

end Rereading

section Feedback

/- A packet that is built is never all written: only what is refused is right. -/
theorem feedbackExactly (common : Common) (length : UInt64) :
    (∀ cnt nack, (∀ built, buildNack common length cnt nack = some built → Rereads parseNackItems built cnt nack) ↔
      cnt = 0 ∨ length < ((3 + cnt) * 4).toUInt64) ∧
    (∀ cnt sli, (∀ built, buildSli common length cnt sli = some built → Rereads parseSli built cnt sli) ↔
      cnt = 0 ∨ length < ((3 + cnt) * 4).toUInt64) ∧
    ∀ rpsi, (∀ built, buildRpsi common length rpsi = some built → RereadsRpsi built rpsi) ↔
      length < ((3 + (rpsi.bitLen.toUInt32 + 16 + rpsi.padlen) / 32) * 4).toUInt64 :=
  ⟨itemsExactly nackFour nackReads common length,itemsExactly sliFour sliReads common length,rpsiExactly common length⟩

/- One NACK: 16 bytes are reported, and 12 are written. -/
theorem nackTail : ∃ built, buildNack ⟨0x80,7⟩ 64 1 (fun _ => ⟨5,3⟩) = some built ∧ built.length = 16 ∧ built.bytes.length = 12 ∧
    ¬Rereads parseNackItems built 1 fun _ => ⟨5,3⟩ :=
  ⟨_,rfl,by decide,by decide,fun right => absurd right.written (by decide)⟩

end Feedback

end Pjproject.Rtcp
