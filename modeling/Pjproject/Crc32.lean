import Pjproject.Lib.ShiftRegister
import Pjproject.StunSelfCheck

/-! crc32.c with its table, on a machine that stores the low byte first, beside the version that comes without one; and what the
checksum is good for where the STUN decoder compares it. -/
namespace Pjproject.Crc32
open Lib.ShiftRegister
open Lib.Bytes
open Stun

def negl : UInt32 := 0xffffffff

def crcTab : Array UInt32 := #[
    0x00000000,0x77073096,0xee0e612c,0x990951ba,0x076dc419,0x706af48f,0xe963a535,0x9e6495a3,0x0edb8832,0x79dcb8a4,
    0xe0d5e91e,0x97d2d988,0x09b64c2b,0x7eb17cbd,0xe7b82d07,0x90bf1d91,0x1db71064,0x6ab020f2,0xf3b97148,0x84be41de,
    0x1adad47d,0x6ddde4eb,0xf4d4b551,0x83d385c7,0x136c9856,0x646ba8c0,0xfd62f97a,0x8a65c9ec,0x14015c4f,0x63066cd9,
    0xfa0f3d63,0x8d080df5,0x3b6e20c8,0x4c69105e,0xd56041e4,0xa2677172,0x3c03e4d1,0x4b04d447,0xd20d85fd,0xa50ab56b,
    0x35b5a8fa,0x42b2986c,0xdbbbc9d6,0xacbcf940,0x32d86ce3,0x45df5c75,0xdcd60dcf,0xabd13d59,0x26d930ac,0x51de003a,
    0xc8d75180,0xbfd06116,0x21b4f4b5,0x56b3c423,0xcfba9599,0xb8bda50f,0x2802b89e,0x5f058808,0xc60cd9b2,0xb10be924,
    0x2f6f7c87,0x58684c11,0xc1611dab,0xb6662d3d,0x76dc4190,0x01db7106,0x98d220bc,0xefd5102a,0x71b18589,0x06b6b51f,
    0x9fbfe4a5,0xe8b8d433,0x7807c9a2,0x0f00f934,0x9609a88e,0xe10e9818,0x7f6a0dbb,0x086d3d2d,0x91646c97,0xe6635c01,
    0x6b6b51f4,0x1c6c6162,0x856530d8,0xf262004e,0x6c0695ed,0x1b01a57b,0x8208f4c1,0xf50fc457,0x65b0d9c6,0x12b7e950,
    0x8bbeb8ea,0xfcb9887c,0x62dd1ddf,0x15da2d49,0x8cd37cf3,0xfbd44c65,0x4db26158,0x3ab551ce,0xa3bc0074,0xd4bb30e2,
    0x4adfa541,0x3dd895d7,0xa4d1c46d,0xd3d6f4fb,0x4369e96a,0x346ed9fc,0xad678846,0xda60b8d0,0x44042d73,0x33031de5,
    0xaa0a4c5f,0xdd0d7cc9,0x5005713c,0x270241aa,0xbe0b1010,0xc90c2086,0x5768b525,0x206f85b3,0xb966d409,0xce61e49f,
    0x5edef90e,0x29d9c998,0xb0d09822,0xc7d7a8b4,0x59b33d17,0x2eb40d81,0xb7bd5c3b,0xc0ba6cad,0xedb88320,0x9abfb3b6,
    0x03b6e20c,0x74b1d29a,0xead54739,0x9dd277af,0x04db2615,0x73dc1683,0xe3630b12,0x94643b84,0x0d6d6a3e,0x7a6a5aa8,
    0xe40ecf0b,0x9309ff9d,0x0a00ae27,0x7d079eb1,0xf00f9344,0x8708a3d2,0x1e01f268,0x6906c2fe,0xf762575d,0x806567cb,
    0x196c3671,0x6e6b06e7,0xfed41b76,0x89d32be0,0x10da7a5a,0x67dd4acc,0xf9b9df6f,0x8ebeeff9,0x17b7be43,0x60b08ed5,
    0xd6d6a3e8,0xa1d1937e,0x38d8c2c4,0x4fdff252,0xd1bb67f1,0xa6bc5767,0x3fb506dd,0x48b2364b,0xd80d2bda,0xaf0a1b4c,
    0x36034af6,0x41047a60,0xdf60efc3,0xa867df55,0x316e8eef,0x4669be79,0xcb61b38c,0xbc66831a,0x256fd2a0,0x5268e236,
    0xcc0c7795,0xbb0b4703,0x220216b9,0x5505262f,0xc5ba3bbe,0xb2bd0b28,0x2bb45a92,0x5cb36a04,0xc2d7ffa7,0xb5d0cf31,
    0x2cd99e8b,0x5bdeae1d,0x9b64c2b0,0xec63f226,0x756aa39c,0x026d930a,0x9c0906a9,0xeb0e363f,0x72076785,0x05005713,
    0x95bf4a82,0xe2b87a14,0x7bb12bae,0x0cb61b38,0x92d28e9b,0xe5d5be0d,0x7cdcefb7,0x0bdbdf21,0x86d3d2d4,0xf1d4e242,
    0x68ddb3f8,0x1fda836e,0x81be16cd,0xf6b9265b,0x6fb077e1,0x18b74777,0x88085ae6,0xff0f6a70,0x66063bca,0x11010b5c,
    0x8f659eff,0xf862ae69,0x616bffd3,0x166ccf45,0xa00ae278,0xd70dd2ee,0x4e048354,0x3903b3c2,0xa7672661,0xd06016f7,
    0x4969474d,0x3e6e77db,0xaed16a4a,0xd9d65adc,0x40df0b66,0x37d83bf0,0xa9bcae53,0xdebb9ec5,0x47b2cf7f,0x30b5ffe9,
    0xbdbdf21c,0xcabac28a,0x53b39330,0x24b4a3a6,0xbad03605,0xcdd70693,0x54de5729,0x23d967bf,0xb3667a2e,0xc4614ab8,
    0x5d681b02,0x2a6f2b94,0xb40bbe37,0xc30c8ea1,0x5a05df1b,0x2d02ef8d]

def index (c : UInt32) : UInt32 := c &&& 0xff

def shifted (c : UInt32) : UInt32 := c >>> 8

def look (i : UInt32) : UInt32 := crcTab.getD i.toNat 0

/- The three loops of pj_crc32_update: up to a multiple of four, four bytes at a time, and the rest. -/
def byteRound (crc : UInt32) (octet : UInt8) : UInt32 := look (index crc ^^^ octet.toUInt32) ^^^ shifted crc

def alignLoop (crc : UInt32) : Nat → List UInt8 → UInt32 × List UInt8
  | address, octet :: data =>
    if address % 4 ≠ 0 then alignLoop (byteRound crc octet) (address + 1) data else (crc, octet :: data)
  | _, [] => (crc, [])

/- Four bytes in memory, as a word. -/
def word (b0 b1 b2 b3 : UInt8) : UInt32 :=
  b0.toUInt32 ||| (b1.toUInt32 ||| (b2.toUInt32 ||| b3.toUInt32 <<< 8) <<< 8) <<< 8

def wordRound (crc : UInt32) : UInt32 := look (index crc) ^^^ shifted crc

def wordLoop (crc : UInt32) : List UInt8 → UInt32 × List UInt8
  | b0 :: b1 :: b2 :: b3 :: data => wordLoop (wordRound (wordRound (wordRound (wordRound (crc ^^^ word b0 b1 b2 b3))))) data
  | data => (crc, data)

structure Context where
  crcState : UInt32

def crc32Init : Context := ⟨0⟩

def crc32Update (ctx : Context) (address : Nat) (data : List UInt8) : Context :=
  let aligned := alignLoop (ctx.crcState ^^^ negl) address data
  let whole := wordLoop aligned.1 aligned.2
  ⟨whole.2.foldl byteRound whole.1 ^^^ negl⟩

def crc32Final (ctx : Context) : UInt32 := ctx.crcState

def crc32Calc (address : Nat) (data : List UInt8) : UInt32 := crc32Final (crc32Update crc32Init address data)

/- The functions of the same names where PJ_CRC32_HAS_TABLES is 0. -/
namespace Plain

def shiftRight (temp : UInt32) : UInt32 := if temp &&& 1 ≠ 0 then (temp >>> 1) ^^^ 0xEDB88320 else temp >>> 1

def octetRound (crc : UInt32) (octet : UInt8) : UInt32 := (crc >>> 8) ^^^ shiftRight^[8] ((crc &&& 0xFF) ^^^ octet.toUInt32)

def crc32Init : Context := ⟨negl⟩

def crc32Update (ctx : Context) (octets : List UInt8) : Context := ⟨octets.foldl octetRound ctx.crcState⟩

def crc32Final (ctx : Context) : UInt32 := ctx.crcState ^^^ negl

def crc32Calc (data : List UInt8) : UInt32 := crc32Final (crc32Update crc32Init data)

end Plain

def feedback : BitVec 32 := 0xEDB88320#32

theorem shiftRightIs (x : UInt32) : (Plain.shiftRight x).toBitVec = shift feedback x.toBitVec := by
  have low : x &&& 1 ≠ 0 ↔ x.toBitVec.getLsbD 0 = true := by
    rw [← UInt32.toBitVec_inj.ne,UInt32.toBitVec_and]
    change x.toBitVec &&& 1#32 ≠ 0#32 ↔ _
    rw [BitVec.and_one_eq_setWidth_ofBool_getLsbD]
    cases x.toBitVec.getLsbD 0 <;> decide
  unfold Plain.shiftRight shift
  by_cases set : x &&& 1 ≠ 0
  · rw [if_pos set,if_pos (low.mp set)]
    rfl
  · rw [if_neg set,if_neg (set ∘ low.mpr)]
    rfl

theorem shiftsRightIs (n : Nat) (x : UInt32) : (Plain.shiftRight^[n] x).toBitVec = shifts feedback n x.toBitVec := by
  induction n generalizing x with
  | zero => rfl
  | succ n ih => rw [Function.iterate_succ_apply,ih,shiftRightIs]; rfl

theorem tabEntries : ∀ i < 256, crcTab.getD i 0 = Plain.shiftRight^[8] (UInt32.ofNat i) := by decide +kernel

theorem lookIs {i : UInt32} (low : i.toNat < 256) : look i = Plain.shiftRight^[8] i := by
  rw [look,tabEntries _ low,UInt32.ofNat_toNat]

theorem indexLow (c : UInt32) : (index c).toNat < 256 := by
  have : (index c).toNat ≤ 255 := by
    rw [index,UInt32.toNat_and]
    exact Nat.and_le_right
  omega

theorem octetLow (c : UInt32) (octet : UInt8) : (index c ^^^ octet.toUInt32).toNat < 256 := by
  rw [UInt32.toNat_xor]
  exact Nat.xor_lt_two_pow (n := 8) (indexLow c) (by simpa using octet.toNat_lt)

theorem octetRoundIs (crc : UInt32) (octet : UInt8) : Plain.octetRound crc octet = byteRound crc octet := by
  rw [byteRound,lookIs (octetLow crc octet),UInt32.xor_comm]
  rfl

theorem octetMask : ∀ i < 32, (255#32).getLsbD i = decide (i < 8) := by decide

theorem halves (x : BitVec 32) : x = (x &&& 255#32) ^^^ (x >>> 8 <<< 8) := by
  apply BitVec.eq_of_getLsbD_eq
  intro i inside
  rw [BitVec.getLsbD_xor,BitVec.getLsbD_and,octetMask i inside,BitVec.getLsbD_shiftLeft,BitVec.getLsbD_ushiftRight]
  by_cases low : i < 8
  · simp [low]
  · simp [low,inside,show 8 + (i - 8) = i by omega]

theorem shiftsUp {x : BitVec 32} (clear : ∀ i, 24 ≤ i → x.getLsbD i = false) : shifts feedback 8 (x <<< 8) = x := by
  rw [shiftsClear feedback fun i less => by simp [less]]
  apply BitVec.eq_of_getLsbD_eq
  intro i inside
  rw [BitVec.getLsbD_ushiftRight,BitVec.getLsbD_shiftLeft]
  by_cases low : i < 24
  · simp [show 8 + i < 32 by omega,show 8 + i - 8 = i by omega]
  · simp [show ¬8 + i < 32 by omega,clear i (by omega)]

theorem wordRoundIs (crc : UInt32) : (wordRound crc).toBitVec = shifts feedback 8 crc.toBitVec := by
  have high : shifts feedback 8 (crc.toBitVec >>> 8 <<< 8) = crc.toBitVec >>> 8 :=
    shiftsUp fun i far => by rw [BitVec.getLsbD_ushiftRight,BitVec.getLsbD_of_ge _ _ (by omega)]
  rw [wordRound,UInt32.toBitVec_xor,lookIs (indexLow crc),shiftsRightIs]
  conv => rhs; rw [halves crc.toBitVec,shiftsXor,high]
  rfl

theorem byteRoundIs (crc : UInt32) (octet : UInt8) : byteRound crc octet = wordRound (crc ^^^ octet.toUInt32) := by
  have masked : index (crc ^^^ octet.toUInt32) = index crc ^^^ octet.toUInt32 := by
    apply UInt32.toBitVec_inj.mp
    apply BitVec.eq_of_getLsbD_eq
    intro i inside
    have mask : (0xff : UInt32).toBitVec.getLsbD i = decide (i < 8) := octetMask i inside
    simp only [index,UInt32.toBitVec_and,UInt32.toBitVec_xor,UInt8.toBitVec_toUInt32,BitVec.getLsbD_and,
      BitVec.getLsbD_xor,BitVec.getLsbD_setWidth,mask]
    by_cases low : i < 8
    · simp [low,inside]
    · simp [low,BitVec.getLsbD_of_ge octet.toBitVec i (by omega)]
  have gone : octet.toUInt32 >>> 8 = 0 := by
    apply UInt32.toBitVec_inj.mp
    apply BitVec.eq_of_getLsbD_eq
    intro i inside
    change ((octet.toBitVec.setWidth 32) >>> 8).getLsbD i = (0#32).getLsbD i
    rw [BitVec.getLsbD_ushiftRight,BitVec.getLsbD_setWidth,BitVec.getLsbD_of_ge octet.toBitVec _ (by omega)]
    simp
  have moved : shifted (crc ^^^ octet.toUInt32) = shifted crc := by
    rw [shifted,UInt32.shiftRight_xor,gone,UInt32.xor_zero]
    rfl
  rw [wordRound,masked,moved]
  rfl

def lowWord : List UInt8 → BitVec 32
  | [] => 0
  | octet :: rest => octet.toBitVec.setWidth 32 ^^^ lowWord rest <<< 8

theorem lowWordBits (octets : List UInt8) {i : Nat} (inside : i < 32) :
    (lowWord octets).getLsbD i = (octets.getD (i / 8) 0).toBitVec.getLsbD (i % 8) := by
  induction octets generalizing i with
  | nil => simp [lowWord]
  | cons octet rest ih =>
    rw [lowWord,BitVec.getLsbD_xor,BitVec.getLsbD_setWidth,BitVec.getLsbD_shiftLeft]
    by_cases low : i < 8
    · simp [low,inside,Nat.div_eq_of_lt low,Nat.mod_eq_of_lt low]
    · rw [ih (by omega)]
      have place : i / 8 = (i - 8) / 8 + 1 := by omega
      have bit : i % 8 = (i - 8) % 8 := by omega
      simp [low,inside,place,bit,BitVec.getLsbD_of_ge octet.toBitVec i (by omega)]

theorem octetsTogether (octets : List UInt8) (few : octets.length ≤ 4) (crc : UInt32) :
    (octets.foldl byteRound crc).toBitVec = shifts feedback (8 * octets.length) (crc.toBitVec ^^^ lowWord octets) := by
  induction octets generalizing crc with
  | nil => simp [lowWord,shifts]
  | cons octet rest ih =>
    have short : rest.length ≤ 3 := Nat.le_of_succ_le_succ few
    have clear : ∀ i, 24 ≤ i → (lowWord rest).getLsbD i = false := by
      intro i far
      by_cases inside : i < 32
      · rw [lowWordBits rest inside,List.getD_eq_default _ _ (by omega)]
        simp
      · exact BitVec.getLsbD_of_ge _ _ (by omega)
    rw [List.foldl_cons,ih (by omega),byteRoundIs,wordRoundIs,UInt32.toBitVec_xor,UInt8.toBitVec_toUInt32,
      List.length_cons,Nat.mul_succ,Nat.add_comm,shiftsAdd,lowWord,← BitVec.xor_assoc,shiftsXor feedback 8 (_ ^^^ _),
      shiftsUp clear]

theorem lowWordInj {left right : List UInt8} (lengths : left.length = right.length) (few : left.length ≤ 4)
    (same : lowWord left = lowWord right) : left = right := by
  apply List.ext_getElem lengths
  intro k inLeft inRight
  apply UInt8.toBitVec_inj.mp
  apply BitVec.eq_of_getLsbD_eq
  intro i inside
  have bits : (lowWord left).getLsbD (8 * k + i) = (lowWord right).getLsbD (8 * k + i) := by rw [same]
  rw [lowWordBits left (by omega),lowWordBits right (by omega)] at bits
  rw [show (8 * k + i) / 8 = k by omega,show (8 * k + i) % 8 = i by omega] at bits
  simpa [inLeft,inRight] using bits

theorem byteRoundInj {left right : UInt32} {octet : UInt8} (same : byteRound left octet = byteRound right octet) :
    left = right := by
  have shifted := congrArg UInt32.toBitVec same
  rw [byteRoundIs,byteRoundIs,wordRoundIs,wordRoundIs] at shifted
  have both := shiftsInj (by decide) shifted
  rw [UInt32.toBitVec_xor,UInt32.toBitVec_xor,BitVec.xor_left_inj] at both
  exact UInt32.toBitVec_inj.mp both

theorem octetsInj (octets : List UInt8) {left right : UInt32}
    (same : octets.foldl byteRound left = octets.foldl byteRound right) : left = right := by
  induction octets generalizing left right with
  | nil => exact same
  | cons octet rest ih => exact byteRoundInj (ih same)

theorem alignLoopFolds (crc : UInt32) (address : Nat) (data : List UInt8) :
    (alignLoop crc address data).2.foldl byteRound (alignLoop crc address data).1 = data.foldl byteRound crc := by
  induction data generalizing crc address with
  | nil => rfl
  | cons octet data ih =>
    unfold alignLoop
    split
    · exact ih _ _
    · rfl

theorem orApart (octet : UInt8) (x : BitVec 32) :
    octet.toBitVec.setWidth 32 ||| x <<< 8 = octet.toBitVec.setWidth 32 ^^^ x <<< 8 := by
  apply BitVec.eq_of_getLsbD_eq
  intro i inside
  rw [BitVec.getLsbD_or,BitVec.getLsbD_xor,BitVec.getLsbD_shiftLeft,BitVec.getLsbD_setWidth]
  by_cases low : i < 8
  · simp [low]
  · simp [low,BitVec.getLsbD_of_ge octet.toBitVec i (by omega)]

theorem wordIs (b0 b1 b2 b3 : UInt8) : (word b0 b1 b2 b3).toBitVec = lowWord [b0,b1,b2,b3] := by
  show b0.toBitVec.setWidth 32 ||| (b1.toBitVec.setWidth 32 ||| (b2.toBitVec.setWidth 32 |||
    b3.toBitVec.setWidth 32 <<< 8) <<< 8) <<< 8 = _
  rw [orApart,orApart,orApart]
  simp [lowWord]

theorem fourOctets (crc : UInt32) (b0 b1 b2 b3 : UInt8) :
    wordRound (wordRound (wordRound (wordRound (crc ^^^ word b0 b1 b2 b3)))) = [b0,b1,b2,b3].foldl byteRound crc := by
  apply UInt32.toBitVec_inj.mp
  rw [octetsTogether [b0,b1,b2,b3] (Nat.le_refl 4),wordRoundIs,wordRoundIs,wordRoundIs,wordRoundIs,← shiftsAdd,
    ← shiftsAdd,← shiftsAdd,UInt32.toBitVec_xor,wordIs]
  rfl

theorem wordLoopFolds (crc : UInt32) (data : List UInt8) :
    (wordLoop crc data).2.foldl byteRound (wordLoop crc data).1 = data.foldl byteRound crc := by
  fun_induction wordLoop crc data with
  | case1 crc b0 b1 b2 b3 data ih => exact (ih.trans (by rw [fourOctets])).trans List.foldl_append.symm
  | case2 => rfl

theorem updateFolds (ctx : Context) (address : Nat) (data : List UInt8) :
    crc32Update ctx address data = ⟨data.foldl byteRound (ctx.crcState ^^^ negl) ^^^ negl⟩ := by
  unfold crc32Update
  dsimp only
  rw [wordLoopFolds,alignLoopFolds]

theorem plainFolds (octets : List UInt8) (crc : UInt32) : octets.foldl Plain.octetRound crc = octets.foldl byteRound crc := by
  have same : Plain.octetRound = byteRound := funext fun crc => funext (octetRoundIs crc)
  rw [same]

theorem calcFolds (address : Nat) (data : List UInt8) : crc32Calc address data = data.foldl byteRound negl ^^^ negl := by
  rw [crc32Calc,updateFolds]
  show data.foldl byteRound (0 ^^^ negl) ^^^ negl = _
  rw [UInt32.zero_xor]

/- Wherever the pieces lie and however the data is cut, the table gives what is computed without it. -/
theorem tableAgrees (pieces : List (Nat × List UInt8)) :
    crc32Final (pieces.foldl (fun ctx piece => crc32Update ctx piece.1 piece.2) crc32Init) =
      Plain.crc32Calc (pieces.map Prod.snd).flatten := by
  have run : ∀ ctx : Context, pieces.foldl (fun ctx piece => crc32Update ctx piece.1 piece.2) ctx =
      ⟨(pieces.map Prod.snd).flatten.foldl byteRound (ctx.crcState ^^^ negl) ^^^ negl⟩ := by
    induction pieces with
    | nil =>
      intro ctx
      show ctx = ⟨ctx.crcState ^^^ negl ^^^ negl⟩
      rw [UInt32.xor_assoc,UInt32.xor_self,UInt32.xor_zero]
    | cons piece rest ih =>
      intro ctx
      rw [List.foldl_cons,ih,updateFolds,List.map_cons,List.flatten_cons,List.foldl_append]
      dsimp only
      rw [UInt32.xor_assoc,UInt32.xor_self,UInt32.xor_zero]
  rw [run]
  show _ ^^^ negl = List.foldl Plain.octetRound negl _ ^^^ negl
  rw [plainFolds]
  show List.foldl byteRound (0 ^^^ negl) _ ^^^ negl = _
  rw [UInt32.zero_xor]

theorem feedbackHigh : feedback.msb = true := by decide

/- Four octets in a row, or fewer, cannot be changed without changing the checksum. -/
theorem burstSeen {address : Nat} {before after left right : List UInt8} (lengths : left.length = right.length)
    (few : left.length ≤ 4)
    (same : crc32Calc address (before ++ left ++ after) = crc32Calc address (before ++ right ++ after)) : left = right := by
  rw [calcFolds,calcFolds] at same
  have states : (before ++ left ++ after).foldl byteRound negl = (before ++ right ++ after).foldl byteRound negl :=
    (UInt32.xor_left_inj negl).mp same
  rw [List.foldl_append,List.foldl_append,List.foldl_append,List.foldl_append] at states
  have middle := congrArg UInt32.toBitVec (octetsInj after states)
  rw [octetsTogether left few,octetsTogether right (lengths ▸ few),lengths] at middle
  exact lowWordInj lengths few ((BitVec.xor_right_inj _).mp (shiftsInj feedbackHigh middle))

theorem sliceEntry (m : Memory) (pos : Nat) {n k : Nat} (inside : k < n) : (slice m pos n)[k]? = some (m (pos + k)) := by
  induction n generalizing pos k with
  | zero => exact absurd inside (Nat.not_lt_zero k)
  | succ n ih =>
    cases k with
    | zero => rfl
    | succ =>
      rw [slice,List.getElem?_cons_succ,ih (pos + 1) (Nat.lt_of_succ_lt_succ inside),Nat.add_assoc,Nat.add_comm 1]

theorem checkedStamp {env : Env} {m : Memory} {n : Nat} (accepted : (stunMsgCheck env m n datagram).result = .ok ())
    (cookie : (headerAt m).magic = stunMagic) (looks : typeAt m (n - 8) = attrFingerprint) : Stamped env m n := by
  unfold stunMsgCheck at accepted
  split at accepted
  · exact nomatch accepted
  rw [readByteResult] at accepted
  split at accepted
  · exact nomatch accepted
  rw [read16Result] at accepted
  dsimp only at accepted
  split at accepted
  · exact nomatch accepted
  next fits =>
    have whole : (word16 (m 2) (m (2 + 1))).toNat + 20 = n := by
      rw [not_or,not_and,not_not] at fits
      exact fits.2 rfl
    rw [whole] at accepted
    split at accepted
    · exact nomatch accepted
    rw [read32Result,if_pos ⟨cookie,rfl⟩,read16Result] at accepted
    exact fingerprintChecked.mp accepted looks

/- What a datagram with a FINGERPRINT is checked for: up to four octets before it that are overwritten, and not with what they
were, are found out, as long as the magic cookie still says that there is a check. -/
theorem corruptionRejected {env : Env} {address : Nat} (checksum : env.crc32 = crc32Calc address) {m : Memory} {n start : Nat}
    {octets : List UInt8} (few : octets.length ≤ 4) (inside : start + octets.length ≤ n - 8)
    (cookie : (headerAt m).magic = stunMagic) (kept : (headerAt (write m start octets)).magic = stunMagic)
    (looks : typeAt m (n - 8) = attrFingerprint) (accepted : (stunMsgCheck env m n datagram).result = .ok ()) :
    (stunMsgCheck env (write m start octets) n datagram).result = .ok () ↔ write m start octets = m := by
  refine ⟨fun passed => ?_,fun same => by rw [same]; exact accepted⟩
  have behind : ∀ i, n - 8 ≤ i → write m start octets i = m i := fun i far => writeAfter (by omega)
  have stamped := checkedStamp accepted cookie looks
  have stamped' := checkedStamp passed kept (by
    rw [← looks,typeAt,typeAt,behind _ (by omega),behind _ (by omega)])
  obtain ⟨rest,size⟩ := Nat.exists_eq_add_of_le inside
  have parts : ∀ m' : Memory, slice m' 0 (n - 8) =
      slice m' 0 start ++ slice m' start octets.length ++ slice m' (start + octets.length) rest := by
    intro m'
    rw [size,sliceAppend m' 0 (start + octets.length) rest,sliceAppend m' 0 start,Nat.zero_add,Nat.zero_add]
  have words : env.crc32 (slice (write m start octets) 0 (n - 8)) = env.crc32 (slice m 0 (n - 8)) := by
    have value := stamped'.value
    rw [behind _ (by omega),behind _ (by omega),behind _ (by omega),behind _ (by omega),stamped.value] at value
    exact ((UInt32.xor_left_inj _).mp value).symm
  have written : slice (write m start octets) start octets.length = octets := holdsSlice (holdsWrite m start octets)
  rw [checksum,parts,parts,written,sliceCongr fun i _ less => writeBefore (by omega),
    sliceCongr fun i far _ => writeAfter far] at words
  have same : octets = slice m start octets.length := burstSeen (sliceLength _ _ _).symm few words
  funext i
  by_cases early : i < start
  · exact writeBefore early
  · by_cases late : start + octets.length ≤ i
    · exact writeAfter late
    · obtain ⟨k,rfl⟩ := Nat.exists_eq_add_of_le (Nat.not_lt.mp early)
      have reach : k < octets.length := by omega
      rw [writeInside reach]
      have entry : octets[k]? = some (m (start + k)) := by
        rw [same]
        exact sliceEntry m start reach
      simpa [reach] using entry

def tableEnv : Env := ⟨fun _ _ _ => 0,crc32Calc 0,0⟩

/- A Binding request with nothing but a FINGERPRINT. -/
def fingerprinted : Memory :=
  fun i => [0,1,0,8,0x21,0x12,0xA4,0x42,1,2,3,4,5,6,7,8,9,10,11,12,0x80,0x28,0,4,0x5b,0x20,0xf9,0xcc].getD i 0

theorem brokenTransactionRejected :
    (stunMsgCheck tableEnv (write fingerprinted 9 [2,3,7]) 28 datagram).result ≠ .ok () := fun passed =>
  have whole := (corruptionRejected rfl (by decide) (by decide) (by decide +kernel) (by decide +kernel) (by decide +kernel)
    (by decide +kernel)).mp passed
  absurd (congrFun whole 11) (by decide)

end Pjproject.Crc32
