import Mathlib

/-! The Base64 codec of base64.c. Characters outside the alphabet are skipped on the way back, but the last place of a
group takes whatever character the text ends with. -/
namespace Pjproject.Base64

/- Lengths are those an int holds. -/
abbrev Bytes := List UInt8
abbrev Text := List Char

/- An int of the decoder; the value for a character outside the alphabet is -1. -/
abbrev Code := UInt32

def inv : Code := 0xFFFFFFFF

def padding : Char := '='

def base64Table : Text :=
  ['A','B','C','D','E','F','G','H','I','J','K','L','M','N','O','P','Q','R','S','T',
   'U','V','W','X','Y','Z','a','b','c','d','e','f','g','h','i','j','k','l','m','n',
   'o','p','q','r','s','t','u','v','w','x','y','z','0','1','2','3','4','5','6','7',
   '8','9','+','/']

/- base64_char[i]; every index of the code is below 64. -/
def base64Char (i : UInt8) : Char := base64Table.getD i.toNat padding

def base256Char (c : Char) : Code :=
  if 'A' ≤ c ∧ c ≤ 'Z' then c.val - 'A'.val
  else if 'a' ≤ c ∧ c ≤ 'z' then c.val - 'a'.val + 26
  else if '0' ≤ c ∧ c ≤ '9' then c.val - '0'.val + 52
  else if c = '+' then 62
  else if c = '/' then 63
  else inv

def base256to64 (c1 c2 c3 : UInt8) (pad : Nat) : Text :=
  base64Char (c1 >>> 2) :: base64Char (((c1 &&& 0x3) <<< 4) ||| ((c2 &&& 0xF0) >>> 4)) ::
    match pad with
    | 0 => [base64Char (((c2 &&& 0xF) <<< 2) ||| ((c3 &&& 0xC0) >>> 6)),base64Char (c3 &&& 0x3F)]
    | 1 => [base64Char (((c2 &&& 0xF) <<< 2) ||| ((c3 &&& 0xC0) >>> 6)),padding]
    | _ => [padding,padding]

def encodeLoop : Bytes → Text
  | [] => []
  | [c1] => base256to64 c1 0 0 2
  | [c1,c2] => base256to64 c1 c2 0 1
  | c1 :: c2 :: c3 :: rest => base256to64 c1 c2 c3 0 ++ encodeLoop rest

/- An int that holds a number modulo 2^32. -/
def toInt (n : Int) : Int := n.bmod (2 ^ 32)

def base256ToBase64Len (len : Int) : Int := (toInt (len * 4)).tdiv 3 + 3

def base64ToBase256Len (len : Int) : Int := (toInt (len * 3)).tdiv 4

/- pj_base64_encode; none for PJ_ETOOSMALL. -/
def encode (input : Bytes) (outLen : Int) : Option Text :=
  if base256ToBase64Len input.length ≤ outLen then some (encodeLoop input) else none

/- The do-while loop: a character, or the next one while it is outside the alphabet and not the last. -/
def fillOne (c : Char) : Text → Code × Text
  | [] => (base256Char c, [])
  | next :: rest => if base256Char c = inv then fillOne next rest else (base256Char c, next :: rest)

/- The loop that fills up c, with the number of its free places. -/
def fill : Nat → Text → List Code × Text
  | 0, text => ([], text)
  | _ + 1, [] => ([], [])
  | k + 1, c :: rest =>
    let (code, rest) := fillOne c rest
    let (codes, rest) := fill k rest
    (code :: codes, rest)

def byte1 (c0 c1 : Code) : UInt8 := ((c0 <<< 2) ||| ((c1 &&& 0x30) >>> 4)).toUInt8
def byte2 (c1 c2 : Code) : UInt8 := (((c1 &&& 0x0F) <<< 4) ||| ((c2 &&& 0x3C) >>> 2)).toUInt8
def byte3 (c2 c3 : Code) : UInt8 := (((c2 &&& 0x03) <<< 6) ||| (c3 &&& 0x3F)).toUInt8

/- What an incomplete group gives. -/
def lastBytes : List Code → Bytes
  | [c0,c1] => [byte1 c0 c1]
  | [c0,c1,c2] => [byte1 c0 c1,byte2 c1 c2]
  | _ => []

/- The for loop. Each round takes a character, so the length of the text is fuel enough. -/
def decodeLoop : Nat → Text → Bytes
  | 0, _ => []
  | _ + 1, [] => []
  | n + 1, text =>
    match fill 4 text with
    | ([c0,c1,c2,c3], rest) => byte1 c0 c1 :: byte2 c1 c2 :: byte3 c2 c3 :: decodeLoop n rest
    | (codes, _) => lastBytes codes

def stripPadding (text : Text) : Text := text.rdropWhile (· = padding)

/- pj_base64_decode; none for PJ_ETOOSMALL. The length is cast to an int; a negative one is taken for zero, where the
source reads in front of the text. -/
def decode (input : Text) (outLen : Int) : Option Bytes :=
  let text := stripPadding (input.take (toInt input.length).toNat)
  if base64ToBase256Len text.length ≤ outLen then some (decodeLoop text.length text) else none

example : (encode [102,111] 8).bind (fun text => decode text 8) = some [102,111] := by decide

/- The codes the decoder sees: those of the letters, and that of the last character whatever it is. -/
def letter (c : Char) : Bool := base256Char c ≠ inv

def codes : Text → List Code
  | [] => []
  | [c] => [base256Char c]
  | c :: next :: rest => if base256Char c = inv then codes (next :: rest) else base256Char c :: codes (next :: rest)

theorem fillOneCodes (c : Char) (rest : Text) :
    codes (c :: rest) = (fillOne c rest).1 :: codes (fillOne c rest).2 ∧ (fillOne c rest).2.length ≤ rest.length := by
  induction rest generalizing c with
  | nil => exact ⟨rfl,Nat.le_refl _⟩
  | cons next rest ih =>
    have step : codes (c :: next :: rest) =
        if base256Char c = inv then codes (next :: rest) else base256Char c :: codes (next :: rest) := rfl
    rw [step,fillOne]
    split
    · obtain ⟨same,shorter⟩ := ih next
      exact ⟨same,Nat.le_succ_of_le shorter⟩
    · exact ⟨rfl,Nat.le_refl _⟩

theorem fillCodes (k : Nat) (text : Text) :
    (fill k text).1 = (codes text).take k ∧ codes (fill k text).2 = (codes text).drop k ∧
      (fill k text).2.length ≤ text.length - (if k = 0 then 0 else 1) := by
  induction k generalizing text with
  | zero => exact ⟨rfl,rfl,Nat.le_refl _⟩
  | succ k ih =>
    cases text with
    | nil => exact ⟨rfl,rfl,Nat.le_refl _⟩
    | cons c rest =>
      obtain ⟨same,shorter⟩ := fillOneCodes c rest
      obtain ⟨taken,dropped,shrunk⟩ := ih (fillOne c rest).2
      rw [same]
      refine ⟨congrArg _ taken,dropped,?_⟩
      change (fill k (fillOne c rest).2).2.length ≤ _
      rw [if_neg (Nat.succ_ne_zero k),List.length_cons]
      omega

/- The bytes of a sequence of codes, four at a time. -/
def groups : List Code → Bytes
  | c0 :: c1 :: c2 :: c3 :: rest => byte1 c0 c1 :: byte2 c1 c2 :: byte3 c2 c3 :: groups rest
  | last => lastBytes last

theorem decodeLoopGroups (n : Nat) (text : Text) (enough : text.length ≤ n) :
    decodeLoop n text = groups (codes text) := by
  induction n generalizing text with
  | zero =>
    rw [List.length_eq_zero_iff.mp (Nat.le_zero.mp enough)]
    rfl
  | succ n ih =>
    cases text with
    | nil => rfl
    | cons c rest =>
      obtain ⟨taken,dropped,shrunk⟩ := fillCodes 4 (c :: rest)
      unfold decodeLoop
      generalize fill 4 (c :: rest) = filled at taken dropped shrunk
      obtain ⟨found,left⟩ := filled
      dsimp only at taken dropped shrunk
      rw [if_neg (by decide),List.length_cons] at shrunk
      rw [List.length_cons] at enough
      have next := ih left (by omega)
      rw [dropped] at next
      generalize codes (c :: rest) = all at taken next
      match all with
      | [] | [_] | [_,_] | [_,_,_] =>
        rw [taken]
        rfl
      | c0 :: c1 :: c2 :: c3 :: others =>
        rw [taken]
        change byte1 c0 c1 :: byte2 c1 c2 :: byte3 c2 c3 :: decodeLoop n left = _
        rw [next]
        rfl

/- One code more when the text ends outside the alphabet. -/
def endsInNoise (text : Text) : Prop := ∃ c, text.getLast? = some c ∧ base256Char c = inv

instance (text : Text) : Decidable (endsInNoise text) :=
  match h : text.getLast? with
  | none => isFalse (by simp [endsInNoise,h])
  | some c => decidable_of_iff (base256Char c = inv) (by simp [endsInNoise,h])

theorem codesLetters (text : Text) : codes text =
    (text.filter letter).map base256Char ++ if endsInNoise text then [inv] else [] := by
  induction text with
  | nil => rfl
  | cons c rest ih =>
    cases rest with
    | nil =>
      change [base256Char c] = _
      by_cases noise : base256Char c = inv
      · rw [if_pos ⟨c,rfl,noise⟩,List.filter_cons_of_neg (by simp [letter,noise]),noise]
        rfl
      · have sound : ¬ endsInNoise [c] := by
          rintro ⟨d,last,bad⟩
          cases last
          exact noise bad
        rw [if_neg sound,List.filter_cons_of_pos (by simpa [letter] using noise)]
        rfl
    | cons next rest =>
      have step : codes (c :: next :: rest) =
          if base256Char c = inv then codes (next :: rest) else base256Char c :: codes (next :: rest) := rfl
      have tail : endsInNoise (c :: next :: rest) ↔ endsInNoise (next :: rest) := by
        unfold endsInNoise
        rw [List.getLast?_cons_cons]
      simp only [step,tail,ih]
      by_cases noise : base256Char c = inv
      · rw [if_pos noise,List.filter_cons_of_neg (a := c) (by simp [letter,noise])]
      · rw [if_neg noise,List.filter_cons_of_pos (a := c) (by simpa [letter] using noise)]
        rfl

/- A text with characters outside the alphabet put in anywhere. -/
inductive Noisy : Text → Text → Prop where
  | nil : Noisy [] []
  | keep (c : Char) {text noisy : Text} (rest : Noisy text noisy) : Noisy (c :: text) (c :: noisy)
  | noise (c : Char) (outside : c ∉ base64Table) {text noisy : Text} (rest : Noisy text noisy) :
    Noisy text (c :: noisy)

theorem letterInTable {c : Char} (sound : base256Char c ≠ inv) : c ∈ base64Table := by
  have named : ∀ n < 123, base256Char (Char.ofNat n) ≠ inv → Char.ofNat n ∈ base64Table := by decide
  have small : c.toNat < 123 := by
    have order : ∀ d : Char, c ≤ d ↔ c.toNat ≤ d.toNat := fun _ => Iff.rfl
    unfold base256Char at sound
    split at sound
    · next upper => exact Nat.lt_of_le_of_lt ((order 'Z').mp upper.2) (by decide)
    · split at sound
      · next lower => exact Nat.lt_of_le_of_lt ((order 'z').mp lower.2) (by decide)
      · split at sound
        · next digit => exact Nat.lt_of_le_of_lt ((order '9').mp digit.2) (by decide)
        · split at sound
          · next plus => exact plus ▸ by decide
          · split at sound
            · next slash => exact slash ▸ by decide
            · exact absurd rfl sound
  have same := named c.toNat small
  rw [Char.ofNat_toNat] at same
  exact same sound

theorem noisyLetters {text noisy : Text} (made : Noisy text noisy) : noisy.filter letter = text.filter letter := by
  induction made with
  | nil => rfl
  | keep c rest ih => rw [List.filter_cons,List.filter_cons,ih]
  | noise c outside rest ih =>
    have skipped : ¬ letter c = true := by
      simp only [letter,decide_eq_true_eq]
      exact fun sound => outside (letterInTable sound)
    rw [List.filter_cons_of_neg skipped,ih]

theorem stripLetters (text : Text) : (stripPadding text).filter letter = text.filter letter := by
  induction text using List.reverseRecOn with
  | nil => rfl
  | append_singleton text c ih =>
    unfold stripPadding at ih ⊢
    by_cases pad : c = padding
    · rw [List.rdropWhile_concat_pos _ _ _ (by simpa using pad),ih,List.filter_append,pad]
      simp [letter,base256Char,padding]
    · rw [List.rdropWhile_concat_neg _ _ _ (by simpa using pad)]

/- The four letters of a group, as numbers. -/
def sextet1 (b1 : UInt8) : UInt8 := b1 >>> 2
def sextet2 (b1 b2 : UInt8) : UInt8 := ((b1 &&& 0x3) <<< 4) ||| ((b2 &&& 0xF0) >>> 4)
def sextet3 (b2 b3 : UInt8) : UInt8 := ((b2 &&& 0xF) <<< 2) ||| ((b3 &&& 0xC0) >>> 6)
def sextet4 (b3 : UInt8) : UInt8 := b3 &&& 0x3F

theorem everyByte {P : UInt8 → Prop} (all : ∀ i : Fin 256, P (UInt8.ofNat i)) (b : UInt8) : P b := by
  have here := all ⟨b.toNat,b.toNat_lt⟩
  rwa [UInt8.ofNat_toNat] at here

theorem joined4 : ∀ (h : Fin 4) (l : Fin 16), let s := (UInt8.ofNat h <<< 4) ||| UInt8.ofNat l
    s < 64 ∧ (s.toUInt32 &&& 0x30) >>> 4 = (UInt8.ofNat h).toUInt32 ∧ s.toUInt32 &&& 0x0F = (UInt8.ofNat l).toUInt32 := by
  decide

theorem joined2 : ∀ (h : Fin 16) (l : Fin 4), let s := (UInt8.ofNat h <<< 2) ||| UInt8.ofNat l
    s < 64 ∧ (s.toUInt32 &&& 0x3C) >>> 2 = (UInt8.ofNat h).toUInt32 ∧ s.toUInt32 &&& 0x03 = (UInt8.ofNat l).toUInt32 := by
  decide

theorem lowParts (b : UInt8) : b &&& 0x3 < 4 ∧ (b &&& 0xF0) >>> 4 < 16 ∧ b &&& 0xF < 16 ∧ (b &&& 0xC0) >>> 6 < 4 ∧
    sextet1 b < 64 ∧ sextet4 b < 64 :=
  everyByte (P := fun b => b &&& 0x3 < 4 ∧ (b &&& 0xF0) >>> 4 < 16 ∧ b &&& 0xF < 16 ∧ (b &&& 0xC0) >>> 6 < 4 ∧
    sextet1 b < 64 ∧ sextet4 b < 64) (by decide +kernel) b

theorem sextet2Parts (b1 b2 : UInt8) : sextet2 b1 b2 < 64 ∧
    ((sextet2 b1 b2).toUInt32 &&& (0x30 : Code)) >>> 4 = (b1 &&& 0x3).toUInt32 ∧
    (sextet2 b1 b2).toUInt32 &&& (0x0F : Code) = ((b2 &&& 0xF0) >>> 4).toUInt32 := by
  have parts := joined4 ⟨(b1 &&& 0x3).toNat,(lowParts b1).1⟩ ⟨((b2 &&& 0xF0) >>> 4).toNat,(lowParts b2).2.1⟩
  simp only [UInt8.ofNat_toNat] at parts
  exact parts

theorem sextet3Parts (b2 b3 : UInt8) : sextet3 b2 b3 < 64 ∧
    ((sextet3 b2 b3).toUInt32 &&& (0x3C : Code)) >>> 2 = (b2 &&& 0xF).toUInt32 ∧
    (sextet3 b2 b3).toUInt32 &&& (0x03 : Code) = ((b3 &&& 0xC0) >>> 6).toUInt32 := by
  have parts := joined2 ⟨(b2 &&& 0xF).toNat,(lowParts b2).2.2.1⟩ ⟨((b3 &&& 0xC0) >>> 6).toNat,(lowParts b3).2.2.2.1⟩
  simp only [UInt8.ofNat_toNat] at parts
  exact parts

theorem byteParts (b : UInt8) : (((b >>> 2).toUInt32 <<< 2) ||| (b &&& 0x3).toUInt32).toUInt8 = b ∧
    ((((b &&& 0xF0) >>> 4).toUInt32 <<< 4) ||| (b &&& 0xF).toUInt32).toUInt8 = b ∧
    ((((b &&& 0xC0) >>> 6).toUInt32 <<< 6) ||| ((sextet4 b).toUInt32 &&& 0x3F)).toUInt8 = b :=
  everyByte (P := fun b => (((b >>> 2).toUInt32 <<< 2) ||| (b &&& 0x3).toUInt32).toUInt8 = b ∧
    ((((b &&& 0xF0) >>> 4).toUInt32 <<< 4) ||| (b &&& 0xF).toUInt32).toUInt8 = b ∧
    ((((b &&& 0xC0) >>> 6).toUInt32 <<< 6) ||| ((sextet4 b).toUInt32 &&& 0x3F)).toUInt8 = b) (by decide +kernel) b

theorem byte1Sextets (b1 b2 : UInt8) : byte1 (sextet1 b1).toUInt32 (sextet2 b1 b2).toUInt32 = b1 := by
  unfold byte1
  rw [(sextet2Parts b1 b2).2.1]
  exact (byteParts b1).1

theorem byte2Sextets (b1 b2 b3 : UInt8) : byte2 (sextet2 b1 b2).toUInt32 (sextet3 b2 b3).toUInt32 = b2 := by
  unfold byte2
  rw [(sextet2Parts b1 b2).2.2,(sextet3Parts b2 b3).2.1]
  exact (byteParts b2).2.1

theorem byte3Sextets (b2 b3 : UInt8) : byte3 (sextet3 b2 b3).toUInt32 (sextet4 b3).toUInt32 = b3 := by
  unfold byte3
  rw [(sextet3Parts b2 b3).2.2]
  exact (byteParts b3).2.2

theorem charCode {s : UInt8} (small : s < 64) : base256Char (base64Char s) = s.toUInt32 ∧ letter (base64Char s) = true := by
  have all : ∀ i : Fin 64, base256Char (base64Char (UInt8.ofNat i)) = (UInt8.ofNat i).toUInt32 ∧
      letter (base64Char (UInt8.ofNat i)) = true := by decide
  have here := all ⟨s.toNat,small⟩
  rwa [UInt8.ofNat_toNat] at here

/- The codes of the letters of an encoded text. -/
def sextets : Bytes → List Code
  | [] => []
  | [b1] => [(sextet1 b1).toUInt32,(sextet2 b1 0).toUInt32]
  | [b1,b2] => [(sextet1 b1).toUInt32,(sextet2 b1 b2).toUInt32,(sextet3 b2 0).toUInt32]
  | b1 :: b2 :: b3 :: rest =>
    (sextet1 b1).toUInt32 :: (sextet2 b1 b2).toUInt32 :: (sextet3 b2 b3).toUInt32 :: (sextet4 b3).toUInt32 :: sextets rest

theorem letterKept {s : UInt8} (small : s < 64) (rest : Text) :
    ((base64Char s :: rest).filter letter).map base256Char = s.toUInt32 :: (rest.filter letter).map base256Char := by
  rw [List.filter_cons_of_pos (charCode small).2,List.map_cons,(charCode small).1]

theorem paddingSkipped (rest : Text) : (padding :: rest).filter letter = rest.filter letter :=
  List.filter_cons_of_neg (by decide)

theorem encodedLetters (b : Bytes) : ((encodeLoop b).filter letter).map base256Char = sextets b := by
  induction b using encodeLoop.induct with
  | case1 => rfl
  | case2 b1 =>
    change ((base64Char (sextet1 b1) :: base64Char (sextet2 b1 0) :: [padding,padding]).filter letter).map base256Char = _
    rw [letterKept (lowParts b1).2.2.2.2.1,letterKept (sextet2Parts b1 0).1,paddingSkipped,paddingSkipped]
    rfl
  | case3 b1 b2 =>
    change ((base64Char (sextet1 b1) :: base64Char (sextet2 b1 b2) :: base64Char (sextet3 b2 0) ::
      [padding]).filter letter).map base256Char = _
    rw [letterKept (lowParts b1).2.2.2.2.1,letterKept (sextet2Parts b1 b2).1,letterKept (sextet3Parts b2 0).1,
      paddingSkipped]
    rfl
  | case4 b1 b2 b3 rest ih =>
    change ((base64Char (sextet1 b1) :: base64Char (sextet2 b1 b2) :: base64Char (sextet3 b2 b3) ::
      base64Char (sextet4 b3) :: encodeLoop rest).filter letter).map base256Char = _
    rw [letterKept (lowParts b1).2.2.2.2.1,letterKept (sextet2Parts b1 b2).1,letterKept (sextet3Parts b2 b3).1,
      letterKept (lowParts b3).2.2.2.2.2,ih]
    rfl

theorem groupsSextets (b : Bytes) : groups (sextets b) = b := by
  induction b using sextets.induct with
  | case1 => rfl
  | case2 b1 =>
    change [byte1 _ _] = _
    rw [byte1Sextets]
  | case3 b1 b2 =>
    change [byte1 _ _,byte2 _ _] = _
    rw [byte1Sextets,byte2Sextets]
  | case4 b1 b2 b3 rest ih =>
    change byte1 _ _ :: byte2 _ _ :: byte3 _ _ :: groups (sextets rest) = _
    rw [byte1Sextets,byte2Sextets,byte3Sextets,ih]

theorem groupsOneMore (b : Bytes) (code : Code) : groups (sextets b ++ [code]) = b ↔ b.length % 3 = 0 := by
  induction b using sextets.induct with
  | case1 => exact ⟨fun _ => rfl,fun _ => rfl⟩
  | case2 b1 =>
    refine ⟨fun same => ?_,nofun⟩
    have longer : 2 = 1 := congrArg List.length same
    contradiction
  | case3 b1 b2 =>
    refine ⟨fun same => ?_,nofun⟩
    have longer : 3 = 2 := congrArg List.length same
    contradiction
  | case4 b1 b2 b3 rest ih =>
    change byte1 _ _ :: byte2 _ _ :: byte3 _ _ :: groups (sextets rest ++ [code]) = _ ↔ (rest.length + 3) % 3 = 0
    rw [byte1Sextets,byte2Sextets,byte3Sextets,Nat.add_mod_right,← ih]
    simp

theorem castKept {text : Text} (short : text.length < 2 ^ 31) : text.take (toInt text.length).toNat = text := by
  have same : toInt text.length = text.length := by
    unfold toInt
    rw [Int.bmod_eq_of_le (by omega) (by omega)]
  rw [same,Int.toNat_natCast,List.take_length]

/- The text of an encoding comes back unless it ends, before its padding, outside the alphabet. Then the last group takes
one code too many, which a group without letters of its own does not show. -/
theorem roundTripExactly (b : Bytes) (room outLen : Int) (text noisy : Text) (encoded : encode b room = some text)
    (made : Noisy text noisy) (short : noisy.length < 2 ^ 31)
    (fits : base64ToBase256Len (stripPadding noisy).length ≤ outLen) :
    decode noisy outLen = some b ↔ b.length % 3 = 0 ∨ ¬ endsInNoise (stripPadding noisy) := by
  have text_ : encodeLoop b = text := by
    unfold encode at encoded
    split at encoded
    · exact Option.some.inj encoded
    · cases encoded
  have letters : ((stripPadding noisy).filter letter).map base256Char = sextets b := by
    rw [stripLetters,noisyLetters made,← text_,encodedLetters]
  unfold decode
  rw [castKept short]
  dsimp only
  rw [if_pos fits,Option.some.injEq,decodeLoopGroups _ _ (Nat.le_refl _),codesLetters,letters]
  split
  · next noise =>
    rw [groupsOneMore]
    exact ⟨.inl,fun holds => holds.resolve_right (not_not.mpr noise)⟩
  · next sound =>
    rw [List.append_nil,groupsSextets]
    exact ⟨fun _ => .inr sound,fun _ => rfl⟩

/- Two bytes, a line break in the middle of the text and one behind it. -/
theorem brokenLineDecoded : encode [102,111] 8 = some ['Z','m','8','='] ∧
    decode ['Z','\n','m','8','='] 8 = some [102,111] := by
  have encoded : encode [102,111] 8 = some ['Z','m','8','='] := by decide
  have made : Noisy ['Z','m','8','='] ['Z','\n','m','8','='] :=
    .keep _ (.noise _ (by decide) (.keep _ (.keep _ (.keep _ .nil))))
  have exactly_ := roundTripExactly [102,111] 8 8 _ _ encoded made (by decide) (by decide)
  exact ⟨encoded,exactly_.mpr (.inr (by decide))⟩

theorem trailingBreakDecoded : ¬ ∀ (b : Bytes) (room outLen : Int) (text noisy : Text), encode b room = some text →
    Noisy text noisy → base64ToBase256Len (stripPadding noisy).length ≤ outLen → decode noisy outLen = some b := by
  intro claim
  have made : Noisy ['Z','m','8','='] ['Z','m','8','=','\n'] :=
    .keep _ (.keep _ (.keep _ (.keep _ (.noise _ (by decide) .nil))))
  have back := claim [102,111] 8 8 _ _ (by decide) made (by decide)
  exact absurd back (by decide)

end Pjproject.Base64
