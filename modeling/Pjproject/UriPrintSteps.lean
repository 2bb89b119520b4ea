import Pjproject.UriPrint

/-! What each of the copying macros does to the buffer: whether it leaves the byte for the terminator alone, and what
becomes of a length that is counted as an int. -/
namespace Pjproject.Uri
open Lib.BoundedPrint

variable {size start : Nat} {unres : UInt8 → Bool} {str str1 str2 : List UInt8} {c : Cursor}

def piece (unres : UInt8 → Bool) (x : UInt8) : List UInt8 := if unres x then [x] else escapeOf x

/- The text that pj_strncpy2_escape is to write. -/
def escaped (unres : UInt8 → Bool) (src : List UInt8) : List UInt8 := src.flatMap (piece unres)

theorem pieceLength (unres : UInt8 → Bool) (x : UInt8) : (piece unres x).length = if unres x then 1 else 3 := by
  unfold piece
  split <;> rfl

theorem escapedCons (unres : UInt8 → Bool) (x : UInt8) (src : List UInt8) :
    escaped unres (x :: src) = piece unres x ++ escaped unres src := List.flatMap_cons

theorem escapedLonger (unres : UInt8 → Bool) (src : List UInt8) : src.length ≤ (escaped unres src).length := by
  induction src with
  | nil => exact Nat.le_refl 0
  | cons x =>
    have more : 1 ≤ (piece unres x).length := by
      rw [pieceLength]
      split <;> decide
    rw [escapedCons,List.length_append,List.length_cons]
    omega

theorem escapeLoopStep {dstEnd : Int} (x : UInt8) (src : List UInt8) {dst : Cursor} (within : dst.place ≤ dstEnd) :
    escapeLoop unres dstEnd (x :: src) dst =
      if dst.place + (piece unres x).length ≤ dstEnd then escapeLoop unres dstEnd src (dst.put (piece unres x))
      else (x :: src, dst) := by
  rw [escapeLoop,pieceLength]
  unfold piece
  by_cases plain : unres x = true
  · simp only [plain,if_true]
    by_cases full : dst.place = dstEnd
    · rw [if_pos full,if_neg (by omega)]
    · rw [if_neg full,if_pos (by omega)]
  · simp only [plain,Bool.false_eq_true,if_false]
    by_cases full : dst.place = dstEnd
    · rw [if_pos full,if_neg (by push_cast; omega)]
    · rw [if_neg full]
      by_cases fits : dst.place < dstEnd - 2
      · rw [if_pos fits,if_pos (by push_cast; omega)]
      · rw [if_neg fits,if_neg (by push_cast; omega)]

theorem escapeLoopEnds {dstEnd : Int} (src : List UInt8) {dst : Cursor} (within : dst.place ≤ dstEnd) :
    if dst.place + (escaped unres src).length ≤ dstEnd then escapeLoop unres dstEnd src dst = ([], dst.put (escaped unres src))
    else ∃ x rest bytes, escapeLoop unres dstEnd src dst = (x :: rest, dst.put bytes) ∧ dst.place + bytes.length ≤ dstEnd := by
  induction src generalizing dst with
  | nil =>
    rw [if_pos (by simpa [escaped] using within)]
    rfl
  | cons x src ih =>
    rw [escapedCons,List.length_append,escapeLoopStep x src within]
    by_cases fits : dst.place + (piece unres x).length ≤ dstEnd
    · rw [if_pos fits,putAppend]
      have rest := @ih (dst.put (piece unres x)) (by rw [putPlace]; exact fits)
      rw [putPlace] at rest
      by_cases all : dst.place + (piece unres x).length + (escaped unres src).length ≤ dstEnd
      · rw [if_pos all] at rest
        rw [if_pos (by push_cast; omega)]
        exact rest
      · rw [if_neg all] at rest
        rw [if_neg (by push_cast; omega)]
        obtain ⟨y,left,bytes,stopped,before⟩ := rest
        refine ⟨y,left,piece unres x ++ bytes,?_,?_⟩
        · rw [putAppend]
          exact stopped
        · rw [List.length_append]
          push_cast
          omega
    · rw [if_neg fits,if_neg (by push_cast; omega)]
      exact ⟨x,src,[],rfl,by simpa using within⟩

/- What pj_strncpy2_escape does with some room: all or nothing is said to be written. -/
structure Copies (dst : Cursor) (text : List UInt8) (max : Int) (r : Int × Cursor) : Prop where
  fits : text.length ≤ max → r = ((text.length : Int), dst.put text)
  beyond : max < text.length → r.1 = -1 ∧ ∃ bytes, r.2 = dst.put bytes ∧ (bytes = [] ∨ bytes.length ≤ max)

theorem strncpy2EscapeCopies (dst : Cursor) (src : List UInt8) (max : Int) (unres : UInt8 → Bool) :
    Copies dst (escaped unres src) max (strncpy2Escape dst src max unres) := by
  have longer := escapedLonger unres src
  unfold strncpy2Escape
  by_cases short : max < src.length
  · rw [if_pos short]
    refine ⟨fun fits => ?_,fun _ => ⟨rfl,[],rfl,.inl rfl⟩⟩
    omega
  · rw [if_neg short]
    have ends := @escapeLoopEnds unres (dst.place + max) src dst (by omega)
    by_cases fits : dst.place + (escaped unres src).length ≤ dst.place + max
    · rw [if_pos fits] at ends
      rw [ends]
      refine ⟨fun _ => ?_,fun beyond => by omega⟩
      dsimp only
      rw [putPlace]
      exact Prod.ext (by dsimp only; omega) rfl
    · rw [if_neg fits] at ends
      obtain ⟨x,rest,bytes,stopped,before⟩ := ends
      rw [stopped]
      exact ⟨fun also => absurd also (by omega),fun _ => ⟨rfl,bytes,rfl,.inr (by omega)⟩⟩

section Macros

theorem checkPrints (size start : Nat) (str : List UInt8) (some : str ≠ [] ∨ start < size) :
    Prints size (copyAdvanceCheck size str) start str.length false := by
  have goesOn : ∀ c : Cursor, c.place = start → start + str.length < size → copyAdvanceCheck size str c = .ok (c.put str) :=
    fun c here less => if_neg (by omega)
  refine ⟨?_,?_,?_,?_⟩
  · intro within none c here
    have less : start < size := some.resolve_left (not_not_intro (List.length_eq_zero_iff.mp none))
    rw [goesOn c here (by omega),List.length_eq_zero_iff.mp none]
    rfl
  · intro less c here inside
    exact ⟨_,goesOn c here less,by rw [putPlace]; omega,putInside inside (by omega) (by omega)⟩
  · intro same _ c here inside
    exact ⟨c,if_pos (by omega),inside⟩
  · intro _ more c here inside
    exact ⟨c,if_pos (by omega),inside⟩

variable (endbuf : Int)

theorem checkMoves (str : List UInt8) : Moves (copyAdvanceCheck endbuf str) str.length True := by
  refine ⟨fun c => ?_,fun c c' goes => ?_⟩
  · unfold copyAdvanceCheck
    split
    · exact fun _ member => member
    · exact putGrows c str
  · unfold copyAdvanceCheck at goes
    split at goes
    · cases goes
    · cases goes
      exact .inl ⟨putPlace c str,trivial⟩

theorem pairCheckSome (some : str2 ≠ []) (endbuf : Int) (str1 : List UInt8) (c : Cursor) :
    copyAdvancePairCheck endbuf str1 str2 c = if endbuf - c.place ≤ toInt (str1 ++ str2).length then .error c
      else .ok { c.put (str1 ++ str2) with place := c.place + toInt (str1 ++ str2).length } := by
  unfold copyAdvancePairCheck
  rw [if_pos some,toIntAdd,List.length_append]
  push_cast
  rfl

theorem pairCheckCounts (some : str2 ≠ []) (size : Nat) (str1 : List UInt8) :
    Counts size (copyAdvancePairCheck size str1 str2) (str1 ++ str2).length := by
  have more := List.length_pos_of_ne_nil some
  refine ⟨by rw [List.length_append]; omega,?_,?_⟩
  · intro c refused
    rw [pairCheckSome some]
    exact if_pos refused
  · intro c less
    rw [pairCheckSome some,if_neg (Int.not_le.mpr less)]
    refine ⟨_,rfl,rfl,putGrows c _,?_,?_⟩
    · exact fun _ inside place fits => putInside inside place fits
    · intro more' inside
      exact putOutside (List.append_ne_nil_of_right_ne_nil str1 some) (by omega) inside

theorem pairQuoteCounts (size : Nat) (str1 str2 : List UInt8) (quotebegin quoteend : UInt8) :
    Counts size (copyAdvancePairQuote size str1 str2 quotebegin quoteend) (str1 ++ quotebegin :: str2 ++ [quoteend]).length := by
  have length : ((str1 ++ quotebegin :: str2 ++ [quoteend]).length : Int) = str1.length + str2.length + 2 := by
    simp only [List.length_append,List.length_cons,List.length_nil]
    push_cast
    omega
  have printed : toInt (str1.length + toInt str2.length + 2) = toInt (str1 ++ quotebegin :: str2 ++ [quoteend]).length := by
    rw [length,Int.add_right_comm,toIntAdd,Int.add_right_comm]
  refine ⟨by omega,?_,?_⟩
  · intro c refused
    unfold copyAdvancePairQuote
    rw [printed]
    exact if_pos refused
  · intro c less
    unfold copyAdvancePairQuote
    rw [printed]
    refine ⟨_,if_neg (Int.not_le.mpr less),rfl,fun w member => List.mem_append_left _ (putGrows c _ member),?_,?_⟩
    · intro short inside place fits w member
      rw [toIntSmall short] at less member
      rcases List.mem_append.mp member with copied | last
      · refine putInside inside place ?_ w copied
        simp only [List.length_append,List.length_cons]
        push_cast
        omega
      · rw [List.mem_singleton.mp last]
        dsimp only
        omega
    · intro more inside
      have copied : (c.put (str1 ++ quotebegin :: str2)).Inside size := fun w member => inside w (List.mem_append_left _ member)
      refine putOutside (by simp) ?_ copied
      simp only [List.length_append,List.length_cons]
      push_cast
      omega

theorem copiesInside {dst : Cursor} {text : List UInt8} {max : Int} {r : Int × Cursor} (copies : Copies dst text max r)
    (inside : dst.Inside size) (start : 0 ≤ dst.place) (room : dst.place + max = size) : r.2.Inside size := by
  by_cases fits : text.length ≤ max
  · rw [copies.fits fits]
    exact putInside inside start (by omega)
  · obtain ⟨_,bytes,same,short⟩ := copies.beyond (Int.lt_of_not_ge fits)
    rw [same]
    rcases short with rfl | short
    · exact inside
    · exact putInside inside start (by omega)

theorem copiesGrows {dst : Cursor} {text : List UInt8} {max : Int} {r : Int × Cursor} (copies : Copies dst text max r) :
    dst.writes ⊆ r.2.writes := by
  by_cases fits : text.length ≤ max
  · rw [copies.fits fits]
    exact putGrows dst text
  · obtain ⟨_,bytes,same,_⟩ := copies.beyond (Int.lt_of_not_ge fits)
    rw [same]
    exact putGrows dst bytes

theorem escapePrints (bounded : Short size start (escaped unres str).length) :
    Prints size (copyAdvanceEscape size str unres) start (escaped unres str).length true := by
  have goesOn : ∀ c : Cursor, c.place = start → start + (escaped unres str).length ≤ size →
      copyAdvanceEscape size str unres c = .ok (c.put (escaped unres str)) := by
    intro c here fits
    have short := bounded fits
    unfold copyAdvanceEscape
    rw [(strncpy2EscapeCopies c str (size - c.place) unres).fits (by omega)]
    dsimp only
    rw [toIntSmall short,if_neg (by omega)]
    refine congrArg Except.ok ?_
    rw [← putPlace]
  refine ⟨?_,?_,?_,?_⟩
  · intro within none c here
    rw [goesOn c here (by omega),List.length_eq_zero_iff.mp none]
    rfl
  · intro less c here inside
    exact ⟨_,goesOn c here (by omega),by rw [putPlace]; omega,putInside inside (by omega) (by omega)⟩
  · intro same _ c here inside
    exact ⟨_,goesOn c here (by omega),by rw [putPlace]; omega,putInside inside (by omega) (by omega)⟩
  · intro within more c here inside
    have copies := strncpy2EscapeCopies c str (size - c.place) unres
    have refused := (copies.beyond (by omega)).1
    refine ⟨(strncpy2Escape c str (size - c.place) unres).2,?_,copiesInside copies inside (by omega) (by omega)⟩
    unfold copyAdvanceEscape
    dsimp only
    rw [refused]
    exact if_pos (by decide)

theorem escapeMoves (str : List UInt8) (unres : UInt8 → Bool) :
    Moves (copyAdvanceEscape endbuf str unres) (escaped unres str).length ((escaped unres str).length < 2 ^ 31) := by
  refine ⟨fun c => ?_,fun c c' goes => ?_⟩
  · have grows := copiesGrows (strncpy2EscapeCopies c str (endbuf - c.place) unres)
    unfold copyAdvanceEscape
    dsimp only
    split <;> exact grows
  · have copies := strncpy2EscapeCopies c str (endbuf - c.place) unres
    unfold copyAdvanceEscape at goes
    dsimp only at goes
    by_cases fits : ((escaped unres str).length : Int) ≤ endbuf - c.place
    · rw [copies.fits fits] at goes
      dsimp only at goes
      split at goes
      · cases goes
      · cases goes
        dsimp only
        rcases toIntShort (escaped unres str).length with ⟨same,short⟩ | ⟨less,long⟩
        · exact .inl ⟨by omega,short⟩
        · exact .inr ⟨by omega,long⟩
    · rw [(copies.beyond (Int.lt_of_not_ge fits)).1] at goes
      cases goes

/- The check before the copy is for the text without its escapes. -/
def escapes (unres : UInt8 → Bool) (str : List UInt8) : Bool := str.length < (escaped unres str).length

theorem pairEscapeGoes (some : str2 ≠ []) (here : c.place = start) (raw : start + str1.length + str2.length < size)
    (fits : start + (str1 ++ escaped unres str2).length ≤ size)
    (bounded : Short size start (str1 ++ escaped unres str2).length) :
    copyAdvancePairEscape size str1 str2 unres c = .ok (c.put (str1 ++ escaped unres str2)) := by
  have place := putPlace c (str1 ++ escaped unres str2)
  have all := bounded fits
  rw [List.length_append] at fits all place
  have short : (escaped unres str2).length < 2 ^ 31 := by omega
  have short' : (escaped unres str2).length + str1.length < 2 ^ 31 := by omega
  have printed := toIntSmall short'
  push_cast at printed
  unfold copyAdvancePairEscape
  rw [if_pos some,if_neg (by omega),(strncpy2EscapeCopies (c.put str1) str2 _ unres).fits (by omega),putAppend]
  dsimp only
  rw [toIntSmall short,if_neg (by omega),printed,← putAppend]
  refine congrArg Except.ok ?_
  push_cast at place
  rw [Int.add_comm (escaped unres str2).length,← Int.add_assoc,Int.add_assoc,← place]

theorem pairEscapePrints (some : str2 ≠ []) (bounded : Short size start (str1 ++ escaped unres str2).length) :
    Prints size (copyAdvancePairEscape size str1 str2 unres) start (str1 ++ escaped unres str2).length (escapes unres str2) := by
  have longer := escapedLonger unres str2
  have length : (str1 ++ escaped unres str2).length = str1.length + (escaped unres str2).length := List.length_append
  have more := List.length_pos_of_ne_nil some
  -- the step stops, at its own check or in the copy
  have refuses : ∀ c : Cursor, c.place = start → c.Inside size →
      size ≤ start + str1.length + str2.length ∨ size < start + (str1 ++ escaped unres str2).length →
        Stops size (copyAdvancePairEscape size str1 str2 unres c) := by
    intro c here inside short
    unfold copyAdvancePairEscape
    rw [if_pos some]
    by_cases raw : (size : Int) - c.place ≤ str1.length + str2.length
    · exact ⟨c,if_pos raw,inside⟩
    · have copies := strncpy2EscapeCopies (c.put str1) str2 (size - c.place - str1.length) unres
      have refused := (copies.beyond (by omega)).1
      have inside' : (c.put str1).Inside size := putInside inside (by omega) (by omega)
      refine ⟨_,?_,copiesInside copies inside' (by rw [putPlace]; omega) (by rw [putPlace]; omega)⟩
      rw [if_neg raw]
      dsimp only
      rw [refused]
      exact if_pos (by decide)
  refine ⟨?_,?_,?_,?_⟩
  · intro _ none
    omega
  · intro less c here inside
    refine ⟨_,pairEscapeGoes some here (by omega) (by omega) bounded,by rw [putPlace]; omega,?_⟩
    exact putInside inside (by omega) (by omega)
  · intro same _ c here inside
    unfold escapes
    by_cases grown : str2.length < (escaped unres str2).length
    · rw [decide_eq_true grown,if_pos rfl]
      refine ⟨_,pairEscapeGoes some here (by omega) (by omega) bounded,by rw [putPlace]; omega,?_⟩
      exact putInside inside (by omega) (by omega)
    · rw [decide_eq_false grown]
      exact refuses c here inside (.inl (by omega))
  · intro _ more c here inside
    exact refuses c here inside (.inr more)

theorem pairEscapeMoves (some : str2 ≠ []) (endbuf : Int) (str1 : List UInt8) (unres : UInt8 → Bool) :
    Moves (copyAdvancePairEscape endbuf str1 str2 unres) (str1 ++ escaped unres str2).length
      ((str1 ++ escaped unres str2).length < 2 ^ 31) := by
  refine ⟨fun c => ?_,fun c c' goes => ?_⟩
  · have copied := copiesGrows (strncpy2EscapeCopies (c.put str1) str2 (endbuf - c.place - str1.length) unres)
    have grows : c.writes ⊆ (strncpy2Escape (c.put str1) str2 (endbuf - c.place - str1.length) unres).2.writes :=
      fun w member => copied (putGrows c str1 member)
    unfold copyAdvancePairEscape
    rw [if_pos some]
    dsimp only
    split
    · exact fun _ member => member
    · split <;> exact grows
  · have copies := strncpy2EscapeCopies (c.put str1) str2 (endbuf - c.place - str1.length) unres
    have length : (str1 ++ escaped unres str2).length = (escaped unres str2).length + str1.length := by
      rw [List.length_append,Nat.add_comm]
    unfold copyAdvancePairEscape at goes
    rw [if_pos some] at goes
    dsimp only at goes
    split at goes
    · cases goes
    · by_cases fits : ((escaped unres str2).length : Int) ≤ endbuf - c.place - str1.length
      · rw [copies.fits fits] at goes
        dsimp only at goes
        split at goes
        · cases goes
        · cases goes
          dsimp only
          rw [Int.add_comm (toInt _),toIntAdd,Int.add_comm (str1.length : Int),← Int.natCast_add,← length]
          rcases toIntShort (str1 ++ escaped unres str2).length with ⟨same,short⟩ | ⟨less,long⟩
          · exact .inl ⟨by omega,short⟩
          · exact .inr ⟨by omega,long⟩
      · rw [(copies.beyond (Int.lt_of_not_ge fits)).1] at goes
        cases goes

theorem numberAssumes (size start room : Nat) (str : List UInt8) (val : Int) :
    Assumes size (printNumber size room str val) start room (str ++ utoa val).length := by
  have goesOn : ∀ c : Cursor, c.place = start → start + room ≤ size →
      ∃ c', printNumber size room str val c = .ok c' ∧ c'.place = (start + (str ++ utoa val).length : Nat) ∧
        c'.writes = (c.put (str ++ utoa val)).writes ++ [(c'.place, 0)] := by
    intro c here roomy
    refine ⟨_,if_neg (by omega),?_,rfl⟩
    have place := putPlace c (str ++ utoa val)
    dsimp only
    omega
  refine ⟨?_,?_,?_⟩
  · intro short c here inside
    exact ⟨c,if_pos (by omega),inside⟩
  · intro roomy fits c here inside
    obtain ⟨c',same,place,writes⟩ := goesOn c here roomy
    refine ⟨c',same,place,fun w member => ?_⟩
    rw [writes] at member
    rcases List.mem_append.mp member with copied | last
    · exact putInside inside (by omega) (by omega) w copied
    · rw [List.mem_singleton.mp last]
      dsimp only
      omega
  · intro roomy full c here
    obtain ⟨c',same,place,writes⟩ := goesOn c here roomy
    rw [same]
    intro inside
    have last := inside (c'.place, 0) (by rw [show (reached (.ok c')).writes = c'.writes from rfl,writes]; exact List.mem_append_right _ List.mem_cons_self)
    dsimp only at last
    omega

theorem numberMoves (room : Nat) (str : List UInt8) (val : Int) :
    Moves (printNumber endbuf room str val) (str ++ utoa val).length True := by
  refine ⟨fun c => ?_,fun c c' goes => ?_⟩
  · unfold printNumber
    split
    · exact fun _ member => member
    · exact fun w member => List.mem_append_left _ (putGrows c _ member)
  · unfold printNumber at goes
    split at goes
    · cases goes
    · cases goes
      exact .inl ⟨putPlace c _,trivial⟩

section Params

def valueText (spec : UInt8 → Bool) (value : List UInt8) : List UInt8 :=
  if value ≠ [] then 0x3D :: if value.head? = some 0x22 then value else escaped spec value else []

def paramText (spec : UInt8 → Bool) (sep : UInt8) (p : Param) : List UInt8 :=
  sep :: (escaped spec p.name ++ valueText spec p.value)

def paramsText (spec : UInt8 → Bool) : UInt8 → List Param → List UInt8
  | _, [] => []
  | sep, p :: rest => paramText spec sep p ++ paramsText spec (if sep = 0x3F then 0x26 else sep) rest

/- Whether the last copy of a parameter leaves nothing for the terminator. -/
def paramLoose (p : Param) : Bool := if p.value ≠ [] then p.value.head? ≠ some 0x22 else p.name ≠ []

def paramsLoose (paramList : List Param) : Bool := paramList.getLast?.any paramLoose

/- The copies of a parameter that are counted, each where it begins. -/
def ValueShort (size start : Nat) (spec : UInt8 → Bool) (value : List UInt8) : Prop :=
  value ≠ [] → value.head? ≠ some 0x22 → Short size (start + 1) (escaped spec value).length

def ParamShort (size start : Nat) (spec : UInt8 → Bool) (p : Param) : Prop :=
  Short size (start + 1) (escaped spec p.name).length ∧ ValueShort size (start + 1 + (escaped spec p.name).length) spec p.value

def ParamsShort (size : Nat) (spec : UInt8 → Bool) : Nat → UInt8 → List Param → Prop
  | _, _, [] => True
  | start, sep, p :: rest => ParamShort size start spec p ∧
    ParamsShort size spec (start + (paramText spec sep p).length) (if sep = 0x3F then 0x26 else sep) rest

def valuePrint (endbuf : Int) (spec : UInt8 → Bool) (value : List UInt8) : Step := fun c =>
  if value ≠ [] then
    (copyAdvanceCheck endbuf [0x3D] c).bind
      (if value.head? = some 0x22 then copyAdvanceCheck endbuf value else copyAdvanceEscape endbuf value spec)
  else .ok c

variable (endbuf : Int)

theorem paramPrintSteps (spec : UInt8 → Bool) (sep : UInt8) (p : Param) :
    paramPrint endbuf spec sep p = fun c => (copyAdvanceCheck endbuf [sep] c).bind fun c =>
      (copyAdvanceEscape endbuf p.name spec c).bind (valuePrint endbuf spec p.value) := by
  funext c
  unfold paramPrint valuePrint
  by_cases some : p.value ≠ []
  · by_cases quoted : p.value.head? = .some 0x22
    · simp only [if_pos some,if_pos quoted]
      rfl
    · simp only [if_pos some,if_neg quoted]
      rfl
  · simp only [if_neg some]
    rfl

variable {spec : UInt8 → Bool} {value : List UInt8} {sep : UInt8}

theorem escapedNone : (escaped unres str).length = 0 ↔ str = [] := by
  have longer := escapedLonger unres str
  constructor
  · intro none
    exact List.length_eq_zero_iff.mp (by omega)
  · rintro rfl
    rfl

theorem valueNone : (valueText spec value).length = 0 ↔ value = [] := by
  unfold valueText
  split
  next some => exact ⟨fun none => absurd none (Nat.succ_ne_zero _),fun none => absurd none some⟩
  next none => exact ⟨fun _ => not_not.mp none,fun _ => rfl⟩

theorem valuePrints (bounded : ValueShort size start spec value) :
    Prints size (valuePrint size spec value) start (valueText spec value).length (value.head? ≠ some 0x22) := by
  unfold valuePrint valueText
  have one := checkPrints size start [0x3D] (.inl (List.cons_ne_nil _ _))
  by_cases some : value ≠ []
  · simp only [if_pos some]
    by_cases quoted : value.head? = .some 0x22
    · simp only [if_pos quoted]
      refine (one.seq fun _ => checkPrints _ _ _ (.inl some)).alike ?_ ?_
      · rw [List.length_singleton,List.length_cons,Nat.add_comm]
      · simp [quoted]
    · simp only [if_neg quoted]
      refine (one.seq fun _ => escapePrints (bounded some quoted)).alike ?_ ?_
      · rw [List.length_singleton,List.length_cons,Nat.add_comm]
      · rw [if_neg (fun none => some (escapedNone.mp none))]
        simp [quoted]
  · simp only [if_neg some]
    exact skipPrints size start _

theorem valueMoves (spec : UInt8 → Bool) (value : List UInt8) :
    Moves (valuePrint endbuf spec value) (valueText spec value).length True := by
  unfold valuePrint valueText
  by_cases some : value ≠ []
  · simp only [if_pos some,List.length_cons]
    rw [Nat.add_comm]
    split
    · exact ((checkMoves endbuf [0x3D]).seq (checkMoves endbuf value)).imp fun _ => trivial
    · exact ((checkMoves endbuf [0x3D]).seq (escapeMoves endbuf value spec)).imp fun _ => trivial
  · simp only [if_neg some]
    exact skipMoves

theorem paramPrints (p : Param) (bounded : ParamShort size start spec p) :
    Prints size (paramPrint size spec sep p) start (paramText spec sep p).length (paramLoose p) := by
  rw [paramPrintSteps]
  unfold paramText
  have one := checkPrints size start [sep] (.inl (List.cons_ne_nil _ _))
  refine (one.seq fun _ => (escapePrints bounded.1).seq fun _ => valuePrints bounded.2).alike ?_ ?_
  · rw [List.length_singleton,List.length_cons,List.length_append,Nat.add_comm]
  · unfold paramLoose
    by_cases some : p.value ≠ []
    · have shown : (valueText spec p.value).length ≠ 0 := mt valueNone.mp some
      rw [if_neg (by omega),if_neg shown,if_pos some]
    · have none : (valueText spec p.value).length = 0 := valueNone.mpr (not_not.mp some)
      rw [none,if_neg some,Nat.add_zero,if_pos rfl]
      by_cases name : p.name = []
      · rw [if_pos (escapedNone.mpr name),name]
        rfl
      · rw [if_neg (mt escapedNone.mp name),decide_eq_true name]

theorem paramMoves (spec : UInt8 → Bool) (sep : UInt8) (p : Param) :
    Moves (paramPrint endbuf spec sep p) (paramText spec sep p).length True := by
  have steps := (checkMoves endbuf [sep]).seq ((escapeMoves endbuf p.name spec).seq (valueMoves endbuf spec p.value))
  rw [paramPrintSteps]
  unfold paramText
  rw [List.length_cons,List.length_append,Nat.add_comm]
  exact steps.imp fun _ => trivial

theorem paramLoopPrints (paramList : List Param) (bounded : ParamsShort size spec start sep paramList) :
    Prints size (paramLoop size spec sep paramList) start (paramsText spec sep paramList).length (paramsLoose paramList) := by
  induction paramList generalizing sep start with
  | nil => exact skipPrints size start false
  | cons p rest ih =>
    rw [paramsText,List.length_append]
    refine ((paramPrints p bounded.1).seq fun _ => ih bounded.2).alike rfl ?_
    cases rest with
    | nil => rfl
    | cons =>
      rw [if_neg (fun none => nomatch none)]
      rfl

theorem paramsSmall (paramList : List Param) (bounded : size < 2 ^ 31 ∨ (paramsText spec sep paramList).length < 2 ^ 31) :
    ParamsShort size spec start sep paramList := by
  induction paramList generalizing sep start with
  | nil => trivial
  | cons p rest ih =>
    rw [paramsText,List.length_append] at bounded
    refine ⟨⟨?_,fun some quoted => ?_⟩,ih (by omega)⟩
    · unfold paramText at bounded
      rw [List.length_cons,List.length_append] at bounded
      intro fits
      omega
    · unfold paramText valueText at bounded
      rw [List.length_cons,List.length_append,if_pos some,if_neg quoted,List.length_cons] at bounded
      intro fits
      omega

theorem paramLoopMoves (spec : UInt8 → Bool) (sep : UInt8) (paramList : List Param) :
    Moves (paramLoop endbuf spec sep paramList) (paramsText spec sep paramList).length True := by
  induction paramList generalizing sep with
  | nil => exact skipMoves
  | cons p rest ih =>
    rw [paramsText,List.length_append]
    exact ((paramMoves endbuf spec sep p).seq (ih _)).imp fun _ => trivial

end Params

end Macros

end Pjproject.Uri
