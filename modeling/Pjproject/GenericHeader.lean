import Pjproject.MultipartHeaders

/-! The value of a generic header of sip_parser.c, which may be folded over several lines. Of the scanner only the rest
of the buffer is kept; the line counter is left out. -/
namespace Pjproject.GenericHeader
open Multipart

section Model

/- parse_generic_string_hdr. A round reads a fraction into hvalue and appends the next one, and reads two bytes at
least. -/
def hvalueRounds (beyond : Nat) : Nat → Text → Text → Except Text (Text × Text)
  | 0, _, s => .error s
  | n + 1, hvalue, s =>
    if notNewline (cur s) then do
      let (hvalue, s) ← scanGet notNewline s
      if isEof beyond s || isNewline (cur s) then return (hvalue, ← parseHdrEnd beyond s)
      -- mangled, get next fraction
      let (next, s) ← scanGet notNewline s
      hvalueRounds beyond n (hvalue ++ [32] ++ next) s
    else return (hvalue, ← parseHdrEnd beyond s)

def genericStringHdr (beyond : Nat) (s : Text) : Except Text (Text × Text) :=
  hvalueRounds beyond (s.length + 1) [] s

/- A further physical line of a value: the newline before it, and its text, which begins with a space or a tab. -/
structure Fold where
  newline : Text
  line : Text

structure Fold.Proper (fold : Fold) : Prop where
  newline : fold.newline = crlf ∨ fold.newline = [lf] ∨ fold.newline = [cr]
  begins : isSpace (cur fold.line) = true
  line : ∀ c ∈ fold.line, notNewline c = true

def further (folds : List Fold) (tail : Text) : Text :=
  folds.foldr (fun fold rest => fold.newline ++ (fold.line ++ rest)) tail

/- What follows the value: a newline and a line that is no continuation, or nothing. -/
inductive Closes (beyond : Nat) : Text → Prop where
  | newline {newline rest : Text} (kind : newline = crlf ∨ newline = [lf] ∨ newline = [cr])
      (start : isSpace (cur rest) = false) (single : newline = [cr] → cur rest ≠ lf)
      (inside : beyond ≤ rest.length) : Closes beyond (newline ++ rest)
  | eof (all : beyond = 0) : Closes beyond []

/- The value is read behind the colon and the space that is skipped there. -/
def readValue (beyond : Nat) (first : Text) (folds : List Fold) (tail : Text) : Except Text (Text × Text) :=
  genericStringHdr beyond (skipWhitespace (first ++ further folds tail))

def unindent (line : Text) : Text := line.dropWhile isSpace
def trim (line : Text) : Text := (unindent line).rdropWhile isSpace
def trailing (line : Text) : Text := (unindent line).rtakeWhile isSpace

def Blank (line : Text) : Prop := unindent line = []

instance : DecidablePred Blank := fun line => inferInstanceAs (Decidable (unindent line = []))

/- The trimmed contents of the lines, joined by single spaces. -/
def unfolded : List Text → Text
  | [] => []
  | [line] => trim line
  | line :: next :: rest => trim line ++ 32 :: unfolded (next :: rest)

/- What the rounds make of the lines without their indentation: a round that starts forgets what was read before. -/
def gathered : Text → List Text → Text
  | hvalue, [] => hvalue
  | hvalue, [] :: _ => hvalue
  | _, [c :: p] => c :: p
  | _, (c :: p) :: [] :: _ => c :: p
  | _, (c :: p) :: (d :: q) :: rest => gathered (c :: p ++ [32] ++ (d :: q)) rest

end Model

section Reading

variable {beyond : Nat} {tail : Text} {folds : List Fold}

theorem newlineStart {newline : Text} (kind : newline = crlf ∨ newline = [lf] ∨ newline = [cr]) (rest : Text) :
    isNewline (cur (newline ++ rest)) = true := by
  rcases kind with rfl | rfl | rfl <;> rfl

theorem newlineNoSpace {c : UInt8} (newline : isNewline c = true) : isSpace c = false ∧ notNewline c = false := by
  unfold isNewline at newline
  simp only [Bool.or_eq_true,decide_eq_true_eq] at newline
  rcases newline with rfl | rfl <;> exact ⟨rfl,rfl⟩

theorem eatNewlineKind {newline rest : Text} (kind : newline = crlf ∨ newline = [lf] ∨ newline = [cr])
    (single : newline = [cr] → cur rest ≠ lf) : eatNewline (newline ++ rest) = rest := by
  rcases kind with rfl | rfl | rfl
  · rfl
  · rfl
  · cases rest with
    | nil => rfl
    | cons c =>
      have other : c ≠ lf := single rfl
      simp [eatNewline,eat,other]

theorem Closes.stops (closes : Closes beyond tail) : isSpace (cur tail) = false ∧ notNewline (cur tail) = false := by
  cases closes with
  | newline kind => exact newlineNoSpace (newlineStart kind _)
  | eof => exact ⟨rfl,rfl⟩

theorem Closes.skip (closes : Closes beyond tail) : skipWhitespace tail = tail := by
  have stays := dropSpaces closes.stops.1
  unfold skipWhitespace
  dsimp only
  rw [stays]
  cases closes with
  | newline kind start single => rw [newlineStart kind,eatNewlineKind kind single,start]; rfl
  | eof => rfl

theorem Closes.inside (closes : Closes beyond tail) : beyond ≤ tail.length := by
  cases closes with
  | newline =>
    rw [List.length_append]
    omega
  | eof => omega

theorem Closes.ends (closes : Closes beyond tail) :
    (isEof beyond tail || isNewline (cur tail)) = true ∧ ∃ rest, parseHdrEnd beyond tail = .ok rest := by
  cases closes with
  | newline kind =>
    have here := newlineStart kind
    refine ⟨by rw [here,Bool.or_true],?_⟩
    unfold parseHdrEnd
    split
    · exact ⟨_,rfl⟩
    · rcases kind with rfl | rfl | rfl <;> exact ⟨_,rfl⟩
  | eof =>
    have eof : isEof beyond [] = true := decide_eq_true (Nat.zero_le _)
    refine ⟨by rw [eof]; rfl,[],?_⟩
    unfold parseHdrEnd
    rw [eof]
    rfl

theorem Fold.Proper.nonempty {fold : Fold} (proper : fold.Proper) : fold.line ≠ [] := by
  intro empty
  have begins := proper.begins
  rw [empty] at begins
  exact absurd begins (by decide)

theorem furtherNil (tail : Text) : further [] tail = tail := rfl

theorem furtherCons (fold : Fold) (folds : List Fold) (tail : Text) :
    further (fold :: folds) tail = fold.newline ++ (fold.line ++ further folds tail) := rfl

theorem furtherStops (closes : Closes beyond tail) (proper : ∀ fold ∈ folds, fold.Proper) :
    isSpace (cur (further folds tail)) = false ∧ notNewline (cur (further folds tail)) = false := by
  cases folds with
  | nil => exact closes.stops
  | cons fold => exact newlineNoSpace (newlineStart (proper fold (List.mem_cons_self ..)).newline _)

theorem unindentAppend {line rest : Text} (stop : isSpace (cur rest) = false) :
    (line ++ rest).dropWhile isSpace = unindent line ++ rest := by
  induction line with
  | nil => exact dropSpaces stop
  | cons c line ih =>
    cases space : isSpace c with
    | true => simpa [unindent,space] using ih
    | false => simp [unindent,space]

theorem skipFold (closes : Closes beyond tail) {fold : Fold}
    (proper : ∀ f ∈ fold :: folds, Fold.Proper f) :
    skipWhitespace (further (fold :: folds) tail) = unindent fold.line ++ further folds tail := by
  have here := proper fold (List.mem_cons_self ..)
  have stays := dropSpaces (furtherStops closes proper).1
  have start : cur (fold.line ++ further folds tail) = cur fold.line := curAppend here.nonempty
  have single : fold.newline = [cr] → cur (fold.line ++ further folds tail) ≠ lf := by
    intro _ clash
    have begins := here.begins
    rw [← start,clash] at begins
    exact absurd begins (by decide)
  unfold skipWhitespace
  dsimp only
  rw [stays,furtherCons,newlineStart here.newline,eatNewlineKind here.newline single,start,here.begins]
  exact unindentAppend (furtherStops closes fun f mem => proper f (List.mem_cons_of_mem fold mem)).1

theorem unindentStart {line : Text} {c : UInt8} {p : Text} (shape : unindent line = c :: p) : isSpace c = false := by
  have stop := List.head_dropWhile_not isSpace (l := line) (show unindent line ≠ [] by rw [shape]; simp)
  simpa [show line.dropWhile isSpace = c :: p from shape] using stop

theorem unindentChars {line : Text} (chars : ∀ c ∈ line, notNewline c = true) :
    ∀ c ∈ unindent line, notNewline c = true :=
  fun c mem => chars c (List.dropWhile_subset isSpace mem)

theorem scanFraction (closes : Closes beyond tail) (proper : ∀ fold ∈ folds, Fold.Proper fold)
    {c : UInt8} {p : Text} (chars : ∀ d ∈ c :: p, notNewline d = true) :
    scanGet notNewline (c :: p ++ further folds tail) = .ok (c :: p, skipWhitespace (further folds tail)) :=
  scanToken _ (by simp) chars (furtherStops closes proper).2

theorem fractionGoesOn (closes : Closes beyond tail) {c : UInt8} {p : Text}
    (char : notNewline c = true) :
    (isEof beyond (c :: p ++ further folds tail) || isNewline (cur (c :: p ++ further folds tail))) = false := by
  have long : beyond < (c :: p ++ further folds tail).length := by
    have inside := closes.inside
    have suffix : tail.length ≤ (further folds tail).length := by
      induction folds with
      | nil => exact Nat.le_refl _
      | cons =>
        rw [furtherCons,List.length_append,List.length_append]
        omega
    rw [List.length_append,List.length_cons]
    omega
  have eof : isEof beyond (c :: p ++ further folds tail) = false := decide_eq_false (by omega)
  have newline : isNewline (cur (c :: p ++ further folds tail)) = false := by
    have both : notNewline c = (c ≠ 0 && !isNewline c) := rfl
    rw [both,Bool.and_eq_true] at char
    simpa [cur] using char.2
  rw [eof,newline]
  rfl

theorem furtherEnds (closes : Closes beyond tail) (proper : ∀ fold ∈ folds, Fold.Proper fold) :
    (isEof beyond (further folds tail) || isNewline (cur (further folds tail))) = true ∧
      ∃ rest, parseHdrEnd beyond (further folds tail) = .ok rest := by
  cases folds with
  | nil => exact closes.ends
  | cons fold =>
    have kind := (proper fold (List.mem_cons_self ..)).newline
    rw [furtherCons]
    refine ⟨by rw [newlineStart kind,Bool.or_true],?_⟩
    unfold parseHdrEnd
    split
    · exact ⟨_,rfl⟩
    · rcases kind with kind | kind | kind <;> rw [kind] <;> exact ⟨_,rfl⟩

theorem roundsEnd (closes : Closes beyond tail) (proper : ∀ fold ∈ folds, Fold.Proper fold)
    (fuel : Nat) (hvalue : Text) :
    ∃ rest, hvalueRounds beyond (fuel + 1) hvalue (further folds tail) = .ok (hvalue, rest) := by
  obtain ⟨rest,ended⟩ := (furtherEnds closes proper).2
  refine ⟨rest,?_⟩
  simp [hvalueRounds,(furtherStops closes proper).2,ended]

section Round

variable {s next after value fraction rest : Text} {fuel : Nat} (hvalue : Text)
  (start : notNewline (cur s) = true) (first : scanGet notNewline s = .ok (value, next))
include start first

theorem roundLast (ends : (isEof beyond next || isNewline (cur next)) = true)
    (ended : parseHdrEnd beyond next = .ok rest) :
    hvalueRounds beyond (fuel + 1) hvalue s = .ok (value, rest) := by
  simp only [hvalueRounds,start,if_true,first,bind,Except.bind,ends,ended]
  rfl

theorem roundNext (more : (isEof beyond next || isNewline (cur next)) = false)
    (second : scanGet notNewline next = .ok (fraction, after)) :
    hvalueRounds beyond (fuel + 1) hvalue s = hvalueRounds beyond fuel (value ++ [32] ++ fraction) after := by
  simp only [hvalueRounds,start,if_true,first,bind,Except.bind,more,second]
  rfl

end Round

theorem roundsGather (closes : Closes beyond tail) (proper : ∀ fold ∈ folds, Fold.Proper fold)
    {line : Text} (chars : ∀ c ∈ line, notNewline c = true) {fuel : Nat} (enough : folds.length < fuel)
    (hvalue : Text) : ∃ rest, hvalueRounds beyond fuel hvalue (unindent line ++ further folds tail) =
      .ok (gathered hvalue (unindent line :: folds.map (unindent ∘ Fold.line)), rest) := by
  induction fuel generalizing folds line hvalue with
  | zero => omega
  | succ fuel ih =>
    have text := unindentChars chars
    cases here : unindent line with
    | nil => exact roundsEnd closes proper fuel hvalue
    | cons c p =>
      rw [here] at text
      have first := scanFraction closes proper text
      have start : notNewline (cur (c :: p ++ further folds tail)) = true := text c (List.mem_cons_self ..)
      cases folds with
      | nil =>
        obtain ⟨ends,rest,ended⟩ := closes.ends
        rw [furtherNil,closes.skip,← furtherNil tail] at first
        exact ⟨rest,roundLast hvalue start first ends ended⟩
      | cons fold folds =>
        have kept : ∀ f ∈ folds, Fold.Proper f := fun f mem => proper f (List.mem_cons_of_mem fold mem)
        rw [skipFold closes proper] at first
        cases second : unindent fold.line with
        | nil =>
          rw [second] at first
          obtain ⟨ends,rest,ended⟩ := furtherEnds closes kept
          exact ⟨rest,by simpa [second,gathered] using roundLast hvalue start first ends ended⟩
        | cons d q =>
          have chars := unindentChars (proper fold (List.mem_cons_self ..)).line
          rw [second] at first chars
          have more := @fractionGoesOn _ _ folds closes _ q (chars d (List.mem_cons_self ..))
          have round := fun n => @roundNext _ _ _ _ _ _ n hvalue start first more (scanFraction closes kept chars)
          cases folds with
          | nil =>
            obtain ⟨fuel,rfl⟩ : ∃ n, fuel = n + 1 := ⟨fuel - 1,by simp at enough; omega⟩
            obtain ⟨rest,ended⟩ := roundsEnd closes (List.forall_mem_nil _) fuel (c :: p ++ [32] ++ (d :: q))
            refine ⟨rest,(round _).trans ?_⟩
            rw [furtherNil] at ended ⊢
            rw [closes.skip,ended]
            simp [second,gathered]
          | cons third =>
            rw [skipFold closes kept] at round
            have lines := (kept third (List.mem_cons_self ..)).line
            obtain ⟨rest,ended⟩ := ih (fun f mem => kept f (List.mem_cons_of_mem third mem)) lines
              (by simp at enough; omega) (c :: p ++ [32] ++ (d :: q))
            refine ⟨rest,(round _).trans (ended.trans ?_)⟩
            simp [second,gathered]

theorem furtherLength (proper : ∀ fold ∈ folds, Fold.Proper fold) :
    folds.length ≤ (further folds tail).length := by
  induction folds with
  | nil => exact Nat.zero_le _
  | cons fold folds ih =>
    have rest := ih fun f mem => proper f (List.mem_cons_of_mem fold mem)
    have nonempty := List.length_pos_iff.mpr (proper fold (List.mem_cons_self ..)).nonempty
    rw [furtherCons,List.length_append,List.length_append,List.length_cons]
    omega

/- The value of the lines, where a blank first line is skipped with the space behind the colon. -/
def valueOf (lines : List Text) : Text :=
  match lines.map unindent with
  | [] :: rest => gathered [] rest
  | pieces => gathered [] pieces

theorem readValueGathers (closes : Closes beyond tail) (proper : ∀ fold ∈ folds, Fold.Proper fold)
    {first : Text} (chars : ∀ c ∈ first, notNewline c = true) :
    ∃ rest, readValue beyond first folds tail = .ok (valueOf (first :: folds.map Fold.line), rest) := by
  have length := @furtherLength tail _ proper
  have stop := (furtherStops closes proper).1
  unfold readValue genericStringHdr
  cases here : unindent first with
  | nil =>
    have skipped : skipWhitespace (first ++ further folds tail) = skipWhitespace (further folds tail) := by
      unfold skipWhitespace
      rw [unindentAppend stop,here,dropSpaces stop]
      rfl
    rw [skipped]
    cases folds with
    | nil =>
      rw [furtherNil,closes.skip]
      obtain ⟨rest,ended⟩ := roundsEnd closes (List.forall_mem_nil _) tail.length []
      exact ⟨rest,by simpa [valueOf,here,gathered,furtherNil] using ended⟩
    | cons fold folds =>
      have kept : ∀ f ∈ folds, Fold.Proper f := fun f mem => proper f (List.mem_cons_of_mem fold mem)
      rw [skipFold closes proper]
      have shorter := @furtherLength tail _ kept
      have enough : folds.length < (unindent fold.line ++ further folds tail).length + 1 := by
        rw [List.length_append]
        omega
      obtain ⟨rest,ended⟩ := roundsGather closes kept (proper fold (List.mem_cons_self ..)).line enough []
      refine ⟨rest,ended.trans ?_⟩
      simp [valueOf,here]
  | cons c =>
    have space := unindentStart here
    have text := unindentChars chars
    rw [here] at text
    have char := text c (List.mem_cons_self ..)
    have newline : isNewline c = false := by
      have both : notNewline c = (c ≠ 0 && !isNewline c) := rfl
      rw [both,Bool.and_eq_true] at char
      simpa using char.2
    have skipped : skipWhitespace (first ++ further folds tail) = unindent first ++ further folds tail := by
      unfold skipWhitespace
      rw [unindentAppend stop,here]
      simp [cur,newline]
    rw [skipped]
    have enough : folds.length < (unindent first ++ further folds tail).length + 1 := by
      rw [List.length_append]
      omega
    obtain ⟨rest,ended⟩ := roundsGather closes proper chars enough []
    refine ⟨rest,ended.trans ?_⟩
    simp [valueOf,here]

end Reading

section Joined

/- The bytes of a text that are no white space. -/
def ink (s : Text) : Nat := s.countP fun c => !isSpace c

theorem inkAppend (s t : Text) : ink (s ++ t) = ink s + ink t := List.countP_append

theorem inkSpaces {s : Text} : ink s = 0 ↔ ∀ c ∈ s, isSpace c = true := by
  simp [ink,List.countP_eq_zero]

variable (line : Text)

theorem unindentSplit : unindent line = trim line ++ trailing line :=
  (List.rdropWhile_append_rtakeWhile ..).symm

theorem trailingSpaces : ink (trailing line) = 0 :=
  inkSpaces.mpr fun _ mem => List.mem_rtakeWhile_imp mem

theorem trimInk : ink (trim line) = ink (unindent line) := by
  rw [unindentSplit,inkAppend,trailingSpaces,Nat.add_zero]

theorem inkBlank {line : Text} : ink (unindent line) = 0 ↔ Blank line := by
  constructor
  · intro none
    unfold Blank
    cases here : unindent line with
    | nil => rfl
    | cons c =>
      rw [here] at none
      have space := inkSpaces.mp none c (List.mem_cons_self ..)
      rw [unindentStart here] at space
      contradiction
  · intro blank
    rw [show unindent line = [] from blank]
    rfl

theorem trimBlank {line : Text} (blank : Blank line) : trim line = [] ∧ trailing line = [] := by
  have both := unindentSplit line
  rw [show unindent line = [] from blank] at both
  exact List.append_eq_nil_iff.mp both.symm

theorem unfoldedInk (lines : List Text) : ink (unfolded lines) = (lines.map (ink ∘ unindent)).sum := by
  fun_induction unfolded lines with
  | case1 => rfl
  | case2 line => simp [trimInk]
  | case3 line next rest ih =>
    have space : ink (32 :: unfolded (next :: rest)) = ink (unfolded (next :: rest)) := by simp [ink,isSpace]
    rw [inkAppend,space,ih,trimInk]
    simp

theorem blankSum {lines : List Text} : (lines.map (ink ∘ unindent)).sum = 0 ↔ ∀ line ∈ lines, Blank line := by
  induction lines with
  | nil => simp
  | cons line lines ih => simp [ih,inkBlank]

theorem unfoldedBlank {line : Text} {rest : List Text} (blank : ∀ l ∈ line :: rest, Blank l) :
    unfolded (line :: rest) = List.replicate rest.length 32 := by
  induction rest generalizing line with
  | nil => exact (trimBlank (blank line (List.mem_cons_self ..))).1
  | cons next rest ih =>
    have first := (trimBlank (blank line (List.mem_cons_self ..))).1
    rw [unfolded,first,ih fun l mem => blank l (List.mem_cons_of_mem line mem)]
    rfl

theorem gatheredInk (hvalue : Text) (pieces : List Text) :
    ink (gathered hvalue pieces) ≤ if pieces.headD [] = [] then ink hvalue else (pieces.map ink).sum := by
  fun_induction gathered hvalue pieces with
  | case1 hvalue => simp
  | case2 hvalue rest => simp
  | case3 hvalue c p => simp
  | case4 hvalue c p rest => simp
  | case5 hvalue c p d q rest ih =>
    have whole : ink (c :: p ++ [32] ++ (d :: q)) = ink (c :: p) + ink (d :: q) := by
      simp only [inkAppend]
      simp [ink,isSpace]
    rw [whole] at ih
    simp only [List.headD_cons,reduceCtorEq,if_false,List.map_cons,List.sum_cons]
    split at ih <;> omega

theorem gatheredStart {hvalue : Text} {pieces : List Text} (start : isSpace (cur hvalue) = false)
    (starts : ∀ p ∈ pieces, isSpace (cur p) = false) : isSpace (cur (gathered hvalue pieces)) = false := by
  fun_induction gathered hvalue pieces with
  | case1 hvalue => exact start
  | case2 hvalue rest => exact start
  | case3 hvalue c p => exact starts _ (List.mem_cons_self ..)
  | case4 hvalue c p rest => exact starts _ (List.mem_cons_self ..)
  | case5 hvalue c p d q rest ih =>
    have here : isSpace c = false := starts (c :: p) (List.mem_cons_self ..)
    exact ih here fun r mem => starts r (List.mem_cons_of_mem _ (List.mem_cons_of_mem _ mem))

theorem gatheredStops {hvalue : Text} {pieces : List Text} (stop : pieces.headD [] = []) :
    gathered hvalue pieces = hvalue := by
  match pieces with
  | [] => rfl
  | [] :: rest => rfl
  | (c :: p) :: rest => simp at stop

theorem unindentCur : isSpace (cur (unindent line)) = false := by
  cases here : unindent line with
  | nil => rfl
  | cons => exact unindentStart here

/- The values that are read as they are written: of at most two lines that are not blank, where the first has no white
space at its end and the last has a space at its end for each blank line that follows. -/
def Kept : List Text → Prop
  | [] => True
  | [line] => trailing line = []
  | first :: second :: rest =>
    ¬Blank first ∧ (∀ line ∈ rest, Blank line) ∧
      if Blank second then trailing first = List.replicate (rest.length + 1) 32
      else trailing first = [] ∧ trailing second = List.replicate rest.length 32

theorem valueOfOne : valueOf [line] = unindent line := by
  unfold valueOf
  cases here : unindent line <;> simp [here,gathered]

variable {first second : Text} {rest : List Text}

theorem blankFirst (blank : Blank first) : valueOf (first :: second :: rest) ≠ unfolded (first :: second :: rest) := by
  intro same
  have value : valueOf (first :: second :: rest) = gathered [] ((second :: rest).map unindent) := by
    unfold valueOf
    rw [List.map_cons,show unindent first = [] from blank]
  have start : isSpace (cur (gathered [] ((second :: rest).map unindent))) = false := by
    refine gatheredStart rfl fun p mem => ?_
    obtain ⟨line,_,rfl⟩ := List.mem_map.mp mem
    exact unindentCur line
  rw [← value,same,unfolded,(trimBlank blank).1] at start
  exact Bool.noConfusion start

theorem valueOfBlank (inked : ¬Blank first) (blank : Blank second) :
    valueOf (first :: second :: rest) = unindent first := by
  unfold valueOf
  rw [List.map_cons,List.map_cons,show unindent second = [] from blank]
  cases here : unindent first with
  | nil => exact absurd here inked
  | cons => rfl

theorem valueOfTwo (inked : ¬Blank first) (further : ¬Blank second) :
    valueOf (first :: second :: rest) = gathered (unindent first ++ [32] ++ unindent second) (rest.map unindent) := by
  unfold valueOf
  rw [List.map_cons,List.map_cons]
  cases here : unindent first with
  | nil => exact absurd here inked
  | cons =>
    cases next : unindent second with
    | nil => exact absurd next further
    | cons => rfl

theorem trailingBlank : trailing first = 32 :: unfolded (line :: rest) ↔
      (∀ l ∈ line :: rest, Blank l) ∧ trailing first = List.replicate (rest.length + 1) 32 := by
  constructor
  · intro same
    have none := trailingSpaces first
    have space : ink (32 :: unfolded (line :: rest)) = ink (unfolded (line :: rest)) := by simp [ink,isSpace]
    rw [same,space,unfoldedInk,blankSum] at none
    refine ⟨none,?_⟩
    rw [same,unfoldedBlank none]
    rfl
  · rintro ⟨blank,spaces⟩
    rw [spaces,unfoldedBlank blank]
    rfl

theorem restBlank (inked : ¬Blank first) (further : ¬Blank second)
    (same : valueOf (first :: second :: rest) = unfolded (first :: second :: rest)) : ∀ line ∈ rest, Blank line := by
  have total := congrArg ink same
  have some : ink (unindent first) ≠ 0 := fun none => inked (inkBlank.mp none)
  have bound := gatheredInk (unindent first ++ [32] ++ unindent second) (rest.map unindent)
  have two : ink (unindent first ++ [32] ++ unindent second) = ink (unindent first) + ink (unindent second) := by
    simp only [inkAppend]
    simp [ink,isSpace]
  rw [valueOfTwo inked further,unfoldedInk] at total
  rw [total,two,List.map_map] at bound
  simp only [List.map_cons,List.sum_cons,Function.comp_apply] at bound
  refine blankSum.mp ?_
  split at bound <;> omega

theorem twoLines (inked : ¬Blank first) (further : ¬Blank second) :
    valueOf (first :: second :: rest) = unfolded (first :: second :: rest) ↔
      (∀ line ∈ rest, Blank line) ∧ trailing first = [] ∧ trailing second = List.replicate rest.length 32 := by
  have value (blank : ∀ line ∈ rest, Blank line) :
      valueOf (first :: second :: rest) = trim first ++ (trailing first ++ 32 :: unindent second) := by
    have stop : (rest.map unindent).headD [] = [] := by
      cases rest with
      | nil => rfl
      | cons line => exact blank line (List.mem_cons_self ..)
    rw [valueOfTwo inked further,gatheredStops stop,unindentSplit first]
    simp
  have trimmed : trim second ≠ [] := by
    intro none
    refine further (inkBlank.mp ?_)
    rw [← trimInk,none]
    rfl
  have joined (blank : ∀ line ∈ rest, Blank line) :
      unfolded (second :: rest) = trim second ++ List.replicate rest.length 32 := by
    cases rest with
    | nil => simp [unfolded]
    | cons => rw [unfolded,unfoldedBlank blank]; rfl
  constructor
  · intro same
    have blank := restBlank inked further same
    rw [value blank,unfolded,joined blank,List.append_cancel_left_eq] at same
    cases ends : trailing first with
    | nil =>
      rw [ends] at same
      have line : unindent second = trim second ++ List.replicate rest.length 32 := (List.cons.inj same).2
      rw [unindentSplit second,List.append_cancel_left_eq] at line
      exact ⟨blank,rfl,line⟩
    | cons c w =>
      -- the second line does not begin with the white space of the first
      have spaces := inkSpaces.mp (trailingSpaces first)
      rw [ends] at same spaces
      have later : w ++ 32 :: unindent second = trim second ++ List.replicate rest.length 32 := (List.cons.inj same).2
      have start := unindentCur second
      have same : cur (unindent second) = cur (w ++ 32 :: unindent second) := by
        rw [later,curAppend trimmed]
        nth_rewrite 1 [unindentSplit second]
        exact curAppend trimmed
      rw [same] at start
      cases w with
      | nil => exact Bool.noConfusion start
      | cons d =>
        have space : isSpace d = true := spaces d (by simp)
        exact absurd (space.symm.trans start) (by simp)
  · rintro ⟨blank,none,spaces⟩
    rw [value blank,unfolded,joined blank,none,← spaces,← unindentSplit second]
    rfl

theorem valueUnfolds (lines : List Text) : valueOf lines = unfolded lines ↔ Kept lines := by
  match lines with
  | [] => exact ⟨fun _ => trivial,fun _ => rfl⟩
  | [line] =>
    rw [valueOfOne,unfolded,Kept]
    nth_rewrite 1 [unindentSplit line]
    exact List.append_right_eq_self
  | first :: second :: rest =>
    rw [Kept]
    by_cases inked : Blank first
    · exact ⟨fun same => absurd same (blankFirst inked),fun kept => absurd inked kept.1⟩
    · by_cases further : Blank second
      · rw [valueOfBlank inked further,unfolded,if_pos further]
        nth_rewrite 1 [unindentSplit first]
        rw [List.append_cancel_left_eq,trailingBlank second]
        simp [inked,further]
      · rw [twoLines inked further,if_neg further]
        simp [inked]

end Joined

/- A value is unfolded exactly when it is one of those; every value is read to the end of the header. -/
theorem unfoldsLines {beyond : Nat} {tail first : Text} {folds : List Fold} (closes : Closes beyond tail)
    (proper : ∀ fold ∈ folds, Fold.Proper fold) (chars : ∀ c ∈ first, notNewline c = true) :
    (∃ rest, readValue beyond first folds tail = .ok (unfolded (first :: folds.map Fold.line), rest)) ↔
      Kept (first :: folds.map Fold.line) := by
  obtain ⟨rest,read⟩ := readValueGathers closes proper chars
  rw [read,← valueUnfolds]
  constructor
  · rintro ⟨other,same⟩
    exact (Prod.mk.inj (Except.ok.inj same)).1
  · intro same
    exact ⟨rest,by rw [same]⟩

def twoLinesFolds : List Fold := [⟨crlf,ascii "  lines"⟩]

theorem twoLinesUnfold :
    (∃ rest, readValue 0 (ascii "two") twoLinesFolds (crlf ++ ascii "To: x") =
        .ok (unfolded (ascii "two" :: twoLinesFolds.map Fold.line), rest)) ↔
      Kept (ascii "two" :: twoLinesFolds.map Fold.line) := by
  have closes : Closes 0 (crlf ++ ascii "To: x") :=
    .newline (.inl rfl) (by decide +kernel) (by decide +kernel) (Nat.zero_le _)
  refine unfoldsLines closes ?_ (by decide +kernel)
  intro fold mem
  obtain rfl := List.mem_singleton.mp mem
  exact ⟨.inl rfl,by decide +kernel,by decide +kernel⟩

/- The third line is read into hvalue over the first two. -/
theorem firstLinesLost :
    readValue 0 (ascii "one") [⟨crlf,ascii " two"⟩,⟨crlf,ascii " three"⟩] (crlf ++ ascii "To: x") =
        .ok (ascii "three", ascii "To: x") ∧
      unfolded [ascii "one",ascii " two",ascii " three"] = ascii "one two three" ∧
      ascii "three" ≠ ascii "one two three" := by
  decide +kernel

end Pjproject.GenericHeader
