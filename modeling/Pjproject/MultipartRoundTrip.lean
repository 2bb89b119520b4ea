import Pjproject.MultipartHeaders

/-! A multipart body that is printed and parsed again has the same parts. -/
namespace Pjproject.Multipart

def delimiter (boundary : Text) : Text := ascii "--" ++ boundary

def Part.headerText (compact : Bool) (part : Part) : Text := hdrLines part.hdrs ++ part.autoText compact

def Part.text (compact : Bool) (part : Part) : Text := part.headerText compact ++ crlf ++ part.body

def afterDelimiter (compact : Bool) (delim : Text) : List Part → Text
  | [] => ascii "--" ++ crlf
  | part :: parts => crlf ++ part.text compact ++ crlf ++ delim ++ afterDelimiter compact delim parts

def Body.text (compact : Bool) (m : Body) : Text :=
  crlf ++ delimiter m.boundary ++ afterDelimiter compact (delimiter m.boundary) m.parts

section Search

variable {d r : Text}

theorem sameCharsPrefix (nonzero : 0 ∉ d) : ∀ s, sameChars s d = true ↔ d <+: s := by
  induction d with
  | nil => exact fun s => ⟨fun _ => List.nil_prefix,fun _ => by cases s <;> rfl⟩
  | cons c d ih =>
    have own : c ≠ 0 := fun zero => nonzero (zero ▸ List.mem_cons_self ..)
    have rest := ih (fun mem => nonzero (List.mem_cons_of_mem _ mem))
    intro s
    cases s with
    | nil =>
      unfold sameChars
      exact ⟨fun zero => absurd (of_decide_eq_true zero) own,fun before => absurd (List.prefix_nil.mp before) nofun⟩
    | cons b s =>
      unfold sameChars
      rw [List.cons_prefix_cons,Bool.and_eq_true,← rest s]
      constructor
      · rintro ⟨same,later⟩
        have same : b = c := of_decide_eq_true same
        refine ⟨same.symm,?_⟩
        rcases Bool.or_eq_true_iff.mp later with zero | later
        · exact absurd (same ▸ of_decide_eq_true zero) own
        · exact later
      · rintro ⟨same,later⟩
        exact ⟨decide_eq_true same.symm,Bool.or_eq_true_iff.mpr (.inr later)⟩

theorem strstrHere (nonzero : 0 ∉ d) (here : d <+: r) : strstr r d = some r := by
  unfold strstr
  rw [if_neg (Nat.not_lt.mpr here.length_le),if_pos ((sameCharsPrefix nonzero r).mpr here)]

theorem strstrFound (nonzero : 0 ∉ d) (here : d <+: r) (pre : Text)
    (first : ∀ t, t ≠ [] → t <:+ pre → ¬ d <+: t ++ r) : strstr (pre ++ r) d = some r := by
  induction pre with
  | nil => exact strstrHere nonzero here
  | cons c pre ih =>
    have later := ih (fun t nonempty suffix => first t nonempty (suffix.trans (List.suffix_cons ..)))
    have notHere : ¬ sameChars (c :: pre ++ r) d = true :=
      fun same => first (c :: pre) (List.cons_ne_nil c pre) (List.suffix_refl _) ((sameCharsPrefix nonzero _).mp same)
    have long : ¬ (c :: pre ++ r).length < d.length := by
      have := here.length_le
      rw [List.length_append]
      omega
    unfold strstr
    rw [if_neg long,if_neg notHere]
    exact later

theorem infixSplit {c : UInt8} (absent : c ∉ d) {a b : Text} (found : d <:+: a ++ c :: b) : d <:+: a ∨ d <:+: b := by
  rcases List.infix_append_iff.mp found with left | right | ⟨l₁,l₂,rfl,suffix,before⟩
  · exact .inl left
  · rcases List.infix_cons_iff.mp right with before | later
    · cases d with
      | nil => exact .inl List.nil_infix
      | cons =>
        have same := (List.cons_prefix_cons.mp before).1
        exact absurd (same ▸ List.mem_cons_self ..) absent
    · exact .inr later
  · cases l₂ with
    | nil =>
      rw [List.append_nil]
      exact .inl suffix.isInfix
    | cons b' l₂ =>
      have same := (List.cons_prefix_cons.mp before).1
      exact absurd (same ▸ List.mem_append_right _ (List.mem_cons_self ..)) absent

theorem strstrLine (nonzero : 0 ∉ d) (noCr : cr ∉ d) (noLf : lf ∉ d) {text : Text} (absent : ¬ d <:+: text)
    (rest : Text) : strstr (text ++ crlf ++ (d ++ rest)) d = some (d ++ rest) := by
  refine strstrFound nonzero (List.prefix_append ..) _ (fun t nonempty suffix found => ?_)
  have last : lf ∈ t := by
    obtain ⟨pre,whole⟩ := suffix
    have final := congrArg List.getLast? whole
    rw [List.getLast?_append_of_ne_nil _ nonempty,List.getLast?_append_of_ne_nil _ (by decide)] at final
    exact List.mem_of_getLast? final
  rcases List.prefix_or_prefix_of_prefix found (List.prefix_append t _) with inside | longer
  · have inText : d <:+: text ++ crlf := inside.isInfix.trans suffix.isInfix
    rcases infixSplit noCr (b := [lf]) inText with own | tail
    · exact absent own
    · rcases infixSplit noLf (a := []) (b := []) tail with none | none
      · exact absent (List.infix_nil.mp none ▸ List.nil_infix)
      · exact absent (List.infix_nil.mp none ▸ List.nil_infix)
  · exact noLf (longer.subset last)

end Search

section EmptyLine

theorem crNotLf {passed : Text} : ¬ (cr :: passed).head? = some lf :=
  fun same => absurd (Option.some.inj same) (by decide)

structure Line (line : Text) : Prop where
  nonempty : line ≠ []
  noLf : lf ∉ line

theorem emptyLineRun {line : Text} (noLf : lf ∉ line) (passed rest : Text) :
    emptyLine passed (line ++ rest) = emptyLine (line.reverse ++ passed) rest := by
  induction line generalizing passed with
  | nil => rfl
  | cons c line ih =>
    have other : c ≠ lf := fun same => noLf (same ▸ List.mem_cons_self ..)
    have next := ih (fun mem => noLf (List.mem_cons_of_mem _ mem)) (c :: passed)
    rw [List.cons_append,List.reverse_cons,List.append_assoc,emptyLine,if_pos other]
    exact next

theorem emptyLineNext {line rest : Text} (isLine : Line line) (more : rest ≠ []) (passed : Text) :
    emptyLine passed (line ++ crlf ++ rest) = emptyLine ((line ++ crlf).reverse ++ passed) rest := by
  obtain ⟨pre,last,same⟩ : ∃ pre last, line = pre ++ [last] :=
    ⟨_,_,(List.dropLast_append_getLast isLine.nonempty).symm⟩
  have other : last ≠ lf := by
    intro lfLast
    refine isLine.noLf ?_
    rw [same,lfLast]
    exact List.mem_append_right _ (List.mem_cons_self ..)
  have behind : line.reverse ++ passed = last :: (pre.reverse ++ passed) := by
    rw [same,List.reverse_append]
    rfl
  have run := emptyLineRun isLine.noLf passed (crlf ++ rest)
  have atCr : emptyLine (line.reverse ++ passed) (crlf ++ rest) =
      emptyLine (cr :: (line.reverse ++ passed)) (lf :: rest) := rfl
  have whole : (line ++ crlf).reverse ++ passed = lf :: cr :: (line.reverse ++ passed) := by
    rw [List.reverse_append,List.append_assoc]
    rfl
  rw [List.append_assoc,run,atCr,whole,behind]
  rw [emptyLine,if_neg (not_not.mpr rfl),if_neg (by rintro (none | one) <;> cases ‹_›),if_neg more,
    if_neg crNotLf,if_neg]
  rintro ⟨_,head⟩
  exact other (Option.some.inj head)

theorem emptyLineEnd {passed : Text} (start : passed.head? = some lf) (body : Text) :
    emptyLine passed (crlf ++ body) = (some (passed.reverse ++ if body = [] then crlf else []), body) := by
  have atCr : emptyLine passed (crlf ++ body) = emptyLine (cr :: passed) (lf :: body) := rfl
  have some : passed ≠ [] := fun none => by
    rw [none] at start
    cases start
  rw [atCr,emptyLine,if_neg (not_not.mpr rfl),if_neg (by
    rintro (none | one)
    · cases none
    · exact some (List.cons.inj one).2)]
  by_cases empty : body = []
  · rw [if_pos empty,if_pos empty,empty,List.reverse_cons,List.reverse_cons,List.append_assoc]
    rfl
  · rw [if_neg empty,if_neg empty,if_neg crNotLf,if_pos ⟨rfl,start⟩,List.append_nil]
    rfl

theorem emptyLineLines (lines : List Text) (all : ∀ line ∈ lines, Line line) (passed body : Text)
    (start : lines ≠ [] ∨ passed.head? = some lf) :
    emptyLine passed (lines.flatMap (· ++ crlf) ++ (crlf ++ body)) =
      (some (passed.reverse ++ lines.flatMap (· ++ crlf) ++ if body = [] then crlf else []), body) := by
  induction lines generalizing passed with
  | nil =>
    have start := start.resolve_left (fun some => some rfl)
    rw [List.flatMap_nil,List.nil_append,List.append_nil]
    exact emptyLineEnd start body
  | cons line lines ih =>
    have more : lines.flatMap (· ++ crlf) ++ (crlf ++ body) ≠ [] := by
      intro none
      cases (List.append_eq_nil_iff.mp none).2
    have next := ih (fun l mem => all l (List.mem_cons_of_mem _ mem)) ((line ++ crlf).reverse ++ passed)
      (.inr (by rw [List.reverse_append]; rfl))
    rw [List.flatMap_cons,List.append_assoc,emptyLineNext (all line (List.mem_cons_self ..)) more,next,
      List.reverse_append,List.reverse_reverse]
    simp only [List.append_assoc]

end EmptyLine

/- The parts that a body can have: the type is read back, and the headers are lines. -/
structure Part.Proper (parsers : Parsers) (part : Part) : Prop where
  media : part.media.Proper
  hdrs : ∀ h ∈ part.hdrs, h.Readable parsers

def Part.parsed (part : Part) : ParsedPart := { media := part.media, body := part.body }

section Parts

variable {parsers : Parsers} {part : Part}

def Part.lines (compact : Bool) (part : Part) : List Text :=
  part.hdrs.map Hdr.text ++
    [ctypeHdr compact ++ part.media.text,ascii "Content-Length: " ++ clenField part.body.length]

theorem headerLines (compact : Bool) (part : Part) :
    part.headerText compact = (part.lines compact).flatMap (· ++ crlf) := by
  unfold Part.headerText Part.lines hdrLines Part.autoText
  rw [List.flatMap_append,List.flatMap_map]
  simp only [List.flatMap_cons,List.flatMap_nil,List.append_nil,List.append_assoc]

theorem plainNoLf {spec : UInt8 → Bool} (never : spec lf = false) {text : Text} (all : ∀ c ∈ text, spec c = true) :
    lf ∉ text := fun mem => absurd (never.symm.trans (all lf mem)) Bool.false_ne_true

theorem partLines (proper : part.Proper parsers) (compact : Bool) : ∀ line ∈ part.lines compact, Line line := by
  intro line member
  rcases List.mem_append.mp member with own | added
  · obtain ⟨h,mem,rfl⟩ := List.mem_map.mp own
    have readable := proper.hdrs h mem
    refine ⟨fun none => readable.named (List.append_eq_nil_iff.mp (List.append_eq_nil_iff.mp none).1).1,?_⟩
    unfold Hdr.text
    simp only [List.mem_append,not_or]
    exact ⟨⟨plainNoLf rfl readable.token,by decide⟩,plainNoLf rfl readable.value⟩
  · simp only [List.mem_cons,List.not_mem_nil,or_false] at added
    rcases added with rfl | rfl
    · have noLf : lf ∉ ctypeHdr compact := by
        cases compact <;> decide +kernel
      refine ⟨fun none => proper.media.type ?_,?_⟩
      · exact (List.append_eq_nil_iff.mp (List.append_eq_nil_iff.mp (List.append_eq_nil_iff.mp none).2).1).1
      · unfold MediaType.text
        simp only [List.mem_append,not_or]
        exact ⟨noLf,⟨plainNoLf rfl proper.media.typeToken,by decide⟩,plainNoLf rfl proper.media.subtypeToken⟩
    · obtain ⟨blanks,length,field,_,spaces,digit⟩ := digitsField part.body.length
      refine ⟨nofun,?_⟩
      rw [field]
      simp only [List.mem_append,not_or]
      exact ⟨by decide +kernel,plainNoLf rfl spaces,plainNoLf rfl digit⟩

theorem countHdrs (hdrs : List Hdr) : hdrs.length ≤ (hdrLines hdrs).length := by
  induction hdrs with
  | nil => exact Nat.zero_le _
  | cons h hdrs ih =>
    unfold hdrLines at ih ⊢
    rw [List.flatMap_cons,List.length_append,List.length_append,List.length_cons]
    have two : crlf.length = 2 := rfl
    omega

theorem parsePrinted (proper : part.Proper parsers) (compact : Bool) (ctype : Ctype) (after : Text) :
    parsePart parsers ctype (part.text compact) after = part.parsed := by
  have empty : emptyLine [] (part.text compact) =
      (some (part.headerText compact ++ if part.body = [] then crlf else []), part.body) := by
    have found := emptyLineLines (part.lines compact) (partLines proper compact) [] part.body
      (.inl (List.append_ne_nil_of_right_ne_nil _ (List.cons_ne_nil _ _)))
    rw [← headerLines] at found
    unfold Part.text
    rw [List.append_assoc]
    exact found
  have named : part.headerText compact ≠ [] := by
    have first := (sectionStart compact part part.hdrs proper.hdrs []).1.1
    rw [List.append_nil] at first
    exact first
  have whole : part.text compact ++ after =
      hdrLines part.hdrs ++ (part.autoText compact ++ (crlf ++ (part.body ++ after))) := by
    unfold Part.text Part.headerText
    simp only [List.append_assoc]
  have start : skipWhitespace (part.text compact ++ after) = part.text compact ++ after := by
    have first := sectionStart compact part part.hdrs proper.hdrs (crlf ++ (part.body ++ after))
    rw [whole]
    exact skipNothing first.1.2 first.2
  have inside : (part.text compact).length + after.length -
      (part.headerText compact ++ if part.body = [] then crlf else []).length ≤ (crlf ++ (part.body ++ after)).length := by
    unfold Part.text
    simp only [List.length_append]
    omega
  have enough : part.hdrs.length + 2 ≤ (part.text compact ++ after).length + 1 := by
    have count := countHdrs part.hdrs
    have two : crlf.length = 2 := rfl
    rw [whole]
    simp only [List.length_append]
    omega
  have read := sectionHeaders compact proper.media (show cur (crlf ++ (part.body ++ after)) = cr from rfl) inside
    part.hdrs proper.hdrs ((part.text compact ++ after).length + 1) enough
  rw [← whole] at read
  unfold parsePart
  rw [empty]
  dsimp only [Option.getD_some]
  rw [if_neg (fun none => named (List.append_eq_nil_iff.mp none).1)]
  unfold parseHeaders
  rw [start,read]
  rfl

theorem trimCrlf (s : Text) : trimNewline (s ++ crlf) = s := by
  have first : (s ++ crlf).getLast? = some lf := List.getLast?_append_of_ne_nil _ (by decide)
  have dropped : (s ++ crlf).dropLast = s ++ [cr] := by
    rw [List.dropLast_append_of_ne_nil (by decide)]
    rfl
  unfold trimNewline
  dsimp only
  rw [if_pos first,dropped,List.getLast?_concat,if_pos rfl,List.dropLast_concat]

theorem partsParsed {delim : Text} (nonzero : 0 ∉ delim) (noCr : cr ∉ delim) (noLf : lf ∉ delim) (compact : Bool)
    (ctype : Ctype) (parts : List Part) (proper : ∀ part ∈ parts, part.Proper parsers)
    (absent : ∀ part ∈ parts, ¬ delim <:+: part.text compact) (n : Nat) (enough : parts.length < n) :
    parseParts parsers ctype delim n (afterDelimiter compact delim parts) = some (parts.map Part.parsed) := by
  induction parts generalizing n with
  | nil =>
    obtain ⟨m,rfl⟩ : ∃ m, n = m + 1 := ⟨n - 1,by omega⟩
    rfl
  | cons part parts ih =>
    obtain ⟨m,rfl⟩ : ∃ m, n = m + 1 := ⟨n - 1,by omega⟩
    have later := ih (fun p mem => proper p (List.mem_cons_of_mem _ mem))
      (fun p mem => absent p (List.mem_cons_of_mem _ mem)) m (by simp only [List.length_cons] at enough; omega)
    generalize same : afterDelimiter compact delim parts = rest at later
    have whole : afterDelimiter compact delim (part :: parts) =
        cr :: lf :: (part.text compact ++ crlf ++ (delim ++ rest)) := by
      unfold afterDelimiter
      rw [same]
      simp only [List.append_assoc]
      rfl
    have found := strstrLine nonzero noCr noLf (absent part (List.mem_cons_self ..)) rest
    have taken : (part.text compact ++ crlf ++ (delim ++ rest)).take
        ((part.text compact ++ crlf ++ (delim ++ rest)).length - (delim ++ rest).length) = part.text compact ++ crlf := by
      rw [List.length_append,Nat.add_sub_cancel]
      exact List.take_left
    generalize same : part.text compact ++ crlf ++ (delim ++ rest) = text at whole found taken
    have start : eat cr ((cr :: lf :: text).dropWhile isSpace) = lf :: text := rfl
    unfold parseParts
    rw [whole,if_neg (show ¬(ascii "--").isPrefixOf (cr :: lf :: text) = true from Bool.false_ne_true)]
    dsimp only
    rw [start,if_neg (show ¬cur (lf :: text) ≠ lf from not_not.mpr rfl),List.tail_cons,found]
    dsimp only
    rw [taken,trimCrlf,List.drop_left,later,parsePrinted (proper part (List.mem_cons_self ..))]
    rfl

end Parts

section Printed

theorem hdrsPrinted (hdrs : List Hdr) (left : Nat) (enough : (hdrLines hdrs).length + 3 ≤ left) :
    printHdrs left hdrs = some (hdrLines hdrs) := by
  induction hdrs generalizing left with
  | nil => rfl
  | cons h hdrs ih =>
    have lines : hdrLines (h :: hdrs) = h.text ++ crlf ++ hdrLines hdrs := rfl
    have two : crlf.length = 2 := rfl
    have length : h.text.length = h.name.length + 2 + h.value.length := by
      unfold Hdr.text
      rw [List.length_append,List.length_append]
      rfl
    rw [lines,List.length_append] at enough
    have room : ¬ left < h.name.length + h.value.length + 7 := by
      rw [List.length_append] at enough
      omega
    unfold printHdrs
    rw [if_neg room,ih _ (by omega),lines]
    rfl

theorem autoPrinted (compact : Bool) {part : Part} (adds : part.addsCtype = true) (left : Nat)
    (enough : (part.autoText compact).length + 30 ≤ left) :
    part.printAuto compact left = some (part.autoText compact) := by
  have media : part.media.type.length + part.media.subtype.length ≤ part.media.text.length := by
    unfold MediaType.text
    simp only [List.length_append]
    omega
  have whole : (part.autoText compact).length = (ctypeHdr compact ++ part.media.text ++ crlf).length +
      (ascii "Content-Length: " ++ clenField part.body.length ++ crlf).length := by
    unfold Part.autoText
    simp only [List.length_append]
    omega
  have first : ¬ left < 24 + part.media.type.length + part.media.subtype.length := by
    simp only [List.length_append] at whole
    omega
  have second : ¬ left - (ctypeHdr compact ++ part.media.text ++ crlf).length < 30 := by omega
  unfold Part.printAuto
  rw [if_pos adds,if_neg first,if_neg second]

/- Space that the checks of the printing functions ask for on top of what they print. -/
def slack (boundary : Text) : Nat := 2 * boundary.length + 64

theorem partPrinted (compact : Bool) {part : Part} (adds : part.addsCtype = true) (boundary : Text) (left : Nat)
    (enough : (crlf ++ delimiter boundary ++ crlf ++ part.text compact).length + slack boundary ≤ left) :
    part.print boundary compact left = some (crlf ++ delimiter boundary ++ crlf ++ part.text compact) := by
  have frame : crlf ++ ascii "--" ++ boundary ++ crlf = crlf ++ delimiter boundary ++ crlf := by
    unfold delimiter
    simp only [List.append_assoc]
  unfold slack Part.text Part.headerText at enough
  have lengths := enough
  simp only [List.length_append] at lengths
  have hdrs := hdrsPrinted part.hdrs (left - (crlf ++ delimiter boundary ++ crlf).length) (by
    simp only [List.length_append]
    omega)
  have auto := autoPrinted compact adds
    (left - (crlf ++ delimiter boundary ++ crlf ++ hdrLines part.hdrs).length) (by
      simp only [List.length_append]
      omega)
  have delim : ¬ left ≤ 2 * (boundary.length + 8) := by omega
  have body : ¬ left - (crlf ++ delimiter boundary ++ crlf ++ hdrLines part.hdrs ++ part.autoText compact ++ crlf).length <
      part.body.length := by
    simp only [List.length_append]
    omega
  unfold Part.print
  rw [if_neg delim]
  dsimp only [bind,pure,Option.bind]
  rw [frame,hdrs]
  dsimp only
  rw [auto]
  dsimp only
  rw [if_neg body]
  unfold Part.text Part.headerText
  simp only [List.append_assoc]

theorem partsPrinted (compact : Bool) (boundary : Text) (parts : List Part)
    (adds : ∀ part ∈ parts, part.addsCtype = true) (left : Nat)
    (enough : (crlf ++ delimiter boundary ++ afterDelimiter compact (delimiter boundary) parts).length +
      slack boundary ≤ left) : printParts boundary compact left parts =
      some (crlf ++ delimiter boundary ++ afterDelimiter compact (delimiter boundary) parts) := by
  induction parts generalizing left with
  | nil =>
    have room : ¬ left < boundary.length + 8 := by
      unfold slack at enough
      omega
    unfold printParts
    rw [if_neg room]
    unfold delimiter afterDelimiter
    simp only [List.append_assoc]
  | cons part parts ih =>
    have split : crlf ++ delimiter boundary ++ afterDelimiter compact (delimiter boundary) (part :: parts) =
        crlf ++ delimiter boundary ++ crlf ++ part.text compact ++
          (crlf ++ delimiter boundary ++ afterDelimiter compact (delimiter boundary) parts) := by
      rw [afterDelimiter]
      simp only [List.append_assoc]
    rw [split,List.length_append] at enough
    have own := partPrinted compact (adds part (List.mem_cons_self ..)) boundary left (by omega)
    have later := ih (fun p mem => adds p (List.mem_cons_of_mem _ mem))
      (left - (crlf ++ delimiter boundary ++ crlf ++ part.text compact).length) (by omega)
    unfold printParts
    rw [own]
    dsimp only [bind,pure,Option.bind]
    rw [later,split]

end Printed

/- Every part is printed with its type, and the delimiter is not in what is printed. -/
structure Body.Plain (compact : Bool) (m : Body) : Prop where
  boundary : m.boundary ≠ []
  unquoted : ∀ c ∈ m.boundary, c ≠ 34 ∧ isWhite c = false
  parts : m.parts ≠ []
  typed : ∀ part ∈ m.parts, part.media.type ≠ [] ∧ part.hdrs.any Hdr.ctype = false
  hdrs : ∀ part ∈ m.parts, ¬ delimiter m.boundary <:+: part.headerText compact
  bodies : ∀ part ∈ m.parts, ¬ delimiter m.boundary <:+: part.body

/- The boundary is a string of C, types are tokens and headers are lines. -/
structure Body.Proper (parsers : Parsers) (m : Body) : Prop where
  nonzero : 0 ∉ m.boundary
  parts : ∀ part ∈ m.parts, part.Proper parsers

section RoundTrip

variable {parsers : Parsers} {compact : Bool} {m : Body}

theorem Body.Plain.notIn (plain : m.Plain compact) {c : UInt8} (white : isWhite c = true) (other : c ∉ ascii "--") :
    c ∉ delimiter m.boundary := by
  unfold delimiter
  rw [List.mem_append,not_or]
  refine ⟨other,fun mem => ?_⟩
  exact absurd ((plain.unquoted c mem).2.symm.trans white) Bool.false_ne_true

theorem Body.Plain.absent (plain : m.Plain compact) {part : Part} (mem : part ∈ m.parts) :
    ¬ delimiter m.boundary <:+: part.text compact := by
  have noCr := plain.notIn (c := cr) rfl (by decide)
  have noLf := plain.notIn (c := lf) rfl (by decide)
  intro found
  have found : delimiter m.boundary <:+: part.headerText compact ++ cr :: lf :: part.body := by
    unfold Part.text at found
    rw [List.append_assoc] at found
    exact found
  rcases infixSplit noCr found with header | rest
  · exact plain.hdrs part mem header
  · rcases infixSplit noLf (a := []) rest with none | body
    · exact plain.bodies part mem (List.infix_nil.mp none ▸ List.nil_infix)
    · exact plain.bodies part mem body

theorem Body.Plain.boundaryOf (plain : m.Plain compact) : m.ctype.boundaryOf = m.boundary := by
  unfold Ctype.boundaryOf
  refine if_neg (fun quoted => ?_)
  have mem : 34 ∈ m.boundary := List.mem_of_head? quoted.2
  exact (plain.unquoted 34 mem).1 rfl

theorem countParts (compact : Bool) (delim : Text) (parts : List Part) :
    parts.length ≤ (afterDelimiter compact delim parts).length := by
  induction parts with
  | nil => exact Nat.zero_le _
  | cons =>
    have two : crlf.length = 2 := rfl
    unfold afterDelimiter
    simp only [List.length_append,List.length_cons]
    omega

theorem parseText (plain : m.Plain compact) (proper : m.Proper parsers) :
    parse parsers (m.text compact) m.ctype = some (m.parts.map Part.parsed) := by
  have noCr := plain.notIn (c := cr) rfl (by decide)
  have noLf := plain.notIn (c := lf) rfl (by decide)
  have nonzero : 0 ∉ delimiter m.boundary := by
    unfold delimiter
    rw [List.mem_append,not_or]
    exact ⟨by decide,proper.nonzero⟩
  have some : m.ctype.boundaryOf ≠ [] := by
    rw [plain.boundaryOf]
    exact plain.boundary
  have missing : ¬ delimiter m.boundary <:+: [] := by
    intro none
    cases List.infix_nil.mp none
  have first := strstrLine nonzero noCr noLf missing
    (afterDelimiter compact (delimiter m.boundary) m.parts)
  have whole : m.text compact = [] ++ crlf ++
      (delimiter m.boundary ++ afterDelimiter compact (delimiter m.boundary) m.parts) := by
    unfold Body.text
    simp only [List.append_assoc,List.nil_append]
  have enough : m.parts.length < (m.text compact).length + 1 := by
    have count := countParts compact (delimiter m.boundary) m.parts
    rw [whole]
    simp only [List.length_append]
    omega
  have read := partsParsed nonzero noCr noLf compact m.ctype m.parts proper.parts (fun part mem => plain.absent mem)
    _ enough
  have nonempty : m.text compact ≠ [] := by
    rw [whole]
    exact List.append_ne_nil_of_left_ne_nil (by decide) _
  have same : delimiter m.boundary = ascii "--" ++ m.boundary := rfl
  rw [whole] at nonempty read ⊢
  unfold parse
  rw [if_neg nonempty,if_neg (fun both => some both.1)]
  dsimp only
  rw [if_neg some,plain.boundaryOf,← same,first,Option.bind_some,List.drop_left]
  exact read

theorem multipartRoundTrip (plain : m.Plain compact) (proper : m.Proper parsers) :
    ∃ large, ∀ size, large ≤ size → ∃ text, m.print compact size = some text ∧
      parse parsers text m.ctype = some (m.parts.map Part.parsed) := by
  refine ⟨(m.text compact).length + slack m.boundary,fun size enough => ⟨m.text compact,?_,parseText plain proper⟩⟩
  have adds : ∀ part ∈ m.parts, part.addsCtype = true := by
    intro part mem
    obtain ⟨type,none⟩ := plain.typed part mem
    unfold Part.addsCtype
    rw [none,decide_eq_true type]
    rfl
  have printed := partsPrinted compact m.boundary m.parts adds size enough
  have some : m.parts.isEmpty = false := List.isEmpty_eq_false_iff.mpr plain.parts
  unfold Body.print
  rw [some,if_neg Bool.false_ne_true]
  exact printed

end RoundTrip

def noHandlers : Parsers := ⟨fun s => .error s,fun _ => none⟩

/- Line ends at both borders of the first body, and an empty second one. -/
def twoParts : Body :=
  { boundary := ascii "12-3"
    parts :=
      [⟨[⟨false,ascii "Content-ID",ascii " <a@b>"⟩],⟨ascii "text",ascii "html"⟩,ascii "\r\n\n--12\r\n\r\nabc\n\r"⟩,
        ⟨[],⟨ascii "application",ascii "sdp"⟩,[]⟩] }

theorem twoPartsRoundTrip : ∃ large, ∀ size, large ≤ size → ∃ text, twoParts.print false size = some text ∧
    parse noHandlers text twoParts.ctype = some (twoParts.parts.map Part.parsed) := by
  have plain : twoParts.Plain false :=
    ⟨by decide +kernel,by decide +kernel,by decide +kernel,by decide +kernel,by decide +kernel,by decide +kernel⟩
  refine multipartRoundTrip plain ⟨by decide +kernel,fun part mem => ?_⟩
  rcases List.mem_cons.mp mem with rfl | mem
  · refine ⟨⟨by decide +kernel,by decide +kernel,by decide +kernel,by decide +kernel⟩,fun h mem => ?_⟩
    cases List.mem_singleton.mp mem
    exact ⟨by decide +kernel,by decide +kernel,by decide +kernel,nofun⟩
  · cases List.mem_singleton.mp mem
    exact ⟨⟨by decide +kernel,by decide +kernel,by decide +kernel,by decide +kernel⟩,nofun⟩

/- A subtype that is no token, a boundary with a zero byte, a header whose handler stops at an ampersand, and a header
with an empty line. -/
def caretType : Body :=
  { boundary := ascii "b", parts := [⟨[],⟨ascii "application",ascii "x^y"⟩,ascii "abc"⟩] }

def zeroBoundary : Body :=
  { boundary := [97,0,98], parts := [⟨[],⟨ascii "text",ascii "plain"⟩,ascii "--" ++ [97,0,99]⟩] }

def ampersand : Body :=
  { boundary := ascii "b"
    parts := [⟨[⟨false,ascii "Content-Length",ascii "3&"⟩],⟨ascii "text",ascii "html"⟩,ascii "abc"⟩] }

def twoLines : Body :=
  { boundary := ascii "b"
    parts := [⟨[⟨false,ascii "X",ascii "1\r\n\r\n2"⟩],⟨ascii "text",ascii "plain"⟩,ascii "abc"⟩] }

/- A body is printed, and something else is read. -/
def Body.Lost (m : Body) : Prop := m.Plain false ∧
  ∃ text, m.print false 1000 = some text ∧ parse noHandlers text m.ctype ≠ some (m.parts.map Part.parsed)

theorem notReadBack : caretType.Lost ∧ zeroBoundary.Lost ∧ ampersand.Lost ∧ twoLines.Lost := by
  refine ⟨?_,?_,?_,?_⟩
  · exact ⟨⟨by decide +kernel,by decide +kernel,by decide +kernel,by decide +kernel,by decide +kernel,
      by decide +kernel⟩,caretType.text false,by decide +kernel,by decide +kernel⟩
  · exact ⟨⟨by decide +kernel,by decide +kernel,by decide +kernel,by decide +kernel,by decide +kernel,
      by decide +kernel⟩,zeroBoundary.text false,by decide +kernel,by decide +kernel⟩
  · exact ⟨⟨by decide +kernel,by decide +kernel,by decide +kernel,by decide +kernel,by decide +kernel,
      by decide +kernel⟩,ampersand.text false,by decide +kernel,by decide +kernel⟩
  · exact ⟨⟨by decide +kernel,by decide +kernel,by decide +kernel,by decide +kernel,by decide +kernel,
      by decide +kernel⟩,twoLines.text false,by decide +kernel,by decide +kernel⟩

end Pjproject.Multipart
