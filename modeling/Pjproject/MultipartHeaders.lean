import Pjproject.Multipart

/-! How the header parser reads what was printed: one line a header, and the last Content-Type is the one that the part
prints itself. -/
namespace Pjproject.Multipart

/- The beginning of a line that is no continuation. -/
def LineStart (s : Text) : Prop := s ≠ [] ∧ isSpace (cur s) = false

section Scanner

variable {s rest : Text}

theorem takeRun {spec : UInt8 → Bool} (token : Text) (all : ∀ c ∈ token, spec c = true)
    (stop : spec (cur rest) = false) :
    (token ++ rest).takeWhile spec = token ∧ (token ++ rest).dropWhile spec = rest := by
  induction token with
  | nil =>
    cases rest with
    | nil => exact ⟨rfl,rfl⟩
    | cons c =>
      have stop : ¬ spec c = true := Bool.eq_false_iff.mp stop
      exact ⟨List.takeWhile_cons_of_neg stop,List.dropWhile_cons_of_neg stop⟩
  | cons c token ih =>
    have first := all c (List.mem_cons_self ..)
    obtain ⟨taken,dropped⟩ := ih (fun d mem => all d (List.mem_cons_of_mem c mem))
    constructor
    · rw [List.cons_append,List.takeWhile_cons_of_pos first,taken]
    · rw [List.cons_append,List.dropWhile_cons_of_pos first,dropped]

theorem dropSpaces (start : isSpace (cur rest) = false) : rest.dropWhile isSpace = rest :=
  (takeRun [] nofun start).2

theorem skipAtCrlf (start : LineStart rest) : skipWhitespace (crlf ++ rest) = crlf ++ rest := by
  have stays : (crlf ++ rest).dropWhile isSpace = crlf ++ rest := dropSpaces rfl
  have next : eatNewline (crlf ++ rest) = rest := rfl
  unfold skipWhitespace
  dsimp only
  rw [stays,next,start.2]
  rfl

theorem skipBlank (start : LineStart rest) {blanks : Text} (all : ∀ c ∈ blanks, isSpace c = true) :
    skipWhitespace (blanks ++ (crlf ++ rest)) = crlf ++ rest := by
  have dropped : (blanks ++ (crlf ++ rest)).dropWhile isSpace = crlf ++ rest := (takeRun blanks all rfl).2
  have same : skipWhitespace (blanks ++ (crlf ++ rest)) = skipWhitespace (crlf ++ rest) := by
    unfold skipWhitespace
    rw [dropped,dropSpaces (show isSpace (cur (crlf ++ rest)) = false from rfl)]
  rw [same,skipAtCrlf start]

theorem skipNothing (space : isSpace (cur s) = false) (newline : isNewline (cur s) = false) : skipWhitespace s = s := by
  unfold skipWhitespace
  dsimp only
  rw [dropSpaces space,newline]
  rfl

theorem skipToWord {blanks word : Text} (all : ∀ c ∈ blanks, isSpace c = true) (space : isSpace (cur word) = false)
    (newline : isNewline (cur word) = false) : skipWhitespace (blanks ++ word) = word := by
  have dropped : (blanks ++ word).dropWhile isSpace = word := (takeRun blanks all space).2
  unfold skipWhitespace
  dsimp only
  rw [dropped,newline]
  rfl

theorem curAppend {token : Text} (nonempty : token ≠ []) : cur (token ++ rest) = cur token := by
  cases token with
  | nil => exact absurd rfl nonempty
  | cons => rfl

theorem scanToken {spec : UInt8 → Bool} {token : Text} (rest : Text) (nonempty : token ≠ [])
    (all : ∀ c ∈ token, spec c = true) (stop : spec (cur rest) = false) : scanGet spec (token ++ rest) = .ok (token, skipWhitespace rest) := by
  obtain ⟨taken,dropped⟩ := takeRun token all stop
  have first : spec (cur (token ++ rest)) = true := by
    rw [curAppend nonempty]
    cases token with
    | nil => exact absurd rfl nonempty
    | cons c => exact all c (List.mem_cons_self ..)
  unfold scanGet
  rw [first,taken,dropped]
  rfl

theorem scanChar {c : UInt8} (nonzero : c ≠ 0) : scanGetChar (c :: s) = .ok (c, skipWhitespace s) := if_neg nonzero

theorem endOfHeader {beyond : Nat} (inside : beyond ≤ rest.length) :
    parseHdrEnd beyond (crlf ++ rest) = .ok rest := by
  have more : isEof beyond (crlf ++ rest) = false := by
    have length : (crlf ++ rest).length = rest.length + 2 := by
      rw [List.length_append,Nat.add_comm]
      rfl
    unfold isEof
    rw [length]
    exact decide_eq_false (by omega)
  unfold parseHdrEnd
  rw [more]
  rfl

end Scanner

/- A handler that reads the rest of its line, or fails before the end of it. -/
def ReadsLine (func : Handler) (value : Text) : Prop :=
  ∀ beyond rest, LineStart rest → beyond ≤ rest.length →
    let line := skipWhitespace (32 :: (value ++ (crlf ++ rest)))
    func beyond line = .ok (none, rest) ∨
      ∃ s, func beyond line = .error s ∧ isEof beyond s = false ∧ strchrLf s = some rest

/- A header whose text is one line, and no Content-Type. -/
structure Hdr.Readable (parsers : Parsers) (h : Hdr) : Prop where
  named : h.name ≠ []
  token : ∀ c ∈ h.name, isToken c = true
  value : ∀ c ∈ h.value, notNewline c = true
  handler : ∀ func, parsers.findHandler h.name = some func → ReadsLine func h.value

/- Content types that the header parser reads as they are. -/
structure MediaType.Proper (media : MediaType) : Prop where
  type : media.type ≠ []
  typeToken : ∀ c ∈ media.type, isToken c = true
  subtype : media.subtype ≠ []
  subtypeToken : ∀ c ∈ media.subtype, isToken c = true

section Lines

variable {parsers : Parsers} {rest : Text} {beyond : Nat}

theorem tokenPlain {c : UInt8} (token : isToken c = true) : isSpace c = false ∧ isNewline c = false := by
  have known : ∀ d : Fin 256, isToken (UInt8.ofNat d) = true →
      isSpace (UInt8.ofNat d) = false ∧ isNewline (UInt8.ofNat d) = false := by decide +kernel
  have same := UInt8.ofNat_toNat (x := c)
  have found := known ⟨c.toNat,c.toNat_lt⟩
  rw [same] at found
  exact found token

theorem tokenStart {token : Text} (nonempty : token ≠ []) (all : ∀ c ∈ token, isToken c = true) (rest : Text) :
    isSpace (cur (token ++ rest)) = false ∧ isNewline (cur (token ++ rest)) = false := by
  rw [curAppend nonempty]
  cases token with
  | nil => exact absurd rfl nonempty
  | cons c => exact tokenPlain (all c (List.mem_cons_self ..))

theorem tokenLine {token : Text} (nonempty : token ≠ []) (all : ∀ c ∈ token, isToken c = true) (rest : Text) :
    LineStart (token ++ rest) :=
  ⟨fun none => nonempty (List.append_eq_nil_iff.mp none).1,(tokenStart nonempty all rest).1⟩

theorem genericLine (start : LineStart rest) (inside : beyond ≤ rest.length) {value : Text}
    (plain : ∀ c ∈ value, notNewline c = true) (n : Nat) :
    genericString beyond (n + 1) (skipWhitespace (32 :: (value ++ (crlf ++ rest)))) = .ok rest := by
  have halves : value.takeWhile isSpace ++ value.dropWhile isSpace = value := List.takeWhile_append_dropWhile
  have blank : ∀ c ∈ (32 :: value.takeWhile isSpace : Text), isSpace c = true := by
    intro c mem
    rcases List.mem_cons.mp mem with first | later
    · rw [first]
      rfl
    · exact List.all_eq_true.mp List.all_takeWhile c later
  have split : (32 :: (value ++ (crlf ++ rest)) : Text) =
      (32 :: value.takeWhile isSpace) ++ (value.dropWhile isSpace ++ (crlf ++ rest)) := by
    rw [List.cons_append,← List.append_assoc (value.takeWhile isSpace),halves]
  rw [split]
  cases word : value.dropWhile isSpace with
  | nil =>
    rw [List.nil_append,skipBlank start blank]
    unfold genericString
    exact endOfHeader inside
  | cons c word' =>
    have mine : ∀ d ∈ c :: word', notNewline d = true :=
      fun d mem => plain d (List.dropWhile_sublist isSpace |>.subset (word ▸ mem))
    have space : isSpace c = false := by
      have first := List.head_dropWhile_not isSpace (l := value) (by rw [word]; exact List.cons_ne_nil _ _)
      simp only [word,List.head_cons] at first
      exact first
    have newline : isNewline c = false := by
      have first := mine c (List.mem_cons_self ..)
      unfold notNewline at first
      rw [Bool.and_eq_true,Bool.not_eq_true'] at first
      exact first.2
    have atWord : skipWhitespace ((32 :: value.takeWhile isSpace) ++ (c :: word' ++ (crlf ++ rest))) =
        c :: word' ++ (crlf ++ rest) := skipToWord blank space newline
    rw [atWord]
    unfold genericString
    have first : notNewline (cur (c :: word' ++ (crlf ++ rest))) = true := mine c (List.mem_cons_self ..)
    have got := scanToken (crlf ++ rest) (List.cons_ne_nil c word') mine rfl
    rw [if_pos first,got,skipAtCrlf start]
    have stop : (isEof beyond (crlf ++ rest) || isNewline (cur (crlf ++ rest))) = true :=
      Bool.or_eq_true_iff.mpr (.inr rfl)
    exact (if_pos stop).trans (endOfHeader inside)

theorem parseHeaderName (parsers : Parsers) (beyond : Nat) {name : Text} (nonempty : name ≠ [])
    (all : ∀ c ∈ name, isToken c = true) (value : Text) :
    parseHeader parsers beyond (name ++ (58 :: value)) =
      match parsers.findHandler name with
      | some func => func beyond (skipWhitespace value)
      | none => do return (none, ← genericString beyond ((skipWhitespace value).length + 1) (skipWhitespace value)) := by
  have got := scanToken (58 :: value) nonempty all rfl
  have colon : skipWhitespace (58 :: value) = 58 :: value := skipNothing rfl rfl
  have next : scanGetChar (58 :: value) = .ok (58, skipWhitespace value) := scanChar (by decide)
  unfold parseHeader
  rw [got,colon]
  dsimp only [bind,Except.bind]
  rw [next]
  rfl

theorem skipLinesOnce {s : Text} (found : strchrLf s = some rest) (start : LineStart rest) (n : Nat) :
    skipLines beyond (n + 1) s = rest := by
  have once : skipLine beyond s = rest := by
    unfold skipLine
    rw [found,Option.getD_some]
  unfold skipLines
  dsimp only
  rw [once,start.2]
  rfl

theorem ownLine {h : Hdr} (readable : h.Readable parsers) (start : LineStart rest) (inside : beyond ≤ rest.length) :
    nextHeader parsers beyond (h.text ++ crlf ++ rest) = (none, rest) := by
  have whole : h.text ++ crlf ++ rest = h.name ++ (58 :: (32 :: (h.value ++ (crlf ++ rest)))) := by
    unfold Hdr.text
    rw [List.append_assoc,List.append_assoc,List.append_assoc]
    rfl
  have named := parseHeaderName parsers beyond readable.named readable.token
    (32 :: (h.value ++ (crlf ++ rest)))
  unfold nextHeader
  rw [whole,named]
  cases known : parsers.findHandler h.name with
  | none =>
    dsimp only
    rw [genericLine start inside readable.value]
    rfl
  | some func =>
    dsimp only
    rcases readable.handler func known beyond rest start inside with good | ⟨s,failed,more,found⟩
    · rw [good]
    · rw [failed]
      dsimp only
      rw [more,if_neg Bool.false_ne_true,skipLinesOnce found start]

theorem digitsField (n : Nat) : ∃ blanks length : Text, clenField n = blanks ++ length ∧ length ≠ [] ∧
    (∀ c ∈ blanks, isSpace c = true) ∧ ∀ c ∈ length, isDigit c = true := by
  refine ⟨_,(digits n).take 5,rfl,?_,?_,?_⟩
  · intro none
    rcases List.take_eq_nil_iff.mp none with zero | empty
    · cases zero
    · exact Nat.toDigits_ne_nil (List.map_eq_nil_iff.mp empty)
  · intro c mem
    rw [List.eq_of_mem_replicate mem]
    rfl
  · intro c mem
    obtain ⟨d,digit,rfl⟩ := List.mem_map.mp (List.mem_of_mem_take mem)
    have known := Nat.isDigit_of_mem_toDigits (by decide) (by decide) digit
    obtain ⟨low,high⟩ := Bool.and_eq_true_iff.mp known
    have low : 48 ≤ d.toNat := UInt32.le_iff_toNat_le.mp (of_decide_eq_true low)
    have high : d.toNat ≤ 57 := UInt32.le_iff_toNat_le.mp (of_decide_eq_true high)
    have byte : (UInt8.ofNat d.toNat).toNat = d.toNat := by
      rw [UInt8.toNat_ofNat']
      omega
    refine Bool.and_eq_true_iff.mpr ⟨decide_eq_true ?_,decide_eq_true ?_⟩
    · exact UInt8.le_iff_toNat_le.mpr (byte.symm ▸ low)
    · exact UInt8.le_iff_toNat_le.mpr (byte.symm ▸ high)

theorem clenLine (start : LineStart rest) (inside : beyond ≤ rest.length) (n : Nat) :
    nextHeader parsers beyond (ascii "Content-Length: " ++ clenField n ++ crlf ++ rest) = (none, rest) := by
  obtain ⟨blanks,length,field,nonempty,spaces,all⟩ := digitsField n
  have whole : ascii "Content-Length: " ++ clenField n ++ crlf ++ rest =
      ascii "Content-Length" ++ (58 :: (32 :: blanks ++ (length ++ (crlf ++ rest)))) := by
    rw [field,List.append_assoc,List.append_assoc,List.append_assoc]
    rfl
  have handler : parsers.findHandler (ascii "Content-Length") = some contentLen := rfl
  have nameToken : ∀ c ∈ ascii "Content-Length", isToken c = true := by decide +kernel
  have named := parseHeaderName parsers beyond (by decide) nameToken (32 :: blanks ++ (length ++ (crlf ++ rest)))
  have blank : ∀ c ∈ (32 :: blanks : Text), isSpace c = true := by
    intro c mem
    rcases List.mem_cons.mp mem with first | later
    · rw [first]
      rfl
    · exact spaces c later
  have digit : isSpace (cur (length ++ (crlf ++ rest))) = false ∧ isNewline (cur (length ++ (crlf ++ rest))) = false :=
    tokenStart nonempty (fun c mem => by
      unfold isToken
      rw [all c mem]
      rfl) _
  have value : skipWhitespace (32 :: blanks ++ (length ++ (crlf ++ rest))) = length ++ (crlf ++ rest) :=
    skipToWord blank digit.1 digit.2
  have got := scanToken (crlf ++ rest) nonempty all rfl
  rw [skipAtCrlf start] at got
  have read : contentLen beyond (length ++ (crlf ++ rest)) = .ok (none, rest) := by
    unfold contentLen
    rw [got]
    dsimp only [bind,Except.bind]
    rw [endOfHeader inside]
    rfl
  rw [handler,value] at named
  unfold nextHeader
  rw [whole,named]
  dsimp only
  rw [read]

theorem ctypeLine (compact : Bool) {media : MediaType} (proper : media.Proper) (start : LineStart rest)
    (inside : beyond ≤ rest.length) :
    nextHeader parsers beyond (ctypeHdr compact ++ media.text ++ crlf ++ rest) = (some ⟨media,[]⟩, rest) := by
  obtain ⟨type,typeToken,subtype,subtypeToken⟩ := proper
  have read : contentType parsers beyond
      (skipWhitespace (32 :: (media.type ++ (47 :: (media.subtype ++ (crlf ++ rest)))))) =
        .ok (some ⟨media,[]⟩, rest) := by
    have first := tokenStart type typeToken (47 :: (media.subtype ++ (crlf ++ rest)))
    have second := tokenStart subtype subtypeToken (crlf ++ rest)
    have value : skipWhitespace ([32] ++ (media.type ++ (47 :: (media.subtype ++ (crlf ++ rest))))) =
        media.type ++ (47 :: (media.subtype ++ (crlf ++ rest))) :=
      skipToWord (by decide +kernel) first.1 first.2
    have got := scanToken (47 :: (media.subtype ++ (crlf ++ rest))) type typeToken rfl
    have got' := scanToken (crlf ++ rest) subtype subtypeToken rfl
    have slash : skipWhitespace (47 :: (media.subtype ++ (crlf ++ rest))) = 47 :: (media.subtype ++ (crlf ++ rest)) :=
      skipNothing rfl rfl
    have char := scanChar (c := 47) (s := media.subtype ++ (crlf ++ rest)) (by decide)
    rw [slash] at got
    rw [skipNothing second.1 second.2] at char
    rw [skipAtCrlf start] at got'
    rw [List.singleton_append] at value
    have noParams : mediaParams parsers (crlf ++ rest).length (crlf ++ rest) = .ok ([], crlf ++ rest) := rfl
    unfold contentType
    rw [value,got]
    dsimp only [bind,Except.bind]
    rw [char]
    dsimp only
    rw [got']
    dsimp only
    rw [noParams]
    dsimp only
    rw [endOfHeader inside]
    rfl
  have named : ∀ name : Text, name ≠ [] → (∀ c ∈ name, isToken c = true) →
      parsers.findHandler name = some (contentType parsers) →
        nextHeader parsers beyond (name ++ (58 :: (32 :: (media.type ++ (47 :: (media.subtype ++ (crlf ++ rest))))))) =
          (some ⟨media,[]⟩, rest) := by
    intro name nonempty token handler
    have line := parseHeaderName parsers beyond nonempty token
      (32 :: (media.type ++ (47 :: (media.subtype ++ (crlf ++ rest)))))
    rw [handler] at line
    unfold nextHeader
    rw [line]
    dsimp only
    rw [read]
  have tail : media.text ++ crlf ++ rest = media.type ++ (47 :: (media.subtype ++ (crlf ++ rest))) := by
    unfold MediaType.text
    rw [List.append_assoc,List.append_assoc,List.append_assoc]
    rfl
  rw [List.append_assoc,List.append_assoc,← List.append_assoc media.text,tail]
  cases compact with
  | true => exact named (ascii "c") (by decide) (by decide +kernel) rfl
  | false => exact named (ascii "Content-Type") (by decide) (by decide +kernel) rfl

end Lines

def hdrLines (hdrs : List Hdr) : Text := hdrs.flatMap (fun h => h.text ++ crlf)

section Sections

variable {parsers : Parsers} {beyond : Nat}

theorem headersStep (n : Nat) (s : Text) : headers parsers beyond (n + 1) s =
    (nextHeader parsers beyond s).1.toList ++
      if isEof beyond (nextHeader parsers beyond s).2 || isNewline (cur (nextHeader parsers beyond s).2) then []
      else headers parsers beyond n (nextHeader parsers beyond s).2 := rfl

theorem headersNone {s rest : Text} (line : nextHeader parsers beyond s = (none, rest)) (more : beyond < rest.length)
    (start : isNewline (cur rest) = false) (n : Nat) :
    headers parsers beyond (n + 1) s = headers parsers beyond n rest := by
  have goOn : (isEof beyond rest || isNewline (cur rest)) = false := by
    rw [start,Bool.or_false]
    exact decide_eq_false (by omega)
  rw [headersStep,line,goOn]
  rfl

theorem autoHeaders (compact : Bool) {part : Part} (proper : part.media.Proper) {tail : Text} (stop : cur tail = cr)
    (start : LineStart tail) (inside : beyond ≤ tail.length) (n : Nat) :
    headers parsers beyond (n + 2) (part.autoText compact ++ tail) = [⟨part.media,[]⟩] := by
  have startLen : LineStart (ascii "Content-Length: " ++ clenField part.body.length ++ crlf ++ tail) := ⟨nofun,rfl⟩
  have insideLen : beyond ≤ (ascii "Content-Length: " ++ clenField part.body.length ++ crlf ++ tail).length := by
    rw [List.length_append]
    omega
  have whole : part.autoText compact ++ tail = ctypeHdr compact ++ part.media.text ++ crlf ++
      (ascii "Content-Length: " ++ clenField part.body.length ++ crlf ++ tail) := by
    unfold Part.autoText
    simp only [List.append_assoc]
  have type := @ctypeLine parsers _ beyond compact part.media proper startLen insideLen
  have length := @clenLine parsers tail beyond start inside part.body.length
  have more : (isEof beyond (ascii "Content-Length: " ++ clenField part.body.length ++ crlf ++ tail) ||
      isNewline (cur (ascii "Content-Length: " ++ clenField part.body.length ++ crlf ++ tail))) = false := by
    have count : beyond < (ascii "Content-Length: " ++ clenField part.body.length ++ crlf ++ tail).length := by
      simp only [List.length_append]
      have sixteen : (ascii "Content-Length: ").length = 16 := rfl
      omega
    exact Bool.or_eq_false_iff.mpr ⟨decide_eq_false (by omega),rfl⟩
  have done : (isEof beyond tail || isNewline (cur tail)) = true := by
    rw [stop,Bool.or_eq_true_iff]
    exact .inr rfl
  rw [whole,headersStep,type,more,if_neg Bool.false_ne_true,headersStep,length,done]
  rfl

theorem autoStart (compact : Bool) (part : Part) : ∃ c text, part.autoText compact = c :: text ∧ isToken c = true := by
  unfold Part.autoText ctypeHdr
  cases compact with
  | true => exact ⟨_,_,rfl,rfl⟩
  | false => exact ⟨_,_,rfl,rfl⟩

theorem sectionStart (compact : Bool) (part : Part) (hdrs : List Hdr) (readable : ∀ h ∈ hdrs, h.Readable parsers)
    (tail : Text) : LineStart (hdrLines hdrs ++ (part.autoText compact ++ tail)) ∧
      isNewline (cur (hdrLines hdrs ++ (part.autoText compact ++ tail))) = false := by
  cases hdrs with
  | nil =>
    obtain ⟨c,text,same,token⟩ := autoStart compact part
    have plain := tokenPlain token
    rw [same]
    exact ⟨⟨List.cons_ne_nil _ _,plain.1⟩,plain.2⟩
  | cons h =>
    have own := readable h (List.mem_cons_self ..)
    unfold hdrLines Hdr.text
    rw [List.flatMap_cons]
    simp only [List.append_assoc]
    exact ⟨tokenLine own.named own.token _,(tokenStart own.named own.token _).2⟩

theorem sectionHeaders (compact : Bool) {part : Part} (proper : part.media.Proper) {tail : Text} (stop : cur tail = cr)
    (inside : beyond ≤ tail.length) (hdrs : List Hdr) (readable : ∀ h ∈ hdrs, h.Readable parsers) (n : Nat)
    (enough : hdrs.length + 2 ≤ n) :
    headers parsers beyond n (hdrLines hdrs ++ (part.autoText compact ++ tail)) = [⟨part.media,[]⟩] := by
  have start : LineStart tail := by
    refine ⟨fun none => ?_,by rw [stop]; rfl⟩
    rw [none] at stop
    cases stop
  induction hdrs generalizing n with
  | nil =>
    obtain ⟨m,rfl⟩ : ∃ m, n = m + 2 := ⟨n - 2,by simp only [List.length_nil] at enough; omega⟩
    exact autoHeaders compact proper stop start inside m
  | cons h hdrs ih =>
    obtain ⟨m,rfl⟩ : ∃ m, n = m + 1 := ⟨n - 1,by omega⟩
    have later := ih (fun h mem => readable h (List.mem_cons_of_mem _ mem)) m
      (by simp only [List.length_cons] at enough; omega)
    have split : hdrLines (h :: hdrs) ++ (part.autoText compact ++ tail) =
        h.text ++ crlf ++ (hdrLines hdrs ++ (part.autoText compact ++ tail)) := by
      unfold hdrLines
      rw [List.flatMap_cons]
      simp only [List.append_assoc]
    have next := sectionStart compact part hdrs (fun h mem => readable h (List.mem_cons_of_mem _ mem)) tail
    have longer : beyond < (hdrLines hdrs ++ (part.autoText compact ++ tail)).length := by
      obtain ⟨c,text,same,_⟩ := autoStart compact part
      rw [same]
      simp only [List.length_append,List.length_cons]
      omega
    rw [split,headersNone (ownLine (readable h (List.mem_cons_self ..)) next.1 (by omega)) longer next.2]
    exact later

end Sections

end Pjproject.Multipart
