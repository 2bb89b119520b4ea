import Pjproject.JsonStrings
import Pjproject.JsonNumbers

/-! One JSON element in front of any text that may follow it: how its name and its scalar value are read. -/
namespace Pjproject.Json
open Multipart (Text ascii cur isDigit)
open Scan

/- The end of the text, a comma or the end of an array or an object. -/
def Stops (s : Text) : Prop := s = [] ∨ cur s = comma ∨ cur s = 93 ∨ cur s = 125

def Clean (s : Text) : Prop := ∀ c ∈ s.takeWhile (· ≠ quote), c ≠ backslash

structure Follows (rest : Text) : Prop where
  stops : Stops (autoSkip rest)
  number : isFloat (cur rest) = false
  clean : Clean rest

/- The part of parse_elem_throw after the name. -/
def parseValue (fuel : Nat) (name : Text) (s : Text) : Option (Elem × Text) :=
  if isFloat (cur s) ∨ cur s = minus then (parseNumber s).map (fun (num, s) => (.leaf name (.number num), s))
  else if cur s = quote then (parseQuotedString s).map (fun (str, s) => (.leaf name (.string str), s))
  else if isAlpha (cur s) then (parseWord s).map (fun (value, s) => (.leaf name value, s))
  else if cur s = Kind.begin .array then do
    let (_, s) ← getChar s
    (parseChildren fuel (Kind.end .array) s).map (fun (children, s) => (.list name .array children, s))
  else if cur s = Kind.begin .obj then do
    let (_, s) ← getChar s
    (parseChildren fuel (Kind.end .obj) s).map (fun (children, s) => (.list name .obj children, s))
  else none

section Parts

variable {fuel : Nat} {name value s r : Text} {e : Elem}

theorem parseElemNamed (read : parseName s = some (name, [], r)) :
    parseElem (fuel + 1) s = parseValue fuel name r := by
  rw [parseElem,read]
  rfl

theorem parseElemString (read : parseName s = some (name, value, r)) (more : value ≠ []) :
    parseElem (fuel + 1) s = some (.leaf name (.string value), r) := by
  rw [parseElem,read]
  exact if_pos more

theorem parseNameOther (other : cur s ≠ quote) : parseName s = some ([], [], s) := if_neg other

theorem mapRead {α : Type} {x : Option (α × Text)} {f : α → Elem}
    (read : x.map (fun (a, s) => (f a, s)) = some (e, r)) : ∃ a, x = some (a, r) ∧ f a = e := by
  cases x with
  | none => exact nomatch read
  | some result =>
    obtain ⟨a,u⟩ := result
    obtain ⟨elem,left⟩ := Prod.mk.inj (Option.some.inj read)
    exact ⟨a,congrArg (fun u => some (a, u)) left,elem⟩

theorem mapName {α : Type} {x : Option (α × Text)} {f : α → Elem} (named : ∀ a, (f a).name = name)
    (read : x.map (fun (a, s) => (f a, s)) = some (e, r)) : e.name = name := by
  obtain ⟨a,-,rfl⟩ := mapRead read
  exact named a

theorem parseValueName (read : parseValue fuel name s = some (e, r)) : e.name = name := by
  unfold parseValue at read
  split at read
  · exact mapName (f := fun num => .leaf name (.number num)) (fun _ => rfl) read
  split at read
  · exact mapName (f := fun str => .leaf name (.string str)) (fun _ => rfl) read
  split at read
  · exact mapName (f := fun value => .leaf name value) (fun _ => rfl) read
  split at read
  · cases first : getChar s with
    | none => rw [first] at read; exact nomatch read
    | some => rw [first] at read; exact mapName (f := Elem.list name .array) (fun _ => rfl) read
  split at read
  · cases first : getChar s with
    | none => rw [first] at read; exact nomatch read
    | some => rw [first] at read; exact mapName (f := Elem.list name .obj) (fun _ => rfl) read
  · exact nomatch read

theorem stopsNoColon (stops : Stops s) : cur s ≠ colon := by
  rcases stops with rfl | h | h | h
  · decide
  all_goals rw [h]; decide

theorem stopsNoValue (stops : Stops s) : parseValue fuel name s = none := by
  have known : cur s = 0 ∨ cur s = comma ∨ cur s = 93 ∨ cur s = 125 := by
    rcases stops with rfl | h
    · exact Or.inl rfl
    · exact Or.inr h
  unfold parseValue
  rcases known with h | h | h | h <;> rw [h] <;> rfl

theorem namedColon {token u : Text} (char : s = colon :: u) : named token s = some (token, [], autoSkip u) := by
  subst char
  rfl

theorem namedOther {token : Text} (other : cur s ≠ colon) : named token s = some ([], token, s) := if_neg other

theorem namedEither {token : Text} (read : named token s = some (name, value, r)) :
    (name = token ∧ value = [] ∧ cur s = colon ∧ getChar s = some (colon, r)) ∨ (name = [] ∧ value = token ∧ r = s) := by
  unfold named at read
  split at read
  · rename_i here
    cases first : getChar s with
    | none =>
      rw [first] at read
      exact nomatch read
    | some result =>
      rw [first] at read
      obtain ⟨c,u⟩ := result
      have char : c = colon := by
        unfold getChar at first
        split at first
        · exact nomatch first
        · exact ((Prod.mk.inj (Option.some.inj first)).1).symm.trans here
      cases read
      exact Or.inl ⟨rfl,rfl,here,char ▸ rfl⟩
  · cases read
    exact Or.inr ⟨rfl,rfl,rfl⟩

end Parts

/- Words of four characters, of which five are looked at. -/
def Scalar.short : Scalar → Bool
  | .null => true
  | .bool value => value
  | _ => false

def Scalar.Integral : Scalar → Prop
  | .number num => Json.Integral num
  | _ => True

def Scalar.Exact : Scalar → Prop
  | .number num => |num| < 2 ^ 63
  | _ => True

section Scalars

variable {fuel : Nat} {name name' rest r : Text}

theorem strcmpLong {s word : Text} (long : word.length ≤ s.length) :
    strcmp s word = some (s.take word.length == word) := if_neg (Nat.not_lt.mpr long)

theorem advanceOver {word : Text} {n : Nat} (length : word.length = n) (rest : Text) :
    advance n true (word ++ rest) = some (autoSkip rest) := by
  have long : ¬ (word ++ rest).length < n := by
    rw [List.length_append]
    omega
  unfold advance
  rw [if_neg long,if_pos rfl,← length,List.drop_left]

theorem wordFalse (rest : Text) : parseWord (ascii "false" ++ rest) = some (.bool false, autoSkip rest) := by
  have compared : strcmp (ascii "false" ++ rest) (ascii "false") = some true :=
    strcmpLong (by rw [List.length_append]; exact Nat.le_add_right _ _)
  have passed : advance 5 true (ascii "false" ++ rest) = some (autoSkip rest) := advanceOver rfl rest
  unfold parseWord
  rw [compared]
  exact congrArg (Option.map _) passed

theorem wordTrue (more : rest ≠ []) : parseWord (ascii "true" ++ rest) = some (.bool true, autoSkip rest) := by
  obtain ⟨c,rest,rfl⟩ := List.exists_cons_of_ne_nil more
  have long : 5 ≤ (ascii "true" ++ c :: rest).length := by
    rw [List.length_append,List.length_cons]
    have four : (ascii "true").length = 4 := rfl
    omega
  have first : strcmp (ascii "true" ++ c :: rest) (ascii "false") = some false := strcmpLong long
  have second : strcmp (ascii "true" ++ c :: rest) (ascii "true") = some true := strcmpLong (Nat.le_of_succ_le long)
  have passed : advance 4 true (ascii "true" ++ c :: rest) = some (autoSkip (c :: rest)) := advanceOver rfl _
  unfold parseWord
  rw [first]
  simp only [Option.bind_eq_bind,Option.bind_some,second,passed]
  rfl

theorem wordNull (more : rest ≠ []) : parseWord (ascii "null" ++ rest) = some (.null, autoSkip rest) := by
  obtain ⟨c,rest,rfl⟩ := List.exists_cons_of_ne_nil more
  have long : 5 ≤ (ascii "null" ++ c :: rest).length := by
    rw [List.length_append,List.length_cons]
    have four : (ascii "null").length = 4 := rfl
    omega
  have first : strcmp (ascii "null" ++ c :: rest) (ascii "false") = some false := strcmpLong long
  have second : strcmp (ascii "null" ++ c :: rest) (ascii "true") = some false :=
    strcmpLong (Nat.le_of_succ_le long)
  have third : strcmp (ascii "null" ++ c :: rest) (ascii "null") = some true := strcmpLong (Nat.le_of_succ_le long)
  have passed : advance 4 true (ascii "null" ++ c :: rest) = some (autoSkip (c :: rest)) := advanceOver rfl _
  unfold parseWord
  rw [first]
  simp only [Option.bind_eq_bind,Option.bind_some,second,third,passed]
  rfl

theorem valueWord {s : Text} {c : UInt8} (here : cur s = c)
    (letter : isFloat c = false ∧ isAlpha c = true ∧ c ≠ minus ∧ c ≠ quote) :
    parseValue fuel name s = (parseWord s).map (fun (value, s) => (.leaf name value, s)) := by
  obtain ⟨float,alpha,noMinus,noQuote⟩ := letter
  have noNumber : ¬ (isFloat c = true ∨ c = minus) := by
    rw [float]
    exact fun either => either.elim Bool.false_ne_true noMinus
  unfold parseValue
  rw [here,if_neg noNumber,if_neg noQuote,if_pos alpha]

theorem valueString (str rest : Text) :
    parseValue fuel name (scalarText (.string str) ++ rest) = some (.leaf name (.string str), autoSkip rest) := by
  have text : scalarText (.string str) ++ rest = quote :: (escape str ++ quote :: rest) := by
    unfold scalarText
    simp
  rw [text]
  have noNumber : ¬ (isFloat (cur (quote :: (escape str ++ quote :: rest))) = true ∨
    cur (quote :: (escape str ++ quote :: rest)) = minus) := by
    change ¬ (isFloat quote = true ∨ quote = minus)
    decide
  have here : cur (quote :: (escape str ++ quote :: rest)) = quote := rfl
  unfold parseValue
  rw [if_neg noNumber,if_pos here,quotedString]
  rfl

theorem valueNumber (fuel : Nat) (name : Text) {num : ℚ} (integral : Integral num) (stop : isFloat (cur rest) = false) :
    ∃ val, parseValue fuel name (scalarText (.number num) ++ rest) =
      some (.leaf name (.number val), autoSkip rest) ∧ (val = num ↔ |num| < 2 ^ 63) := by
  obtain ⟨val,read,same⟩ := numberRead integral stop
  have begins : isFloat (cur (numberText num ++ rest)) = true ∨ cur (numberText num ++ rest) = minus := by
    obtain ⟨nonempty,all⟩ := numberChars integral
    cases text : numberText num with
    | nil => exact absurd text nonempty
    | cons c => exact all c (text ▸ List.mem_cons_self ..)
  refine ⟨val,?_,same⟩
  unfold parseValue scalarText
  rw [if_pos begins,read]
  rfl

theorem valueOfWord {v : Scalar} (word : v = .null ∨ ∃ value, v = .bool value) (more : v.short = true → rest ≠ []) :
    parseValue fuel name (scalarText v ++ rest) = some (.leaf name v, autoSkip rest) := by
  rcases word with rfl | ⟨value,rfl⟩
  · rw [valueWord (c := 110) rfl (by decide)]
    exact congrArg (Option.map _) (wordNull (more rfl))
  · cases value with
    | false =>
      rw [valueWord (c := 102) rfl (by decide)]
      exact congrArg (Option.map _) (wordFalse rest)
    | true =>
      rw [valueWord (c := 116) rfl (by decide)]
      exact congrArg (Option.map _) (wordTrue (more rfl))

theorem scalarRead {v : Scalar} (integral : v.Integral) (stop : isFloat (cur rest) = false) (exact_ : v.Exact)
    (more : v.short = true → rest ≠ []) :
    parseValue fuel name (scalarText v ++ rest) = some (.leaf name v, autoSkip rest) := by
  cases v with
  | null => exact valueOfWord (Or.inl rfl) more
  | bool value => exact valueOfWord (Or.inr ⟨value,rfl⟩) more
  | number =>
    obtain ⟨val,read,same⟩ := valueNumber fuel name integral stop
    exact (same.mpr exact_) ▸ read
  | string str => exact valueString str rest

theorem shortAtEnd {v : Scalar} (short : v.short = true) : parseValue fuel name (scalarText v ++ []) = none := by
  cases v with
  | null => rfl
  | bool value =>
    cases value with
    | false => exact nomatch short
    | true => rfl
  | number => exact nomatch short
  | string => exact nomatch short

theorem scalarReadOnly {v : Scalar} (integral : v.Integral) (stop : isFloat (cur rest) = false)
    (read : parseValue fuel name (scalarText v ++ rest) = some (.leaf name' v, r)) :
    v.Exact ∧ (v.short = true → rest ≠ []) ∧ r = autoSkip rest := by
  have more : v.short = true → rest ≠ [] := by
    rintro short rfl
    rw [shortAtEnd short] at read
    exact nomatch read
  have exact_ : v.Exact := by
    cases v with
    | number =>
      obtain ⟨val,found,same⟩ := valueNumber fuel name integral stop
      rw [found] at read
      cases read
      exact same.mp rfl
    | null => trivial
    | bool => trivial
    | string => trivial
  rw [scalarRead integral stop exact_ more] at read
  cases read
  exact ⟨exact_,more,rfl⟩

end Scalars

section Names

variable {fuel indent : Nat} {noName : Bool} {name str before w rest r : Text} {e : Elem}

theorem skipRun {blanks : Text} (all : ∀ c ∈ blanks, isBlank c = true) (w : Text) :
    autoSkip (blanks ++ w) = autoSkip w := by
  rw [autoIsDrop,autoIsDrop,List.dropWhile_append_of_pos all]

theorem spacesBlank (n : Nat) : ∀ c ∈ List.replicate n (32 : UInt8), isBlank c = true := by
  intro c mem
  rw [List.eq_of_mem_replicate mem]
  rfl

theorem nameTextCases (written : nameText indent noName name = some before) :
    (name = [] ∧ before = []) ∨ (name ≠ [] ∧ noName = true ∧ ∃ n, before = List.replicate n 32) ∨
      (name ≠ [] ∧ noName = false ∧ ∃ n k, before =
        List.replicate n 32 ++ quote :: (escape name ++ quote :: colon :: 32 :: List.replicate k 32)) := by
  unfold nameText at written
  split at written
  · rename_i unnamed
    exact Or.inl ⟨unnamed,(Option.some.inj written).symm⟩
  · rename_i named
    unfold indentBuf at written
    by_cases fits : indent ≤ maxIndent
    · rw [if_pos fits] at written
      have text := (Option.some.inj written).symm
      cases noName with
      | true => exact Or.inr (Or.inl ⟨named,rfl,indent,text⟩)
      | false =>
        refine Or.inr (Or.inr ⟨named,rfl,indent,nameMinLen - name.length,text.trans ?_⟩)
        simp
    · rw [if_neg fits] at written
      exact nomatch written

theorem skipToName (name : Text) (n k : Nat) (plain : isBlank (cur w) = false) :
    autoSkip (List.replicate n 32 ++ quote :: (escape name ++ quote :: colon :: 32 :: List.replicate k 32) ++ w) =
      quote :: (escape name ++ quote :: (colon :: (32 :: List.replicate k 32 ++ w))) ∧
    autoSkip (32 :: List.replicate k 32 ++ w) = w := by
  constructor
  · rw [List.append_assoc,skipRun (spacesBlank n)]
    simp only [List.cons_append,List.append_assoc]
    exact autoStays rfl
  · exact (skipRun (spacesBlank (k + 1)) w).trans (autoStays plain)

theorem nameRead {n k : Nat} (plain : isBlank (cur w) = false) (readable : Plain name) :
    parseName (autoSkip (List.replicate n 32 ++ quote :: (escape name ++ quote :: colon :: 32 :: List.replicate k 32) ++ w))
      = some (name, [], w) := by
  obtain ⟨skipped,value⟩ := skipToName name n k plain
  have token : escape (lead name) = name := by rw [plainLead readable,escapePlain readable.1]
  rw [skipped,nameQuoteless (plainQuoteless readable),token]
  exact (namedColon (autoStays rfl)).trans (congrArg (fun s => some (name, [], s)) value)

theorem tokenCases {token s t : Text} (read : parseName s = named token t)
    (parsed : parseElem (fuel + 1) s = some (e, r)) :
    (∃ u, cur t = colon ∧ getChar t = some (colon, u) ∧ parseValue fuel token u = some (e, r)) ∨
      (token ≠ [] ∧ e = .leaf [] (.string token) ∧ r = t) ∨ (token = [] ∧ parseValue fuel [] t = some (e, r)) := by
  cases found : named token t with
  | none =>
    rw [parseElem,read,found] at parsed
    exact nomatch parsed
  | some result =>
    obtain ⟨n,v,u⟩ := result
    have here := read.trans found
    rcases namedEither found with ⟨rfl,rfl,char,passed⟩ | ⟨rfl,rfl,rfl⟩
    · rw [parseElemNamed here] at parsed
      exact Or.inl ⟨u,char,passed,parsed⟩
    · by_cases empty : v = []
      · subst empty
        rw [parseElemNamed here] at parsed
        exact Or.inr (Or.inr ⟨rfl,parsed⟩)
      · rw [parseElemString here empty] at parsed
        obtain ⟨elem,rest⟩ := Prod.mk.inj (Option.some.inj parsed)
        exact Or.inr (Or.inl ⟨empty,elem.symm,rest.symm⟩)

theorem tokenName {token s t : Text} (read : parseName s = named token t)
    (parsed : parseElem (fuel + 1) s = some (e, r)) : e.name = token ∨ e.name = [] := by
  rcases tokenCases read parsed with ⟨u,-,-,value⟩ | ⟨-,rfl,-⟩ | ⟨-,value⟩
  · exact Or.inl (parseValueName value)
  · exact Or.inr rfl
  · exact Or.inr (parseValueName value)

theorem tokenFree {z : Text} (none_ : quote ∉ z) : quote ∉ escape z ++ [backslash] := by
  intro mem
  rcases List.mem_append.mp mem with early | last
  · exact quoteFree none_ early
  · exact absurd (List.mem_singleton.mp last) (by decide)

theorem nameReadOnly {n k : Nat} (some_ : name ≠ []) (plain : isBlank (cur w) = false)
    (parsed : parseElem (fuel + 1) (autoSkip (List.replicate n 32 ++
      quote :: (escape name ++ quote :: colon :: 32 :: List.replicate k 32) ++ w)) = some (e, r))
    (same : e.name = name) : Plain name := by
  rw [(skipToName _ n k plain).1] at parsed
  by_cases quoted : quote ∈ name
  · obtain ⟨z₁,z₂,cut,none_⟩ := quoteInLead quoted
    rcases tokenName (nameQuoted cut none_) parsed with token | empty
    · exact absurd (same ▸ quoted) (token ▸ tokenFree none_)
    · exact absurd (same.symm.trans empty) some_
  · rcases tokenName (nameQuoteless quoted) parsed with token | empty
    · exact plainOfToken (token.symm.trans same)
    · exact absurd (same.symm.trans empty) some_

theorem stringRead (readable : Plain str) (some_ : str ≠ []) (stops : Stops (autoSkip rest)) :
    parseElem (fuel + 1) (quote :: (escape str ++ quote :: rest)) = some (.leaf [] (.string str), autoSkip rest) := by
  have token : escape (lead str) = str := by rw [plainLead readable,escapePlain readable.1]
  have read : parseName (quote :: (escape str ++ quote :: rest)) = some ([], str, autoSkip rest) := by
    rw [nameQuoteless (plainQuoteless readable),token]
    exact namedOther (stopsNoColon stops)
  exact parseElemString read some_

theorem stringReadOnly (stops : Stops (autoSkip rest))
    (parsed : parseElem (fuel + 1) (quote :: (escape str ++ quote :: rest)) = some (.leaf [] (.string str), r)) :
    str ≠ [] ∧ Plain str ∧ r = autoSkip rest := by
  by_cases quoted : quote ∈ str
  · obtain ⟨z₁,z₂,cut,none_⟩ := quoteInLead quoted
    rcases tokenCases (nameQuoted cut none_) parsed with ⟨u,-,-,value⟩ | ⟨-,same,-⟩ | ⟨empty,-⟩
    · have name := parseValueName value
      exact absurd (List.append_eq_nil_iff.mp name.symm).2 (List.cons_ne_nil _ _)
    · have same : str = escape z₁ ++ [backslash] := by
        injection same with _ value
        injection value
      exact absurd (same ▸ quoted) (tokenFree none_)
    · exact absurd (List.append_eq_nil_iff.mp empty).2 (List.cons_ne_nil _ _)
  · rcases tokenCases (nameQuoteless quoted) parsed with ⟨u,char,-,-⟩ | ⟨some_,same,left⟩ | ⟨-,value⟩
    · exact absurd char (stopsNoColon stops)
    · have same : str = escape (lead str) := by
        injection same with _ value
        injection value
      exact ⟨same ▸ some_,plainOfToken same.symm,left⟩
    · rw [stopsNoValue stops] at value
      exact nomatch value

theorem cleanQuoteEnd {seen found : Text} (clean : Clean rest) (last : seen.head? ≠ some backslash)
    (read : quoteEnd quote seen rest = some (found, r)) :
    ∃ w : Text, found = quote :: w.reverse ++ seen ∧ ∀ c ∈ w, c ≠ quote ∧ c ≠ backslash := by
  induction rest generalizing seen with
  | nil => cases read
  | cons c rest ih =>
    by_cases here : c = quote
    · subst here
      have ends : ¬ ((seen.head? = some backslash &&
          decide ((seen.tail.takeWhile (· == backslash)).length % 2 ≠ 1)) = true) := by
        simp [last]
      rw [quoteEnd,if_pos rfl,if_neg ends] at read
      cases read
      exact ⟨[],rfl,by simp⟩
    · have taken : (c :: rest).takeWhile (· ≠ quote) = c :: rest.takeWhile (· ≠ quote) :=
        List.takeWhile_cons_of_pos (by simpa using here)
      have noSlash : c ≠ backslash := clean c (taken ▸ List.mem_cons_self ..)
      have clean : Clean rest := fun d mem => clean d (taken ▸ List.mem_cons_of_mem c mem)
      have last : (c :: seen).head? ≠ some backslash := fun slash => noSlash (Option.some.inj slash)
      rw [quoteEnd,if_neg here] at read
      split at read
      · cases read
      · obtain ⟨w,same,free⟩ := ih clean last read
        refine ⟨c :: w,by rw [same]; simp,?_⟩
        intro d mem
        rcases List.mem_cons.mp mem with rfl | later
        · exact ⟨here,noSlash⟩
        · exact free d later

theorem cleanQuoted (clean : Clean rest) (read : parseQuotedString (quote :: rest) = some (str, r)) : quote ∉ str := by
  have opened : getQuotes [quote] (quote :: rest) =
      (quoteEnd quote [quote] rest).map (fun (seen, s) => (seen.reverse, autoSkip s)) := rfl
  unfold parseQuotedString at read
  rw [opened] at read
  cases ended : quoteEnd quote [quote] rest with
  | none =>
    rw [ended] at read
    exact nomatch read
  | some result =>
    obtain ⟨found,u⟩ := result
    obtain ⟨w,rfl,free⟩ := cleanQuoteEnd clean (by decide) ended
    have inner : unquote ((quote :: w.reverse ++ [quote]).reverse) = w := by simp [unquote]
    have noSlash : w.contains backslash = false := by
      refine Bool.eq_false_iff.mpr (fun mem => ?_)
      exact (free backslash (List.contains_iff_mem.mp mem)).2 rfl
    rw [ended] at read
    simp only [Option.map_some,Option.bind_eq_bind,Option.bind_some,inner,noSlash] at read
    have same : w = str := congrArg Prod.fst (Option.some.inj read)
    exact same ▸ fun mem => (free quote mem).1 rfl

theorem wordNoString {s : Text} {v : Scalar} (read : parseWord s = some (v, r)) : v ≠ .string str := by
  have mapped : ∀ (x : Option Text) (word : Scalar), word ≠ .string str →
      x.map (fun s => (word, s)) = some (v, r) → v ≠ .string str := by
    intro x word other found
    cases x with
    | none => exact nomatch found
    | some =>
      cases found
      exact other
  unfold parseWord at read
  simp only [Option.bind_eq_bind,Option.bind_eq_some_iff] at read
  obtain ⟨first,-,read⟩ := read
  split at read
  · exact mapped _ (.bool false) (fun same => nomatch same) read
  · simp only [Option.bind_eq_some_iff] at read
    obtain ⟨second,-,read⟩ := read
    split at read
    · exact mapped _ (.bool true) (fun same => nomatch same) read
    · simp only [Option.bind_eq_some_iff] at read
      obtain ⟨third,-,read⟩ := read
      split at read
      · exact mapped _ .null (fun same => nomatch same) read
      · exact nomatch read

theorem valueIsString {s : Text} (read : parseValue fuel name s = some (.leaf w (.string str), r)) :
    cur s = quote ∧ parseQuotedString s = some (str, r) := by
  unfold parseValue at read
  split at read
  · obtain ⟨num,-,same⟩ := mapRead (f := fun num => .leaf name (.number num)) read
    exact nomatch same
  split at read
  · rename_i here
    obtain ⟨found,string,same⟩ := mapRead (f := fun str => .leaf name (.string str)) read
    cases same
    exact ⟨here,string⟩
  split at read
  · obtain ⟨value,word,same⟩ := mapRead (f := fun value => .leaf name value) read
    cases same
    exact absurd rfl (wordNoString word)
  split at read
  · cases first : getChar s with
    | none => rw [first] at read; exact nomatch read
    | some =>
      rw [first] at read
      obtain ⟨children,-,same⟩ := mapRead (f := Elem.list name .array) read
      exact nomatch same
  split at read
  · cases first : getChar s with
    | none => rw [first] at read; exact nomatch read
    | some =>
      rw [first] at read
      obtain ⟨children,-,same⟩ := mapRead (f := Elem.list name .obj) read
      exact nomatch same
  · exact nomatch read

theorem hiddenName (follows : Follows rest)
    (parsed : parseElem (fuel + 1) (quote :: (escape str ++ quote :: rest)) = some (.leaf name (.string str), r)) :
    name = [] := by
  by_cases quoted : quote ∈ str
  · obtain ⟨z₁,z₂,cut,none_⟩ := quoteInLead quoted
    rcases tokenCases (nameQuoted cut none_) parsed with ⟨u,char,passed,value⟩ | ⟨-,same,-⟩ | ⟨empty,-⟩
    · -- a colon of the string, and then the quote that ends it as the begin of a value
      obtain ⟨here,string⟩ := valueIsString value
      have start : u = quote :: rest := by
        rcases leadHead z₂ with nil | ⟨c,s,first,-⟩
        · rw [nil] at char
          exact nomatch char
        · rw [first,escapeStart] at char
          have colon_ := escapeCharColon c char
          subst colon_
          have left : u = escape (lead s) ++ quote :: rest := by
            rw [first] at passed
            have same : autoSkip (escape s ++ quote :: rest) = u := congrArg Prod.snd (Option.some.inj passed)
            rw [← same,skipEscape]
          rcases leadHead s with nil | ⟨d,s',start,other⟩
          · rw [left,nil]
            rfl
          · rw [left,start,escapeStart] at here
            exact absurd here ((escapeCharHead d).resolve_left other).2
      exact absurd quoted (cleanQuoted follows.clean (start ▸ string))
    · injection same
    · exact absurd (List.append_eq_nil_iff.mp empty).2 (List.cons_ne_nil _ _)
  · rcases tokenCases (nameQuoteless quoted) parsed with ⟨u,char,-,-⟩ | ⟨-,same,-⟩ | ⟨-,value⟩
    · exact absurd char (stopsNoColon follows.stops)
    · injection same
    · rw [stopsNoValue follows.stops] at value
      exact nomatch value

end Names

end Pjproject.Json
