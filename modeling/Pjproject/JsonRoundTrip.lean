import Pjproject.JsonValues

/-! Trees of JSON elements that are read back as they were written, and only those. -/
namespace Pjproject.Json
open Multipart (Text ascii cur lf)
open Scan

def Blank (s : Text) : Prop := ∀ c ∈ s, isBlank c = true

/- The text of a value begins with none of the characters that end one. -/
structure Starts (w : Text) : Prop where
  some : w ≠ []
  plain : isBlank (cur w) = false
  going : ¬ Stops w

def Elem.short : Elem → Bool
  | .leaf _ value => value.short
  | .list _ _ _ => false

def Scalar.Bare : Scalar → Prop
  | .string str => str ≠ [] ∧ Plain str
  | _ => True

mutual

def Elem.Integral : Elem → Prop
  | .leaf _ value => value.Integral
  | .list _ _ children => AllIntegral children

def AllIntegral : List Elem → Prop
  | [] => True
  | child :: children => child.Integral ∧ AllIntegral children

end

mutual

/- Names, and strings without a name, that the writer leaves as they are; numbers below 2^63; no names in an array. -/
def Elem.Readable : Elem → Prop
  | .leaf name value => Plain name ∧ value.Exact ∧ (name = [] → value.Bare)
  | .list name kind children => Plain name ∧ (kind = .array → ∀ c ∈ children, c.name = []) ∧ AllReadable children

def AllReadable : List Elem → Prop
  | [] => True
  | child :: children => child.Readable ∧ AllReadable children

end

mutual

def Elem.size : Elem → Nat
  | .leaf _ _ => 1
  | .list _ _ children => sizeAll children + 1

def sizeAll : List Elem → Nat
  | [] => 1
  | child :: children => child.size + sizeAll children + 1

end

section Written

variable {indent : Nat} {noName : Bool} {name s sep last lines : Text} {kind : Kind} {value : Scalar}
  {child : Elem} {children : List Elem}

theorem leafWritten (written : elemWrite indent noName (.leaf name value) = some s) :
    ∃ before, nameText indent noName name = some before ∧ s = before ++ scalarText value := by
  rw [elemWrite] at written
  cases found : nameText indent noName name with
  | none =>
    rw [found] at written
    exact nomatch written
  | some before =>
    rw [found] at written
    exact ⟨before,rfl,(Option.some.inj written).symm⟩

def Layout (kind : Kind) (children : List Elem) (body : Text) : Prop :=
  ∃ indent mid last pre fin lines, childrenWrite indent (decide (kind = .array)) (comma :: mid) last children =
    some lines ∧ Blank mid ∧ Blank last ∧ Blank pre ∧ Blank fin ∧ body = pre ++ lines ++ fin

theorem indentBlank {n : Nat} {spaces : Text} (written : indentBuf n = some spaces) : Blank spaces := by
  unfold indentBuf at written
  split at written
  · cases written
    exact spacesBlank n
  · exact nomatch written

theorem listWritten (written : elemWrite indent noName (.list name kind children) = some s) :
    ∃ before body, nameText indent noName name = some before ∧ Layout kind children body ∧
      s = before ++ (kind.begin :: 32 :: (body ++ [kind.end])) := by
  rw [elemWrite] at written
  simp only [Option.bind_eq_bind,Option.bind_eq_some_iff] at written
  obtain ⟨before,named,inner⟩ := written
  split at inner
  · simp only [Option.bind_eq_some_iff] at inner
    obtain ⟨lines,items,spaces,indented,body,text,whole⟩ := inner
    refine ⟨before,body,named,⟨_,ascii "\n",ascii "\n",[lf],spaces,lines,items,?_,?_,?_,indentBlank indented,
      (Option.some.inj text).symm⟩,?_⟩
    · unfold Blank; decide +kernel
    · unfold Blank; decide +kernel
    · unfold Blank; decide +kernel
    · rw [← Option.some.inj whole]
      simp
  · simp only [Option.bind_eq_some_iff] at inner
    obtain ⟨body,items,whole⟩ := inner
    refine ⟨before,body,named,⟨_,ascii " ",[],[],[],body,items,?_,nofun,nofun,nofun,?_⟩,?_⟩
    · unfold Blank; decide +kernel
    · simp
    · rw [← Option.some.inj whole]
      simp

theorem childrenWritten (written : childrenWrite indent noName sep last (child :: children) = some lines) :
    ∃ text rest, elemWrite indent noName child = some text ∧
      childrenWrite indent noName sep last children = some rest ∧
      lines = text ++ ((if children.isEmpty then last else sep) ++ rest) := by
  rw [childrenWrite] at written
  simp only [Option.bind_eq_bind,Option.bind_eq_some_iff] at written
  obtain ⟨text,first,rest,later,whole⟩ := written
  refine ⟨text,rest,first,later,?_⟩
  rw [← Option.some.inj whole,List.append_assoc]

end Written

section Starting

variable {indent : Nat} {noName : Bool} {s w rest : Text} {kind : Kind} {value : Scalar} {e : Elem}

theorem startsOf {c : UInt8} {tail : Text} (plain : isBlank c = false) (going : c ≠ comma ∧ c ≠ 93 ∧ c ≠ 125) :
    Starts (c :: tail) := by
  refine ⟨List.cons_ne_nil c tail,plain,?_⟩
  rintro (h | h | h | h)
  · exact nomatch h
  · exact going.1 h
  · exact going.2.1 h
  · exact going.2.2 h

theorem Starts.append (starts : Starts w) (t : Text) : Starts (w ++ t) := by
  obtain ⟨some_,plain,going⟩ := starts
  cases w with
  | nil => exact absurd rfl some_
  | cons => exact ⟨List.cons_ne_nil _ _,plain,fun stops => going (Or.inr (stops.resolve_left (List.cons_ne_nil _ _)))⟩

theorem floatCases {c : UInt8} (number : isFloat c = true ∨ c = minus) :
    c = dot ∨ c = minus ∨ (48 ≤ c ∧ c ≤ 57) := by
  rcases number with float | rfl
  · unfold isFloat Multipart.isDigit at float
    simp only [Bool.or_eq_true,Bool.and_eq_true,decide_eq_true_iff] at float
    exact float.elim Or.inl (fun digit => Or.inr (Or.inr digit))
  · exact Or.inr (Or.inl rfl)

theorem floatOther {c d : UInt8} (number : isFloat c = true ∨ c = minus)
    (away : d ≠ dot ∧ d ≠ minus ∧ (d < 48 ∨ 57 < d)) : c ≠ d := by
  rintro rfl
  rcases floatCases number with same | same | ⟨low,high⟩
  · exact away.1 same
  · exact away.2.1 same
  · rcases away.2.2 with below | above
    · exact absurd low (UInt8.not_le.mpr below)
    · exact absurd high (UInt8.not_le.mpr above)

theorem floatStart {c : UInt8} (number : isFloat c = true ∨ c = minus) :
    isBlank c = false ∧ c ≠ comma ∧ c ≠ 93 ∧ c ≠ 125 := by
  refine ⟨notBlank ?_ (floatOther number (by decide)),floatOther number (by decide),floatOther number (by decide),
    floatOther number (by decide)⟩
  rcases floatCases number with rfl | rfl | ⟨low,-⟩
  · decide
  · decide
  · exact UInt8.le_trans (by decide) low

theorem scalarStarts (integral : value.Integral) : Starts (scalarText value) := by
  cases value with
  | null => exact startsOf rfl (by decide)
  | bool value =>
    cases value with
    | false => exact startsOf rfl (by decide)
    | true => exact startsOf rfl (by decide)
  | number num =>
    obtain ⟨nonempty,all⟩ := numberChars integral
    change Starts (numberText num)
    cases text : numberText num with
    | nil => exact absurd text nonempty
    | cons c =>
      obtain ⟨plain,going⟩ := floatStart (all c (text ▸ List.mem_cons_self ..))
      exact startsOf plain going
  | string => exact startsOf rfl (by decide)

theorem listStarts (kind : Kind) (body : Text) : Starts (kind.begin :: body) := by
  cases kind with
  | array => exact startsOf rfl (by decide)
  | obj => exact startsOf rfl (by decide)

theorem elemSplit (integral : e.Integral) (written : elemWrite indent noName e = some s) :
    ∃ before w, nameText indent noName e.name = some before ∧ s = before ++ w ∧ Starts w := by
  cases e with
  | leaf =>
    obtain ⟨before,named,text⟩ := leafWritten written
    exact ⟨before,_,named,text,scalarStarts integral⟩
  | list name kind =>
    obtain ⟨before,body,named,-,text⟩ := listWritten written
    exact ⟨before,_,named,text,listStarts kind _⟩

theorem elemBegins (integral : e.Integral) (written : elemWrite indent noName e = some s) (rest : Text) :
    Starts (autoSkip (s ++ rest)) := by
  obtain ⟨before,w,named,rfl,starts⟩ := elemSplit integral written
  have value := starts.append rest
  rcases nameTextCases named with ⟨-,rfl⟩ | ⟨-,-,n,rfl⟩ | ⟨-,-,n,k,rfl⟩
  · rw [List.nil_append,autoStays value.plain]
    exact value
  · rw [List.append_assoc,skipRun (spacesBlank n),autoStays value.plain]
    exact value
  · rw [List.append_assoc,(skipToName _ n k value.plain).1]
    exact startsOf rfl (by decide)

end Starting

section Clean

variable {indent : Nat} {noName : Bool} {s w mid last rest lines : Text} {e : Elem}

theorem cleanAppend (free : ∀ c ∈ w, c ≠ backslash) (clean : Clean rest) : Clean (w ++ rest) := by
  induction w with
  | nil => exact clean
  | cons c w ih =>
    have later := ih (fun d mem => free d (List.mem_cons_of_mem c mem))
    intro d mem
    by_cases here : c = quote
    · have ends : (c :: w ++ rest).takeWhile (· ≠ quote) = [] := List.takeWhile_cons_of_neg (by simpa using here)
      rw [ends] at mem
      exact nomatch mem
    · have goes : (c :: w ++ rest).takeWhile (· ≠ quote) = c :: (w ++ rest).takeWhile (· ≠ quote) :=
        List.takeWhile_cons_of_pos (by simpa using here)
      rw [goes] at mem
      rcases List.mem_cons.mp mem with rfl | further
      · exact free d (List.mem_cons_self ..)
      · exact later d further

theorem cleanQuote (rest : Text) : Clean (quote :: rest) := by
  have ends : (quote :: rest).takeWhile (· ≠ quote) = [] := rfl
  intro d mem
  rw [ends] at mem
  exact nomatch mem

theorem blankFree (blank : Blank w) : ∀ c ∈ w, c ≠ backslash := by
  rintro c mem rfl
  exact nomatch blank backslash mem

theorem scalarClean {value : Scalar} (integral : value.Integral) (clean : Clean rest) :
    Clean (scalarText value ++ rest) := by
  cases value with
  | null => exact cleanAppend (by decide +kernel) clean
  | bool value =>
    cases value with
    | false => exact cleanAppend (by decide +kernel) clean
    | true => exact cleanAppend (by decide +kernel) clean
  | number => exact cleanAppend (fun c mem => floatOther ((numberChars integral).2 c mem) (by decide)) clean
  | string str =>
    have text : scalarText (.string str) ++ rest = quote :: (escape str ++ quote :: rest) := by simp [scalarText]
    rw [text]
    exact cleanQuote _

theorem nameClean {name before : Text} (named : nameText indent noName name = some before) (clean : Clean rest) :
    Clean (before ++ rest) := by
  rcases nameTextCases named with ⟨-,rfl⟩ | ⟨-,-,n,rfl⟩ | ⟨-,-,n,k,rfl⟩
  · exact clean
  · exact cleanAppend (blankFree (spacesBlank n)) clean
  · rw [List.append_assoc]
    exact cleanAppend (blankFree (spacesBlank n)) (cleanQuote _)

mutual

theorem elemClean {indent : Nat} {noName : Bool} {s rest : Text} :
    (e : Elem) → e.Integral → elemWrite indent noName e = some s → Clean rest → Clean (s ++ rest)
  | .leaf name value, integral, written, clean => by
    obtain ⟨before,named,rfl⟩ := leafWritten written
    rw [List.append_assoc]
    exact nameClean named (scalarClean integral clean)
  | .list name kind children, integral, written, clean => by
    obtain ⟨before,body,named,layout,rfl⟩ := listWritten written
    obtain ⟨inner,mid,last,pre,fin,lines,items,midBlank,lastBlank,preBlank,finBlank,rfl⟩ := layout
    have ends : Clean (kind.end :: rest) := by
      cases kind with
      | array => exact cleanAppend (w := [93]) (by decide +kernel) clean
      | obj => exact cleanAppend (w := [125]) (by decide +kernel) clean
    have inside := childrenClean children integral items midBlank lastBlank (cleanAppend (blankFree finBlank) ends)
    have opens : Clean (kind.begin :: 32 :: (pre ++ (lines ++ (fin ++ kind.end :: rest)))) := by
      have body := cleanAppend (blankFree preBlank) inside
      cases kind with
      | array => exact cleanAppend (w := [91,32]) (by decide +kernel) body
      | obj => exact cleanAppend (w := [123,32]) (by decide +kernel) body
    have text : before ++ kind.begin :: 32 :: (pre ++ lines ++ fin ++ [kind.end]) ++ rest =
        before ++ kind.begin :: 32 :: (pre ++ (lines ++ (fin ++ kind.end :: rest))) := by simp
    rw [text]
    exact nameClean named opens

theorem childrenClean {indent : Nat} {noName : Bool} {mid last lines rest : Text} :
    (children : List Elem) → AllIntegral children →
      childrenWrite indent noName (comma :: mid) last children = some lines → Blank mid → Blank last → Clean rest →
      Clean (lines ++ rest)
  | [], _, written, _, _, clean => by
    rw [childrenWrite] at written
    cases written
    exact clean
  | child :: children, integral, written, midBlank, lastBlank, clean => by
    obtain ⟨text,later,first,others,rfl⟩ := childrenWritten written
    have inside := childrenClean children integral.2 others midBlank lastBlank clean
    rw [List.append_assoc,List.append_assoc]
    refine elemClean child integral.1 first ?_
    split
    · exact cleanAppend (blankFree lastBlank) inside
    · have comma_ : ∀ c ∈ comma :: mid, c ≠ backslash := by
        intro c mem
        rcases List.mem_cons.mp mem with rfl | blank
        · decide
        · exact blankFree midBlank c blank
      exact cleanAppend comma_ inside

end

end Clean

section Children

variable {fuel : Nat} {kind : Kind} {s t rest : Text}

theorem skipCommasStays {n : Nat} (other : cur s ≠ comma) : skipCommas n s = s := by
  cases n with
  | zero => rfl
  | succ => exact if_neg other

theorem endNotBlank (kind : Kind) : isBlank kind.end = false ∧ kind.end ≠ comma ∧ kind.end ≠ 0 := by
  cases kind with
  | array => decide
  | obj => decide

theorem beginNoQuote (kind : Kind) : kind.begin ≠ quote := by
  cases kind with
  | array => decide
  | obj => decide

theorem childrenEnd (kind : Kind) (rest : Text) :
    parseChildren (fuel + 1) kind.end (kind.end :: rest) = some ([], autoSkip rest) := by
  have here : cur (kind.end :: rest) = kind.end := rfl
  have char : getChar (kind.end :: rest) = some (kind.end, autoSkip rest) := if_neg (endNotBlank kind).2.2
  rw [parseChildren]
  dsimp only
  rw [if_pos here,if_pos here,char]
  rfl

theorem childrenComma (kind : Kind) (other : cur (autoSkip t) ≠ comma) :
    parseChildren (fuel + 1) kind.end (comma :: t) = parseChildren (fuel + 1) kind.end (autoSkip t) := by
  have away : ¬ cur (comma :: t) = kind.end := fun same => (endNotBlank kind).2.1 same.symm
  have skipped : skipCommas (comma :: t).length (comma :: t) = autoSkip t :=
    (if_pos rfl).trans (skipCommasStays other)
  have same : (if cur (autoSkip t) = kind.end then autoSkip t else skipCommas (autoSkip t).length (autoSkip t)) =
      autoSkip t := by
    rw [skipCommasStays other,ite_self]
  rw [parseChildren,parseChildren]
  dsimp only
  rw [if_neg away,skipped,same]

theorem childrenNext (starts : Starts s) : parseChildren (fuel + 1) kind.end s =
    (parseElem fuel s).bind (fun (child, s) =>
      (parseChildren fuel kind.end s).map (fun (children, s) => (child :: children, s))) := by
  have away : ¬ cur s = kind.end := by
    intro same
    cases kind with
    | array => exact starts.going (Or.inr (Or.inr (Or.inl same)))
    | obj => exact starts.going (Or.inr (Or.inr (Or.inr same)))
  have other : cur s ≠ comma := fun same => starts.going (Or.inr (Or.inl same))
  rw [parseChildren]
  dsimp only
  rw [if_neg away,skipCommasStays other,if_neg away]
  cases parseElem fuel s with
  | none => rfl
  | some result =>
    obtain ⟨child,u⟩ := result
    simp only [Option.bind_eq_bind,Option.bind_some]
    cases parseChildren fuel kind.end u <;> rfl

theorem valueList (name : Text) (body : Text) : parseValue fuel name (kind.begin :: body) =
    (parseChildren fuel kind.end (autoSkip body)).map (fun (children, s) => (.list name kind children, s)) := by
  cases kind with
  | array => rfl
  | obj => rfl

theorem followsEnd {blanks : Text} (blank : Blank blanks) (clean : Clean rest) :
    Follows (blanks ++ kind.end :: rest) ∧ autoSkip (blanks ++ kind.end :: rest) = kind.end :: rest := by
  have skipped : autoSkip (blanks ++ kind.end :: rest) = kind.end :: rest :=
    (skipRun blank _).trans (autoStays (endNotBlank kind).1)
  have stops : Stops (kind.end :: rest) := by
    cases kind with
    | array => exact Or.inr (Or.inr (Or.inl rfl))
    | obj => exact Or.inr (Or.inr (Or.inr rfl))
  have ends : Clean (kind.end :: rest) := by
    cases kind with
    | array => exact cleanAppend (w := [93]) (by decide +kernel) clean
    | obj => exact cleanAppend (w := [125]) (by decide +kernel) clean
  have after : Stops (autoSkip (blanks ++ kind.end :: rest)) := by
    rw [skipped]
    exact stops
  refine ⟨⟨after,?_,cleanAppend (blankFree blank) ends⟩,skipped⟩
  cases blanks with
  | nil =>
    cases kind with
    | array => rfl
    | obj => rfl
  | cons c =>
    have plain : isBlank c = true := blank c (List.mem_cons_self ..)
    refine Bool.eq_false_iff.mpr (fun float => ?_)
    have other : isBlank c = false := (floatStart (Or.inl float)).1
    exact absurd (other.symm.trans plain) Bool.false_ne_true

theorem followsComma (clean : Clean (comma :: t)) : Follows (comma :: t) ∧ autoSkip (comma :: t) = comma :: t := by
  have stays : autoSkip (comma :: t) = comma :: t := autoStays rfl
  have stops : Stops (autoSkip (comma :: t)) := by
    rw [stays]
    exact Or.inr (Or.inl rfl)
  exact ⟨⟨stops,rfl,clean⟩,stays⟩

end Children

section Places

variable {fuel indent : Nat} {noName : Bool} {name before w rest r : Text} {value : Scalar} {e : Elem}

theorem valuePlace (named : nameText indent noName name = some before) (starts : Starts w)
    (other : noName = true ∨ name = [] → cur w ≠ quote) (plain : Plain name) (hidden : noName = true → name = []) :
    parseElem (fuel + 1) (autoSkip (before ++ w ++ rest)) = parseValue fuel name (w ++ rest) := by
  have here := starts.append rest
  rcases nameTextCases named with ⟨rfl,rfl⟩ | ⟨some_,yes,-⟩ | ⟨-,-,n,k,rfl⟩
  · rw [List.nil_append,autoStays here.plain]
    refine parseElemNamed (parseNameOther ?_)
    have start := other (Or.inr rfl)
    cases w with
    | nil => exact absurd rfl starts.some
    | cons => exact start
  · exact absurd (hidden yes) some_
  · rw [List.append_assoc]
    exact parseElemNamed (nameRead here.plain plain)

theorem placeReadOnly (named : nameText indent noName e.name = some before) (starts : Starts w)
    (other : noName = true ∨ e.name = [] → cur w ≠ quote)
    (parsed : parseElem (fuel + 1) (autoSkip (before ++ w ++ rest)) = some (e, r)) :
    Plain e.name ∧ (noName = true → e.name = []) := by
  have here := starts.append rest
  rcases nameTextCases named with ⟨empty,-⟩ | ⟨some_,yes,n,rfl⟩ | ⟨some_,no,n,k,rfl⟩
  · rw [empty]
    exact ⟨⟨nofun,nofun⟩,fun _ => rfl⟩
  · have start : cur (w ++ rest) ≠ quote := by
      have start := other (Or.inl yes)
      cases w with
      | nil => exact absurd rfl starts.some
      | cons => exact start
    rw [List.append_assoc,skipRun (spacesBlank n),autoStays here.plain,parseElemNamed (parseNameOther start)] at parsed
    exact absurd (parseValueName parsed) some_
  · rw [List.append_assoc] at parsed
    exact ⟨nameReadOnly some_ here.plain parsed rfl,fun yes => absurd (no.symm.trans yes) Bool.false_ne_true⟩

theorem scalarNoQuote (integral : value.Integral) (other : ∀ str, value ≠ .string str) :
    cur (scalarText value) ≠ quote := by
  cases value with
  | null => decide
  | bool value =>
    cases value with
    | false => decide
    | true => decide
  | number num =>
    obtain ⟨nonempty,all⟩ := numberChars integral
    change cur (numberText num) ≠ quote
    cases text : numberText num with
    | nil => exact absurd text nonempty
    | cons c =>
      have start := all c (text ▸ List.mem_cons_self ..)
      exact floatOther start (by decide)
  | string str => exact absurd rfl (other str)

theorem bareText (str rest : Text) :
    autoSkip ([] ++ scalarText (.string str) ++ rest) = quote :: (escape str ++ quote :: rest) := by
  have text : [] ++ scalarText (.string str) ++ rest = quote :: (escape str ++ quote :: rest) := by simp [scalarText]
  rw [text]
  exact autoStays rfl

theorem leafRead (named : nameText indent noName name = some before) (integral : value.Integral)
    (readable : (Elem.leaf name value).Readable) (hidden : noName = true → name = []) (follows : Follows rest)
    (more : value.short = true → rest ≠ []) :
    parseElem (fuel + 1) (autoSkip (before ++ scalarText value ++ rest)) = some (.leaf name value, autoSkip rest) := by
  obtain ⟨plain,exact_,bare⟩ := readable
  by_cases inside : (noName = true ∨ name = []) ∧ ∃ str, value = .string str
  · obtain ⟨either,str,rfl⟩ := inside
    have empty : name = [] := either.elim hidden id
    subst empty
    have nothing : before = [] := by
      rcases nameTextCases named with ⟨-,nothing⟩ | ⟨some_,-⟩ | ⟨some_,-⟩
      · exact nothing
      · exact absurd rfl some_
      · exact absurd rfl some_
    subst nothing
    obtain ⟨some_,plain⟩ := bare rfl
    rw [bareText]
    exact stringRead plain some_ follows.stops
  · have other : noName = true ∨ name = [] → cur (scalarText value) ≠ quote :=
      fun either => scalarNoQuote integral (fun str same => inside ⟨either,str,same⟩)
    rw [valuePlace named (scalarStarts integral) other plain hidden]
    exact scalarRead integral follows.number exact_ more

theorem leafReadOnly (named : nameText indent noName name = some before) (integral : value.Integral)
    (follows : Follows rest)
    (parsed : parseElem (fuel + 1) (autoSkip (before ++ scalarText value ++ rest)) = some (.leaf name value, r)) :
    (Elem.leaf name value).Readable ∧ (noName = true → name = []) ∧ (value.short = true → rest ≠ []) ∧
      r = autoSkip rest := by
  by_cases inside : (noName = true ∨ name = []) ∧ ∃ str, value = .string str
  · obtain ⟨either,str,rfl⟩ := inside
    rcases nameTextCases named with ⟨rfl,rfl⟩ | ⟨some_,-,n,rfl⟩ | ⟨some_,no,-⟩
    · rw [bareText] at parsed
      obtain ⟨filled,plain,left⟩ := stringReadOnly follows.stops parsed
      exact ⟨⟨⟨nofun,nofun⟩,trivial,fun _ => ⟨filled,plain⟩⟩,fun _ => rfl,nofun,left⟩
    · have text : autoSkip (List.replicate n 32 ++ scalarText (.string str) ++ rest) =
          quote :: (escape str ++ quote :: rest) := by
        rw [List.append_assoc,skipRun (spacesBlank n)]
        exact bareText str rest
      rw [text] at parsed
      exact absurd (hiddenName follows parsed) some_
    · exact either.elim (fun yes => absurd (no.symm.trans yes) Bool.false_ne_true) (fun empty => absurd empty some_)
  · have other : noName = true ∨ name = [] → cur (scalarText value) ≠ quote :=
      fun either => scalarNoQuote integral (fun str same => inside ⟨either,str,same⟩)
    obtain ⟨plain,hidden⟩ := placeReadOnly (e := .leaf name value) named (scalarStarts integral) other parsed
    have plain : Plain name := plain
    have hidden : noName = true → name = [] := hidden
    rw [valuePlace named (scalarStarts integral) other plain hidden] at parsed
    obtain ⟨exact_,more,left⟩ := scalarReadOnly integral follows.number parsed
    refine ⟨⟨plain,exact_,fun empty => ?_⟩,hidden,more,left⟩
    cases value with
    | string str => exact absurd ⟨Or.inr empty,str,rfl⟩ inside
    | null => trivial
    | bool => trivial
    | number => trivial

end Places

section Around

variable {indent : Nat} {noName : Bool} {mid last pre fin lines rest : Text} {kind : Kind} {children : List Elem}

theorem skipToChildren (preBlank : Blank pre) :
    autoSkip (32 :: (pre ++ lines ++ fin ++ [kind.end] ++ rest)) = autoSkip (lines ++ (fin ++ kind.end :: rest)) := by
  have text : 32 :: (pre ++ lines ++ fin ++ [kind.end] ++ rest) =
      (32 :: pre) ++ (lines ++ (fin ++ kind.end :: rest)) := by simp
  rw [text]
  refine skipRun (fun c mem => ?_) _
  rcases List.mem_cons.mp mem with rfl | blank
  · rfl
  · exact preBlank c blank

theorem afterChild (kind : Kind) (integral : AllIntegral children)
    (written : childrenWrite indent noName (comma :: mid) last children = some lines)
    (midBlank : Blank mid) (lastBlank : Blank last) (finBlank : Blank fin) (clean : Clean rest) :
    let after := (if children.isEmpty then last else comma :: mid) ++ (lines ++ (fin ++ kind.end :: rest))
    Follows after ∧ after ≠ [] ∧ ∀ fuel, parseChildren fuel kind.end (autoSkip after) =
      parseChildren fuel kind.end (autoSkip (lines ++ (fin ++ kind.end :: rest))) := by
  have inside : Clean (fin ++ kind.end :: rest) := (followsEnd finBlank clean).1.clean
  cases children with
  | nil =>
    rw [childrenWrite] at written
    cases written
    have blank : Blank (last ++ fin) := by
      intro c mem
      exact (List.mem_append.mp mem).elim (lastBlank c) (finBlank c)
    have text : last ++ ([] ++ (fin ++ kind.end :: rest)) = last ++ fin ++ kind.end :: rest := by simp
    refine ⟨?_,by simp,fun fuel => ?_⟩
    · exact text ▸ (followsEnd blank clean).1
    · exact congrArg (parseChildren fuel kind.end) (skipRun lastBlank _)
  | cons child children =>
    have lineClean := childrenClean (child :: children) integral written midBlank lastBlank inside
    obtain ⟨text,later,first,-,rfl⟩ := childrenWritten written
    have spaced : ∀ c ∈ comma :: mid, c ≠ backslash := by
      intro c mem
      rcases List.mem_cons.mp mem with rfl | blank
      · decide
      · exact blankFree midBlank c blank
    obtain ⟨follows,stays⟩ := followsComma (cleanAppend spaced lineClean)
    refine ⟨follows,List.cons_ne_nil _ _,fun fuel => ?_⟩
    have next := skipRun midBlank
      (text ++ ((if children.isEmpty then last else comma :: mid) ++ later) ++ (fin ++ kind.end :: rest))
    have begins := elemBegins integral.1 first
      ((if children.isEmpty then last else comma :: mid) ++ later ++ (fin ++ kind.end :: rest))
    rw [← List.append_assoc] at begins
    cases fuel with
    | zero => rw [parseChildren,parseChildren]
    | succ fuel =>
      refine (congrArg (parseChildren (fuel + 1) kind.end) stays).trans ((childrenComma kind ?_).trans ?_)
      · exact fun same => begins.going (Or.inr (Or.inl ((congrArg cur next).symm.trans same)))
      · exact congrArg (parseChildren (fuel + 1) kind.end) next

end Around

/- A tree is read back in front of what can follow it, with as many calls as it has elements and ends of lists. -/
mutual

theorem elemRead {fuel indent : Nat} {noName : Bool} {s rest : Text} :
    (e : Elem) → e.Integral → e.Readable → elemWrite indent noName e = some s → (noName = true → e.name = []) →
      Follows rest → (e.short = true → rest ≠ []) → e.size ≤ fuel →
      parseElem fuel (autoSkip (s ++ rest)) = some (e, autoSkip rest)
  | .leaf name value, integral, readable, written, hidden, follows, more, enough => by
    obtain ⟨before,named,rfl⟩ := leafWritten written
    obtain ⟨fuel,rfl⟩ := Nat.exists_eq_add_of_le' enough
    exact leafRead named integral readable hidden follows more
  | .list name kind children, integral, readable, written, hidden, follows, _, enough => by
    obtain ⟨before,body,named,layout,rfl⟩ := listWritten written
    obtain ⟨inner,mid,last,pre,fin,lines,items,midBlank,lastBlank,preBlank,finBlank,rfl⟩ := layout
    obtain ⟨fuel,rfl⟩ := Nat.exists_eq_add_of_le' (Nat.le_trans (Nat.le_add_left 1 _) enough)
    obtain ⟨plain,unnamed,all⟩ := readable
    have starts : Starts (kind.begin :: 32 :: (pre ++ lines ++ fin ++ [kind.end])) := listStarts kind _
    have noQuote := beginNoQuote kind
    have inside : parseChildren fuel kind.end (autoSkip (lines ++ (fin ++ kind.end :: rest))) =
        some (children, autoSkip rest) :=
      childrenRead children integral all items (fun yes => unnamed (of_decide_eq_true yes)) midBlank lastBlank finBlank
        follows.clean (Nat.le_of_succ_le_succ enough)
    rw [valuePlace named starts (fun _ => noQuote) plain hidden]
    refine (valueList name (32 :: (pre ++ lines ++ fin ++ [kind.end] ++ rest))).trans ?_
    rw [skipToChildren preBlank,inside]
    rfl

theorem childrenRead {fuel indent : Nat} {noName : Bool} {mid last fin lines rest : Text} {kind : Kind} :
    (children : List Elem) → AllIntegral children → AllReadable children →
      childrenWrite indent noName (comma :: mid) last children = some lines →
      (noName = true → ∀ c ∈ children, c.name = []) → Blank mid → Blank last → Blank fin → Clean rest →
      sizeAll children ≤ fuel →
      parseChildren fuel kind.end (autoSkip (lines ++ (fin ++ kind.end :: rest))) = some (children, autoSkip rest)
  | [], _, _, written, _, _, _, finBlank, clean, enough => by
    rw [childrenWrite] at written
    cases written
    obtain ⟨fuel,rfl⟩ := Nat.exists_eq_add_of_le' enough
    rw [List.nil_append,(followsEnd finBlank clean).2]
    exact childrenEnd kind rest
  | child :: children, integral, readable, written, unnamed, midBlank, lastBlank, finBlank, clean, enough => by
    obtain ⟨text,later,first,others,rfl⟩ := childrenWritten written
    obtain ⟨fuel,rfl⟩ := Nat.exists_eq_add_of_le' (Nat.le_trans (Nat.le_add_left 1 _) enough)
    have enough : child.size + sizeAll children ≤ fuel := Nat.le_of_succ_le_succ enough
    obtain ⟨follows,more,after⟩ := afterChild kind integral.2 others midBlank lastBlank finBlank clean
    have one := elemRead child integral.1 readable.1 first (fun yes => unnamed yes child (List.mem_cons_self ..)) follows
      (fun _ => more) (Nat.le_trans (Nat.le_add_right _ _) enough)
    have all : parseChildren fuel kind.end (autoSkip (later ++ (fin ++ kind.end :: rest))) =
        some (children, autoSkip rest) :=
      childrenRead children integral.2 readable.2 others
        (fun yes c mem => unnamed yes c (List.mem_cons_of_mem child mem)) midBlank lastBlank finBlank clean (by omega)
    rw [List.append_assoc,List.append_assoc,childrenNext (elemBegins integral.1 first _),one]
    simp only [Option.bind_some,after,all]
    rfl

end

/- A tree that is read back is one that can be. -/
mutual

theorem elemReadOnly {fuel indent : Nat} {noName : Bool} {s rest r : Text} :
    (e : Elem) → e.Integral → elemWrite indent noName e = some s → Follows rest →
      parseElem fuel (autoSkip (s ++ rest)) = some (e, r) →
      e.Readable ∧ (noName = true → e.name = []) ∧ (e.short = true → rest ≠ []) ∧ r = autoSkip rest
  | .leaf name value, integral, written, follows, parsed => by
    obtain ⟨before,named,rfl⟩ := leafWritten written
    cases fuel with
    | zero =>
      rw [parseElem] at parsed
      exact nomatch parsed
    | succ => exact leafReadOnly named integral follows parsed
  | .list name kind children, integral, written, follows, parsed => by
    obtain ⟨before,body,named,layout,rfl⟩ := listWritten written
    obtain ⟨inner,mid,last,pre,fin,lines,items,midBlank,lastBlank,preBlank,finBlank,rfl⟩ := layout
    cases fuel with
    | zero =>
      rw [parseElem] at parsed
      exact nomatch parsed
    | succ =>
      have starts : Starts (kind.begin :: 32 :: (pre ++ lines ++ fin ++ [kind.end])) := listStarts kind _
      have noQuote := beginNoQuote kind
      obtain ⟨plain,hidden⟩ := placeReadOnly (e := .list name kind children) named starts (fun _ => noQuote) parsed
      rw [valuePlace named starts (fun _ => noQuote) plain hidden] at parsed
      have parsed := (valueList name (32 :: (pre ++ lines ++ fin ++ [kind.end] ++ rest))).symm.trans parsed
      rw [skipToChildren preBlank] at parsed
      obtain ⟨found,inside,same⟩ := mapRead (f := Elem.list name kind) parsed
      cases same
      obtain ⟨all,unnamed,left⟩ := childrenReadOnly children integral items midBlank lastBlank finBlank follows.clean inside
      exact ⟨⟨plain,fun array => unnamed (decide_eq_true array),all⟩,hidden,nofun,left⟩

theorem childrenReadOnly {fuel indent : Nat} {noName : Bool} {mid last fin lines rest r : Text} {kind : Kind} :
    (children : List Elem) → AllIntegral children →
      childrenWrite indent noName (comma :: mid) last children = some lines → Blank mid → Blank last → Blank fin →
      Clean rest → parseChildren fuel kind.end (autoSkip (lines ++ (fin ++ kind.end :: rest))) = some (children, r) →
      AllReadable children ∧ (noName = true → ∀ c ∈ children, c.name = []) ∧ r = autoSkip rest
  | [], _, written, _, _, finBlank, clean, parsed => by
    rw [childrenWrite] at written
    cases written
    cases fuel with
    | zero =>
      rw [parseChildren] at parsed
      exact nomatch parsed
    | succ =>
      rw [List.nil_append,(followsEnd finBlank clean).2,childrenEnd] at parsed
      cases parsed
      exact ⟨trivial,fun _ => nofun,rfl⟩
  | child :: children, integral, written, midBlank, lastBlank, finBlank, clean, parsed => by
    obtain ⟨text,later,first,others,rfl⟩ := childrenWritten written
    cases fuel with
    | zero =>
      rw [parseChildren] at parsed
      exact nomatch parsed
    | succ =>
      obtain ⟨follows,-,after⟩ := afterChild kind integral.2 others midBlank lastBlank finBlank clean
      rw [List.append_assoc,List.append_assoc,childrenNext (elemBegins integral.1 first _)] at parsed
      obtain ⟨⟨c,u⟩,one,parsed⟩ := Option.bind_eq_some_iff.mp parsed
      obtain ⟨⟨cs,v⟩,rest,parsed⟩ := Option.map_eq_some_iff.mp parsed
      cases parsed
      obtain ⟨readable,hidden,-,rfl⟩ := elemReadOnly child integral.1 first follows one
      rw [after] at rest
      obtain ⟨all,unnamed,left⟩ := childrenReadOnly children integral.2 others midBlank lastBlank finBlank clean rest
      refine ⟨⟨readable,all⟩,fun yes d mem => ?_,left⟩
      rcases List.mem_cons.mp mem with rfl | further
      · exact hidden yes
      · exact unnamed yes d further

end

/- The lists around an element whose children have lines of their own. -/
mutual

def Elem.levels : Elem → Nat
  | .leaf _ _ => 0
  | .list _ _ children => (if firstNamed children then 1 else 0) + levelsAll children

def levelsAll : List Elem → Nat
  | [] => 0
  | child :: children => max child.levels (levelsAll children)

end

section Limit

theorem nameWritten {indent : Nat} (fits : indent ≤ maxIndent) (noName : Bool) (name : Text) :
    ∃ before, nameText indent noName name = some before := by
  unfold nameText indentBuf
  rw [if_pos fits]
  split
  · exact ⟨_,rfl⟩
  · exact ⟨_,rfl⟩

mutual

theorem elemWritten (indent : Nat) (noName : Bool) :
    (e : Elem) → indent + indentSize * e.levels ≤ maxIndent → ∃ s, elemWrite indent noName e = some s
  | .leaf name value, fits => by
    obtain ⟨before,named⟩ := nameWritten (Nat.le_trans (Nat.le_add_right _ _) fits) noName name
    rw [elemWrite,named]
    exact ⟨_,rfl⟩
  | .list name kind children, fits => by
    have here : indent ≤ maxIndent := Nat.le_trans (Nat.le_add_right _ _) fits
    obtain ⟨before,named⟩ := nameWritten here noName name
    rw [Elem.levels] at fits
    rw [elemWrite,named]
    simp only [Option.bind_eq_bind,Option.bind_some]
    cases first : firstNamed children with
    | true =>
      rw [first,if_pos rfl] at fits
      have deeper : childIndent indent = indent + indentSize := by
        unfold childIndent
        unfold indentSize maxIndent at *
        exact if_pos (by omega)
      have inside : childIndent indent + indentSize * levelsAll children ≤ maxIndent := by
        rw [deeper]
        unfold indentSize at *
        omega
      obtain ⟨lines,items⟩ := childrenAreWritten (childIndent indent) (decide (kind = .array)) (ascii ",\n")
        (ascii "\n") children inside
      unfold indentBuf
      rw [if_pos rfl,items,if_pos here]
      exact ⟨_,rfl⟩
    | false =>
      rw [first,if_neg Bool.false_ne_true,Nat.zero_add] at fits
      obtain ⟨lines,items⟩ := childrenAreWritten indent (decide (kind = .array)) (ascii ", ") [] children fits
      rw [if_neg Bool.false_ne_true,items]
      exact ⟨_,rfl⟩

theorem childrenAreWritten (indent : Nat) (noName : Bool) (sep last : Text) :
    (children : List Elem) → indent + indentSize * levelsAll children ≤ maxIndent →
      ∃ lines, childrenWrite indent noName sep last children = some lines
  | [], _ => ⟨[],by rw [childrenWrite]⟩
  | child :: children, fits => by
    rw [levelsAll] at fits
    unfold indentSize at fits
    obtain ⟨text,first⟩ := elemWritten indent noName child (by unfold indentSize; omega)
    obtain ⟨rest,later⟩ := childrenAreWritten indent noName sep last children (by unfold indentSize; omega)
    rw [childrenWrite,first,later]
    exact ⟨_,rfl⟩

end

end Limit

section Root

variable {t : Elem} {size : Nat} {text : Text}

theorem followsNothing : Follows [] := ⟨Or.inl rfl,rfl,nofun⟩

theorem jsonWritten (written : jsonWrite size t = some text) : elemWrite 0 false t = some text := by
  unfold jsonWrite at written
  cases found : elemWrite 0 false t with
  | none =>
    rw [found] at written
    exact nomatch written
  | some =>
    rw [found] at written
    simp only [Option.bind_eq_bind,Option.bind_some] at written
    split at written
    · exact nomatch written
    · exact written

theorem jsonParsed (integral : t.Integral) (written : elemWrite 0 false t = some text) (fuel : Nat) :
    jsonParse fuel text = parseElem fuel (autoSkip (text ++ [])) := by
  have begins := elemBegins integral written []
  have more : text ≠ [] := by
    rintro rfl
    exact begins.some rfl
  unfold jsonParse
  rw [if_neg more,List.append_nil,skipIsDrop,autoIsDrop]

theorem treeRead (integral : t.Integral) (written : jsonWrite size t = some text) (readable : t.Readable)
    (long : t.short = false) : jsonParse t.size text = some (t, []) := by
  have text_ := jsonWritten written
  rw [jsonParsed integral text_]
  exact elemRead t integral readable text_ nofun followsNothing
    (fun short => absurd (long.symm.trans short) Bool.false_ne_true) (Nat.le_refl _)

theorem treeReadOnly {fuel : Nat} (integral : t.Integral) (written : jsonWrite size t = some text)
    (parsed : jsonParse fuel text = some (t, [])) : t.Readable ∧ t.short = false := by
  have text_ := jsonWritten written
  rw [jsonParsed integral text_] at parsed
  obtain ⟨readable,-,more,-⟩ := elemReadOnly t integral text_ followsNothing parsed
  exact ⟨readable,Bool.eq_false_iff.mpr (fun short => more short rfl)⟩

theorem jsonWrites (shallow : indentSize * t.levels ≤ maxIndent) : ∃ size text, jsonWrite size t = some text := by
  obtain ⟨text,written⟩ := elemWritten 0 false t (by rwa [Nat.zero_add])
  refine ⟨text.length + 2,text,?_⟩
  unfold jsonWrite
  rw [written]
  exact if_neg (by omega)

end Root

/- What was written is parsed, to its end and to the same tree, exactly when the tree is readable, and is not a null or a
true alone. -/
theorem jsonRoundTrip (t : Elem) (integral : t.Integral) (size : Nat) (text : Text)
    (written : jsonWrite size t = some text) :
    (∃ fuel, jsonParse fuel text = some (t, [])) ↔ t.Readable ∧ t.short = false := by
  constructor
  · intro ⟨fuel,parsed⟩
    exact treeReadOnly integral written parsed
  · intro ⟨readable,long⟩
    exact ⟨t.size,treeRead integral written readable long⟩

/- An object with a number, a string that is escaped, and an array. -/
def sample : Elem :=
  elemAdd (elemAdd (elemAdd (elemObj []) (elemNumber (ascii "n") 5)) (elemString (ascii "s") (ascii "x/\"y")))
    (elemAdd (elemArray (ascii "l")) (elemString [] (ascii "a b")))

theorem sampleIntegral : sample.Integral := ⟨⟨5,by norm_num,by decide +kernel⟩,trivial,⟨trivial,trivial⟩,trivial⟩

theorem sampleReadable : sample.Readable := by
  have nothing : Plain [] := ⟨nofun,nofun⟩
  have plain : ∀ s ∈ [ascii "n",ascii "s",ascii "l",ascii "a b"], Plain s := by
    unfold Plain PlainChar
    decide +kernel
  have small : |(5 : ℚ)| < 2 ^ 63 := by norm_num
  exact ⟨nothing,nofun,⟨plain _ (by decide),small,nofun⟩,⟨plain _ (by decide),trivial,nofun⟩,
    ⟨plain _ (by decide),fun _ c mem => (List.mem_singleton.mp mem) ▸ rfl,
      ⟨nothing,trivial,fun _ => ⟨List.cons_ne_nil _ _,plain _ (by decide)⟩⟩,trivial⟩,trivial⟩

theorem sampleRoundTrip : ∃ text, jsonWrite 200 sample = some text ∧
    ∃ fuel, jsonParse fuel text = some (sample, []) := by
  have some_ : (jsonWrite 200 sample).isSome = true := by decide +kernel
  obtain ⟨text,written⟩ := Option.isSome_iff_exists.mp some_
  exact ⟨text,written,(jsonRoundTrip sample sampleIntegral 200 text written).mpr ⟨sampleReadable,rfl⟩⟩

/- A string without a name keeps its escapes. -/
theorem slashKept : ∃ text, jsonWrite 200 (elemAdd (elemArray []) (elemString [] (ascii "a/b"))) = some text ∧
    ¬ ∃ fuel, jsonParse fuel text = some (elemAdd (elemArray []) (elemString [] (ascii "a/b")), []) := by
  have written : jsonWrite 200 (elemAdd (elemArray []) (elemString [] (ascii "a/b"))) =
      some (ascii "[ \"a\\/b\"]") := by decide +kernel
  refine ⟨_,written,?_⟩
  rintro ⟨fuel,parsed⟩
  have integral : (elemAdd (elemArray []) (elemString [] (ascii "a/b"))).Integral := ⟨trivial,trivial⟩
  have readable := (treeReadOnly integral written parsed).1
  obtain ⟨-,-,⟨-,-,bare⟩,-⟩ := readable
  have plain := (bare rfl).2.1 47 (by decide)
  exact absurd plain (by unfold PlainChar; decide)

end Pjproject.Json
