import Pjproject.Multipart

/-! The scanner of scanner.c with PJ_SCAN_AUTOSKIP_WS and PJ_SCAN_AUTOSKIP_NEWLINE, on a text that a zero byte follows.
A scanner is the rest of its text; a syntax error throws, which is none. -/
namespace Pjproject.Scan
open Multipart (Text ascii cur isSpace isNewline lf)

/- PJ_SCAN_IS_PROBABLY_SPACE; a char is signed. -/
def probablySpace (c : UInt8) : Bool := c ≤ 32 || 128 ≤ c

def isBlank (c : UInt8) : Bool := isSpace c || isNewline c

/- *(curptr + 1). -/
def second (s : Text) : UInt8 := cur s.tail

def skipWhitespace (s : Text) : Text :=
  let s := s.dropWhile isSpace
  if isNewline (cur s) then s.dropWhile isBlank else s

def autoSkip (s : Text) : Text := if probablySpace (cur s) then skipWhitespace s else s

def getChar (s : Text) : Option (UInt8 × Text) := if cur s = 0 then none else some (cur s, autoSkip s.tail)

/- pj_scan_get; no spec matches zero. -/
def get (spec : UInt8 → Bool) (s : Text) : Option (Text × Text) :=
  if spec (cur s) then some (s.takeWhile spec, autoSkip (s.dropWhile spec)) else none

/- pj_scan_get_until_chr, and pj_scan_get_until_ch where there is one character. -/
def getUntil (stop : Text) (s : Text) : Option (Text × Text) :=
  if s = [] then none
  else
    let before := fun c => !stop.contains c
    some (s.takeWhile before, autoSkip (s.dropWhile before))

def advance (n : Nat) (skip : Bool) (s : Text) : Option Text :=
  if s.length < n then none else if skip then some (autoSkip (s.drop n)) else some (s.drop n)

/- pj_scan_strcmp against all of a string, whether they are equal. -/
def strcmp (s : Text) (word : Text) : Option Bool :=
  if s.length < word.length then none else some (s.take word.length == word)

def backslash : UInt8 := 92

/- The text up to the end quote, in reverse. A quote after a backslash ends it when the backslashes before that one are
odd in number; the begin quote stops their count. -/
def quoteEnd (quote : UInt8) : Text → Text → Option (Text × Text)
  | _, [] => none
  | seen, c :: s =>
    if c = quote then
      if seen.head? = some backslash && (seen.tail.takeWhile (· == backslash)).length % 2 ≠ 1 then
        quoteEnd quote (c :: seen) s
      else some (c :: seen, s)
    else if c = lf then none
    else quoteEnd quote (c :: seen) s

/- pj_scan_get_quotes, where a begin quote is its own end quote; the token has its quotes. -/
def getQuotes (quotes : Text) (s : Text) : Option (Text × Text) :=
  match s with
  | [] => none
  | c :: s =>
    if quotes.contains c then (quoteEnd c [c] s).map (fun (seen, s) => (seen.reverse, autoSkip s)) else none

/- The token without its quotes. -/
def unquote (token : Text) : Text := token.tail.dropLast

section Skipping

variable {s t : Text}

variable {c : UInt8}

theorem spaceBlank (space : isSpace c = true) : isBlank c = true := by
  unfold isBlank
  rw [space]
  rfl

theorem dropTwice {p q : UInt8 → Bool} (weaker : ∀ c, p c = true → q c = true) (s : Text) :
    (s.dropWhile p).dropWhile q = s.dropWhile q := by
  induction s with
  | nil => rfl
  | cons c s ih =>
    cases first : p c with
    | false => rw [List.dropWhile_cons_of_neg (by simp [first])]
    | true => rw [List.dropWhile_cons_of_pos first,ih,List.dropWhile_cons_of_pos (weaker c first)]

theorem skipIsDrop (s : Text) : skipWhitespace s = s.dropWhile isBlank := by
  rw [← dropTwice (fun c => spaceBlank) s]
  unfold skipWhitespace
  dsimp only
  split
  · rfl
  · rename_i inLine
    cases rest : s.dropWhile isSpace with
    | nil => rfl
    | cons c =>
      rw [rest] at inLine
      have space : isSpace c = false := by
        have stop := List.head?_dropWhile_not isSpace s
        rw [rest] at stop
        exact Bool.eq_false_iff.mpr (by simpa using stop)
      have blank : ¬ isBlank c = true := by
        unfold isBlank
        rw [space]
        exact inLine
      exact (List.dropWhile_cons_of_neg blank).symm

theorem blankCases (blank : isBlank c = true) : (c = 32 ∨ c = 9) ∨ c = 13 ∨ c = 10 := by
  unfold isBlank isSpace isNewline at blank
  simp only [Bool.or_eq_true,decide_eq_true_iff] at blank
  exact blank

theorem blankProbable (blank : isBlank c = true) : probablySpace c = true := by
  rcases blankCases blank with (rfl | rfl) | rfl | rfl <;> rfl

theorem notBlank (printed : 32 ≤ c) (other : c ≠ 32) : isBlank c = false := by
  refine Bool.eq_false_iff.mpr (fun blank => ?_)
  rcases blankCases blank with (rfl | rfl) | rfl | rfl
  · exact other rfl
  · exact absurd printed (by decide)
  · exact absurd printed (by decide)
  · exact absurd printed (by decide)

theorem autoIsDrop (s : Text) : autoSkip s = s.dropWhile isBlank := by
  unfold autoSkip
  split
  · exact skipIsDrop s
  · rename_i no
    cases s with
    | nil => rfl
    | cons => exact (List.dropWhile_cons_of_neg (fun blank => no (blankProbable blank))).symm

theorem autoSuffix (s : Text) : autoSkip s <:+ s := autoIsDrop s ▸ List.dropWhile_suffix _

theorem autoNotBlank (s : Text) : isBlank (cur (autoSkip s)) = false := by
  rw [autoIsDrop]
  cases rest : s.dropWhile isBlank with
  | nil => rfl
  | cons c =>
    have stop := List.head?_dropWhile_not isBlank s
    rw [rest] at stop
    change isBlank c = false
    exact Bool.eq_false_iff.mpr (by simpa using stop)

theorem autoStays (plain : isBlank (cur s) = false) : autoSkip s = s := by
  rw [autoIsDrop]
  cases s with
  | nil => rfl
  | cons => exact List.dropWhile_cons_of_neg (Bool.eq_false_iff.mp plain)

end Skipping

/- What comes strictly after a place in the text. -/
def After (s t : Text) : Prop := t <:+ s ∧ t.length < s.length

section Moving

variable {s t u : Text}

theorem After.skip (after : After s t) : After s (autoSkip t) :=
  ⟨(autoSuffix t).trans after.1,Nat.lt_of_le_of_lt (autoSuffix t).length_le after.2⟩

theorem After.trans (after : After s t) (next : After t u) : After s u :=
  ⟨next.1.trans after.1,Nat.lt_trans next.2 after.2⟩

theorem After.then (after : After s t) (next : u <:+ t) : After s u :=
  ⟨next.trans after.1,Nat.lt_of_le_of_lt next.length_le after.2⟩

theorem After.from (before : t <:+ s) (after : After t u) : After s u :=
  ⟨after.1.trans before,Nat.lt_of_lt_of_le after.2 before.length_le⟩

theorem tailAfter (more : s ≠ []) : After s s.tail := by
  cases s with
  | nil => exact absurd rfl more
  | cons c s => exact ⟨List.suffix_cons c s,Nat.lt_succ_self _⟩

theorem notNilOfCur {c : UInt8} (here : cur s = c) (nonzero : c ≠ 0) : s ≠ [] := by
  rintro rfl
  exact nonzero here.symm

theorem getCharAfter {c : UInt8} (read : getChar s = some (c, t)) : After s t ∧ isBlank (cur t) = false := by
  unfold getChar at read
  split at read
  · exact nomatch read
  · rename_i nonzero
    obtain ⟨rfl,rfl⟩ := Prod.mk.inj (Option.some.inj read)
    exact ⟨(tailAfter (notNilOfCur rfl nonzero)).skip,autoNotBlank _⟩

variable {stop token : Text}

theorem getUntilSuffix (read : getUntil stop s = some (token, t)) :
    s ≠ [] ∧ t <:+ s ∧ isBlank (cur t) = false := by
  unfold getUntil at read
  split at read
  · exact nomatch read
  · rename_i more
    obtain ⟨-,rfl⟩ := Prod.mk.inj (Option.some.inj read)
    exact ⟨more,(autoSuffix _).trans (List.dropWhile_suffix _),autoNotBlank _⟩

theorem getUntilAfter (read : getUntil stop s = some (token, t))
    (before : stop.contains (cur s) = false) : After s t := by
  cases s with
  | nil => exact nomatch read
  | cons c s =>
    have first : (!stop.contains c) = true := by
      rw [show stop.contains c = false from before]
      rfl
    have passed : (c :: s).dropWhile (fun d => !stop.contains d) = s.dropWhile (fun d => !stop.contains d) :=
      List.dropWhile_cons_of_pos first
    unfold getUntil at read
    rw [if_neg (List.cons_ne_nil c s)] at read
    obtain ⟨-,rfl⟩ := Prod.mk.inj (Option.some.inj read)
    rw [passed]
    exact ((tailAfter (List.cons_ne_nil c s)).then (List.dropWhile_suffix _)).skip

theorem getUntilRun (before : ∀ c ∈ token, (!stop.contains c) = true)
    (ends : (!stop.contains (cur s)) = false) (plain : isBlank (cur s) = false) (more : token ++ s ≠ []) :
    getUntil stop (token ++ s) = some (token, s) := by
  have stays : s.takeWhile (fun c => !stop.contains c) = [] ∧ s.dropWhile (fun c => !stop.contains c) = s := by
    cases s with
    | nil => exact ⟨rfl,rfl⟩
    | cons c =>
      have ends : ¬ (!stop.contains c) = true := Bool.eq_false_iff.mp ends
      exact ⟨List.takeWhile_cons_of_neg ends,List.dropWhile_cons_of_neg ends⟩
  unfold getUntil
  rw [if_neg more]
  dsimp only
  rw [List.takeWhile_append_of_pos before,List.dropWhile_append_of_pos before,stays.1,stays.2,List.append_nil,
    autoStays plain]

theorem getUntilHere (here : stop.contains (cur s) = true) (plain : isBlank (cur s) = false)
    (more : s ≠ []) : getUntil stop s = some ([], s) := by
  cases s with
  | nil => exact absurd rfl more
  | cons c s =>
    have stopped : ¬ (!stop.contains c) = true := by
      rw [show stop.contains c = true from here]
      exact Bool.false_ne_true
    have none_ : (c :: s).takeWhile (fun d => !stop.contains d) = [] := List.takeWhile_cons_of_neg stopped
    have all : (c :: s).dropWhile (fun d => !stop.contains d) = c :: s := List.dropWhile_cons_of_neg stopped
    unfold getUntil
    rw [if_neg more]
    dsimp only
    rw [none_,all,autoStays plain]

theorem getUntilStops (noBlank : ∀ c ∈ stop, isBlank c = false) (read : getUntil stop s = some (token, t)) :
    t = s.dropWhile (fun c => !stop.contains c) ∧ (t = [] ∨ stop.contains (cur t) = true) := by
  unfold getUntil at read
  split at read
  · exact nomatch read
  · obtain ⟨-,rest⟩ := Prod.mk.inj (Option.some.inj read)
    cases found : s.dropWhile (fun c => !stop.contains c) with
    | nil =>
      rw [found] at rest
      have nil : t = [] := rest.symm
      exact ⟨nil,Or.inl nil⟩
    | cons c tail =>
      have stopped := List.head?_dropWhile_not (fun c => !stop.contains c) s
      rw [found] at stopped rest
      have here : stop.contains c = true := by simpa using stopped
      have same : t = c :: tail := by
        rw [← rest]
        exact autoStays (noBlank c (by simpa using here))
      rw [same]
      exact ⟨rfl,Or.inr here⟩

theorem advanceAfter {n : Nat} {skip : Bool} (positive : 0 < n) (read : advance n skip s = some t) : After s t := by
  unfold advance at read
  split at read
  · exact nomatch read
  · rename_i enough
    have dropped : After s (s.drop n) := by
      refine ⟨List.drop_suffix n s,?_⟩
      rw [List.length_drop]
      omega
    cases skip with
    | false => exact Option.some.inj read ▸ dropped
    | true => exact Option.some.inj read ▸ dropped.skip

theorem strcmpPrefix {word : Text} (same : strcmp s word = some true) : s = word ++ s.drop word.length := by
  unfold strcmp at same
  split at same
  · exact nomatch same
  · have equal : s.take word.length = word := by simpa using same
    exact (List.take_append_drop word.length s).symm.trans (congrArg (· ++ s.drop word.length) equal)

theorem strcmpDiffers {word : Text} (differs : strcmp s word = some false) :
    word.length ≤ s.length ∧ s.take word.length ≠ word := by
  unfold strcmp at differs
  split at differs
  · exact nomatch differs
  · rename_i enough
    exact ⟨Nat.not_lt.mp enough,by simpa using differs⟩

theorem quoteEndAfter {quote : UInt8} {seen found : Text} (read : quoteEnd quote seen s = some (found, t)) :
    After s t := by
  induction s generalizing seen with
  | nil => exact nomatch read
  | cons c s ih =>
    have next : After (c :: s) s := tailAfter (List.cons_ne_nil c s)
    unfold quoteEnd at read
    split at read
    · split at read
      · exact next.trans (ih read)
      · obtain ⟨-,rfl⟩ := Prod.mk.inj (Option.some.inj read)
        exact next
    · split at read
      · exact nomatch read
      · exact next.trans (ih read)

theorem getQuotesAfter {quotes : Text} (read : getQuotes quotes s = some (token, t)) :
    After s t ∧ isBlank (cur t) = false := by
  cases s with
  | nil => exact nomatch read
  | cons c s =>
    unfold getQuotes at read
    dsimp only at read
    split at read
    · cases found : quoteEnd c [c] s with
      | none =>
        rw [found] at read
        exact nomatch read
      | some result =>
        obtain ⟨seen,rest⟩ := result
        rw [found] at read
        obtain ⟨-,rfl⟩ := Prod.mk.inj (Option.some.inj read)
        exact ⟨((tailAfter (List.cons_ne_nil c s)).trans (quoteEndAfter found)).skip,autoNotBlank _⟩
    · exact nomatch read

end Moving

end Pjproject.Scan
