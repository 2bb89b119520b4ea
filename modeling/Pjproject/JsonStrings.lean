import Pjproject.JsonModel

/-! Strings of JSON elements: a string with a name is read back whatever it holds, as its escapes are undone; a name, and
a string without one, only when the writer changes nothing of it and it begins with no space. -/
namespace Pjproject.Json
open Multipart (Text ascii cur lf isSpace isNewline)
open Scan

/- Characters that are written as they are. -/
def PlainChar (c : UInt8) : Prop := escapeChar c = [c]

def Plain (s : Text) : Prop := (∀ c ∈ s, PlainChar c) ∧ s.head? ≠ some 32

section Escapes

variable {s t tail : Text}

variable (c : UInt8)

theorem escapeCons (s : Text) : escape (c :: s) = escapeChar c ++ escape s := rfl

theorem escapeForms : (escapeChar c = [c] ∧ 32 ≤ c ∧ c ≠ quote ∧ c ≠ backslash) ∨
    (c, escapeChar c) ∈ [(34, [92,34]),(92, [92,92]),(47, [92,47]),(8, [92,98]),(12, [92,102]),
      (10, [92,110]),(13, [92,114]),(9, [92,116])] ∨
    escapeChar c = [backslash,117,48,48,hexDigit (c.toNat / 16),hexDigit (c.toNat % 16)] := by
  unfold escapeChar
  split
  · rename_i same
    subst same
    exact Or.inr (Or.inl (by decide))
  rename_i noQuote
  split
  · rename_i same
    subst same
    exact Or.inr (Or.inl (by decide))
  rename_i noSlash
  iterate 6
    split
    · rename_i same
      subst same
      exact Or.inr (Or.inl (by decide))
  split
  · rename_i printed
    exact Or.inl ⟨rfl,printed.1,noQuote,noSlash⟩
  · exact Or.inr (Or.inr rfl)

theorem escapeLetter {c : UInt8} (letter : (c, escapeChar c) ∈ [(34, [92,34]),(92, [92,92]),(47, [92,47]),
    (8, [92,98]),(12, [92,102]),(10, [92,110]),(13, [92,114]),(9, [92,116])]) :
    ∃ d, escapeChar c = [backslash,d] ∧ (d = quote → c = quote) := by
  simp only [List.mem_cons,Prod.mk.injEq,List.not_mem_nil,or_false] at letter
  rcases letter with h | h | h | h | h | h | h | h <;> obtain ⟨same,written⟩ := h
  · exact ⟨34,written,fun _ => same⟩
  all_goals exact ⟨_,written,fun quoted => absurd quoted (by decide)⟩

theorem hexDigitPlain : ∀ n < 16, hexDigit n ≠ quote ∧ hexDigit n ≠ backslash ∧ hexDigit n ≠ lf := by decide

theorem hexDigitValue : ∀ n < 16, hexDigitToVal (hexDigit n) = UInt8.ofNat n := by decide

theorem nibbles : c.toNat / 16 < 16 ∧ c.toNat % 16 < 16 := by
  have byte := c.toNat_lt
  omega

theorem hexDigits :
    hexDigitToVal (hexDigit (c.toNat / 16)) * 16 + hexDigitToVal (hexDigit (c.toNat % 16)) = c := by
  obtain ⟨high,low⟩ := nibbles c
  rw [hexDigitValue _ high,hexDigitValue _ low]
  refine UInt8.toNat_inj.mp ?_
  rw [UInt8.toNat_add,UInt8.toNat_mul,UInt8.toNat_ofNat',UInt8.toNat_ofNat']
  have byte := c.toNat_lt
  have sixteen : (16 : UInt8).toNat = 16 := rfl
  rw [sixteen]
  omega

theorem escapeCharLength : 1 ≤ (escapeChar c).length := by
  rcases escapeForms c with ⟨plain,-⟩ | letter | digits
  · rw [plain]
    exact Nat.le_refl 1
  · obtain ⟨d,written,-⟩ := escapeLetter letter
    rw [written]
    exact Nat.le_add_left 1 1
  · rw [digits]
    exact Nat.le_add_left 1 5

theorem escapeCharShort (short : (escapeChar c).length = 1) :
    escapeChar c = [c] ∧ 32 ≤ c ∧ c ≠ quote ∧ c ≠ backslash := by
  rcases escapeForms c with plain | letter | digits
  · exact plain
  · obtain ⟨d,written,-⟩ := escapeLetter letter
    rw [written] at short
    exact nomatch short
  · rw [digits] at short
    exact nomatch short

theorem escapeCharStart : (cur (escapeChar c) = c ∧ 32 ≤ c ∧ c ≠ quote) ∨ cur (escapeChar c) = backslash := by
  rcases escapeForms c with ⟨plain,printed,noQuote,-⟩ | letter | digits
  · exact Or.inl ⟨congrArg cur plain,printed,noQuote⟩
  · obtain ⟨d,written,-⟩ := escapeLetter letter
    exact Or.inr (congrArg cur written)
  · exact Or.inr (congrArg cur digits)

theorem escapeCharHead : c = 32 ∨ (isBlank (cur (escapeChar c)) = false ∧ cur (escapeChar c) ≠ quote) := by
  rcases escapeCharStart c with ⟨here,printed,noQuote⟩ | slash
  · rw [here]
    exact or_iff_not_imp_left.mpr (fun other => ⟨notBlank printed other,noQuote⟩)
  · rw [slash]
    exact Or.inr (by decide)

theorem escapeCharColon (here : cur (escapeChar c) = colon) : c = colon := by
  rcases escapeCharStart c with ⟨start,-⟩ | slash
  · exact start.symm.trans here
  · exact absurd (slash.symm.trans here) (by decide)

theorem escapeCharQuote (mem : quote ∈ escapeChar c) : c = quote := by
  rcases escapeForms c with ⟨plain,-⟩ | letter | digits
  · rw [plain] at mem
    exact (List.mem_singleton.mp mem).symm
  · obtain ⟨d,written,quoted⟩ := escapeLetter letter
    rw [written] at mem
    simp only [List.mem_cons,List.not_mem_nil,or_false] at mem
    rcases mem with slash | same
    · exact absurd slash (by decide)
    · exact quoted same.symm
  · rw [digits] at mem
    obtain ⟨high,low⟩ := nibbles c
    simp only [List.mem_cons,List.not_mem_nil,or_false] at mem
    rcases mem with h | h | h | h | h | h
    · exact absurd h (by decide)
    · exact absurd h (by decide)
    · exact absurd h (by decide)
    · exact absurd h (by decide)
    · exact absurd h.symm (hexDigitPlain _ high).1
    · exact absurd h.symm (hexDigitPlain _ low).1

theorem escapeCharPlain (plain : escapeChar c = [c]) : c ≠ quote ∧ c ≠ backslash ∧ c ≠ lf := by
  obtain ⟨-,printed,noQuote,noSlash⟩ := escapeCharShort c (congrArg List.length plain)
  refine ⟨noQuote,noSlash,?_⟩
  rintro rfl
  exact absurd printed (by decide)

theorem unescapeOther {c : UInt8} (other : c ≠ backslash) : unescape (c :: s) = (unescape s).map (c :: ·) := by
  rw [unescape.eq_def]
  exact if_neg other

theorem unescapeChar (s : Text) : unescape (escapeChar c ++ s) = (unescape s).map (c :: ·) := by
  rcases escapeForms c with plain | letter | digits
  · rw [plain.1,List.singleton_append,unescapeOther plain.2.2.2]
  · simp only [List.mem_cons,Prod.mk.injEq,List.not_mem_nil,or_false] at letter
    rcases letter with h | h | h | h | h | h | h | h <;> obtain ⟨rfl,written⟩ := h <;> rw [written] <;> rfl
  · have read : unescape (escapeChar c ++ s) = (unescape s).map
        ((hexDigitToVal (hexDigit (c.toNat / 16)) * 16 + hexDigitToVal (hexDigit (c.toNat % 16))) :: ·) := by
      rw [digits]
      rfl
    rw [read,hexDigits]

theorem unescapeEscape (s : Text) : unescape (escape s) = some s := by
  induction s with
  | nil => rfl
  | cons c s ih =>
    rw [escapeCons,unescapeChar,ih]
    rfl

theorem unescapePlain (none_ : s.contains backslash = false) : unescape s = some s := by
  induction s with
  | nil => rfl
  | cons c s ih =>
    rw [List.contains_cons,Bool.or_eq_false_iff] at none_
    have other : c ≠ backslash := fun same => absurd none_.1 (by simp [same])
    rw [unescapeOther other,ih none_.2]
    rfl

/- The backslashes before a place in a quoted text. -/
def slashes (seen : Text) : Nat := (seen.takeWhile (· == backslash)).length

theorem slashesCons (seen : Text) : slashes (backslash :: seen) = slashes seen + 1 := rfl

theorem slashesOther {c : UInt8} (other : c ≠ backslash) (seen : Text) : slashes (c :: seen) = 0 := by
  unfold slashes
  rw [List.takeWhile_cons_of_neg (by simpa using other)]
  rfl

theorem quoteEndOther {c : UInt8} (noQuote : c ≠ quote) (noLine : c ≠ lf) (seen : Text) :
    quoteEnd quote seen (c :: s) = quoteEnd quote (c :: seen) s := by
  rw [quoteEnd,if_neg noQuote,if_neg noLine]

theorem quoteEndEscaped {seen : Text} (even : slashes seen % 2 = 0) :
    quoteEnd quote seen (backslash :: quote :: s) = quoteEnd quote (quote :: backslash :: seen) s := by
  have escaped : ((backslash :: seen).head? = some backslash &&
      decide (((backslash :: seen).tail.takeWhile (· == backslash)).length % 2 ≠ 1)) = true := by
    have even : ((backslash :: seen).tail.takeWhile (· == backslash)).length % 2 = 0 := even
    rw [even]
    rfl
  rw [quoteEndOther (by decide) (by decide),quoteEnd,if_pos rfl,if_pos escaped]

theorem quoteEndFound {seen : Text} (even : slashes seen % 2 = 0) :
    quoteEnd quote seen (quote :: s) = some (quote :: seen, s) := by
  have last : ¬ ((seen.head? = some backslash &&
      decide ((seen.tail.takeWhile (· == backslash)).length % 2 ≠ 1)) = true) := by
    cases seen with
    | nil => exact Bool.false_ne_true
    | cons c seen =>
      by_cases slash : c = backslash
      · subst slash
        rw [slashesCons] at even
        have odd : ((backslash :: seen).tail.takeWhile (· == backslash)).length % 2 = 1 := by
          change slashes seen % 2 = 1
          omega
        rw [odd]
        exact Bool.and_false _ ▸ Bool.false_ne_true
      · simp [slash]
  rw [quoteEnd,if_pos rfl,if_neg last]

theorem quoteEndRun {w seen : Text} (calm : ∀ d ∈ w, d ≠ quote ∧ d ≠ lf) :
    quoteEnd quote seen (w ++ s) = quoteEnd quote (w.reverse ++ seen) s := by
  induction w generalizing seen with
  | nil => rfl
  | cons d w ih =>
    obtain ⟨noQuote,noLine⟩ := calm d (List.mem_cons_self ..)
    rw [List.cons_append,quoteEndOther noQuote noLine,ih (fun e mem => calm e (List.mem_cons_of_mem d mem))]
    simp

theorem quoteEndChar {seen : Text} (even : slashes seen % 2 = 0) :
    quoteEnd quote seen (escapeChar c ++ s) = quoteEnd quote ((escapeChar c).reverse ++ seen) s ∧
      slashes ((escapeChar c).reverse ++ seen) % 2 = 0 := by
  rcases escapeForms c with plain | letter | digits
  · obtain ⟨plain,-⟩ := plain
    obtain ⟨noQuote,noSlash,noLine⟩ := escapeCharPlain c plain
    rw [plain]
    exact ⟨quoteEndOther noQuote noLine seen,congrArg (· % 2) (slashesOther noSlash seen)⟩
  · simp only [List.mem_cons,Prod.mk.injEq,List.not_mem_nil,or_false] at letter
    rcases letter with h | h | h | h | h | h | h | h <;> obtain ⟨-,written⟩ := h <;> rw [written]
    · exact ⟨quoteEndEscaped even,congrArg (· % 2) (slashesOther (by decide) (backslash :: seen))⟩
    · refine ⟨quoteEndRun (by decide +kernel),?_⟩
      have twice : slashes (([92,92] : Text).reverse ++ seen) = slashes seen + 2 := rfl
      omega
    all_goals exact ⟨quoteEndRun (by decide +kernel),congrArg (· % 2) (slashesOther (by decide) (backslash :: seen))⟩
  · obtain ⟨high,low⟩ := nibbles c
    have first := hexDigitPlain _ high
    have second := hexDigitPlain _ low
    rw [digits]
    refine ⟨quoteEndRun ?_,congrArg (· % 2) (slashesOther second.2.1 _)⟩
    intro d mem
    simp only [List.mem_cons,List.not_mem_nil,or_false] at mem
    rcases mem with rfl | rfl | rfl | rfl | rfl | rfl
    · decide
    · decide
    · decide
    · decide
    · exact ⟨first.1,first.2.2⟩
    · exact ⟨second.1,second.2.2⟩

theorem quoteEndEscape {seen : Text} (even : slashes seen % 2 = 0) :
    quoteEnd quote seen (escape s ++ quote :: tail) = some (quote :: (escape s).reverse ++ seen, tail) := by
  induction s generalizing seen with
  | nil => exact quoteEndFound even
  | cons c s ih =>
    obtain ⟨read,even⟩ := quoteEndChar (s := escape s ++ quote :: tail) c even
    rw [escapeCons,List.append_assoc,read,ih even,List.reverse_append]
    simp

theorem getQuotesEscape (s tail : Text) :
    getQuotes [quote] (quote :: (escape s ++ quote :: tail)) = some (quote :: (escape s ++ [quote]), autoSkip tail) := by
  have ends : quoteEnd quote [quote] (escape s ++ quote :: tail) =
      some (quote :: (escape s).reverse ++ [quote], tail) := quoteEndEscape rfl
  have open_ : [quote].contains quote = true := rfl
  unfold getQuotes
  dsimp only
  rw [if_pos open_,ends]
  simp

theorem quotedString (s tail : Text) :
    parseQuotedString (quote :: (escape s ++ quote :: tail)) = some (s, autoSkip tail) := by
  have inner : unquote (quote :: (escape s ++ [quote])) = escape s := by
    unfold unquote
    exact List.dropLast_concat
  unfold parseQuotedString
  rw [getQuotesEscape]
  simp only [Option.bind_eq_bind,Option.bind_some,inner]
  cases some_ : (escape s).contains backslash with
  | true => rw [if_pos rfl,unescapeEscape]; rfl
  | false =>
    have same : escape s = s := Option.some.inj ((unescapePlain some_).symm.trans (unescapeEscape s))
    rw [same]
    rfl

end Escapes

/- The scanner skips the spaces behind a begin quote. -/
def lead (s : Text) : Text := s.dropWhile (· == 32)

section Names

variable {x z z₁ z₂ tail : Text}

theorem escapeLength (x : Text) : x.length ≤ (escape x).length := by
  induction x with
  | nil => exact Nat.le_refl 0
  | cons c =>
    have first := escapeCharLength c
    rw [escapeCons,List.length_append,List.length_cons]
    omega

theorem escapeStart (c : UInt8) (x t : Text) : cur (escape (c :: x) ++ t) = cur (escapeChar c) := by
  rw [escapeCons]
  cases written : escapeChar c with
  | nil => exact absurd (written ▸ escapeCharLength c) (by decide)
  | cons => rfl

theorem escapeSelf (same : escape x = x) : ∀ c ∈ x, PlainChar c := by
  induction x with
  | nil => exact nofun
  | cons c x ih =>
    have lengths := congrArg List.length same
    have first := escapeCharLength c
    have rest := escapeLength x
    rw [escapeCons,List.length_append,List.length_cons] at lengths
    have plain : escapeChar c = [c] := (escapeCharShort c (by omega)).1
    rw [escapeCons,plain] at same
    intro d mem
    rcases List.mem_cons.mp mem with rfl | later
    · exact plain
    · exact ih (List.cons.inj same).2 d later

theorem escapePlain (plain : ∀ c ∈ x, PlainChar c) : escape x = x := by
  induction x with
  | nil => rfl
  | cons c x ih =>
    have first : escapeChar c = [c] := plain c (List.mem_cons_self ..)
    rw [escapeCons,first,ih (fun d mem => plain d (List.mem_cons_of_mem c mem))]
    rfl

theorem quoteFree (none_ : quote ∉ x) : quote ∉ escape x := by
  intro mem
  obtain ⟨c,member,written⟩ := List.mem_flatMap.mp mem
  exact none_ (escapeCharQuote c written ▸ member)

theorem leadCons {c : UInt8} (other : c ≠ 32) : lead (c :: x) = c :: x :=
  List.dropWhile_cons_of_neg (by simpa using other)

theorem leadHead (x : Text) : lead x = [] ∨ ∃ c s, lead x = c :: s ∧ c ≠ 32 := by
  induction x with
  | nil => exact Or.inl rfl
  | cons c x ih =>
    by_cases space : c = 32
    · subst space
      exact ih
    · exact Or.inr ⟨c,x,leadCons space,space⟩

theorem skipEscape (x tail : Text) : autoSkip (escape x ++ quote :: tail) = escape (lead x) ++ quote :: tail := by
  induction x with
  | nil => exact autoStays rfl
  | cons c x ih =>
    by_cases space : c = 32
    · subst space
      have step : autoSkip (32 :: (escape x ++ quote :: tail)) = autoSkip (escape x ++ quote :: tail) := by
        rw [autoIsDrop,autoIsDrop]
        exact List.dropWhile_cons_of_pos rfl
      exact step.trans ih
    · have plain : isBlank (cur (escape (c :: x) ++ quote :: tail)) = false := by
        rw [escapeStart]
        exact ((escapeCharHead c).resolve_left space).1
      rw [autoStays plain,leadCons space]

theorem plainLead (plain : Plain x) : lead x = x := by
  cases x with
  | nil => rfl
  | cons => exact leadCons (fun space => plain.2 (congrArg some space))

theorem plainQuoteless (plain : Plain x) : quote ∉ x :=
  fun mem => (escapeCharPlain quote (plain.1 quote mem)).1 rfl

theorem plainOfToken (same : escape (lead x) = x) : Plain x := by
  rcases leadHead x with nil | ⟨c,s,first,other⟩
  · rw [nil] at same
    subst same
    exact ⟨nofun,nofun⟩
  · have starts : x.head? ≠ some 32 := by
      rw [← same,first,escapeCons]
      have known := ((escapeCharHead c).resolve_left other).1
      cases written : escapeChar c with
      | nil => exact absurd (written ▸ escapeCharLength c) (by decide)
      | cons d =>
        rw [written] at known
        intro space
        have space : d = 32 := Option.some.inj space
        subst space
        exact nomatch known
    have whole : lead x = x := by
      cases x with
      | nil => rfl
      | cons => exact leadCons (fun space => starts (congrArg some space))
    rw [whole] at same
    exact ⟨escapeSelf same,starts⟩

theorem tokenQuoteless (none_ : quote ∉ z) :
    getUntil [quote] (escape z ++ quote :: tail) = some (escape z, quote :: tail) := by
  have free := quoteFree none_
  have before : ∀ c ∈ escape z, (!([quote].contains c)) = true := by
    intro c mem
    have other : c ≠ quote := fun same => free (same ▸ mem)
    simpa using other
  have stop : (!([quote].contains (cur (quote :: tail)))) = false := rfl
  exact getUntilRun before stop rfl (by simp)

theorem tokenQuoted (none_ : quote ∉ z₁) : getUntil [quote] (escape (z₁ ++ quote :: z₂) ++ quote :: tail) =
      some (escape z₁ ++ [backslash], quote :: (escape z₂ ++ quote :: tail)) := by
  have free := quoteFree none_
  have before : ∀ c ∈ escape z₁ ++ [backslash], (!([quote].contains c)) = true := by
    intro c mem
    have other : c ≠ quote := by
      rcases List.mem_append.mp mem with early | last
      · exact fun same => free (same ▸ early)
      · rw [List.mem_singleton.mp last]
        decide
    simpa using other
  have stop : (!([quote].contains (cur (quote :: (escape z₂ ++ quote :: tail))))) = false := rfl
  have text : escape (z₁ ++ quote :: z₂) ++ quote :: tail =
      (escape z₁ ++ [backslash]) ++ quote :: (escape z₂ ++ quote :: tail) := by
    have written : escape (z₁ ++ quote :: z₂) = escape z₁ ++ ([backslash,quote] ++ escape z₂) := List.flatMap_append
    rw [written]
    simp
  rw [text]
  exact getUntilRun before stop rfl (by simp)

/- What comes after the token decides whether it is a name. -/
def named (token s : Text) : Option (Text × Text × Text) :=
  if cur s = colon then (getChar s).map (fun (_, s) => (token, [], s)) else some ([], token, s)

theorem parseNameToken {s token : Text} (read : getUntil [quote] (autoSkip z) = some (token, quote :: s)) :
    parseName (quote :: z) = named token (autoSkip s) := by
  have first : getChar (quote :: z) = some (quote, autoSkip z) := rfl
  have last : getChar (quote :: s) = some (quote, autoSkip s) := rfl
  have begins : cur (quote :: z) = quote := rfl
  unfold parseName named
  rw [if_pos begins,first]
  simp only [Option.bind_eq_bind,Option.bind_some,read,last]
  split
  · cases getChar (autoSkip s) <;> rfl
  · rfl

theorem nameQuoteless (none_ : quote ∉ x) :
    parseName (quote :: (escape x ++ quote :: tail)) = named (escape (lead x)) (autoSkip tail) := by
  have inner : quote ∉ lead x := fun mem => none_ ((List.dropWhile_suffix _).subset mem)
  exact parseNameToken ((congrArg (getUntil [quote]) (skipEscape x tail)).trans (tokenQuoteless inner))

theorem nameQuoted (cut : lead x = z₁ ++ quote :: z₂) (none_ : quote ∉ z₁) :
    parseName (quote :: (escape x ++ quote :: tail)) =
      named (escape z₁ ++ [backslash]) (escape (lead z₂) ++ quote :: tail) := by
  have read := (congrArg (getUntil [quote]) (skipEscape x tail)).trans (cut ▸ tokenQuoted none_)
  exact (parseNameToken read).trans (congrArg (named _) (skipEscape z₂ tail))

theorem quoteInLead (mem : quote ∈ x) : ∃ z₁ z₂, lead x = z₁ ++ quote :: z₂ ∧ quote ∉ z₁ := by
  have kept : quote ∈ lead x := by
    induction x with
    | nil => exact nomatch mem
    | cons c x ih =>
      by_cases space : c = 32
      · subst space
        exact ih ((List.mem_cons.mp mem).resolve_left (by decide))
      · rw [leadCons space]
        exact mem
  exact List.eq_append_cons_of_mem kept

end Names

end Pjproject.Json
