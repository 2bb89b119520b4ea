import Pjproject.XmlReread

/-! What each step of a parse can do, and what it takes from the text. -/
namespace Pjproject.Xml
open Multipart (Text ascii cur lf lower)
open Scan
open Lib.Progress (run Next)
open Lib.Outcome

def Blind (p : UInt8 → Bool) : Prop := ∀ c, isBlank c = true → p c = false

/- The scanner has taken a token on its way to a later place. -/
structure Takes (s token t : Text) : Prop where
  suffix : t <:+ s
  counts : ∀ p, Blind p → s.countP p = token.countP p + t.countP p

section Scanner
variable {s t u token : Text} {c : UInt8}

theorem skipTakes (s : Text) : Takes s [] (autoSkip s) := by
  refine ⟨autoSuffix s,fun p blind => ?_⟩
  rw [List.countP_nil,Nat.zero_add,autoIsDrop]
  induction s with
  | nil => rfl
  | cons c s ih =>
    by_cases blank : isBlank c = true
    · rw [List.dropWhile_cons_of_pos blank,List.countP_cons_of_neg (Bool.eq_false_iff.mp (blind c blank)),ih]
    · rw [List.dropWhile_cons_of_neg blank]

theorem prefixTakes (token s : Text) : Takes (token ++ s) token s := ⟨List.suffix_append token s,fun _ _ => List.countP_append⟩

theorem Takes.then {token' : Text} (first : Takes s token t) (second : Takes t token' u) : Takes s (token ++ token') u := by
  refine ⟨second.suffix.trans first.suffix,fun p blind => ?_⟩
  rw [first.counts p blind,second.counts p blind,List.countP_append,Nat.add_assoc]

theorem Takes.skip (takes : Takes s token t) : Takes s token (autoSkip t) := by
  have skipped := takes.then (skipTakes t)
  rwa [List.append_nil] at skipped

theorem getCharSource (read : getChar s = some (c, t)) : Takes s [c] t ∧ cur s = c ∧ ∃ u, s = c :: u ∧ t = autoSkip u := by
  unfold getChar at read
  split at read
  · exact nomatch read
  · next nonzero =>
    obtain ⟨rfl,rfl⟩ := Prod.mk.inj (Option.some.inj read)
    cases s with
    | nil => exact absurd rfl nonzero
    | cons c s => exact ⟨(prefixTakes [c] s).skip,rfl,s,rfl,rfl⟩

theorem getUntilSource {stop : Text} (read : getUntil stop s = some (token, t)) : s ≠ [] ∧ Takes s token t ∧
    (∃ rest, s = token ++ rest ∧ t = autoSkip rest) ∧ (∀ c ∈ token, (!stop.contains c) = true) := by
  unfold getUntil at read
  split at read
  · exact nomatch read
  · next more =>
    obtain ⟨rfl,rfl⟩ := Prod.mk.inj (Option.some.inj read)
    have split := List.takeWhile_append_dropWhile (p := fun c => !stop.contains c) (l := s)
    refine ⟨more,?_,⟨_,split.symm,rfl⟩,fun c mem => ?_⟩
    · have takes := (prefixTakes (s.takeWhile fun c => !stop.contains c) (s.dropWhile fun c => !stop.contains c)).skip
      rwa [split] at takes
    · exact List.all_eq_true.mp List.all_takeWhile c mem

theorem emptyToken {stop : Text} (read : getUntil stop s = some ([], t)) (plain : isBlank (cur s) = false) :
    t = s ∧ stop.contains (cur s) = true := by
  cases s with
  | nil => exact nomatch read
  | cons c s =>
    cases here : stop.contains c with
    | false =>
      have first : (!stop.contains c) = true := by
        rw [here]
        rfl
      unfold getUntil at read
      rw [if_neg (List.cons_ne_nil c s)] at read
      have taken := (Prod.mk.inj (Option.some.inj read)).1
      have begins : (c :: s).takeWhile (fun c => !stop.contains c) = c :: s.takeWhile fun c => !stop.contains c :=
        List.takeWhile_cons_of_pos first
      rw [begins] at taken
      exact nomatch taken
    | true =>
      rw [getUntilHere here plain (List.cons_ne_nil c s)] at read
      exact ⟨(Prod.mk.inj (Option.some.inj read)).2.symm,here⟩

theorem advanceSource {n : Nat} {skip : Bool} (read : advance n skip s = some t) :
    Takes s (s.take n) t ∧ t = if skip then autoSkip (s.drop n) else s.drop n := by
  unfold advance at read
  split at read
  · exact nomatch read
  · have dropped := prefixTakes (s.take n) (s.drop n)
    rw [List.take_append_drop] at dropped
    cases skip with
    | false =>
      obtain rfl := Option.some.inj read
      exact ⟨dropped,rfl⟩
    | true =>
      obtain rfl := Option.some.inj read
      exact ⟨dropped.skip,rfl⟩

theorem quoteEndSource {q : UInt8} {seen found : Text} (lines : q ≠ lf) (read : quoteEnd q seen s = some (found, t)) :
    ∃ value, found = q :: (value.reverse ++ seen) ∧ s = value ++ q :: t ∧ lf ∉ value ∧ slashes (value.reverse ++ seen) % 2 = 0 := by
  induction s generalizing seen with
  | nil => cases read
  | cons c s ih =>
    unfold quoteEnd at read
    by_cases quoted : c = q
    · rw [if_pos quoted] at read
      split at read
      · next escaped =>
        obtain ⟨value,is,text,line,closes⟩ := ih read
        refine ⟨c :: value,?_,by rw [text,List.cons_append],?_,?_⟩
        · rw [is,List.reverse_cons,List.append_assoc,List.singleton_append]
        · exact fun mem => (List.mem_cons.mp mem).elim (fun is => lines (quoted ▸ is.symm)) line
        · rwa [List.reverse_cons,List.append_assoc,List.singleton_append]
      · next ends =>
        obtain ⟨rfl,rfl⟩ := Prod.mk.inj (Option.some.inj read)
        rw [escapedOdd] at ends
        refine ⟨[],by rw [quoted,List.reverse_nil,List.nil_append],by rw [quoted,List.nil_append],List.not_mem_nil,?_⟩
        rw [List.reverse_nil,List.nil_append]
        omega
    · rw [if_neg quoted] at read
      split at read
      · cases read
      · next inLine =>
        obtain ⟨value,is,text,line,closes⟩ := ih read
        refine ⟨c :: value,?_,by rw [text,List.cons_append],?_,?_⟩
        · rw [is,List.reverse_cons,List.append_assoc,List.singleton_append]
        · exact fun mem => (List.mem_cons.mp mem).elim (fun is => inLine is.symm) line
        · rwa [List.reverse_cons,List.append_assoc,List.singleton_append]

structure Quoted (s value : Text) (q : UInt8) (t : Text) : Prop where
  quotes : q ∈ ascii "\"'"
  takes : Takes s (q :: (value ++ [q])) t
  line : lf ∉ value
  closes : slashes value.reverse % 2 = 0

theorem slashesBegun {q : UInt8} (other : q ≠ backslash) (s : Text) : slashes (s ++ [q]) = slashes s := by
  induction s with
  | nil => exact slashesEnd other
  | cons c s ih =>
    rw [List.cons_append]
    by_cases slashed : c = backslash
    · rw [slashed,slashesMore,slashesMore,ih]
    · rw [slashesEnd slashed,slashesEnd slashed]

theorem getQuotesSource (read : getQuotes (ascii "\"'") s = some (token, t)) : ∃ q, Quoted s (unquote token) q t ∧ cur s = q ∧
    isBlank (cur t) = false := by
  cases s with
  | nil => exact nomatch read
  | cons q =>
    unfold getQuotes at read
    dsimp only at read
    split at read
    · next listed =>
      have quotes : q ∈ ascii "\"'" := List.contains_iff_mem.mp listed
      have others : ∀ q ∈ ascii "\"'", q ≠ lf ∧ q ≠ backslash := by decide +kernel
      obtain ⟨⟨seen,rest⟩,found,last⟩ := Option.map_eq_some_iff.mp read
      obtain ⟨value,is,text,line,closes⟩ := quoteEndSource (others q quotes).1 found
      obtain ⟨rfl,rfl⟩ := Prod.mk.inj last
      have token : seen.reverse = q :: (value ++ [q]) := by
        rw [is]
        simp
      have value_ : unquote seen.reverse = value := by
        rw [token,unquote,List.tail_cons,List.dropLast_concat]
      rw [slashesBegun (others q quotes).2] at closes
      refine ⟨q,?_,rfl,autoNotBlank _⟩
      rw [value_]
      refine ⟨quotes,?_,line,closes⟩
      have takes := (prefixTakes (q :: (value ++ [q])) rest).skip
      rwa [List.cons_append,List.append_assoc,List.singleton_append,← text] at takes
    · exact nomatch read

end Scanner

section Steps
variable {stack : List Node} {node : Node} {s t : Text} {x : Parse}

/- From a call on: an instruction, a comment, or a tag with its name. -/
inductive Calls (stack : List Node) (s : Text) : Parse → Prop where
  | pi {t : Text} (is : s = lt :: query :: t) : Calls stack s (.more ⟨stack,.pi,t⟩)
  | comment {t : Text} (is : s = lt :: bang :: t) : Calls stack s (.more ⟨stack,.comment,t⟩)
  | tag {name t : Text} (takes : Takes s (lt :: name) t) (inName : ∀ c ∈ name, (!(ascii " />\t\r\n").contains c) = true)
      (bare : name = [] → cur t = gt ∨ cur t = slash) (plain : isBlank (cur t) = false) (apart : second s ≠ query ∧ second s ≠ bang) :
      Calls stack s (.more ⟨stack,.attrs { name },t⟩)

theorem tagStop {c : UInt8} (stopped : (ascii " />\t\r\n").contains c = true) (plain : isBlank c = false) : c = gt ∨ c = slash := by
  have listed : ∀ c ∈ ascii " />\t\r\n", isBlank c = false → c = gt ∨ c = slash := by decide +kernel
  exact listed c (List.contains_iff_mem.mp stopped) plain

theorem parseNodeSource (read : parseNode stack s = some x) : Calls stack s x := by
  simp only [parseNode,bind] at read
  split at read
  · cases read
  next open_ =>
    have here : cur s = lt := not_not.mp open_
    obtain ⟨u,rfl⟩ : ∃ u, s = lt :: u := by
      cases s with
      | nil => cases here
      | cons c u => exact ⟨u,congrArg (· :: u) here⟩
    split at read
    next asked =>
      obtain ⟨t,moved,last⟩ := Option.bind_eq_some_iff.mp read
      cases Option.some.inj last
      cases u with
      | nil => cases asked
      | cons d =>
        obtain rfl := (advanceSource moved).2
        have asked : d = query := asked
        rw [asked]
        exact .pi rfl
    next notAsked =>
      obtain ⟨banged,compared,read⟩ := Option.bind_eq_some_iff.mp read
      split at read
      next is =>
        obtain ⟨t,moved,last⟩ := Option.bind_eq_some_iff.mp read
        cases Option.some.inj last
        obtain rfl := (advanceSource moved).2
        exact .comment (strcmpPrefix (is ▸ compared))
      next differs =>
        have notBanged : second (lt :: u) ≠ bang := by
          intro banged
          rw [Bool.eq_false_iff.mpr differs] at compared
          cases u with
          | nil => cases banged
          | cons d => exact (strcmpDiffers compared).2 (congrArg (fun d => [lt,d]) banged)
        obtain ⟨⟨c,u₁⟩,first,read⟩ := Option.bind_eq_some_iff.mp read
        obtain ⟨⟨name,t⟩,named,last⟩ := Option.bind_eq_some_iff.mp read
        cases Option.some.inj last
        obtain ⟨takes,rfl,u₂,is,rfl⟩ := getCharSource first
        obtain ⟨_,rest,_,inName⟩ := getUntilSource named
        refine .tag (takes.then rest) inName ?_ (getUntilSuffix named).2.2 ⟨notAsked,notBanged⟩
        rintro rfl
        obtain ⟨rfl,stopped⟩ := emptyToken named (autoNotBlank _)
        exact tagStop stopped (autoNotBlank _)

theorem closeNodeSource (read : closeNode stack node s = some x) :
    ∃ t, x = returnNode stack node t ∧ ∃ name, Takes s (lt :: slash :: (name ++ [gt])) t := by
  unfold closeNode at read
  obtain ⟨⟨c,s₁⟩,first,read⟩ := Option.bind_eq_some_iff.mp read
  dsimp only at read
  split at read
  · exact nomatch read
  next opens =>
    obtain ⟨⟨d,s₂⟩,slashed,read⟩ := Option.bind_eq_some_iff.mp read
    dsimp only at read
    split at read
    · exact nomatch read
    next closes =>
      obtain ⟨⟨name,s₃⟩,named,read⟩ := Option.bind_eq_some_iff.mp read
      dsimp only at read
      split at read
      · exact nomatch read
      · obtain ⟨⟨e,t⟩,last,read⟩ := Option.bind_eq_some_iff.mp read
        dsimp only at read
        split at read
        · exact nomatch read
        next ends =>
          cases Option.some.inj read
          have takes := (getCharSource first).1.then ((getCharSource slashed).1.then ((getUntilSource named).2.1.then
            (getCharSource last).1))
          rw [not_not.mp opens,not_not.mp closes,not_not.mp ends] at takes
          exact ⟨t,rfl,name,takes⟩

inductive Asks (stack : List Node) (s : Text) : Parse → Prop where
  | ends {t : Text} {x : Parse} (skipped : Text) (takes : Takes s (skipped ++ [query,gt]) t) (calls : parseNode stack t = some x) :
      Asks stack s x
  | loops {t : Text} (within : t <:+ s) : Asks stack s (.more ⟨stack,.pi,t⟩)

theorem piSource (read : piStep stack s = some x) : Asks stack s x := by
  simp only [piStep,bind] at read
  obtain ⟨⟨skipped,s₁⟩,found,read⟩ := Option.bind_eq_some_iff.mp read
  have takes := (getUntilSource found).2.1
  split at read
  next asked =>
    obtain ⟨s₂,moved,calls⟩ := Option.bind_eq_some_iff.mp read
    have two : s₁.take 2 = [query,gt] := by
      match s₁, asked with
      | c :: d :: _, ⟨is,last⟩ => exact congrArg₂ (fun c d => [c,d]) is last
    have behind := (advanceSource moved).1
    rw [two] at behind
    exact .ends skipped (takes.then behind) calls
  · obtain ⟨s₂,moved,last⟩ := Option.bind_eq_some_iff.mp read
    cases Option.some.inj last
    exact .loops ((advanceSource moved).1.suffix.trans takes.suffix)

inductive Comments (stack : List Node) (s : Text) : Parse → Prop where
  | ends {t : Text} {x : Parse} (skipped : Text) (takes : Takes s (skipped ++ [gt]) t) (calls : parseNode stack t = some x) :
      Comments stack s x
  | loops {t : Text} (within : t <:+ s) : Comments stack s (.more ⟨stack,.comment,t⟩)

theorem commentSource (read : commentStep stack s = some x) : Comments stack s x := by
  simp only [commentStep,bind] at read
  obtain ⟨⟨skipped,s₁⟩,found,read⟩ := Option.bind_eq_some_iff.mp read
  have takes := (getUntilSource found).2.1
  obtain ⟨closed,compared,read⟩ := Option.bind_eq_some_iff.mp read
  split at read
  next is =>
    obtain ⟨s₂,moved,calls⟩ := Option.bind_eq_some_iff.mp read
    have one : s₁.take 1 = [gt] := by
      rw [is] at compared
      dsimp only at compared
      rw [strcmpPrefix compared]
      rfl
    have behind := (advanceSource moved).1
    rw [one] at behind
    exact .ends skipped (takes.then behind) calls
  · obtain ⟨s₂,moved,last⟩ := Option.bind_eq_some_iff.mp read
    cases Option.some.inj last
    exact .loops ((advanceSource moved).1.suffix.trans takes.suffix)

/- An attribute with its value or without one, or the end of the tag; where the scanner stands at no blank an attribute is not
nothing. -/
inductive Attributes (stack : List Node) (node : Node) (s : Text) : Parse → Prop where
  | value {name value t : Text} (quote : UInt8) (quotes : quote ∈ ascii "\"'")
      (takes : Takes s (name ++ equals :: quote :: (value ++ [quote])) t) (attr : ReadAttr (name, value))
      (plain : isBlank (cur t) = false) (inTag : cur s ≠ gt ∧ cur s ≠ slash) :
      Attributes stack node s (.more ⟨stack,.attrs { node with attrs := node.attrs ++ [(name, value)] },t⟩)
  | bare {name t : Text} (takes : Takes s name t) (attr : ReadAttr (name, [])) (plain : isBlank (cur t) = false)
      (named : isBlank (cur s) = false → name ≠ []) (inTag : cur s ≠ gt ∧ cur s ≠ slash) :
      Attributes stack node s (.more ⟨stack,.attrs { node with attrs := node.attrs ++ [(name, [])] },t⟩)
  | empty {t : Text} (takes : Takes s [slash,gt] t) (ends : cur s = slash) : Attributes stack node s (returnNode stack node t)
  | opens {t : Text} (takes : Takes s [gt] t) (ends : cur s = gt) : Attributes stack node s (.more ⟨stack,.nodes node,t⟩)

theorem attrsSource (read : attrsStep stack node s = some x) : Attributes stack node s x := by
  simp only [attrsStep,bind] at read
  split at read
  next inTag =>
    obtain ⟨⟨name,s₁⟩,named,read⟩ := Option.bind_eq_some_iff.mp read
    obtain ⟨more,takes,⟨rest,text,_⟩,inName⟩ := getUntilSource named
    have first : cur name ≠ slash := by
      cases name with
      | nil => exact (by decide : (0 : UInt8) ≠ slash)
      | cons =>
        rw [text] at inTag
        exact inTag.2
    split at read
    next assigned =>
      obtain ⟨⟨c,s₂⟩,eq,read⟩ := Option.bind_eq_some_iff.mp read
      obtain ⟨⟨token,t⟩,quoted,last⟩ := Option.bind_eq_some_iff.mp read
      cases Option.some.inj last
      obtain ⟨eqTakes,is,_⟩ := getCharSource eq
      obtain ⟨q,⟨quotes,valueTakes,line,closes⟩,_,plain⟩ := getQuotesSource quoted
      rw [show c = equals from is.symm.trans assigned] at eqTakes
      exact .value q quotes (takes.then (eqTakes.then valueTakes)) ⟨inName,first,line,closes⟩ plain inTag
    next noValue =>
      cases Option.some.inj read
      have plain := (getUntilSuffix named).2.2
      refine .bare takes ⟨inName,first,List.not_mem_nil,rfl⟩ plain (fun begins => ?_) inTag
      rintro rfl
      obtain ⟨rfl,stopped⟩ := emptyToken named begins
      exact noValue (attributeStop stopped begins inTag.1)
  next ends =>
    split at read
    next slashed =>
      obtain ⟨⟨c,s₁⟩,first,read⟩ := Option.bind_eq_some_iff.mp read
      obtain ⟨⟨d,t⟩,last,read⟩ := Option.bind_eq_some_iff.mp read
      split at read
      · cases read
      next closes =>
        cases Option.some.inj read
        obtain ⟨firstTakes,is,_⟩ := getCharSource first
        have takes := firstTakes.then (getCharSource last).1
        rw [show c = slash from is.symm.trans slashed,show d = gt from not_not.mp closes] at takes
        exact .empty takes slashed
    · obtain ⟨⟨c,t⟩,first,read⟩ := Option.bind_eq_some_iff.mp read
      split at read
      · cases read
      next opens =>
        cases Option.some.inj read
        obtain ⟨takes,is,_⟩ := getCharSource first
        rw [show c = gt from not_not.mp opens] at takes is
        exact .opens takes is

/- The contents in front of a bracket, when the scanner stands at none. -/
inductive Contents (node : Node) (s : Text) : Node → Text → Prop where
  | some {content t : Text} (takes : Takes s content t) (is : content = s.takeWhile (fun c => !([lt] : Text).contains c))
      (begins : cur s ≠ lt) (more : s ≠ []) : Contents node s { node with content } t
  | none (ends : s = [] ∨ cur s = lt) : Contents node s node s

theorem getContentSource {node' : Node} (read : getContent node s = some (node', t)) : Contents node s node' t := by
  unfold getContent at read
  split at read
  next begins =>
    obtain ⟨⟨content,rest⟩,found,last⟩ := Option.map_eq_some_iff.mp read
    obtain ⟨rfl,rfl⟩ := Prod.mk.inj last
    have takes := (getUntilSource found).2.1
    unfold getUntil at found
    rw [if_neg begins.1] at found
    exact .some takes (Prod.mk.inj (Option.some.inj found)).1.symm begins.2 begins.1
  next ends =>
    obtain ⟨rfl,rfl⟩ := Prod.mk.inj (Option.some.inj read)
    refine .none ?_
    by_cases none : s = []
    · exact .inl none
    · exact .inr (not_not.mp fun other => ends ⟨none,other⟩)

/- In the loop for sub nodes: a call, a section behind the contents, or the end. -/
inductive Inside (stack : List Node) (node : Node) (s : Text) : Parse → Prop where
  | sub {x : Parse} (calls : parseNode (node :: stack) s = some x) : Inside stack node s x
  | cdata {node' : Node} {start content t : Text} (contents : Contents node s node' (cdataOpen ++ start)) (within : t <:+ start) :
      Inside stack node s (.more ⟨stack,.cdata { node' with content } start,t⟩)
  | ends {node' : Node} {t : Text} {x : Parse} (contents : Contents node s node' t) (closes : closeNode stack node' t = some x) :
      Inside stack node s x

theorem nodesSource (read : nodesStep stack node s = some x) : Inside stack node s x := by
  unfold nodesStep at read
  split at read
  next => exact .sub read
  · obtain ⟨⟨node',t⟩,contents,read⟩ := Option.bind_eq_some_iff.mp read
    have contents := getContentSource contents
    obtain ⟨opened,begins,read⟩ := Option.bind_eq_some_iff.mp read
    dsimp only at begins read
    split at read
    next yes =>
      obtain ⟨start,moved,read⟩ := Option.bind_eq_some_iff.mp read
      obtain ⟨⟨content,u⟩,found,last⟩ := Option.bind_eq_some_iff.mp read
      cases Option.some.inj last
      rw [yes] at begins
      have split := cdataBegins begins
      obtain rfl := (advanceSource moved).2
      rw [split] at contents
      exact .cdata contents (getUntilSuffix found).2.1
    next => exact .ends contents read

inductive Section (stack : List Node) (node : Node) (start s : Text) : Parse → Prop where
  | ends {t : Text} {x : Parse} (takes : Takes s cdataClose t)
      (closes : closeNode stack { node with content := start.take (start.length - s.length) } t = some x) :
      Section stack node start s x
  | loops {t : Text} (within : t <:+ s) : Section stack node start s (.more ⟨stack,.cdata node start,t⟩)

theorem cdataSource {start : Text} (read : cdataStep stack node start s = some x) : Section stack node start s x := by
  unfold cdataStep at read
  obtain ⟨closed,compared,read⟩ := Option.bind_eq_some_iff.mp read
  split at read
  next is =>
    rw [is] at compared
    obtain ⟨t,moved,read⟩ := Option.bind_eq_some_iff.mp read
    have takes := (advanceSource moved).1
    have three : s.take 3 = cdataClose := by
      rw [strcmpPrefix compared]
      rfl
    rw [three] at takes
    exact .ends takes read
  next =>
    obtain ⟨⟨_,t⟩,found,last⟩ := Option.bind_eq_some_iff.mp read
    cases Option.some.inj last
    exact .loops (getUntilSuffix found).2.1

end Steps

theorem caughtSource {P : Parse → Prop} {x : Option Parse} (failed : P (.done none)) (gives : ∀ y, x = some y → P y) :
    P (caught x) := by
  cases x with
  | none => exact failed
  | some y => exact gives y rfl

end Pjproject.Xml
