import Pjproject.XmlPrint
import Pjproject.XmlTermination
import Pjproject.Lib.Outcome

/-! Reading what has been printed. A tree that a parse has made is read again from its text when its names, attributes and contents
are plain in the one form that is printed. -/
namespace Pjproject.Xml
open Multipart (Text ascii cur lf)
open Scan
open Lib.Progress (run)
open Lib.Outcome

def slashes (s : Text) : Nat := (s.takeWhile (· == backslash)).length

/- What a parse leaves in an attribute. The backslashes at the end of a value leave its end quote alone. -/
structure ReadAttr (attr : Text × Text) : Prop where
  name : ∀ c ∈ attr.1, (!(ascii "=> \t\r\n").contains c) = true
  first : cur attr.1 ≠ slash
  line : lf ∉ attr.2
  closes : slashes attr.2.reverse % 2 = 0

structure ReadTag (tag : Text) (attrs : List (Text × Text)) : Prop where
  name : ∀ c ∈ tag, (!(ascii " />\t\r\n").contains c) = true
  bare : tag = [] → attrs = []
  attrs : ∀ attr ∈ attrs, ReadAttr attr

mutual

def Readable : Node → Prop
  | ⟨name,attrs,nodes,_⟩ => ReadTag name attrs ∧ AllReadable nodes

def AllReadable : List Node → Prop
  | [] => True
  | node :: nodes => Readable node ∧ AllReadable nodes

end

/- Every quote has an odd number of backslashes before it; what comes before a text is in reverse. -/
def Escaped : Text → Text → Prop
  | _, [] => True
  | seen, c :: s => (c = quote → slashes seen % 2 = 1) ∧ Escaped (c :: seen) s

/- An attribute is not lost, ends at its end quote, and does not take the value of the next one. -/
def PlainAttrs : List (Text × Text) → Prop
  | [] => True
  | attr :: attrs => attr ≠ ([], []) ∧ Escaped [quote] attr.2 ∧ (attr.2 = [] → ∀ other ∈ attrs.head?, other.1 ≠ []) ∧
      PlainAttrs attrs

def PlainName (name : Text) : Prop := cur name ≠ query ∧ cur name ≠ bang

/- Contents beside sub nodes would get the line end behind them. -/
def PlainContent (nodes : List Node) (content : Text) : Prop :=
  content = [] ∨ nodes = [] ∧ lt ∉ content ∧ isBlank (cur content) = false

mutual

def Printable : Node → Prop
  | ⟨name,attrs,nodes,content⟩ => PlainName name ∧ PlainAttrs attrs ∧ PlainContent nodes content ∧ AllPrintable nodes

def AllPrintable : List Node → Prop
  | [] => True
  | node :: nodes => Printable node ∧ AllPrintable nodes

end

section Scanning
variable {s t token value : Text} {c : UInt8}

theorem skipBlank (blank : isBlank c = true) : autoSkip (c :: s) = autoSkip s := by
  rw [autoIsDrop,autoIsDrop,List.dropWhile_cons_of_pos blank]

theorem skipPlain (plain : isBlank c = false) : autoSkip (c :: s) = c :: s := autoStays plain

theorem skipIndent (n : Nat) : autoSkip (List.replicate n space ++ s) = autoSkip s := by
  induction n with
  | zero => rfl
  | succ n ih =>
    rw [List.replicate_succ,List.cons_append,skipBlank rfl,ih]

theorem curCons : cur (c :: s) = c := rfl

theorem getUntilStop {stop : Text} (before : ∀ c ∈ token, (!stop.contains c) = true) (ends : stop.contains c = true) :
    getUntil stop (token ++ c :: s) = some (token, autoSkip (c :: s)) := by
  have stopped : ¬(!stop.contains c) = true := by
    rw [ends]
    exact Bool.false_ne_true
  have taken : (c :: s).takeWhile (fun c => !stop.contains c) = [] := List.takeWhile_cons_of_neg stopped
  have left : (c :: s).dropWhile (fun c => !stop.contains c) = c :: s := List.dropWhile_cons_of_neg stopped
  unfold getUntil
  rw [if_neg (by simp)]
  dsimp only
  rw [List.takeWhile_append_of_pos before,List.dropWhile_append_of_pos before,taken,left,List.append_nil]

theorem getCharOf (nonzero : c ≠ 0) : getChar (c :: s) = some (c, autoSkip s) := if_neg nonzero

theorem slashesMore : slashes (backslash :: s) = slashes s + 1 := rfl

theorem slashesEnd (other : c ≠ backslash) : slashes (c :: s) = 0 := by
  have plain : ¬(c == backslash) = true := by simpa using other
  unfold slashes
  rw [List.takeWhile_cons,if_neg plain,List.length_nil]

theorem slashesQuoted (s : Text) : slashes (s ++ [quote]) = slashes s := by
  induction s with
  | nil => rfl
  | cons c s ih =>
    rw [List.cons_append]
    by_cases slashed : c = backslash
    · rw [slashed,slashesMore,slashesMore,ih]
    · rw [slashesEnd slashed,slashesEnd slashed]

variable (seen : Text)

theorem escapedOdd : (seen.head? = some backslash && (seen.tail.takeWhile (· == backslash)).length % 2 ≠ 1) = true ↔
    slashes seen % 2 = 1 := by
  cases seen with
  | nil => exact ⟨nofun,nofun⟩
  | cons c seen =>
    by_cases slashed : c = backslash
    · rw [slashed,slashesMore]
      change (true && decide (slashes seen % 2 ≠ 1)) = true ↔ _
      rw [Bool.true_and,decide_eq_true_iff]
      omega
    · rw [slashesEnd slashed]
      simp [slashed]

theorem quoteEndRun (line : lf ∉ value) (escaped : Escaped seen value)
    (closes : slashes (value.reverse ++ seen) % 2 = 0) :
    quoteEnd quote seen (value ++ quote :: s) = some (quote :: (value.reverse ++ seen), s) := by
  induction value generalizing seen with
  | nil =>
    rw [List.nil_append,quoteEnd,if_pos rfl,if_neg,List.reverse_nil,List.nil_append]
    rw [escapedOdd]
    rw [List.reverse_nil,List.nil_append] at closes
    omega
  | cons c value ih =>
    have other : lf ∉ value := fun mem => line (List.mem_cons_of_mem c mem)
    rw [List.reverse_cons,List.append_assoc] at closes ⊢
    have rest := ih (c :: seen) other escaped.2 closes
    rw [List.cons_append,quoteEnd]
    by_cases quoted : c = quote
    · rw [if_pos quoted,if_pos ((escapedOdd seen).mpr (escaped.1 quoted))]
      exact rest
    · have inLine : c ≠ lf := fun ends => line (List.mem_cons.mpr (.inl ends.symm))
      rw [if_neg quoted,if_neg inLine]
      exact rest

theorem quotesRead (line : lf ∉ value) (escaped : Escaped [quote] value) (closes : slashes value.reverse % 2 = 0) :
    getQuotes (ascii "\"'") (quote :: (value ++ quote :: s)) = some (quote :: (value ++ [quote]), autoSkip s) := by
  have read := quoteEndRun (s := s) [quote] line escaped (by rw [slashesQuoted]; exact closes)
  have quotes : (ascii "\"'").contains quote = true := rfl
  unfold getQuotes
  dsimp only
  rw [if_pos quotes,read,Option.map_some]
  simp

theorem unquoteQuoted : unquote (quote :: (value ++ [quote])) = value := by
  unfold unquote
  rw [List.tail_cons,List.dropLast_concat]

theorem endsEarly (bad : ¬Escaped seen value) : ∃ front back, value = front ++ quote :: back ∧ Escaped seen front ∧
    slashes (front.reverse ++ seen) % 2 = 0 := by
  induction value generalizing seen with
  | nil => exact absurd trivial bad
  | cons c value ih =>
    by_cases here : c = quote → slashes seen % 2 = 1
    · obtain ⟨front,back,split,escaped,closes⟩ := ih (c :: seen) fun rest => bad ⟨here,rest⟩
      refine ⟨c :: front,back,by rw [split,List.cons_append],⟨here,escaped⟩,?_⟩
      rw [List.reverse_cons,List.append_assoc]
      exact closes
    · obtain ⟨rfl,even⟩ := Classical.not_imp.mp here
      refine ⟨[],value,rfl,trivial,?_⟩
      rw [List.reverse_nil,List.nil_append]
      omega

end Scanning

section Steps
variable {stack : List Node} {node : Node} {name value s t : Text} {c : UInt8}

theorem stopPlain {stop : Text} (blanks : ∀ c ∈ [(32 : UInt8),9,13,10], stop.contains c = true)
    (other : (!stop.contains c) = true) : isBlank c = false := by
  refine Bool.eq_false_iff.mpr fun blank => ?_
  have listed : c ∈ [(32 : UInt8),9,13,10] := by
    rcases blankCases blank with (rfl | rfl) | rfl | rfl <;> decide
  rw [blanks c listed] at other
  exact Bool.false_ne_true other

theorem tagPlain (other : (!(ascii " />\t\r\n").contains c) = true) : isBlank c = false := stopPlain (by decide +kernel) other

theorem attrPlain (other : (!(ascii "=> \t\r\n").contains c) = true) : isBlank c = false := stopPlain (by decide +kernel) other

variable {d : UInt8}

theorem stopNot {stop : Text} (listed : stop.contains d = true) (other : (!stop.contains c) = true) : c ≠ d := by
  rintro rfl
  rw [listed] at other
  exact Bool.false_ne_true other

theorem attrNamed (m n : Nat) (inName : ∀ c ∈ name, (!(ascii "=> \t\r\n").contains c) = true) (first : cur name ≠ slash) :
    let text := autoSkip (List.replicate m space ++ (name ++ (List.replicate n space ++ equals :: s)))
    getUntil (ascii "=> \t\r\n") text = some (name, equals :: s) ∧ cur text ≠ gt ∧ cur text ≠ slash := by
  rw [skipIndent]
  cases name with
  | nil =>
    rw [List.nil_append,skipIndent,skipPlain rfl]
    exact ⟨getUntilHere rfl rfl (List.cons_ne_nil _ _),(by decide : equals ≠ gt),(by decide : equals ≠ slash)⟩
  | cons c =>
    have here := inName c List.mem_cons_self
    rw [List.cons_append,skipPlain (attrPlain here)]
    refine ⟨?_,stopNot rfl here,first⟩
    cases n with
    | zero =>
      have read := getUntilStop (c := equals) (s := s) inName rfl
      rwa [skipPlain rfl] at read
    | succ n =>
      have read := getUntilStop (c := space) (s := List.replicate n space ++ equals :: s) inName rfl
      rwa [skipBlank rfl,skipIndent,skipPlain rfl] at read

theorem attrRead (stack : List Node) (node : Node) (s : Text) (m n : Nat)
    (inName : ∀ c ∈ name, (!(ascii "=> \t\r\n").contains c) = true) (first : cur name ≠ slash)
    (line : lf ∉ value) (escaped : Escaped [quote] value) (closes : slashes value.reverse % 2 = 0) :
    attrsStep stack node (autoSkip (List.replicate m space ++ (name ++ (List.replicate n space ++
      equals :: quote :: (value ++ quote :: s))))) =
      some (.more ⟨stack,.attrs { node with attrs := node.attrs ++ [(name, value)] },autoSkip s⟩) := by
  obtain ⟨named,inTag,open_⟩ := attrNamed (s := quote :: (value ++ quote :: s)) m n inName first
  unfold attrsStep
  rw [if_pos ⟨inTag,open_⟩,named]
  simp only [Option.bind_eq_bind,Option.bind_some]
  rw [curCons,if_pos rfl,getCharOf (by decide),skipPlain rfl]
  simp only [Option.bind_some]
  rw [quotesRead line escaped closes]
  simp only [Option.bind_some,unquoteQuoted]
  rfl

theorem attrBare (inName : ∀ c ∈ name, (!(ascii "=> \t\r\n").contains c) = true) (first : cur name ≠ slash) (some_ : name ≠ [])
    (stops : (ascii "=> \t\r\n").contains c = true) (none_ : cur (autoSkip (c :: s)) ≠ equals) :
    attrsStep stack node (autoSkip (space :: (name ++ c :: s))) =
      some (.more ⟨stack,.attrs { node with attrs := node.attrs ++ [(name, [])] },autoSkip (c :: s)⟩) := by
  obtain ⟨d,name',rfl⟩ := List.exists_cons_of_ne_nil some_
  have here := inName d List.mem_cons_self
  rw [skipBlank rfl,List.cons_append,skipPlain (attrPlain here)]
  have named := getUntilStop (s := s) inName stops
  rw [List.cons_append] at named
  unfold attrsStep
  rw [if_pos ⟨stopNot rfl here,first⟩,named]
  simp only [Option.bind_eq_bind,Option.bind_some]
  rw [if_neg none_]
  rfl

theorem emptyEnds : attrsStep stack node (autoSkip (space :: slash :: gt :: s)) = some (returnNode stack node (autoSkip s)) := by
  rw [skipBlank rfl,skipPlain rfl]
  have first : getChar (slash :: gt :: s) = some (slash, gt :: s) := (getCharOf (by decide)).trans (by rw [skipPlain rfl])
  have last : getChar (gt :: s) = some (gt, autoSkip s) := getCharOf (by decide)
  simp only [attrsStep,curCons,first,last,ne_eq,not_true_eq_false,and_false,↓reduceIte,Option.bind_eq_bind,Option.bind_some]
  rfl

theorem tagEnds : attrsStep stack node (autoSkip (gt :: s)) = some (.more ⟨stack,.nodes node,autoSkip s⟩) := by
  rw [skipPlain rfl]
  have last : getChar (gt :: s) = some (gt, autoSkip s) := getCharOf (by decide)
  have open_ : gt ≠ slash := by decide
  simp only [attrsStep,curCons,last,open_,ne_eq,not_true_eq_false,false_and,↓reduceIte,Option.bind_eq_bind,Option.bind_some]
  rfl

theorem bangCompared (other : d ≠ bang) : strcmp (lt :: d :: s) (ascii "<!") = some false := by
  have two : ¬(lt :: d :: s).length < (ascii "<!").length := by
    rw [show (ascii "<!").length = 2 from rfl,List.length_cons,List.length_cons]
    omega
  unfold strcmp
  rw [if_neg two]
  change some ([lt,d] == [lt,bang]) = some false
  refine congrArg some (beq_eq_false_iff_ne.mpr ?_)
  intro same
  exact other (List.cons.inj (List.cons.inj same).2).1

theorem tagOpens (is : name ++ c :: s = d :: t) (notPi : d ≠ query) (notBang : d ≠ bang)
    (read : getUntil (ascii " />\t\r\n") (autoSkip (name ++ c :: s)) = some (name, autoSkip (c :: s))) :
    parseNode stack (lt :: (name ++ c :: s)) = some (.more ⟨stack,.attrs { name },autoSkip (c :: s)⟩) := by
  rw [is] at read ⊢
  have first : getChar (lt :: d :: t) = some (lt, autoSkip (d :: t)) := getCharOf (by decide)
  have here : second (lt :: d :: t) = d := rfl
  simp only [parseNode,curCons,here,notPi,bangCompared notBang,first,read,ne_eq,not_true_eq_false,↓reduceIte,
    Option.bind_eq_bind,Option.bind_some,Bool.false_eq_true]
  rfl

theorem namedRead (some_ : name ≠ []) (inName : ∀ c ∈ name, (!(ascii " />\t\r\n").contains c) = true)
    (stops : (ascii " />\t\r\n").contains c = true) :
    getUntil (ascii " />\t\r\n") (autoSkip (name ++ c :: s)) = some (name, autoSkip (c :: s)) := by
  obtain ⟨d,name',rfl⟩ := List.exists_cons_of_ne_nil some_
  rw [List.cons_append,skipPlain (tagPlain (inName d List.mem_cons_self))]
  exact getUntilStop inName stops

theorem strnicmpSelf (s : Text) : strnicmp s s = true := by
  induction s with
  | nil => rfl
  | cons c s ih => rw [strnicmp,beq_self_eq_true,ih,Bool.or_true,Bool.and_true]

theorem closes (stack : List Node) (node : Node) (s : Text) (inName : ∀ c ∈ node.name, (!(ascii " />\t\r\n").contains c) = true) :
    closeNode stack node (endText node.name ++ s) = some (returnNode stack node (autoSkip s)) := by
  have first : getChar (lt :: slash :: (node.name ++ gt :: s)) = some (lt, slash :: (node.name ++ gt :: s)) :=
    (getCharOf (by decide)).trans (by rw [skipPlain rfl])
  have begins : autoSkip (node.name ++ gt :: s) = node.name ++ gt :: s := by
    cases named : node.name with
    | nil => exact skipPlain rfl
    | cons d => exact skipPlain (tagPlain (inName d (named ▸ List.mem_cons_self)))
  have slashed : getChar (slash :: (node.name ++ gt :: s)) = some (slash, node.name ++ gt :: s) :=
    (getCharOf (by decide)).trans (by rw [begins])
  have inEnd : ∀ c ∈ node.name, (!(ascii " \t>").contains c) = true := by
    intro c mem
    have other := inName c mem
    refine Bool.not_eq_true' _ ▸ Bool.eq_false_iff.mpr fun listed => ?_
    have stops : ∀ d ∈ ascii " \t>", (ascii " />\t\r\n").contains d = true := by decide +kernel
    rw [stops c (List.contains_iff_mem.mp listed)] at other
    exact Bool.false_ne_true other
  have named : getUntil (ascii " \t>") (node.name ++ gt :: s) = some (node.name, gt :: s) :=
    (getUntilStop inEnd rfl).trans (by rw [skipPlain rfl])
  have last : getChar (gt :: s) = some (gt, autoSkip s) := getCharOf (by decide)
  have same : stricmp node.name node.name = true := by rw [stricmp,beq_self_eq_true,strnicmpSelf,Bool.and_true]
  have text : endText node.name ++ s = lt :: slash :: (node.name ++ gt :: s) := by simp [endText]
  rw [text]
  simp only [closeNode,first,slashed,named,last,same,ne_eq,not_true_eq_false,↓reduceIte,Option.bind_eq_bind,Option.bind_some,
    Bool.not_true,Bool.false_eq_true]
  rfl

theorem endTextIs (name s : Text) : endText name ++ s = lt :: slash :: (name ++ gt :: s) := by
  simp only [endText,List.cons_append,List.append_assoc,List.nil_append]

theorem bareEnds (stack : List Node) (node : Node) (s : Text) (inName : ∀ c ∈ node.name, (!(ascii " />\t\r\n").contains c) = true) :
    nodesStep stack node (endText node.name ++ s) = some (returnNode stack node (autoSkip s)) := by
  have ends := closes stack node s inName
  rw [endTextIs] at ends ⊢
  have here : second (lt :: slash :: (node.name ++ gt :: s)) = slash := rfl
  have other : slash ≠ bang := by decide
  simp only [nodesStep,getContent,atCdata,curCons,here,other,ends,ne_eq,not_true_eq_false,false_and,and_false,↓reduceIte,
    Option.bind_eq_bind,Option.bind_some,Bool.false_eq_true]

theorem contentEnds (stack : List Node) (node : Node) (s : Text) {content : Text}
    (inName : ∀ c ∈ node.name, (!(ascii " />\t\r\n").contains c) = true) (some_ : content ≠ [])
    (inside : lt ∉ content) :
    nodesStep stack node (content ++ (endText node.name ++ s)) = some (returnNode stack { node with content } (autoSkip s)) := by
  have ends := closes stack { node with content } s inName
  rw [endTextIs] at ends ⊢
  obtain ⟨d,rest,rfl⟩ := List.exists_cons_of_ne_nil some_
  have other : d ≠ lt := fun is => inside (List.mem_cons.mpr (.inl is.symm))
  have before : ∀ c ∈ d :: rest, (!([lt] : Text).contains c) = true := by
    intro c mem
    have apart : c ≠ lt := fun is => inside (is ▸ mem)
    simpa using apart
  have read := (getUntilStop (c := lt) (s := slash :: (node.name ++ gt :: s)) before rfl).trans (by rw [skipPlain rfl])
  have here : second (lt :: slash :: (node.name ++ gt :: s)) = slash := rfl
  have apart : slash ≠ bang := by decide
  rw [List.cons_append] at read ⊢
  simp only [nodesStep,getContent,atCdata,curCons,here,other,apart,read,ends,ne_eq,reduceCtorEq,not_false_eq_true,false_and,
    and_false,and_self,↓reduceIte,Option.bind_eq_bind,Option.bind_some,Option.map_some,Bool.false_eq_true]

theorem subNodeBegins (notEnd : d ≠ slash) (notBang : d ≠ bang) :
    nodesStep stack node (lt :: d :: t) = parseNode (node :: stack) (lt :: d :: t) := by
  unfold nodesStep
  exact if_pos ⟨rfl,notEnd,notBang⟩

end Steps

section Rereading
variable {stack : List Node} {c : UInt8} {s : Text}

def endings : Text := [space,gt]

theorem attrsFollow (attrs : List (Text × Text)) (ends : c ∈ endings) :
    ∃ d t, attrs.flatMap attrText ++ c :: s = d :: t ∧ d ∈ endings := by
  cases attrs with
  | nil => exact ⟨c,s,rfl,ends⟩
  | cons => exact ⟨space,_,rfl,List.mem_cons_self⟩

variable {attrs : List (Text × Text)}

theorem attrGoes {node : Node} {attr : Text × Text} (read : ∀ other ∈ attr :: attrs, ReadAttr other)
    (more : attr ≠ ([], [])) (escaped : Escaped [quote] attr.2) (apart : attr.2 = [] → ∀ other ∈ attrs.head?, other.1 ≠ [])
    (ends : c ∈ endings) (none_ : cur (autoSkip (c :: s)) ≠ equals) :
    step ⟨stack,.attrs node,autoSkip ((attr :: attrs).flatMap attrText ++ c :: s)⟩ =
      .more ⟨stack,.attrs { node with attrs := node.attrs ++ [attr] },autoSkip (attrs.flatMap attrText ++ c :: s)⟩ := by
  obtain ⟨name,value⟩ := attr
  obtain ⟨inName,first,line,closes⟩ := read _ List.mem_cons_self
  rw [List.flatMap_cons,List.append_assoc,attrText]
  by_cases bare : value = []
  · subst bare
    obtain ⟨d,t,follows,listed⟩ := attrsFollow (s := s) attrs ends
    have stops : ∀ d ∈ endings, (ascii "=> \t\r\n").contains d = true := by decide +kernel
    rw [if_pos rfl,List.append_nil,follows]
    refine congrArg caught (attrBare inName first (fun none => more (congrArg (·, []) none)) (stops d listed) ?_)
    rw [← follows]
    cases attrs with
    | nil => exact none_
    | cons other =>
      have named := apart rfl other rfl
      obtain ⟨e,name',is⟩ := List.exists_cons_of_ne_nil named
      have inOther := (read other (List.mem_cons_of_mem _ List.mem_cons_self)).name e (is ▸ List.mem_cons_self)
      rw [List.flatMap_cons,attrText,is,List.append_assoc,List.append_assoc,List.cons_append,skipBlank rfl,List.cons_append,
        skipPlain (attrPlain inOther)]
      exact stopNot rfl inOther
  · rw [if_neg bare]
    have reads := attrRead stack node (attrs.flatMap attrText ++ c :: s) 1 0 inName first line escaped closes
    simp only [List.replicate_zero,List.nil_append,List.replicate_one,List.singleton_append] at reads
    simp only [List.cons_append,List.append_assoc,List.nil_append]
    exact congrArg caught reads

theorem attrsGo (node : Node) (read : ∀ attr ∈ attrs, ReadAttr attr) (plain : PlainAttrs attrs)
    (ends : c ∈ endings) (none_ : cur (autoSkip (c :: s)) ≠ equals) :
    Goes step (.more ⟨stack,.attrs node,autoSkip (attrs.flatMap attrText ++ c :: s)⟩)
      (.more ⟨stack,.attrs { node with attrs := node.attrs ++ attrs },autoSkip (c :: s)⟩) := by
  induction attrs generalizing node with
  | nil =>
    rw [List.append_nil]
    cases node
    exact goesSelf _
  | cons attr attrs ih =>
    obtain ⟨more,escaped,apart,rest⟩ := plain
    have onward := ih { node with attrs := node.attrs ++ [attr] } (fun attr mem => read attr (List.mem_cons_of_mem _ mem)) rest
    simp only [List.append_assoc,List.singleton_append] at onward
    exact goesOn (attrGoes read more escaped apart ends none_) onward

/- What comes behind the attributes of a node. -/
def innerText (indent : Nat) (name : Text) (nodes : List Node) (content : Text) : Text :=
  if content = [] ∧ nodes = [] then [space,slash,gt]
  else [gt] ++ (nodesText indent nodes ++ (content ++ ((if nodes ≠ [] then lf :: List.replicate indent space else []) ++ endText name)))

def bodyText (indent : Nat) (node : Node) : Text :=
  lt :: (node.name ++ (node.attrs.flatMap attrText ++ innerText indent node.name node.nodes node.content))

variable (indent : Nat)

theorem nodeTextIs (node : Node) : nodeText indent node = List.replicate indent space ++ bodyText indent node := by
  obtain ⟨name,attrs,nodes,content⟩ := node
  unfold nodeText beginText bodyText innerText
  rw [List.append_assoc,List.cons_append]

theorem nodesTextCons (node : Node) (nodes : List Node) :
    autoSkip (nodesText indent (node :: nodes) ++ s) = bodyText (indent + 1) node ++ (nodesText indent nodes ++ s) := by
  rw [nodesText,nodeTextIs,List.append_assoc,List.append_assoc,List.append_assoc,List.singleton_append,skipBlank rfl,skipIndent]
  exact skipPlain rfl

theorem innerFollows (name : Text) (nodes : List Node) (content : Text) :
    ∃ c t, innerText indent name nodes content ++ s = c :: t ∧ c ∈ endings ∧ cur (autoSkip (c :: t)) ≠ equals ∧
      (ascii " />\t\r\n").contains (cur (autoSkip (c :: t))) = true ∧ autoSkip (c :: t) ≠ [] := by
  unfold innerText
  split
  · refine ⟨space,slash :: gt :: s,rfl,List.mem_cons_self,?_⟩
    rw [skipBlank rfl,skipPlain rfl]
    exact ⟨(by decide : slash ≠ equals),rfl,List.cons_ne_nil _ _⟩
  · refine ⟨gt,_,rfl,List.mem_cons_of_mem _ List.mem_cons_self,?_⟩
    rw [skipPlain rfl]
    exact ⟨(by decide : gt ≠ equals),rfl,List.cons_ne_nil _ _⟩

theorem tagGoes (stack : List Node) {name : Text} (tag : ReadTag name attrs) (plain : PlainName name)
    (ends : c ∈ endings)
    (bare : (ascii " />\t\r\n").contains (cur (autoSkip (c :: s))) = true ∧ autoSkip (c :: s) ≠ []) :
    parseNode stack (lt :: (name ++ (attrs.flatMap attrText ++ c :: s))) =
        some (.more ⟨stack,.attrs { name },autoSkip (attrs.flatMap attrText ++ c :: s)⟩) ∧
      ∃ d t, name ++ (attrs.flatMap attrText ++ c :: s) = d :: t ∧ d ≠ slash ∧ d ≠ bang := by
  have stops : ∀ d ∈ endings, (ascii " />\t\r\n").contains d = true ∧ d ≠ query ∧ d ≠ bang ∧ d ≠ slash := by decide +kernel
  cases name with
  | nil =>
    obtain ⟨_,notPi,notBang,notEnd⟩ := stops c ends
    rw [tag.bare rfl,List.flatMap_nil,List.nil_append,List.nil_append]
    have read := getUntilHere bare.1 (autoNotBlank (c :: s)) bare.2
    exact ⟨tagOpens (rfl : [] ++ c :: s = c :: s) notPi notBang read,c,s,rfl,notEnd,notBang⟩
  | cons d name =>
    obtain ⟨e,t,follows,listed⟩ := attrsFollow (s := s) attrs ends
    rw [follows]
    exact ⟨tagOpens rfl plain.1 plain.2 (namedRead (List.cons_ne_nil d name) tag.name (stops e listed).1),d,_,rfl,
      stopNot rfl (tag.name d List.mem_cons_self),plain.2⟩

theorem contentGoes {name content : Text} {nodes : List Node}
    (inName : ∀ c ∈ name, (!(ascii " />\t\r\n").contains c) = true) (plain : PlainContent nodes content) :
    Goes step (.more ⟨stack,.nodes ⟨name,attrs,nodes,[]⟩,
      autoSkip (content ++ ((if nodes ≠ [] then lf :: List.replicate indent space else []) ++ (endText name ++ s)))⟩)
      (returnNode stack ⟨name,attrs,nodes,content⟩ (autoSkip s)) := by
  refine goesOn (congrArg caught (?_ : nodesStep _ _ _ = some _)) (goesSelf _)
  have bare := bareEnds stack ⟨name,attrs,nodes,[]⟩ s inName
  have ends : autoSkip (endText name ++ s) = endText name ++ s := by
    rw [endTextIs]
    exact skipPlain rfl
  by_cases none : content = []
  · rw [none,List.nil_append]
    have skipped : autoSkip ((if nodes ≠ [] then lf :: List.replicate indent space else []) ++ (endText name ++ s)) =
        endText name ++ s := by
      split
      · rw [List.cons_append,skipBlank rfl,skipIndent,ends]
      · exact ends
    rw [skipped]
    exact bare
  · obtain ⟨alone,inside,first⟩ := plain.resolve_left none
    rw [if_neg (not_not.mpr alone),List.nil_append]
    obtain ⟨d,rest,rfl⟩ := List.exists_cons_of_ne_nil none
    have first : isBlank d = false := first
    rw [List.cons_append,skipPlain first]
    exact contentEnds stack ⟨name,attrs,nodes,[]⟩ s inName none inside

theorem bodySplit (name content : Text) (attrs : List (Text × Text)) (nodes : List Node) :
    bodyText indent ⟨name,attrs,nodes,content⟩ ++ s =
      lt :: (name ++ (attrs.flatMap attrText ++ (innerText indent name nodes content ++ s))) := by
  simp only [bodyText,List.cons_append,List.append_assoc]

theorem subNodeGoes (node sub : Node) (read : Readable sub) (plain : PlainName sub.name) :
    step ⟨stack,.nodes node,bodyText indent sub ++ s⟩ = caught (parseNode (node :: stack) (bodyText indent sub ++ s)) := by
  obtain ⟨name,attrs,nodes,content⟩ := sub
  obtain ⟨c,t,follows,ends,_,stops,more⟩ := innerFollows (s := s) indent name nodes content
  obtain ⟨d,t',begins,notEnd,notBang⟩ := (tagGoes stack read.1 plain ends ⟨stops,more⟩).2
  rw [bodySplit,follows,begins]
  exact congrArg caught (subNodeBegins notEnd notBang)

/- A node from its first bracket on, and sub nodes in the loop of their parent. -/
mutual

theorem nodeGoes (indent : Nat) (node : Node) (stack : List Node) (s : Text) (read : Readable node) (plain : Printable node) :
    Goes step (caught (parseNode stack (bodyText indent node ++ s))) (returnNode stack node (autoSkip s)) := by
  obtain ⟨name,attrs,nodes,content⟩ := node
  obtain ⟨tag,readNodes⟩ := read
  obtain ⟨plainName,plainAttrs,plainContent,plainNodes⟩ := plain
  obtain ⟨c,t,follows,ends,apart,stops,more⟩ := innerFollows (s := s) indent name nodes content
  rw [bodySplit,follows,(tagGoes stack tag plainName ends ⟨stops,more⟩).1]
  refine (attrsGo { name } tag.attrs plainAttrs ends apart).then ?_
  rw [List.nil_append,← follows]
  unfold innerText
  split
  next empty =>
    rw [empty.1,empty.2]
    exact goesOn (congrArg caught emptyEnds) (goesSelf _)
  next =>
    rw [List.append_assoc,List.singleton_append]
    refine goesOn (congrArg caught tagEnds) ?_
    rw [List.append_assoc,List.append_assoc,List.append_assoc]
    refine (nodesGo indent nodes ⟨name,attrs,[],[]⟩ stack _ readNodes plainNodes).then ?_
    rw [List.nil_append]
    exact contentGoes indent tag.name plainContent

theorem nodesGo (indent : Nat) (nodes : List Node) (node : Node) (stack : List Node) (s : Text) (read : AllReadable nodes)
    (plain : AllPrintable nodes) : Goes step (.more ⟨stack,.nodes node,autoSkip (nodesText indent nodes ++ s)⟩)
      (.more ⟨stack,.nodes { node with nodes := node.nodes ++ nodes },autoSkip s⟩) := by
  cases nodes with
  | nil =>
    rw [List.append_nil]
    cases node
    exact goesSelf _
  | cons sub nodes =>
    obtain ⟨readSub,readNodes⟩ := read
    obtain ⟨plainSub,plainNodes⟩ := plain
    have sub_ := nodeGoes (indent + 1) sub (node :: stack) (nodesText indent nodes ++ s) readSub plainSub
    have onward := nodesGo indent nodes { node with nodes := node.nodes ++ [sub] } stack s readNodes plainNodes
    simp only [List.append_assoc,List.singleton_append] at onward
    rw [nodesTextCons]
    refine goesOn (subNodeGoes (indent + 1) node sub readSub ?_) (sub_.then onward)
    cases sub
    exact plainSub.1

end

end Rereading

end Pjproject.Xml
