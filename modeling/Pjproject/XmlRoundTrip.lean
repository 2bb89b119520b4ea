import Pjproject.XmlGauge

/-! The round trip of a tree that has been parsed: it is read again from its text exactly when the tree is plain. The brackets of the
text are as many as the tree is read from at least, so that none is left for anything else. -/
namespace Pjproject.Xml
open Multipart (Text ascii cur lf)
open Scan
open Lib.Progress (run Next)
open Lib.Outcome

section Texts
variable {name : Text} {attrs : List (Text × Text)} {node : Node} {nodes : List Node} {s t : Text}

theorem attrBrackets {attr : Text × Text} (read : ReadAttr attr) : brackets (attrText attr) = brackets attr.2 := by
  have named : brackets attr.1 = 0 := nameBrackets rfl read.name
  unfold attrText
  split
  next none =>
    rw [none,List.append_nil,bracketsCons,named]
    rfl
  next =>
    rw [List.cons_append,bracketsCons,bracketsAppend,named,List.cons_append,List.cons_append,bracketsCons,bracketsCons,
      bracketsAppend,if_neg (by decide),if_neg (by decide),if_neg (by decide)]
    have one : brackets [quote] = 0 := rfl
    omega

theorem attrsTextBrackets (read : ∀ attr ∈ attrs, ReadAttr attr) : brackets (attrs.flatMap attrText) = attrsBrackets attrs := by
  induction attrs with
  | nil => rfl
  | cons attr attrs ih =>
    rw [List.flatMap_cons,bracketsAppend,attrBrackets (read attr List.mem_cons_self),attrsBracketsCons,
      ih fun other mem => read other (List.mem_cons_of_mem _ mem)]

theorem quoteBrackets (s : Text) : brackets (quote :: s) = brackets s := bracketsCons quote s

theorem spaceBrackets (n : Nat) (s : Text) : brackets (List.replicate n space ++ s) = brackets s := by
  induction n with
  | zero => rfl
  | succ n ih => rw [List.replicate_succ,List.cons_append,bracketsCons,ih,if_neg (by decide),Nat.add_zero]

theorem tailBrackets (indent : Nat) (nodes : List Node) (inName : ∀ c ∈ name, (!(ascii " />\t\r\n").contains c) = true) :
    brackets ((if nodes ≠ [] then lf :: List.replicate indent space else []) ++ endText name) = 1 := by
  have named : brackets name = 0 := nameBrackets rfl inName
  have last : brackets (endText name) = 1 := by
    unfold endText
    rw [List.cons_append,List.cons_append,bracketsCons,bracketsCons,bracketsAppend,named,if_neg (by decide),if_neg (by decide)]
    rfl
  split
  · rw [List.cons_append,bracketsCons,spaceBrackets,last,if_neg (by decide)]
  · exact last

/- The text of a node has no bracket but those that it is read from. -/
mutual

theorem bodyBrackets (indent : Nat) (node : Node) (read : Readable node) : brackets (bodyText indent node) = nodeBrackets node := by
  obtain ⟨name,attrs,nodes,content⟩ := node
  obtain ⟨tag,readNodes⟩ := read
  have named : brackets name = 0 := nameBrackets rfl tag.name
  have opens : ¬lt = gt := by decide
  unfold bodyText nodeBrackets innerText
  dsimp only
  rw [bracketsCons,bracketsAppend,bracketsAppend,named,attrsTextBrackets tag.attrs,if_neg opens]
  by_cases empty : content = [] ∧ nodes = []
  · rw [if_pos empty,if_pos empty,empty.2,nodesBrackets]
    have one : brackets [space,slash,gt] = 1 := rfl
    omega
  · rw [if_neg empty,if_neg empty,bracketsAppend,bracketsAppend,bracketsAppend,tailBrackets indent nodes tag.name,
      nodesTextBrackets indent nodes readNodes]
    have one : brackets [gt] = 1 := rfl
    omega

theorem nodesTextBrackets (indent : Nat) (nodes : List Node) (read : AllReadable nodes) :
    brackets (nodesText indent nodes) = nodesBrackets nodes := by
  cases nodes with
  | nil => rfl
  | cons node nodes =>
    unfold nodesText nodesBrackets
    rw [bracketsAppend,bracketsAppend,nodeTextIs,spaceBrackets,bodyBrackets (indent + 1) node read.1,
      nodesTextBrackets indent nodes read.2]
    exact Nat.zero_add _

end

theorem attrsTextSolid (attrs : List (Text × Text)) :
    solid (attrs.flatMap attrText) + (if ([], []) ∈ attrs then 3 else 0) ≤ attrsLeast attrs := by
  induction attrs with
  | nil => exact Nat.le_refl _
  | cons attr attrs =>
    rw [List.flatMap_cons,solidAppend,attrsLeastCons,attrLeast]
    by_cases here : attr = ([], [])
    · rw [if_pos (List.mem_cons.mpr (.inl here.symm)),if_pos here]
      omega
    · have there : ([], []) ∈ attr :: attrs ↔ ([], []) ∈ attrs := by
        rw [List.mem_cons]
        exact or_iff_right fun is => here is.symm
      rw [if_neg here]
      simp only [there]
      omega

theorem skipBrackets (s : Text) : brackets (autoSkip s) = brackets s := by
  rw [takesBrackets (skipTakes s)]
  exact (Nat.zero_add _).symm

theorem skipSolid (s : Text) : solid (autoSkip s) = solid s := by
  rw [takesSolid (skipTakes s)]
  exact (Nat.zero_add _).symm

end Texts

section Must
variable {tree whole node : Node} {stack : List Node} {name : Text} {attrs post : List (Text × Text)} {c : UInt8}
  {s t : Text}

/- Before the bracket that ends a tag there is at most a slash. -/
structure TagEnd (s : Text) : Prop where
  bracket : ∃ front t, s = front ++ gt :: t ∧ brackets front = 0 ∧ solid front ≤ 1

theorem innerEnd (indent : Nat) (name : Text) (nodes : List Node) (content s : Text) :
    TagEnd (innerText indent name nodes content ++ s) := by
  unfold innerText
  split
  · exact ⟨[space,slash],s,rfl,rfl,Nat.le_refl 1⟩
  · exact ⟨[],_,rfl,rfl,Nat.zero_le 1⟩

theorem endNear {u text : Text} (ends : TagEnd s) (one : s <:+ text) (other : u <:+ text) (same : brackets u = brackets s) :
    solid s ≤ solid u + 1 := by
  obtain ⟨front,t,rfl,none,few⟩ := ends.bracket
  have behind : gt :: t <:+ text := (List.suffix_append front _).trans one
  have counts : brackets (front ++ gt :: t) = brackets t + 1 := by
    rw [bracketsAppend,bracketsCons,none,if_pos rfl,Nat.zero_add]
  have solids : solid (front ++ gt :: t) = solid front + (solid t + 1) := by rw [solidAppend,solidPlain rfl]
  rcases List.suffix_or_suffix_of_suffix other behind with within | beyond
  · rcases List.suffix_cons_iff.mp within with rfl | further
    · have last : solid (gt :: t) = solid t + 1 := solidPlain rfl
      omega
    · have less := suffixBrackets further
      omega
  · have more : solid (gt :: t) ≤ solid u := beyond.sublist.countP_le
    have last : solid (gt :: t) = solid t + 1 := solidPlain rfl
    omega

theorem attrsShort {u : Text} (yields : Yields step (.more ⟨stack,.attrs node,autoSkip u⟩) (some tree)) (aims : Aims tree stack whole)
    (is : whole.attrs = node.attrs ++ post) {text : Text} (ends : TagEnd s) (within : u <:+ text) (behind : s <:+ text)
    (counts : brackets u = attrsBrackets post + brackets s) (short : solid u + 2 ≤ attrsLeast post + solid s) : False := by
  obtain ⟨whole',aims',_,attrs,v,is',further,_,counted,enough⟩ := yieldedLeads yields (autoNotBlank _)
  obtain rfl := aimsOnce aims aims'
  obtain rfl := List.append_cancel_left (is.symm.trans is')
  rw [skipBrackets] at counted
  rw [skipSolid] at enough
  have near := endNear ends behind (further.trans ((autoSuffix u).trans within)) (by omega)
  omega

theorem attrAgrees {attr other : Text × Text} {u : Text}
    (yields : Yields step (.more ⟨stack,.attrs { node with attrs := node.attrs ++ [other] },autoSkip u⟩) (some tree))
    (aims : Aims tree stack whole) (is : whole.attrs = node.attrs ++ attr :: post) : other = attr := by
  obtain ⟨whole',aims',_,attrs,_,is',_⟩ := yieldedLeads yields (autoNotBlank _)
  obtain rfl := aimsOnce aims aims'
  have same := is.symm.trans is'
  rw [List.append_assoc] at same
  exact (List.cons.inj (List.append_cancel_left same)).1.symm

theorem readsValue {value : Text} (m n : Nat) (inName : ∀ c ∈ name, (!(ascii "=> \t\r\n").contains c) = true)
    (first : cur name ≠ slash) (line : lf ∉ value) (escaped : Escaped [quote] value) (closes : slashes value.reverse % 2 = 0) :
    step ⟨stack,.attrs node,autoSkip (List.replicate m space ++ (name ++ (List.replicate n space ++
      equals :: quote :: (value ++ quote :: s))))⟩ =
        .more ⟨stack,.attrs { node with attrs := node.attrs ++ [(name, value)] },autoSkip s⟩ :=
  congrArg caught (attrRead stack node s m n inName first line escaped closes)

theorem readsEarly (stack : List Node) (node : Node) (s : Text) {value : Text} (m n : Nat)
    (inName : ∀ c ∈ name, (!(ascii "=> \t\r\n").contains c) = true)
    (first : cur name ≠ slash) (line : lf ∉ value) (bad : ¬Escaped [quote] value) :
    ∃ front back, value = front ++ quote :: back ∧
      step ⟨stack,.attrs node,autoSkip (List.replicate m space ++ (name ++ (List.replicate n space ++
        equals :: quote :: (value ++ s))))⟩ =
          .more ⟨stack,.attrs { node with attrs := node.attrs ++ [(name, front)] },autoSkip (back ++ s)⟩ := by
  obtain ⟨front,back,rfl,escaped,closes⟩ := endsEarly [quote] bad
  rw [slashesQuoted] at closes
  refine ⟨front,back,rfl,?_⟩
  have inFront : lf ∉ front := fun mem => line (List.mem_append_left _ mem)
  rw [List.append_assoc,List.cons_append]
  exact readsValue m n inName first inFront escaped closes

theorem attrsMust (node : Node) (post : List (Text × Text)) (read : ∀ attr ∈ post, ReadAttr attr) (ends : c ∈ endings)
    (none_ : cur (autoSkip (c :: t)) ≠ equals) (tag : TagEnd (c :: t))
    (yields : Yields step (.more ⟨stack,.attrs node,autoSkip (post.flatMap attrText ++ c :: t)⟩) (some tree))
    (aims : Aims tree stack whole) (is : whole.attrs = node.attrs ++ post) : PlainAttrs post := by
  induction post generalizing node with
  | nil => trivial
  | cons attr post ih =>
    have some_ : ([], []) ∉ attr :: post := by
      intro empty
      have solids := attrsTextSolid (attr :: post)
      rw [if_pos empty] at solids
      refine attrsShort yields aims is tag List.suffix_rfl (List.suffix_append _ _) ?_ ?_
      · rw [bracketsAppend,attrsTextBrackets read]
      · rw [solidAppend]
        omega
    obtain ⟨inName,first,line,_⟩ := read attr List.mem_cons_self
    have readPost := fun other mem => read other (List.mem_cons_of_mem attr mem)
    have escaped : Escaped [quote] attr.2 := by
      refine Classical.byContradiction fun bad => ?_
      obtain ⟨front,back,split,goes⟩ := readsEarly stack node (quote :: (post.flatMap attrText ++ c :: t)) 1 0 inName first
        line bad
      have value : attr.2 ≠ [] := by
        rw [split]
        simp
      have text : (attr :: post).flatMap attrText ++ c :: t = List.replicate 1 space ++ (attr.1 ++ (List.replicate 0 space ++
          equals :: quote :: (attr.2 ++ quote :: (post.flatMap attrText ++ c :: t)))) := by
        simp [attrText,value]
      rw [text,yieldsStep,goes] at yields
      have agrees := congrArg (fun attr => attr.2.length) (attrAgrees yields aims is)
      rw [split] at agrees
      simp at agrees
    have apart : attr.2 = [] → ∀ other ∈ post.head?, other.1 ≠ [] := by
      intro bare other next named
      obtain ⟨rest,rfl⟩ : ∃ rest, post = other :: rest := by
        cases post with
        | nil => cases next
        | cons _ rest => exact ⟨rest,congrArg (· :: rest) (Option.some.inj next)⟩
      obtain ⟨_,_,otherLine,closes⟩ := readPost other List.mem_cons_self
      have value : other.2 ≠ [] := fun none =>
        some_ (List.mem_cons_of_mem _ (List.mem_cons.mpr (.inl (Prod.ext named none).symm)))
      have text : (attr :: other :: rest).flatMap attrText ++ c :: t = List.replicate 1 space ++ (attr.1 ++ (List.replicate 1 space ++
          equals :: quote :: (other.2 ++ quote :: (rest.flatMap attrText ++ c :: t)))) := by
        simp [attrText,value,bare,named]
      rw [text,yieldsStep] at yields
      by_cases fine : Escaped [quote] other.2
      · rw [readsValue 1 1 inName first otherLine fine closes] at yields
        exact value ((congrArg Prod.snd (attrAgrees yields aims is)).trans bare)
      · obtain ⟨front,back,split,goes⟩ := readsEarly stack node (quote :: (rest.flatMap attrText ++ c :: t)) 1 1 inName first
          otherLine fine
        rw [goes] at yields
        have same := attrAgrees yields aims is
        have empty : front = [] := (congrArg Prod.snd same).trans bare
        rw [empty,List.nil_append] at split
        have solids := attrsTextSolid rest
        have least : solid back + 4 ≤ attrLeast other := by
          unfold attrLeast attrText
          rw [if_neg value,named,split,solidAppend,solidBlank rfl,List.cons_append,List.cons_append,List.cons_append,
            solidPlain rfl,solidPlain rfl,solidPlain rfl,solidAppend,solidPlain rfl]
          change _ ≤ 0 + (solid back + (0 + 1) + 1 + 1 + 1) + _
          omega
        have ahead : whole.attrs = node.attrs ++ [(attr.1, front)] ++ other :: rest := by
          rw [is,same,List.append_assoc,List.singleton_append]
        refine attrsShort yields aims ahead tag List.suffix_rfl ?_ ?_ ?_
        · exact ((List.suffix_append _ _).trans (List.suffix_cons quote _)).trans (List.suffix_append _ _)
        · have readRest := fun attr mem => readPost attr (List.mem_cons_of_mem other mem)
          rw [bracketsAppend,quoteBrackets,bracketsAppend,attrsTextBrackets readRest,attrsBracketsCons,split,quoteBrackets,
            Nat.add_assoc]
        · rw [solidAppend,solidPlain rfl,solidAppend,attrsLeastCons]
          omega
    have more : attr ≠ ([], []) := fun is => some_ (List.mem_cons.mpr (.inl is.symm))
    refine ⟨more,escaped,apart,ih { node with attrs := node.attrs ++ [attr] } readPost ?_ ?_⟩
    · rwa [yieldsStep,attrGoes read more escaped apart ends none_] at yields
    · rw [is,List.append_assoc,List.singleton_append]

theorem readBack {content rest : Text} (some_ : content ≠ [])
    (is : content = (autoSkip (content ++ rest)).takeWhile (fun c => !([lt] : Text).contains c)) :
    lt ∉ content ∧ isBlank (cur content) = false ∧ rest.takeWhile (fun c => !([lt] : Text).contains c) = [] := by
  have plain := autoNotBlank (content ++ rest)
  have first : isBlank (cur content) = false := by
    obtain ⟨d,front,split⟩ := List.exists_cons_of_ne_nil some_
    cases behind : autoSkip (content ++ rest) with
    | nil =>
      rw [behind] at is
      exact absurd is some_
    | cons =>
      rw [behind] at is plain
      rw [split,List.takeWhile_cons] at is
      split at is
      · rw [split,(List.cons.inj is).1]
        exact plain
      · exact nomatch is
  obtain ⟨d,front,split⟩ := List.exists_cons_of_ne_nil some_
  have stays : autoSkip (content ++ rest) = content ++ rest := by
    rw [split] at first ⊢
    exact autoStays first
  have before : ∀ c ∈ content, (!([lt] : Text).contains c) = true := by
    intro c mem
    rw [is] at mem
    exact List.all_eq_true.mp List.all_takeWhile c mem
  rw [stays,List.takeWhile_append_of_pos before] at is
  exact ⟨fun mem => absurd (before lt mem) (by decide),first,(List.append_right_eq_self.mp is.symm)⟩

theorem contentMust {nodes : List Node} {content : Text} (indent : Nat)
    (yields : Yields step (.more ⟨stack,.nodes ⟨name,attrs,nodes,[]⟩,
      autoSkip (content ++ ((if nodes ≠ [] then lf :: List.replicate indent space else []) ++ (endText name ++ s)))⟩) (some tree))
    (aims : Aims tree stack ⟨name,attrs,nodes,content⟩)
    (tight : held stack + begun ⟨name,attrs,nodes,[]⟩ + 1 +
      brackets (content ++ ((if nodes ≠ [] then lf :: List.replicate indent space else []) ++ (endText name ++ s))) ≤
        nodeBrackets tree) : PlainContent nodes content := by
  by_cases empty : content = []
  · exact .inl empty
  refine .inr ?_
  generalize restIs : (if nodes ≠ [] then lf :: List.replicate indent space else []) ++ (endText name ++ s) = rest at *
  rw [yieldsStep] at yields
  cases gives : nodesStep stack ⟨name,attrs,nodes,[]⟩ (autoSkip (content ++ rest)) with
  | none =>
    rw [show step ⟨stack,.nodes ⟨name,attrs,nodes,[]⟩,autoSkip (content ++ rest)⟩ = .done none from congrArg caught gives] at yields
    exact nomatch yieldsDone.mp yields
  | some x =>
    rw [show step ⟨stack,.nodes ⟨name,attrs,nodes,[]⟩,autoSkip (content ++ rest)⟩ = x from congrArg caught gives] at yields
    cases nodesSource gives with
    | sub calls =>
      obtain ⟨sub,whole,aims',_,_,within⟩ := callsAim (parseNodeSource calls) (yieldedLeads yields)
      obtain rfl := aimsOnce aims aims'
      have longer := within.length_le
      rw [List.length_append] at longer
      exact absurd longer (Nat.not_succ_le_self _)
    | cdata contents within =>
      have lost := cdataWeighs contents within (yieldedWeighs yields)
      rw [skipBrackets] at lost
      omega
    | ends contents closes =>
      have same := aimsOnce aims (closeAims closes (yieldedLeads yields))
      cases contents with
      | none => exact absurd (congrArg Node.content same) empty
      | some _ is =>
        obtain ⟨inside,first,behind⟩ := readBack empty ((congrArg Node.content same).trans is)
        refine ⟨not_not.mp fun below => ?_,inside,first⟩
        rw [if_pos below] at restIs
        rw [← restIs,List.cons_append,List.takeWhile_cons_of_pos (by decide)] at behind
        exact nomatch behind

theorem nameMust {rest : Text} (yields : Yields step (caught (parseNode stack (lt :: (name ++ rest)))) (some tree))
    (tight : held stack + brackets (lt :: (name ++ rest)) ≤ nodeBrackets tree) : PlainName name := by
  cases gives : parseNode stack (lt :: (name ++ rest)) with
  | none =>
    rw [gives] at yields
    exact nomatch yieldsDone.mp yields
  | some =>
    rw [gives] at yields
    have apart (other : second (lt :: (name ++ rest)) = query ∨ second (lt :: (name ++ rest)) = bang) : False := by
      have lost := callsLose (parseNodeSource gives) other (yieldedWeighs yields)
      omega
    cases name with
    | nil => exact ⟨(by decide : (0 : UInt8) ≠ query),(by decide : (0 : UInt8) ≠ bang)⟩
    | cons => exact ⟨fun is => apart (.inl is),fun is => apart (.inr is)⟩

theorem subMust {sub : Node} {nodes : List Node} {text : Text} (yields : Yields step (.more ⟨stack,.nodes node,text⟩) (some tree))
    (aims : Aims tree stack whole) (is : whole.nodes = node.nodes ++ sub :: nodes)
    (tight : held stack + begun node + 1 + brackets text ≤ nodeBrackets tree) :
    Aims tree (node :: stack) sub ∧ Yields step (caught (parseNode (node :: stack) text)) (some tree) := by
  obtain ⟨whole',aims',name,attrs,_⟩ := yieldedLeads yields
  obtain rfl := aimsOnce aims aims'
  rw [yieldsStep] at yields
  cases gives : nodesStep stack node text with
  | none =>
    rw [show step ⟨stack,.nodes node,text⟩ = .done none from congrArg caught gives] at yields
    exact nomatch yieldsDone.mp yields
  | some x =>
    rw [show step ⟨stack,.nodes node,text⟩ = x from congrArg caught gives] at yields
    cases nodesSource gives with
    | sub calls =>
      refine ⟨⟨whole,aims,name,attrs,nodes,?_⟩,?_⟩
      · rw [is,List.append_assoc,List.singleton_append]
      · rwa [calls]
    | cdata contents within =>
      have lost := cdataWeighs contents within (yieldedWeighs yields)
      omega
    | ends contents closes =>
      obtain rfl := aimsOnce aims (closeAims closes (yieldedLeads yields))
      have longer : (node.nodes ++ sub :: nodes).length = node.nodes.length := by
        rw [← is]
        cases contents <;> rfl
      rw [List.length_append,List.length_cons] at longer
      omega

mutual

theorem nodeMust {tree : Node} (indent : Nat) (node : Node) (stack : List Node) (s : Text) (read : Readable node)
    (yields : Yields step (caught (parseNode stack (bodyText indent node ++ s))) (some tree)) (aims : Aims tree stack node)
    (tight : held stack + nodeBrackets node + brackets s ≤ nodeBrackets tree) : Printable node := by
  have counts := bodyBrackets indent node read
  obtain ⟨name,attrs,nodes,content⟩ := node
  obtain ⟨tag,readNodes⟩ := read
  have whole : held stack + brackets (bodyText indent ⟨name,attrs,nodes,content⟩ ++ s) ≤ nodeBrackets tree := by
    rw [bracketsAppend,counts]
    omega
  rw [bodySplit] at yields whole
  have plainName := nameMust yields whole
  obtain ⟨c,t,follows,ends,apart,stops,more⟩ := innerFollows (s := s) indent name nodes content
  have tagEnd := innerEnd indent name nodes content s
  rw [follows] at tagEnd yields
  rw [(tagGoes stack tag plainName ends ⟨stops,more⟩).1] at yields
  have plainAttrs := attrsMust { name } attrs tag.attrs ends apart tagEnd yields aims rfl
  have behind := (goesYields (attrsGo { name } tag.attrs plainAttrs ends apart)).mp yields
  rw [List.nil_append,← follows] at behind
  by_cases empty : content = [] ∧ nodes = []
  · rw [empty.1,empty.2]
    exact ⟨plainName,plainAttrs,.inl rfl,trivial⟩
  · obtain ⟨rest,restIs⟩ : ∃ rest, content ++ ((if nodes ≠ [] then lf :: List.replicate indent space else []) ++ (endText name ++ s)) =
        rest := ⟨_,rfl⟩
    have text : innerText indent name nodes content ++ s = gt :: (nodesText indent nodes ++ rest) := by
      unfold innerText
      rw [if_neg empty,List.singleton_append,List.cons_append,List.append_assoc,List.append_assoc,List.append_assoc,restIs]
    have opened := yieldsStep.mp (text ▸ behind)
    rw [show step ⟨stack,.attrs ⟨name,attrs,[],[]⟩,autoSkip (gt :: _)⟩ = _ from congrArg caught tagEnds] at opened
    have ended : brackets rest = brackets content + (1 + brackets s) := by
      rw [← restIs,bracketsAppend,← List.append_assoc,bracketsAppend,tailBrackets indent nodes tag.name]
    have weight : nodeBrackets ⟨name,attrs,nodes,content⟩ = attrsBrackets attrs + nodesBrackets nodes + (brackets content + 2) := by
      rw [nodeBrackets,if_neg empty]
    have first : begun ⟨name,attrs,[],[]⟩ = attrsBrackets attrs := rfl
    have last : begun ⟨name,attrs,nodes,[]⟩ = attrsBrackets attrs + nodesBrackets nodes := rfl
    have plainNodes := nodesMust indent nodes ⟨name,attrs,[],[]⟩ stack rest readNodes opened aims rfl (by omega)
    have closing : Yields step (.more ⟨stack,.nodes ⟨name,attrs,nodes,[]⟩,autoSkip rest⟩) (some tree) :=
      (goesYields (nodesGo indent nodes ⟨name,attrs,[],[]⟩ stack rest readNodes plainNodes)).mp opened
    rw [← restIs] at closing ended
    exact ⟨plainName,plainAttrs,contentMust indent closing aims (by omega),plainNodes⟩

theorem nodesMust {tree whole : Node} (indent : Nat) (nodes : List Node) (node : Node) (stack : List Node) (s : Text)
    (read : AllReadable nodes)
    (yields : Yields step (.more ⟨stack,.nodes node,autoSkip (nodesText indent nodes ++ s)⟩) (some tree))
    (aims : Aims tree stack whole) (is : whole.nodes = node.nodes ++ nodes)
    (tight : held stack + begun node + 1 + nodesBrackets nodes + brackets s ≤ nodeBrackets tree) : AllPrintable nodes := by
  cases nodes with
  | nil => trivial
  | cons sub nodes =>
    obtain ⟨readSub,readNodes⟩ := read
    rw [nodesTextCons] at yields
    rw [nodesBrackets] at tight
    have room : held stack + begun node + 1 + brackets (bodyText (indent + 1) sub ++ (nodesText indent nodes ++ s)) ≤
        nodeBrackets tree := by
      rw [bracketsAppend,bracketsAppend,bodyBrackets (indent + 1) sub readSub,nodesTextBrackets indent nodes readNodes]
      omega
    obtain ⟨aimsSub,calls⟩ := subMust yields aims is room
    have waits : held (node :: stack) = begun node + 1 + held stack := rfl
    have plainSub := nodeMust (indent + 1) sub (node :: stack) (nodesText indent nodes ++ s) readSub calls aimsSub (by
      rw [bracketsAppend,nodesTextBrackets indent nodes readNodes]
      omega)
    rw [goesYields (nodeGoes (indent + 1) sub (node :: stack) (nodesText indent nodes ++ s) readSub plainSub)] at calls
    refine ⟨plainSub,nodesMust indent nodes { node with nodes := node.nodes ++ [sub] } stack s readNodes calls aims ?_ ?_⟩
    · rw [is,List.append_assoc,List.singleton_append]
    · unfold begun at tight ⊢
      dsimp only
      rw [nodesBracketsAppend]
      omega

end

end Must

section Documents
variable {node : Node} {msg s : Text}

theorem parseYields {r : Option Node} : parse msg = .done r ↔ Yields step (start msg) r := by
  refine ⟨fun ended => ⟨msg.length + 1,ended⟩,fun yields => ?_⟩
  have live : ∀ s, Lib.Progress.Reaches step (start msg) s → ¬Stalls s := fun s reached stalls =>
    Lib.Progress.stuckBlocks reached (stallStays reached stalls) (yields.imp fun n ended => ⟨r,ended⟩)
  obtain ⟨r',ended⟩ := parseEnds live
  rw [ended,yieldsOnce yields ⟨msg.length + 1,ended⟩]

theorem startOf {c : UInt8} (plain : isBlank c = false) : start (c :: s) = caught (parseNode [] (c :: s)) := by
  unfold start
  have stays : skipWhitespace (c :: s) = c :: s := by
    rw [skipIsDrop,List.dropWhile_cons_of_neg (Bool.eq_false_iff.mp plain)]
  rw [if_neg (List.cons_ne_nil c s),stays]

def prologName : Text := ascii "xml version=\"1.0\" encoding=\"UTF-8\""

theorem prologIs : prologText = lt :: query :: (prologName ++ [query,gt,lf]) := by decide

theorem prologGoes (s : Text) : Goes step (start (prologText ++ s)) (caught (parseNode [] (autoSkip s))) := by
  have text : prologText ++ s = lt :: query :: (prologName ++ query :: gt :: lf :: s) := by
    rw [prologIs,List.cons_append,List.cons_append,List.append_assoc]
    rfl
  have before : ∀ c ∈ prologName, (!([query] : Text).contains c) = true := by decide +kernel
  have found := (getUntilStop (s := gt :: lf :: s) before (rfl : ([query] : Text).contains query = true)).trans (by rw [skipPlain rfl])
  have behind : second (query :: gt :: lf :: s) = gt := rfl
  have calls : parseNode [] (lt :: query :: (prologName ++ query :: gt :: lf :: s)) =
      some (.more ⟨[],.pi,prologName ++ query :: gt :: lf :: s⟩) := rfl
  have passed : advance 2 true (query :: gt :: lf :: s) = some (autoSkip s) := by
    unfold advance
    rw [if_neg (by simp),if_pos rfl]
    exact congrArg some (skipBlank rfl)
  have next : piStep [] (prologName ++ query :: gt :: lf :: s) = parseNode [] (autoSkip s) := by
    simp only [piStep,found,curCons,behind,passed,and_self,↓reduceIte,Option.bind_eq_bind,Option.bind_some]
  rw [text,startOf rfl,calls]
  exact goesOn (congrArg caught next) (goesSelf _)

theorem documentGoes (node : Node) (includeProlog : Bool) :
    Goes step (start (document node includeProlog)) (caught (parseNode [] (bodyText 0 node ++ [lf]))) := by
  have text : document node includeProlog = prologOf includeProlog ++ (bodyText 0 node ++ [lf]) := by
    rw [document,printedText,nodeTextIs,List.append_assoc]
    rfl
  have body : autoSkip (bodyText 0 node ++ [lf]) = bodyText 0 node ++ [lf] := skipPlain rfl
  rw [text]
  cases includeProlog with
  | true =>
    have goes := prologGoes (bodyText 0 node ++ [lf])
    rwa [body] at goes
  | false =>
    have begins : start (bodyText 0 node ++ [lf]) = caught (parseNode [] (bodyText 0 node ++ [lf])) := startOf rfl
    exact begins ▸ goesSelf _

theorem rereadIff (read : Readable node) (includeProlog : Bool) :
    parse (document node includeProlog) = .done (some node) ↔ Printable node := by
  rw [parseYields,goesYields (documentGoes node includeProlog)]
  constructor
  · intro yields
    exact nodeMust 0 node [] [lf] read yields rfl (Nat.zero_add _).le
  · intro plain
    exact (goesYields (nodeGoes 0 node [] [lf] read plain)).mpr (yieldsDone.mpr rfl)

theorem largePrinted {len : UInt64} {includeProlog : Bool} (more : (document node includeProlog).length < len.toNat)
    (small : len.toNat < 2 ^ 31) : xmlPrint node len includeProlog =
      (((document node includeProlog).length : Int), begin_.put (document node includeProlog)) := by
  have length := documentLength node includeProlog
  have spare := spareLess node
  have int : Lib.BoundedPrint.toInt len.toNat = len.toNat := Lib.BoundedPrint.toIntSmall small
  have cast : ((printedText node includeProlog).length : Int) + 1 = (document node includeProlog).length := by omega
  have short : (document node includeProlog).length < 2 ^ 31 := by omega
  rw [printedWhole (by omega),if_pos (by omega),cast,Lib.BoundedPrint.toIntSmall short]

/- Printed into a buffer that is large enough, and read again. -/
theorem roundTripsExactly {msg : Text} {node : Node} (read : parse msg = .done (some node)) (includeProlog : Bool) :
    (∀ len : UInt64, (document node includeProlog).length < len.toNat → len.toNat < 2 ^ 31 →
      xmlPrint node len includeProlog = (((document node includeProlog).length : Int), begin_.put (document node includeProlog))) ∧
    (parse (document node includeProlog) = .done (some node) ↔ Printable node) :=
  ⟨fun _ more small => largePrinted more small,rereadIff (yieldedReadable (parseYields.mp read)) includeProlog⟩

theorem singleQuotesRead : parse (ascii "<a b='c'>d</a>") = .done (some ⟨ascii "a",[(ascii "b", ascii "c")],[],ascii "d"⟩) :=
  parseYields.mpr ⟨3,rfl⟩

theorem plainRereads : parse (document ⟨ascii "a",[(ascii "b", ascii "c")],[],ascii "d"⟩ true) =
    .done (some ⟨ascii "a",[(ascii "b", ascii "c")],[],ascii "d"⟩) :=
  (roundTripsExactly singleQuotesRead true).2.mpr
    ⟨⟨by decide,by decide⟩,⟨by decide,⟨by decide,trivial⟩,(fun none => nomatch none),trivial⟩,.inr ⟨rfl,by decide,rfl⟩,trivial⟩

/- A quote between single quotes, a bracket in a section, and contents behind a sub node. -/
theorem notPrinted :
    (parse (ascii "<a b='\"'/>") = .done (some ⟨ascii "a",[(ascii "b", [quote])],[],[]⟩) ∧
      xmlPrint ⟨ascii "a",[(ascii "b", [quote])],[],[]⟩ 100 false =
        (12, begin_.put (document ⟨ascii "a",[(ascii "b", [quote])],[],[]⟩ false)) ∧
      parse (document ⟨ascii "a",[(ascii "b", [quote])],[],[]⟩ false) =
        .done (some ⟨ascii "a",[(ascii "b", []),([quote], [])],[],[]⟩)) ∧
    (parse (ascii "<a><![CDATA[<]]></a>") = .done (some ⟨ascii "a",[],[],[lt]⟩) ∧
      parse (document ⟨ascii "a",[],[],[lt]⟩ false) = .done none) ∧
    (parse (ascii "<a><b/>c</a>") = .done (some ⟨ascii "a",[],[⟨ascii "b",[],[],[]⟩],ascii "c"⟩) ∧
      parse (document ⟨ascii "a",[],[⟨ascii "b",[],[],[]⟩],ascii "c"⟩ false) =
        .done (some ⟨ascii "a",[],[⟨ascii "b",[],[],[]⟩],ascii "c\n"⟩)) := by
  refine ⟨⟨?_,?_,?_⟩,⟨?_,?_⟩,⟨?_,?_⟩⟩
  · exact parseYields.mpr ⟨2,rfl⟩
  · exact @largePrinted ⟨ascii "a",[(ascii "b", [quote])],[],[]⟩ 100 false (by decide) (by decide)
  · exact parseYields.mpr ⟨3,rfl⟩
  · exact parseYields.mpr ⟨3,rfl⟩
  · exact parseYields.mpr ⟨3,rfl⟩
  · exact parseYields.mpr ⟨4,rfl⟩
  · exact parseYields.mpr ⟨4,rfl⟩

end Documents

end Pjproject.Xml
