import Pjproject.XmlSteps

/-! What the states of a parse have in common with the tree that it yields: what is on the stack is the beginning of its nodes on one
path, and the brackets that are still to come are enough for the rest of it. -/
namespace Pjproject.Xml
open Multipart (Text ascii cur lf)
open Scan
open Lib.Progress (run Next)
open Lib.Outcome

section Reading

def Tagged (node : Node) : Prop := ReadTag node.name node.attrs ∧ AllReadable node.nodes

def Sound : Parse → Prop
  | .done r => ∀ node, r = some node → Readable node
  | .more ⟨stack,loop,rest⟩ => (∀ parent ∈ stack, Tagged parent) ∧
    match loop with
    | .attrs node => Tagged node ∧ (node.name = [] → cur rest = gt ∨ cur rest = slash)
    | .nodes node | .cdata node _ => Tagged node
    | .pi | .comment => True

variable {stack : List Node} {node : Node} {s t : Text} {x : Parse}

theorem readableTagged : Readable node ↔ Tagged node := by
  cases node
  exact Iff.rfl

theorem allReadableAppend {nodes : List Node} (all : AllReadable nodes) (last : Readable node) : AllReadable (nodes ++ [node]) := by
  induction nodes with
  | nil => exact ⟨last,trivial⟩
  | cons first nodes ih => exact ⟨all.1,ih all.2⟩

theorem callsSound (parents : ∀ parent ∈ stack, Tagged parent) (calls : Calls stack s x) : Sound x := by
  cases calls with
  | pi | comment => exact ⟨parents,trivial⟩
  | tag _ inName bare _ _ => exact ⟨parents,⟨⟨inName,fun _ => rfl,fun _ none => nomatch none⟩,trivial⟩,bare⟩

theorem returnSound (parents : ∀ parent ∈ stack, Tagged parent) (tagged : Tagged node) : Sound (returnNode stack node t) := by
  cases stack with
  | nil =>
    intro node' is
    obtain rfl := Option.some.inj is
    exact readableTagged.mpr tagged
  | cons parent =>
    obtain ⟨tag,nodes⟩ := parents parent List.mem_cons_self
    exact ⟨fun parent mem => parents parent (List.mem_cons_of_mem _ mem),tag,
      allReadableAppend nodes (readableTagged.mpr tagged)⟩

theorem closeSound (parents : ∀ parent ∈ stack, Tagged parent) (closes : closeNode stack node s = some x) (tagged : Tagged node) :
    Sound x := by
  obtain ⟨t,rfl,_⟩ := closeNodeSource closes
  exact returnSound parents tagged

theorem tagMore {name : Text} {attrs : List (Text × Text)} {attr : Text × Text} (tag : ReadTag name attrs) (read : ReadAttr attr)
    (named : name ≠ []) : ReadTag name (attrs ++ [attr]) := by
  refine ⟨tag.name,fun none => absurd none named,fun other mem => ?_⟩
  rcases List.mem_append.mp mem with before | last
  · exact tag.attrs other before
  · exact List.mem_singleton.mp last ▸ read

theorem stepSound (state : State) (sound : Sound (.more state)) : Sound (step state) := by
  obtain ⟨stack,loop,rest⟩ := state
  obtain ⟨parents,here⟩ := sound
  refine caughtSource (fun _ none => nomatch none) fun x gives => ?_
  cases loop with
  | pi =>
    cases piSource gives with
    | ends _ _ calls => exact callsSound parents (parseNodeSource calls)
    | loops => exact ⟨parents,trivial⟩
  | comment =>
    cases commentSource gives with
    | ends _ _ calls => exact callsSound parents (parseNodeSource calls)
    | loops => exact ⟨parents,trivial⟩
  | attrs node =>
    obtain ⟨⟨tag,nodes⟩,bare⟩ := here
    have named (inTag : cur rest ≠ gt ∧ cur rest ≠ slash) : node.name ≠ [] := fun none => (bare none).elim inTag.1 inTag.2
    cases attrsSource gives with
    | value _ _ _ attr _ inTag =>
      exact ⟨parents,⟨tagMore tag attr (named inTag),nodes⟩,fun none => absurd none (named inTag)⟩
    | bare _ attr _ _ inTag =>
      exact ⟨parents,⟨tagMore tag attr (named inTag),nodes⟩,fun none => absurd none (named inTag)⟩
    | empty => exact returnSound parents ⟨tag,nodes⟩
    | opens => exact ⟨parents,tag,nodes⟩
  | nodes =>
    cases nodesSource gives with
    | sub calls =>
      exact callsSound (fun parent mem => (List.mem_cons.mp mem).elim (fun is => is ▸ here) (parents parent)) (parseNodeSource calls)
    | cdata contents => cases contents <;> exact ⟨parents,here⟩
    | ends contents closes => cases contents <;> exact closeSound parents closes here
  | cdata =>
    cases cdataSource gives with
    | ends _ closes => exact closeSound parents closes here
    | loops => exact ⟨parents,here⟩

theorem startSound (msg : Text) : Sound (start msg) := by
  unfold start
  split
  · exact fun _ none => nomatch none
  · exact caughtSource (fun _ none => nomatch none) fun x gives =>
      callsSound (fun _ mem => absurd mem List.not_mem_nil) (parseNodeSource gives)

theorem yieldedReadable {msg : Text} (yields : Yields step (start msg) (some node)) : Readable node :=
  yieldsBack (P := fun x => Sound x → Readable node) (fun sound => sound node rfl) (fun s _ rest sound => rest (stepSound s sound))
    yields (startSound msg)

end Reading

section Aiming

/- The place in a tree that a stack leads to: what is there, when the tree is to be yielded. -/
def Aims (tree : Node) : List Node → Node → Prop
  | [], node => node = tree
  | parent :: stack, node => ∃ whole, Aims tree stack whole ∧ whole.name = parent.name ∧ whole.attrs = parent.attrs ∧
      parent.nodes ++ [node] <+: whole.nodes

def solid (s : Text) : Nat := s.countP (!isBlank ·)

/- How many of them an attribute is read from at least: what is nothing in print is an assignment. -/
def attrLeast (attr : Text × Text) : Nat := solid (attrText attr) + if attr = ([], []) then 3 else 0

def attrsLeast (attrs : List (Text × Text)) : Nat := (attrs.map attrLeast).sum

def brackets (s : Text) : Nat := s.countP (· == gt)

def attrsBrackets (attrs : List (Text × Text)) : Nat := (attrs.map fun attr => brackets attr.2).sum

/- The attributes that are still to come are taken from the text up to the end of the tag. -/
structure AttrsAhead (whole node : Node) (rest : Text) : Prop where
  name : whole.name = node.name
  ahead : ∃ attrs t, whole.attrs = node.attrs ++ attrs ∧ t <:+ rest ∧ (cur t = gt ∨ cur t = slash) ∧
    brackets rest = attrsBrackets attrs + brackets t ∧ attrsLeast attrs + solid t ≤ solid rest

structure Opened (whole node : Node) : Prop where
  name : whole.name = node.name
  attrs : whole.attrs = node.attrs
  nodes : node.nodes <+: whole.nodes

def Leads (tree : Node) : Parse → Prop
  | .done r => r = some tree
  | .more ⟨stack,loop,rest⟩ =>
    match loop with
    | .pi | .comment => ∃ whole, Aims tree stack whole
    | .attrs node => isBlank (cur rest) = false → ∃ whole, Aims tree stack whole ∧ AttrsAhead whole node rest
    | .nodes node | .cdata node _ => ∃ whole, Aims tree stack whole ∧ Opened whole node

variable {tree node whole : Node} {stack : List Node} {s t : Text} {x : Parse}

theorem aimsOnce {node node' : Node} (one : Aims tree stack node) (other : Aims tree stack node') : node = node' := by
  induction stack generalizing node node' with
  | nil => exact one.trans other.symm
  | cons parent stack ih =>
    obtain ⟨whole,first,_,_,within⟩ := one
    obtain ⟨whole',second,_,_,within'⟩ := other
    obtain rfl := ih first second
    have same := (List.prefix_of_prefix_length_le within within' (by simp)).eq_of_length (by simp)
    exact List.singleton_inj.mp (List.append_cancel_left same)

theorem returnAims (leads : Leads tree (returnNode stack node t)) : Aims tree stack node := by
  cases stack with
  | nil => exact Option.some.inj leads
  | cons =>
    obtain ⟨whole,aims,opened⟩ := leads
    exact ⟨whole,aims,opened.name,opened.attrs,opened.nodes⟩

theorem callsAim (calls : Calls stack s x) (leads : Leads tree x) : ∃ whole, Aims tree stack whole := by
  cases calls with
  | pi | comment => exact leads
  | tag _ _ _ plain _ =>
    obtain ⟨whole,aims,_⟩ := leads plain
    exact ⟨whole,aims⟩

theorem closeAims (closes : closeNode stack node s = some x) (leads : Leads tree x) : Aims tree stack node := by
  obtain ⟨t,rfl,_⟩ := closeNodeSource closes
  exact returnAims leads

theorem blindBracket : Blind (· == gt) := by
  intro c blank
  rcases blankCases blank with (rfl | rfl) | rfl | rfl <;> rfl

theorem blindBlank : Blind (!isBlank ·) := by
  intro c blank
  exact (congrArg (!·) blank)

theorem takesBrackets {token : Text} (takes : Takes s token t) : brackets s = brackets token + brackets t := takes.counts _ blindBracket

theorem takesSolid {token : Text} (takes : Takes s token t) : solid s = solid token + solid t := takes.counts _ blindBlank

theorem solidBlank {c : UInt8} (blank : isBlank c = true) : solid (c :: s) = solid s :=
  List.countP_cons_of_neg (by rw [blank]; exact Bool.false_ne_true)

theorem solidPlain {c : UInt8} (plain : isBlank c = false) : solid (c :: s) = solid s + 1 :=
  List.countP_cons_of_pos (by rw [plain]; rfl)

theorem solidAppend (s t : Text) : solid (s ++ t) = solid s + solid t := List.countP_append

theorem bracketsCons (c : UInt8) (s : Text) : brackets (c :: s) = brackets s + if c = gt then 1 else 0 := by
  unfold brackets
  rw [List.countP_cons]
  simp

theorem bracketsAppend (s t : Text) : brackets (s ++ t) = brackets s + brackets t := List.countP_append

theorem nameBrackets {stop name : Text} (listed : stop.contains gt = true) (inName : ∀ c ∈ name, (!stop.contains c) = true) :
    brackets name = 0 := by
  refine List.countP_eq_zero.mpr fun c mem is => ?_
  rw [beq_iff_eq] at is
  exact stopNot listed (inName c mem) is

theorem attrsBracketsCons (attr : Text × Text) (attrs : List (Text × Text)) :
    attrsBrackets (attr :: attrs) = brackets attr.2 + attrsBrackets attrs := rfl

theorem attrsLeastCons (attr : Text × Text) (attrs : List (Text × Text)) :
    attrsLeast (attr :: attrs) = attrLeast attr + attrsLeast attrs := rfl

theorem attrAhead (attr : Text × Text) {token : Text} (takes : Takes s token t) (plain : isBlank (cur t) = false)
    (counts : brackets token = brackets attr.2) (least : attrLeast attr ≤ solid token)
    (leads : Leads tree (.more ⟨stack,.attrs { node with attrs := node.attrs ++ [attr] },t⟩)) :
    ∃ whole, Aims tree stack whole ∧ AttrsAhead whole node s := by
  obtain ⟨whole,aims,name,attrs,u,is,within,ends,counted,enough⟩ := leads plain
  have more : whole.attrs = node.attrs ++ attr :: attrs := by rw [is,List.append_assoc,List.singleton_append]
  refine ⟨whole,aims,name,attr :: attrs,u,more,within.trans takes.suffix,ends,?_,?_⟩
  · rw [takesBrackets takes,counted,counts,attrsBracketsCons,Nat.add_assoc]
  · rw [takesSolid takes,attrsLeastCons]
    omega

theorem noneAhead (aims : Aims tree stack whole) (name : whole.name = node.name) (attrs : whole.attrs = node.attrs)
    (ends : cur s = gt ∨ cur s = slash) : ∃ whole, Aims tree stack whole ∧ AttrsAhead whole node s := by
  refine ⟨whole,aims,name,[],s,by rw [List.append_nil,attrs],List.suffix_rfl,ends,?_,?_⟩
  · exact (Nat.zero_add _).symm
  · exact (Nat.zero_add _).le

theorem valueLeast {name value : Text} {q : UInt8} (quotes : q ∈ ascii "\"'") :
    attrLeast (name, value) ≤ solid (name ++ equals :: q :: (value ++ [q])) := by
  have plain : ∀ q ∈ ascii "\"'", isBlank q = false := by decide +kernel
  have here := plain q quotes
  have read : solid (name ++ equals :: q :: (value ++ [q])) = solid name + (solid value + 3) := by
    rw [solidAppend,solidPlain rfl,solidPlain here,solidAppend,solidPlain here]
    rfl
  rw [read]
  unfold attrLeast attrText
  by_cases none : value = []
  · rw [if_pos none,List.append_nil,solidBlank rfl]
    dsimp only
    split <;> omega
  · have some_ : ¬(name, value) = ([], []) := fun is => none (congrArg Prod.snd is)
    rw [if_neg none,if_neg some_,List.cons_append,solidBlank rfl,solidAppend,List.cons_append,List.cons_append,solidPlain rfl,
      solidPlain rfl,solidAppend,solidPlain rfl]
    exact Nat.le_refl _

theorem bareLeast {name : Text} (named : name ≠ []) : attrLeast (name, []) ≤ solid name := by
  have some_ : ¬(name, ([] : Text)) = ([], []) := fun is => named (congrArg Prod.fst is)
  unfold attrLeast attrText
  rw [if_pos rfl,if_neg some_,List.append_nil,solidBlank rfl]
  exact Nat.le_refl _

theorem attrsLeads (plain : isBlank (cur s) = false) (source : Attributes stack node s x) (leads : Leads tree x) :
    ∃ whole, Aims tree stack whole ∧ AttrsAhead whole node s := by
  cases source with
  | @value name value t q quotes takes attr plain' _ =>
    refine attrAhead (name, value) takes plain' ?_ (valueLeast quotes) leads
    have others : ∀ q ∈ ascii "\"'", q ≠ gt := by decide +kernel
    have apart := others q quotes
    have named : brackets name = 0 := nameBrackets rfl attr.name
    have quoted : brackets [q] = 0 := by rw [bracketsCons,if_neg apart]; rfl
    rw [bracketsAppend,named,bracketsCons,bracketsCons,bracketsAppend,quoted,if_neg apart,if_neg (by decide),Nat.zero_add]
    rfl
  | @bare name t takes attr plain' named _ =>
    have none : brackets name = 0 := nameBrackets rfl attr.name
    exact attrAhead (name, []) takes plain' none (bareLeast (named plain)) leads
  | empty _ ends => exact noneAhead (returnAims leads) rfl rfl (.inr ends)
  | opens _ ends =>
    obtain ⟨whole,aims,opened⟩ := leads
    exact noneAhead aims opened.name opened.attrs (.inl ends)

theorem stepLeads (state : State) (leads : Leads tree (step state)) : Leads tree (.more state) := by
  obtain ⟨stack,loop,rest⟩ := state
  revert leads
  refine caughtSource (P := fun x => Leads tree x → _) (fun none => nomatch none) fun x gives leads => ?_
  cases loop with
  | pi =>
    cases piSource gives with
    | ends _ _ calls => exact callsAim (parseNodeSource calls) leads
    | loops => exact leads
  | comment =>
    cases commentSource gives with
    | ends _ _ calls => exact callsAim (parseNodeSource calls) leads
    | loops => exact leads
  | attrs => exact fun plain => attrsLeads plain (attrsSource gives) leads
  | nodes =>
    cases nodesSource gives with
    | sub calls =>
      obtain ⟨_,whole,aims,name,attrs,within⟩ := callsAim (parseNodeSource calls) leads
      exact ⟨whole,aims,name,attrs,(List.prefix_append _ _).trans within⟩
    | cdata contents =>
      obtain ⟨whole,aims,name,attrs,within⟩ := leads
      cases contents <;> exact ⟨whole,aims,name,attrs,within⟩
    | ends contents closes =>
      have aims := closeAims closes leads
      cases contents <;> exact ⟨_,aims,rfl,rfl,List.prefix_rfl⟩
  | cdata =>
    cases cdataSource gives with
    | ends _ closes => exact ⟨_,closeAims closes leads,rfl,rfl,List.prefix_rfl⟩
    | loops => exact leads

theorem yieldedLeads (yields : Yields step x (some tree)) : Leads tree x :=
  yieldsBack rfl (fun s _ rest => stepLeads s rest) yields

end Aiming

section Weighing

mutual

/- The brackets that a node is read from at least. -/
def nodeBrackets : Node → Nat
  | ⟨_,attrs,nodes,content⟩ =>
    attrsBrackets attrs + nodesBrackets nodes + if content = [] ∧ nodes = [] then 1 else brackets content + 2

def nodesBrackets : List Node → Nat
  | [] => 0
  | node :: nodes => nodeBrackets node + nodesBrackets nodes

end

/- Those of a node that has been begun, and of the nodes that wait. -/
def begun (node : Node) : Nat := attrsBrackets node.attrs + nodesBrackets node.nodes + brackets node.content

def held (stack : List Node) : Nat := (stack.map fun parent => begun parent + 1).sum

/- An instruction, a comment and a section have a bracket that is none of the tree's. -/
def Weighs (tree : Node) : Parse → Prop
  | .done r => r = some tree
  | .more ⟨stack,loop,rest⟩ =>
    match loop with
    | .pi | .comment => nodeBrackets tree + 1 ≤ held stack + brackets rest
    | .attrs node => node.nodes = [] ∧ node.content = [] → nodeBrackets tree ≤ held stack + begun node + brackets rest
    | .nodes node => nodeBrackets tree ≤ held stack + begun node + 1 + brackets rest
    | .cdata node start =>
      rest <:+ start → nodeBrackets tree + 1 ≤ held stack + (attrsBrackets node.attrs + nodesBrackets node.nodes) + 1 + brackets start

variable {tree node : Node} {stack : List Node} {s t : Text} {x : Parse}

theorem nodesBracketsAppend (nodes : List Node) (node : Node) :
    nodesBrackets (nodes ++ [node]) = nodesBrackets nodes + nodeBrackets node := by
  induction nodes with
  | nil => exact Nat.add_comm _ _
  | cons first nodes ih => rw [List.cons_append,nodesBrackets,nodesBrackets,ih,Nat.add_assoc]

theorem attrsBracketsAppend (attrs : List (Text × Text)) (attr : Text × Text) :
    attrsBrackets (attrs ++ [attr]) = attrsBrackets attrs + brackets attr.2 := by
  induction attrs with
  | nil => exact Nat.add_comm _ _
  | cons first attrs ih => rw [List.cons_append,attrsBracketsCons,attrsBracketsCons,ih,Nat.add_assoc]

theorem nodeBracketsLess (node : Node) : nodeBrackets node ≤ begun node + 2 := by
  obtain ⟨name,attrs,nodes,content⟩ := node
  unfold nodeBrackets begun
  dsimp only
  split <;> omega

theorem bareBrackets (none : node.nodes = [] ∧ node.content = []) : nodeBrackets node = begun node + 1 := by
  obtain ⟨name,attrs,nodes,content⟩ := node
  obtain ⟨rfl,rfl⟩ := none
  rfl

theorem suffixBrackets (within : t <:+ s) : brackets t ≤ brackets s := within.sublist.countP_le

theorem returnWeighs (weighs : Weighs tree (returnNode stack node t)) :
    nodeBrackets tree ≤ held stack + nodeBrackets node + brackets t := by
  cases stack with
  | nil =>
    obtain rfl := Option.some.inj weighs
    omega
  | cons parent stack =>
    have weighs : nodeBrackets tree ≤ held stack + (attrsBrackets parent.attrs + nodesBrackets (parent.nodes ++ [node]) +
      brackets parent.content) + 1 + brackets t := weighs
    rw [nodesBracketsAppend] at weighs
    have waits : held (parent :: stack) = begun parent + 1 + held stack := rfl
    rw [waits,begun]
    omega

theorem callsWeigh (calls : Calls stack s x) (weighs : Weighs tree x) : nodeBrackets tree ≤ held stack + brackets s := by
  cases calls with
  | pi is | comment is =>
    rw [is,bracketsCons,bracketsCons]
    exact (Nat.le_succ _).trans (weighs.trans (by omega))
  | @tag name t takes _ _ _ _ =>
    have counts := takesBrackets takes
    have weighs := weighs ⟨rfl,rfl⟩
    have none : begun { name } = 0 := rfl
    omega

theorem callsLose (calls : Calls stack s x) (other : second s = query ∨ second s = bang) (weighs : Weighs tree x) :
    nodeBrackets tree + 1 ≤ held stack + brackets s := by
  cases calls with
  | pi is | comment is =>
    rw [is,bracketsCons,bracketsCons]
    exact weighs.trans (by omega)
  | tag _ _ _ _ apart => exact absurd other (not_or.mpr apart)

theorem closeWeighs (closes : closeNode stack node s = some x) (weighs : Weighs tree x) :
    nodeBrackets tree ≤ held stack + begun node + 1 + brackets s := by
  obtain ⟨t,rfl,name,takes⟩ := closeNodeSource closes
  have returned := returnWeighs weighs
  have less := nodeBracketsLess node
  have counts := takesBrackets takes
  rw [bracketsCons,bracketsCons,bracketsAppend,if_neg (by decide),if_neg (by decide)] at counts
  have one : brackets [gt] = 1 := rfl
  omega

theorem contentsWeigh {node' : Node} (contents : Contents node s node' t) : begun node' + brackets t ≤ begun node + brackets s := by
  cases contents with
  | @some content t takes _ _ _ =>
    have counts := takesBrackets takes
    have is : begun { node with content } = attrsBrackets node.attrs + nodesBrackets node.nodes + brackets content := rfl
    rw [is,begun]
    omega
  | none _ => exact Nat.le_refl _

theorem attrsWeigh (bare : node.nodes = [] ∧ node.content = []) (source : Attributes stack node s x) (weighs : Weighs tree x) :
    nodeBrackets tree ≤ held stack + begun node + brackets s := by
  have more (name value : Text) : begun { node with attrs := node.attrs ++ [(name, value)] } = begun node + brackets value := by
    unfold begun
    rw [attrsBracketsAppend]
    dsimp only
    omega
  cases source with
  | @value name value t q _ takes _ _ _ =>
    have counts := takesBrackets takes
    rw [bracketsAppend,bracketsCons,bracketsCons,bracketsAppend] at counts
    have weighs : nodeBrackets tree ≤ held stack + begun { node with attrs := node.attrs ++ [(name, value)] } + brackets t := weighs bare
    rw [more] at weighs
    omega
  | @bare name t takes _ _ _ _ =>
    have counts := takesBrackets takes
    have weighs : nodeBrackets tree ≤ held stack + begun { node with attrs := node.attrs ++ [(name, [])] } + brackets t := weighs bare
    rw [more] at weighs
    have none : brackets [] = 0 := rfl
    omega
  | empty takes =>
    have counts := takesBrackets takes
    have returned := returnWeighs weighs
    have one : brackets [slash,gt] = 1 := rfl
    rw [bareBrackets bare] at returned
    omega
  | @opens t takes _ =>
    have counts := takesBrackets takes
    have weighs : nodeBrackets tree ≤ held stack + begun node + 1 + brackets t := weighs
    have one : brackets [gt] = 1 := rfl
    omega

theorem cdataWeighs {node' : Node} {start content : Text} (contents : Contents node s node' (cdataOpen ++ start)) (within : t <:+ start)
    (weighs : Weighs tree (.more ⟨stack,.cdata { node' with content } start,t⟩)) :
    nodeBrackets tree + 1 ≤ held stack + begun node + 1 + brackets s := by
  have weighs : nodeBrackets tree + 1 ≤ held stack + (attrsBrackets node'.attrs + nodesBrackets node'.nodes) + 1 + brackets start :=
    weighs within
  have less := contentsWeigh contents
  rw [bracketsAppend,begun] at less
  omega

theorem stepWeighs (state : State) (weighs : Weighs tree (step state)) : Weighs tree (.more state) := by
  obtain ⟨stack,loop,rest⟩ := state
  revert weighs
  refine caughtSource (P := fun x => Weighs tree x → _) (fun none => nomatch none) fun x gives weighs => ?_
  cases loop with
  | pi =>
    change nodeBrackets tree + 1 ≤ held stack + brackets rest
    cases piSource gives with
    | ends skipped takes calls =>
      have counts := takesBrackets takes
      have weighs := callsWeigh (parseNodeSource calls) weighs
      rw [bracketsAppend] at counts
      have one : brackets [query,gt] = 1 := rfl
      dsimp only at weighs counts
      omega
    | loops within =>
      have weighs : nodeBrackets tree + 1 ≤ held stack + brackets _ := weighs
      have less := suffixBrackets within
      dsimp only at weighs less
      omega
  | comment =>
    change nodeBrackets tree + 1 ≤ held stack + brackets rest
    cases commentSource gives with
    | ends skipped takes calls =>
      have counts := takesBrackets takes
      have weighs := callsWeigh (parseNodeSource calls) weighs
      rw [bracketsAppend] at counts
      have one : brackets [gt] = 1 := rfl
      dsimp only at weighs counts
      omega
    | loops within =>
      have weighs : nodeBrackets tree + 1 ≤ held stack + brackets _ := weighs
      have less := suffixBrackets within
      dsimp only at weighs less
      omega
  | attrs => exact fun bare => attrsWeigh bare (attrsSource gives) weighs
  | nodes node =>
    change nodeBrackets tree ≤ held stack + begun node + 1 + brackets rest
    cases nodesSource gives with
    | sub calls =>
      have weighs := callsWeigh (parseNodeSource calls) weighs
      have waits : held (node :: stack) = begun node + 1 + held stack := rfl
      dsimp only at weighs
      omega
    | cdata contents within => exact (Nat.le_succ _).trans (cdataWeighs contents within weighs)
    | ends contents closes =>
      have weighs := closeWeighs closes weighs
      have less := contentsWeigh contents
      dsimp only at weighs less
      omega
  | cdata =>
    intro within
    cases cdataSource gives with
    | @ends t x takes closes =>
      obtain ⟨front,rfl⟩ := within
      have taken : (front ++ rest).take ((front ++ rest).length - rest.length) = front := by
        rw [List.length_append,Nat.add_sub_cancel,List.take_left]
      have weighs := closeWeighs closes weighs
      have counts := takesBrackets takes
      have one : brackets cdataClose = 1 := rfl
      dsimp only at weighs counts
      rw [taken,begun] at weighs
      rw [bracketsAppend]
      dsimp only at weighs
      omega
    | loops further => exact weighs (further.trans within)

theorem yieldedWeighs (yields : Yields step x (some tree)) : Weighs tree x :=
  yieldsBack rfl (fun s _ rest => stepWeighs s rest) yields

end Weighing

end Pjproject.Xml
