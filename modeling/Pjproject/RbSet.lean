import Pjproject.RbErase

/-! The tree as an ordered set of nodes: a run of calls does to the set of nodes in the tree what its insertions and
erasures say, and between the calls the tree shows this set in the order of its keys. -/
namespace Pjproject.RbNodes
open Lib.RedBlack Lib.LinkedTree
open Rb (RbTree)

variable {A K : Type} [DecidableEq A]

/- The nodes of an ordered set, with the keys that all nodes have. -/
structure NodeSet (A K : Type) where
  present : Finset A
  keyOf : A → K

def NodeSet.empty (mem : A → Node A K) : NodeSet A K := ⟨∅,fun a => (mem a).key⟩

section Runs
variable (comp : K → K → Int) (null : A)

def NodeSet.Has (set : NodeSet A K) (key : K) : Prop := ∃ a ∈ set.present, comp key (set.keyOf a) = 0

instance (set : NodeSet A K) (key : K) : Decidable (set.Has comp key) :=
  inferInstanceAs (Decidable (∃ a ∈ set.present, comp key (set.keyOf a) = 0))

def NodeSet.call (set : NodeSet A K) : Call A K → NodeSet A K × Option Int
  | .insert element =>
    if set.Has comp (set.keyOf element) then (set, some (-1)) else ({ set with present := insert element set.present }, some 0)
  | .erase node => ({ set with present := set.present.erase node }, none)
  | .fill node contents => ({ set with keyOf := Function.update set.keyOf node contents.key }, none)

def NodeSet.run : NodeSet A K → List (Call A K) → NodeSet A K × List Int
  | set, [] => (set, [])
  | set, call :: calls =>
    let (after, status) := set.call comp call
    let (last, statuses) := after.run calls
    (last, status.toList ++ statuses)

/- Only nodes in the tree are erased, only others are written, and null_node is the tree's own. -/
def NodeSet.Allows (set : NodeSet A K) : Call A K → Prop
  | .insert element => element ≠ null
  | .erase node => node ∈ set.present
  | .fill node _ => node ≠ null ∧ node ∉ set.present

instance : (set : NodeSet A K) → (call : Call A K) → Decidable (set.Allows null call)
  | _, .insert element => inferInstanceAs (Decidable (element ≠ null))
  | set, .erase node => inferInstanceAs (Decidable (node ∈ set.present))
  | set, .fill node _ => inferInstanceAs (Decidable (node ≠ null ∧ node ∉ set.present))

def NodeSet.AllowsRun : NodeSet A K → List (Call A K) → Prop
  | _, [] => True
  | set, call :: calls => set.Allows null call ∧ (set.call comp call).1.AllowsRun calls

instance decidableAllowsRun : (set : NodeSet A K) → (calls : List (Call A K)) → Decidable (set.AllowsRun comp null calls)
  | _, [] => .isTrue trivial
  | set, call :: calls =>
    have := decidableAllowsRun (set.call comp call).1 calls
    inferInstanceAs (Decidable (set.Allows null call ∧ (set.call comp call).1.AllowsRun comp null calls))

/- What a tree says when it is asked about its nodes. -/
structure Ordered (tree : Rbtree A K) (set : NodeSet A K) (listed : List A) : Prop where
  keys : ∀ a, (tree.store.mem a).key = set.keyOf a
  members : ∀ a, a ∈ listed ↔ a ∈ set.present
  distinct : listed.Nodup
  ascending : Ascending comp set.keyOf listed
  forward : tree.first.bind (walk tree.next tree.size) = some listed
  backward : tree.last.bind (walk tree.prev tree.size) = some listed.reverse
  size : tree.size = set.present.card
  find : ∀ key, ∃ found, tree.find comp key = some found ∧ ∀ a, found = some a ↔ a ∈ set.present ∧ comp key (set.keyOf a) = 0
  refused : ∀ element, set.Has comp (set.keyOf element) → tree.insert comp element = some (tree, -1)

/- What is kept: the links form a tree with these nodes in ascending order. -/
structure Keeps (tree : Rbtree A K) (set : NodeSet A K) : Prop where
  null : tree.store.null = null
  held : ∃ rb : RbTree A, Held tree set.keyOf rb ∧ Ascending comp set.keyOf rb.root.toList ∧
    ∀ a, a ∈ rb.root.toList ↔ a ∈ set.present

end Runs

variable {comp : K → K → Int} {null : A} {keyOf : A → K} {set : NodeSet A K} {tree : Rbtree A K}

omit [DecidableEq A] in
theorem seekFinds (total : Total comp) (key : K) {t : ColouredTree A} (ascending : Ascending comp keyOf t.toList) :
    (seek comp keyOf key t []).1.isNull = false ↔ ∃ a ∈ t.toList, comp key (keyOf a) = 0 := by
  obtain ⟨around,equal⟩ := seekAround total ascending (pathAround key)
  have whole := seekPlug comp keyOf key t []
  rcases result : seek comp keyOf key t [] with ⟨u,out⟩
  rw [result] at around equal whole
  change plug u out = t at whole
  constructor
  · intro some
    cases u with
    | null => cases some
    | node c l a r =>
      refine ⟨a,?_,equal c l a r rfl⟩
      rw [← whole,plugList]
      exact List.mem_append_left _ (List.mem_append_right _ (List.mem_append_right _ List.mem_cons_self))
  · rintro ⟨a,member,same⟩
    by_contra none
    have none : u.isNull = true := by simpa using none
    obtain rfl := nullOf none
    rw [← whole,plugList] at member
    rcases List.mem_append.mp member with before | after
    · rcases List.mem_append.mp before with near | nothing
      · have above := around.left a (List.mem_reverse.mp near)
        omega
      · cases nothing
    · have below := around.right a after
      omega

omit [DecidableEq A] in
theorem ascendingOnly (total : Total comp) {key : K} {l : List A} (ascending : Ascending comp keyOf l) {a b : A} (ha : a ∈ l)
    (hb : b ∈ l) (first : comp key (keyOf a) = 0) (second : comp key (keyOf b) = 0) : a = b := by
  have equal : comp (keyOf a) (keyOf b) = 0 ∧ comp (keyOf b) (keyOf a) = 0 := by
    have one := total.trans _ _ _ (Int.le_of_eq (total.swap first)) (Int.le_of_eq second)
    have other := total.trans _ _ _ (Int.le_of_eq (total.swap second)) (Int.le_of_eq first)
    have flip := total.flip (keyOf a) (keyOf b)
    have flip' := total.flip (keyOf b) (keyOf a)
    omega
  by_contra apart
  obtain ⟨i,hi,rfl⟩ := List.mem_iff_getElem.mp ha
  obtain ⟨j,hj,rfl⟩ := List.mem_iff_getElem.mp hb
  have pairs := List.pairwise_iff_getElem.mp ascending
  rcases Nat.lt_trichotomy i j with less | same | more
  · have below := pairs i j hi hj less
    omega
  · exact apart (by simp only [same])
  · have below := pairs j i hj hi more
    omega

omit [DecidableEq A] in
theorem insertedList {rb : RbTree A} {e : A} {out : List (Frame A)} (sought : seek comp keyOf (keyOf e) rb.root [] = (.null, out)) :
    ∃ c, (rb.insert (fun a b => comp (keyOf a) (keyOf b)) e).root.toList = (plug (.node c .null e .null) out).toList := by
  have descends := descendSeek comp keyOf e rb.root []
  rw [sought] at descends
  change Rb.descend _ e rb.root [] = some out at descends
  unfold RbTree.insert
  rw [descends]
  cases out with
  | nil => exact ⟨.black,rfl⟩
  | cons f rest => exact ⟨.red,insertFixupList (f :: rest) _⟩

omit [DecidableEq A] in
theorem seekHas (total : Total comp) {rb : RbTree A}
    (ascending : Ascending comp set.keyOf rb.root.toList) (members : ∀ a, a ∈ rb.root.toList ↔ a ∈ set.present) (key : K) :
    (seek comp set.keyOf key rb.root []).1.isNull = false ↔ set.Has comp key := by
  rw [seekFinds total key ascending]
  constructor
  · rintro ⟨a,member,same⟩
    exact ⟨a,(members a).mp member,same⟩
  · rintro ⟨a,member,same⟩
    exact ⟨a,(members a).mpr member,same⟩

theorem Keeps.insert (keeps : Keeps comp null tree set) (total : Total comp) {e : A} (real : e ≠ null) :
    ∃ tree', tree.call comp (.insert e) = some (tree', (set.call comp (.insert e)).2) ∧
      Keeps comp null tree' (set.call comp (.insert e)).1 := by
  obtain ⟨rb,held,ascending,members⟩ := keeps.held
  have has := seekHas total ascending members (set.keyOf e)
  unfold Rbtree.call NodeSet.call
  dsimp only
  split
  next found =>
    rw [held.insertFound (has.mpr found)]
    exact ⟨tree,rfl,keeps⟩
  next other =>
    have missing : (seek comp set.keyOf (set.keyOf e) rb.root []).1.isNull = true := by
      rw [← has] at other
      simpa using other
    obtain ⟨tree',inserts,same,after⟩ := held.insertMissing total (keeps.null.symm ▸ real) ascending missing
    have around := (seekAround total ascending (pathAround (set.keyOf e))).1
    have whole := seekPlug comp set.keyOf (set.keyOf e) rb.root []
    rcases result : seek comp set.keyOf (set.keyOf e) rb.root [] with ⟨u,out⟩
    rw [result] at around whole missing
    obtain rfl := nullOf missing
    change plug .null out = rb.root at whole
    obtain ⟨c,listed⟩ := insertedList result
    rw [inserts]
    refine ⟨tree',rfl,same.trans keeps.null,_,after,?_,fun a => ?_⟩
    · rw [← whole] at ascending
      rw [listed]
      exact insertAscending total around ascending c
    · rw [listed,Finset.mem_insert,← members,← whole,plugList,plugList]
      simp only [ColouredTree.toList,List.mem_append,List.mem_cons,List.not_mem_nil,or_false,false_or]
      tauto

theorem Keeps.erase (keeps : Keeps comp null tree set) {a : A} (present : a ∈ set.present) :
    ∃ tree', tree.call comp (.erase a) = some (tree', (set.call comp (.erase a)).2) ∧
      Keeps comp null tree' (set.call comp (.erase a)).1 := by
  obtain ⟨rb,held,ascending,members⟩ := keeps.held
  obtain ⟨tree',rb',erases,same,after,⟨x,y,before,left⟩,-⟩ := held.erase ((members a).mpr present)
  have distinct := held.focus.distinct
  rw [pathList,List.append_nil,before,List.nodup_middle,List.nodup_cons,List.mem_append] at distinct
  rw [before] at ascending members
  refine ⟨tree',?_,same.trans keeps.null,rb',after,?_,fun b => ?_⟩
  · exact congrArg (Option.map _) erases
  · rw [left]
    exact ascending.sublist ((List.Sublist.refl x).append (List.sublist_cons_self a y))
  · show b ∈ rb'.root.toList ↔ b ∈ set.present.erase a
    rw [left,Finset.mem_erase,← members,List.mem_append,List.mem_append,List.mem_cons]
    constructor
    · intro inside
      refine ⟨?_,inside.imp_right .inr⟩
      rintro rfl
      exact distinct.1 inside
    · rintro ⟨other,first | rfl | second⟩
      · exact .inl first
      · exact absurd rfl other
      · exact .inr second

theorem Keeps.fill (keeps : Keeps comp null tree set) {node : A} {contents : Node A K} (real : node ≠ null)
    (absent : node ∉ set.present) :
    ∃ tree', tree.call comp (.fill node contents) = some (tree', (set.call comp (.fill node contents)).2) ∧
      Keeps comp null tree' (set.call comp (.fill node contents)).1 := by
  obtain ⟨rb,held,ascending,members⟩ := keeps.held
  have others : ∀ z, z ≠ node → Function.update tree.store.mem node contents z = tree.store.mem z :=
    fun z other => Function.update_of_ne other _ _
  have inside : ∀ z ∈ rb.root.toList, z ≠ node := by
    rintro z member rfl
    exact absent ((members z).mp member)
  refine ⟨_,rfl,keeps.null,rb,⟨⟨?_,held.focus.above,held.focus.distinct,?_⟩,held.size,held.count,held.black⟩,?_,members⟩
  · exact shapeCongr held.focus.below fun z member => others z (inside z member)
  · have away : tree.store.null ≠ node := keeps.null.symm ▸ Ne.symm real
    have same : Function.update tree.store.mem node contents tree.store.null = tree.store.mem tree.store.null := others _ away
    refine ⟨?_,?_,?_,fun z => ?_⟩
    · exact (congrArg Node.left same).trans held.focus.ground.left
    · exact (congrArg Node.right same).trans held.focus.ground.right
    · exact (congrArg Node.color same).trans held.focus.ground.color
    · show (Function.update tree.store.mem node contents z).key = Function.update set.keyOf node contents.key z
      by_cases here : z = node
      · rw [here,Function.update_self,Function.update_self]
      · rw [others z here,Function.update_of_ne here,held.focus.ground.keys]
  · refine ascending.imp_of_mem fun {a b} ha hb less => ?_
    show comp (Function.update set.keyOf node contents.key a) (Function.update set.keyOf node contents.key b) < 0
    rw [Function.update_of_ne (inside a ha),Function.update_of_ne (inside b hb)]
    exact less

theorem Keeps.call (keeps : Keeps comp null tree set) (total : Total comp) {call : Call A K} (allowed : set.Allows null call) :
    ∃ tree', tree.call comp call = some (tree', (set.call comp call).2) ∧ Keeps comp null tree' (set.call comp call).1 := by
  cases call with
  | insert => exact keeps.insert total allowed
  | erase => exact keeps.erase allowed
  | fill => exact keeps.fill allowed.1 allowed.2

theorem Keeps.run (keeps : Keeps comp null tree set) (total : Total comp) {calls : List (Call A K)}
    (allowed : set.AllowsRun comp null calls) :
    ∃ tree', tree.run comp calls = some (tree', (set.run comp calls).2) ∧ Keeps comp null tree' (set.run comp calls).1 := by
  induction calls generalizing tree set with
  | nil => exact ⟨tree,rfl,keeps⟩
  | cons call calls ih =>
    obtain ⟨middle,stepped,kept⟩ := keeps.call total allowed.1
    obtain ⟨last,ran,kept'⟩ := ih kept allowed.2
    refine ⟨last,?_,kept'⟩
    unfold Rbtree.run
    rw [stepped]
    show (middle.run comp calls).bind _ = _
    rw [ran]
    rfl

theorem initKeeps (comp : K → K → Int) (null : A) (mem : A → Node A K) :
    Keeps comp null (.init null mem) (.empty mem) := by
  have here : (Rbtree.init null mem).store.mem null =
      { mem null with left := null, right := null, parent := null, color := .black } := Function.update_self _ _ _
  refine ⟨rfl,{},⟨⟨trivial,rfl,List.nodup_nil,?_⟩,rfl,rfl,rfl⟩,List.Pairwise.nil,fun a => ?_⟩
  · refine ⟨?_,?_,?_,fun a => updateKeys (by rfl) a⟩
    · exact congrArg Node.left here
    · exact congrArg Node.right here
    · exact congrArg Node.color here
  · exact ⟨fun member => (nomatch member),fun member => absurd member (Finset.notMem_empty a)⟩

theorem Held.findOnly {rb : RbTree A} (held : Held tree keyOf rb) (total : Total comp) {present : Finset A}
    (ascending : Ascending comp keyOf rb.root.toList) (members : ∀ a, a ∈ rb.root.toList ↔ a ∈ present) (key : K) :
    ∃ found, tree.find comp key = some found ∧ ∀ a, found = some a ↔ a ∈ present ∧ comp key (keyOf a) = 0 := by
  refine ⟨_,held.find key,fun a => ?_⟩
  have finds := seekFinds total key ascending
  obtain ⟨around,equal⟩ := seekAround total ascending (pathAround key)
  have whole := seekPlug comp keyOf key rb.root []
  rcases result : seek comp keyOf key rb.root [] with ⟨u,out⟩
  rw [result] at finds equal whole
  cases u with
  | null =>
    refine ⟨fun none => (nomatch none),fun ⟨member,same⟩ => ?_⟩
    exact nomatch finds.mpr ⟨a,(members a).mpr member,same⟩
  | node c l b r =>
    have inside : b ∈ rb.root.toList := by
      rw [show rb.root = plug (.node c l b r) out from whole.symm,plugList]
      exact List.mem_append_left _ (List.mem_append_right _ (List.mem_append_right _ List.mem_cons_self))
    have same := equal c l b r rfl
    constructor
    · rintro ⟨⟩
      exact ⟨(members b).mp inside,same⟩
    · rintro ⟨member,equal⟩
      exact congrArg some (ascendingOnly total ascending inside ((members a).mpr member) same equal)

theorem Keeps.ordered (keeps : Keeps comp null tree set) (total : Total comp) : ∃ listed, Ordered comp tree set listed := by
  obtain ⟨rb,held,ascending,members⟩ := keeps.held
  have distinct := held.focus.distinct
  rw [pathList,List.append_nil] at distinct
  refine ⟨rb.root.toList,held.focus.ground.keys,members,distinct,ascending,held.walk .left,held.walk .right,?_,?_,?_⟩
  · have same : set.present = rb.root.toList.toFinset := by
      ext a
      rw [List.mem_toFinset,members]
    rw [same,List.toFinset_card_of_nodup distinct,listLength,held.size]
  · exact held.findOnly total ascending members
  · intro element has
    exact held.insertFound ((seekHas total ascending members _).mpr has)

theorem orderedSet (comp : K → K → Int) (total : Total comp) (null : A) (mem : A → Node A K) (calls : List (Call A K))
    (allowed : (NodeSet.empty mem).AllowsRun comp null calls) :
    ∃ tree listed, (Rbtree.init null mem).run comp calls = some (tree, ((NodeSet.empty mem).run comp calls).2) ∧
      Ordered comp tree ((NodeSet.empty mem).run comp calls).1 listed := by
  obtain ⟨tree,ran,keeps⟩ := (initKeeps comp null mem).run total allowed
  obtain ⟨listed,ordered⟩ := keeps.ordered total
  exact ⟨tree,listed,ran,ordered⟩

/- Nodes 1 to 4 and the keys 5, 3, 8 and 5; the fourth is refused, and then takes the place of the first. -/
theorem orderedAgain :
    ∃ tree listed, (Rbtree.init 0 fun a : Nat => ⟨0,0,0,.red,[0,5,3,8,5].getD a 0⟩).run (fun x y : Nat => (x : Int) - y)
        [.insert 1,.insert 2,.insert 3,.insert 4,.erase 1,.insert 4] = some (tree, [0,0,0,-1,0]) ∧
      Ordered (fun x y : Nat => (x : Int) - y) tree ⟨{4, 3, 2},fun a => [0,5,3,8,5].getD a 0⟩ listed := by
  have total : Total fun x y : Nat => (x : Int) - y := by
    constructor
    · intro a b
      omega
    · intro a b c
      omega
  obtain ⟨tree,listed,ran,ordered⟩ := orderedSet _ total 0 (fun a : Nat => ⟨0,0,0,.red,[0,5,3,8,5].getD a 0⟩)
    [.insert 1,.insert 2,.insert 3,.insert 4,.erase 1,.insert 4] (by decide)
  exact ⟨tree,listed,ran,ordered⟩

end Pjproject.RbNodes
