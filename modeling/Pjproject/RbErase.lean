import Pjproject.RbWalk

/-! Erasing a node: what leaves its place has at most one child, which goes up; a successor then takes the links and the
colour of the erased node, and the repair starts from the child. -/
namespace Pjproject.RbNodes
open Lib.RedBlack Lib.LinkedTree
open Rb (RbTree)

variable {A K : Type} [DecidableEq A] {s : Store A K} {keyOf : A → K} {sentinel : Color}
  {t child : ColouredTree A} {f : Frame A} {path : List (Frame A)} {side : Side} {color : Color} {a b : A} {size : Nat}

/- The two writes that put the only child of a node into its place. -/
def unlink (s : Store A K) (parent succ child : A) : Store A K := (s.setParent child parent).relink parent succ child

theorem unlinkFocus (focus : Focus s keyOf sentinel (Frame.close ⟨side,color,a,.null⟩ child) path) {s' : Store A K}
    (unlinks : unlink s (parentOf s.null path) a (top s.null child) = s') :
    Focus s' keyOf sentinel child path ∧ s'.null = s.null ∧ s'.mem a = s.mem a := by
  obtain ⟨below,above,distinct,ground⟩ := focus
  obtain ⟨real,_,within,_⟩ := shapeClose.mp below
  rw [topClose] at above
  have flat : (a :: (child.toList ++ pathList path)).Nodup := by
    refine (List.Perm.nodup_iff ?_).mp distinct
    refine ((closePerm ⟨side,color,a,.null⟩ child).append_right _).trans ?_
    rw [List.cons_append,ColouredTree.toList,List.append_nil]
  obtain ⟨outside,rest⟩ := List.nodup_cons.mp flat
  rw [List.mem_append,not_or] at outside
  have parts := List.nodup_append.mp rest
  have apart : ∀ z ∈ pathList path, z ∉ child.toList := fun z up down => parts.2.2 z down z up rfl
  have moved : (s.setParent (top s.null child) (parentOf s.null path)).mem (top s.null child) =
      { s.mem (top s.null child) with parent := parentOf s.null path } := Function.update_self _ _ _
  have others : ∀ z, z ≠ top s.null child → (s.setParent (top s.null child) (parentOf s.null path)).mem z = s.mem z :=
    fun z other => Function.update_of_ne other _ _
  have awayFrom : ∀ z, z ≠ s.null → z ∉ child.toList → z ≠ top s.null child := by
    intro z some outside
    exact (outsideTop outside).resolve_right some
  have above' : Above s.null s.root (s.setParent (top s.null child) (parentOf s.null path)).mem a path := by
    refine aboveCongr above fun z member => others z (awayFrom z ?_ (apart z member))
    rintro rfl
    exact aboveReal above member
  have linked := aboveRelinked (s := s.setParent (top s.null child) (parentOf s.null path)) (top s.null child) above' real
    outside.2 parts.2.1
  have relinked : ∀ z, z ∉ pathList path →
      (unlink s (parentOf s.null path) a (top s.null child)).mem z =
        (s.setParent (top s.null child) (parentOf s.null path)).mem z := by
    intro z outside
    by_cases same : z = s.null
    · exact relinkOther (.inr same)
    · exact relinkOther (.inl (outsideParent same outside))
  have null : (unlink s (parentOf s.null path) a (top s.null child)).null = s.null := relinkNull _ _ _ _
  have keys : ∀ z, ((unlink s (parentOf s.null path) a (top s.null child)).mem z).key = (s.mem z).key := by
    intro z
    unfold unlink
    rw [relinkKeys,setParentKeys]
  change Above s.null (unlink s (parentOf s.null path) a (top s.null child)).root
    (unlink s (parentOf s.null path) a (top s.null child)).mem (top s.null child) path at linked
  rw [unlinks] at linked relinked null keys
  refine ⟨⟨?_,?_,rest,?_⟩,null,?_⟩
  · rw [null]
    refine shapeMoved within parts.1 ?_ ?_
    · intro some
      rw [relinked _ (fun up => apart _ up (topMember _ some)),moved]
    · intro z member other
      rw [relinked z (fun up => apart z up member),others z other]
  · rw [null]
    exact linked
  · have same := relinked s.null (aboveReal above)
    have links : (s'.mem s.null).left = (s.mem s.null).left ∧ (s'.mem s.null).right = (s.mem s.null).right ∧
        (s'.mem s.null).color = (s.mem s.null).color := by
      rw [same]
      by_cases top : s.null = top s.null child
      · rw [← top] at moved ⊢
        rw [moved]
        exact ⟨rfl,rfl,rfl⟩
      · rw [others _ top]
        exact ⟨rfl,rfl,rfl⟩
    exact ground.keep null links.1 links.2.1 (links.2.2.trans ground.color) keys
  · rw [relinked a outside.2,others a (awayFrom a real outside.1)]

/- What the successor takes over from the node, but for its links from above and below. -/
def taken (s : Store A K) (node succ : A) : Store A K :=
  let s := s.setParent succ (s.mem node).parent
  let s := s.setChild succ .left (s.mem node).left
  let s := s.setChild succ .right (s.mem node).right
  s.paint succ (s.mem node).color

theorem takenCells (apart : a ≠ b) :
    (taken s a b).mem b = { s.mem a with key := (s.mem b).key } ∧ ∀ z, z ≠ b → (taken s a b).mem z = s.mem z := by
  constructor
  · simp [taken,Store.setParent,Store.setChild,Store.paint,Node.setChild,Function.update_of_ne apart]
  · intro z other
    simp [taken,Store.setParent,Store.setChild,Store.paint,Function.update_of_ne other]

def adopt (s : Store A K) (child parent : A) : Store A K := if child ≠ s.null then s.setParent child parent else s

variable {parent : A} {l r : ColouredTree A} {tree : Rbtree A K} {inner : List (Frame A)} {rb : RbTree A}

theorem adoptMoved {child : A} (real : child ≠ s.null) :
    (adopt s child parent).mem child = { s.mem child with parent := parent } := by
  unfold adopt
  rw [if_pos real]
  exact Function.update_self _ _ _

theorem adoptOther {child z : A} (other : z ≠ child ∨ z = s.null) : (adopt s child parent).mem z = s.mem z := by
  unfold adopt
  split
  next real =>
    refine Function.update_of_ne ?_ _ _
    rcases other with other | rfl
    · exact other
    · exact Ne.symm real
  next => rfl

theorem adoptKept (s : Store A K) (child parent : A) :
    (adopt s child parent).null = s.null ∧ (adopt s child parent).root = s.root := by
  unfold adopt
  split <;> exact ⟨rfl,rfl⟩

theorem adoptKeys (s : Store A K) (child parent z : A) : ((adopt s child parent).mem z).key = (s.mem z).key := by
  unfold adopt
  split
  · exact setParentKeys _ _ _ _
  · rfl

theorem transplantSteps (s : Store A K) (node succ : A) {linked first second : Store A K}
    (links : (if ((taken s node succ).mem node).parent ≠ (taken s node succ).null then
      (taken s node succ).relink ((taken s node succ).mem node).parent node succ else taken s node succ) = linked)
    (left : adopt linked (linked.mem node).left succ = first) (right : adopt first (first.mem node).right succ = second) :
    transplant s node succ = if second.root = node then { second with root := succ } else second := by
  subst links left right
  rfl

/- The same writes, with the link from above replaced also at the root. -/
structure Transplanted (s s' : Store A K) (node succ : A) (path : List (Frame A)) (l r : ColouredTree A) : Prop where
  null : s'.null = s.null
  root : s'.root = ((taken s node succ).relink (parentOf s.null path) node succ).root
  left : l.isNull = false → s'.mem (top s.null l) =
    { ((taken s node succ).relink (parentOf s.null path) node succ).mem (top s.null l) with parent := succ }
  right : r.isNull = false → s'.mem (top s.null r) =
    { ((taken s node succ).relink (parentOf s.null path) node succ).mem (top s.null r) with parent := succ }
  others : ∀ z, z ≠ top s.null l ∨ z = s.null → z ≠ top s.null r ∨ z = s.null →
    s'.mem z = ((taken s node succ).relink (parentOf s.null path) node succ).mem z

theorem relinkInsideRoot {old child : A} (real : parent ≠ s.null) : (s.relink parent old child).root = s.root := by
  rw [relinkInside real]
  split <;> rfl

theorem transplantLinks (focus : Focus s keyOf sentinel (.node color l a r) path) (apart : a ≠ b) :
    ∃ linked : Store A K, (if ((taken s a b).mem a).parent ≠ (taken s a b).null then
        (taken s a b).relink ((taken s a b).mem a).parent a b else taken s a b) = linked ∧
      linked.null = s.null ∧ linked.mem = ((taken s a b).relink (parentOf s.null path) a b).mem ∧
      (if linked.root = a then b else linked.root) = ((taken s a b).relink (parentOf s.null path) a b).root := by
  have rooted := focus.rootOnly rfl
  have parent : ((taken s a b).mem a).parent = parentOf s.null path := by
    rw [(takenCells apart).2 a apart]
    exact focus.below.2.1.parent
  refine ⟨_,rfl,?_⟩
  rw [parent]
  cases path with
  | nil =>
    have linked : (taken s a b).relink (parentOf s.null ([] : List (Frame A))) a b = { taken s a b with root := b } :=
      relinkRoot (taken s a b) a b
    have root : (taken s a b).root = a := (rooted.mpr rfl).symm
    have keeps : (if parentOf s.null ([] : List (Frame A)) ≠ (taken s a b).null then
        (taken s a b).relink (parentOf s.null ([] : List (Frame A))) a b else taken s a b) = taken s a b :=
      if_neg (not_not_intro rfl)
    rw [keeps,linked,if_pos root]
    exact ⟨rfl,rfl,rfl⟩
  | cons f rest =>
    have up : parentOf s.null (f :: rest) ≠ (taken s a b).null := focus.real
    have root : ((taken s a b).relink (parentOf s.null (f :: rest)) a b).root = s.root := relinkInsideRoot up
    have other : s.root ≠ a := fun same => nomatch rooted.mp same.symm
    rw [if_pos up,root,if_neg other]
    exact ⟨relinkNull _ _ _ _,rfl,rfl⟩

theorem transplanted (focus : Focus s keyOf sentinel (.node color l a r) path) (apart : a ≠ b) :
    Transplanted s (transplant s a b) a b path l r := by
  obtain ⟨linked,links,null,same,root⟩ := transplantLinks focus apart
  have flat := focus.distinct
  rw [List.nodup_append,ColouredTree.toList,List.nodup_middle,List.nodup_cons,List.mem_append,not_or] at flat
  obtain ⟨⟨⟨outsideL,outsideR⟩,siblings⟩,-,above⟩ := flat
  have real : a ≠ s.null := focus.topReal rfl
  have outside : a ∉ pathList path := fun up => above a (List.mem_append_right _ List.mem_cons_self) a up rfl
  have cell := focus.below.2.1
  have atNode : linked.mem a = s.mem a := by
    rw [same]
    exact (relinkOther (.inl (outsideParent real outside))).trans ((takenCells apart).2 a apart)
  have left : (linked.mem a).left = top s.null l := by
    rw [atNode]
    exact cell.near
  have first := adoptKept linked (top s.null l) b
  have right : ((adopt linked (top s.null l) b).mem a).right = top s.null r := by
    rw [adoptOther (.inl ((outsideTop outsideL).resolve_right real)),atNode]
    exact cell.far
  have steps := transplantSteps s a b links (by rw [left]) (by rw [right])
  have kept := adoptKept (adopt linked (top s.null l) b) (top s.null r) b
  rw [first.1,first.2,null] at kept
  have mem : (transplant s a b).mem = (adopt (adopt linked (top s.null l) b) (top s.null r) b).mem := by
    rw [steps]
    split <;> rfl
  have realL : l.isNull = false → top s.null l ≠ s.null := (focusUp (f := ⟨.left,color,a,r⟩).mpr focus).topReal
  have realR : r.isNull = false → top s.null r ≠ s.null := (focusUp (f := ⟨.right,color,a,l⟩).mpr focus).topReal
  rw [List.nodup_append] at siblings
  refine ⟨?_,?_,?_,?_,?_⟩
  · rw [steps]
    split <;> exact kept.1
  · rw [← root,steps,kept.2]
    split
    · rfl
    · exact kept.2
  · intro some
    have away : top s.null l ∉ r.toList := fun also => siblings.2.2 _ (topMember _ some) _ also rfl
    rw [mem,← same,adoptOther (.inl ((outsideTop away).resolve_right (realL some)))]
    refine adoptMoved ?_
    rw [null]
    exact realL some
  · intro some
    have away : top s.null r ∉ l.toList := fun also => siblings.2.2 _ also _ (topMember _ some) rfl
    have real : top s.null r ≠ (adopt linked (top s.null l) b).null := by
      rw [first.1,null]
      exact realR some
    rw [mem,← same,adoptMoved real,adoptOther (.inl ((outsideTop away).resolve_right (realR some)))]
  · intro z below beside
    have atRight : z ≠ top s.null r ∨ z = (adopt linked (top s.null l) b).null := by
      rw [first.1,null]
      exact beside
    have atLeft : z ≠ top s.null l ∨ z = linked.null := by
      rw [null]
      exact below
    rw [mem,← same,adoptOther atRight,adoptOther atLeft]

theorem takenKeys (s : Store A K) (node succ z : A) : ((taken s node succ).mem z).key = (s.mem z).key := by
  unfold taken
  rw [paintKeys,setChildKeys,setChildKeys,setParentKeys]

theorem transplantKeys (s : Store A K) (node succ z : A) : ((transplant s node succ).mem z).key = (s.mem z).key := by
  obtain ⟨linked,links⟩ : ∃ linked : Store A K, (if ((taken s node succ).mem node).parent ≠ (taken s node succ).null then
      (taken s node succ).relink ((taken s node succ).mem node).parent node succ else taken s node succ) = linked := ⟨_,rfl⟩
  have kept : (linked.mem z).key = (s.mem z).key := by
    rw [← links]
    split
    · rw [relinkKeys,takenKeys]
    · exact takenKeys _ _ _ _
  have first := (adoptKeys linked (linked.mem node).left succ z).trans kept
  have adopted := (adoptKeys (adopt linked (linked.mem node).left succ)
    ((adopt linked (linked.mem node).left succ).mem node).right succ z).trans first
  rw [transplantSteps s node succ links rfl rfl]
  split <;> exact adopted

theorem transplantFocus (focus : Focus s keyOf sentinel (.node color l a r) path) (real : b ≠ s.null)
    (outside : b ∉ (ColouredTree.node color l a r).toList ++ pathList path) :
    Focus (transplant s a b) keyOf sentinel (.node color l b r) path ∧ (transplant s a b).null = s.null := by
  have apart : a ≠ b := by
    rintro rfl
    exact outside (List.mem_append_left _ (List.mem_append_right _ List.mem_cons_self))
  have moved := transplanted focus apart
  have taken := takenCells (s := s) apart
  have keys := transplantKeys s a b
  obtain ⟨⟨realA,cell,first,second⟩,above,distinct,ground⟩ := focus
  have away : b ∉ l.toList ∧ b ∉ r.toList ∧ b ∉ pathList path := by
    simp only [ColouredTree.toList,List.mem_append,List.mem_cons,not_or] at outside
    exact ⟨outside.1.1,outside.1.2.2,outside.2⟩
  have flat := distinct
  rw [List.nodup_append,ColouredTree.toList,List.nodup_middle,List.nodup_cons,List.mem_append,not_or,
    List.nodup_append] at flat
  obtain ⟨⟨⟨outsideL,outsideR⟩,nodupL,nodupR,siblings⟩,nodupUp,up⟩ := flat
  have inPath : ∀ z ∈ pathList path, z ≠ b ∧ z ∉ l.toList ∧ z ∉ r.toList := by
    intro z member
    refine ⟨?_,fun also => ?_,fun also => ?_⟩
    · rintro rfl
      exact away.2.2 member
    · exact up z (List.mem_append_left _ also) z member rfl
    · exact up z (List.mem_append_right _ (List.mem_cons_of_mem _ also)) z member rfl
  have above' : Above s.null s.root (RbNodes.taken s a b).mem a path :=
    aboveCongr above fun z member => taken.2 z (inPath z member).1
  have outsideA : a ∉ pathList path := fun also => up a (List.mem_append_right _ List.mem_cons_self) a also rfl
  have linked : Above s.null ((RbNodes.taken s a b).relink (parentOf s.null path) a b).root
      ((RbNodes.taken s a b).relink (parentOf s.null path) a b).mem b path :=
    aboveRelinked (s := RbNodes.taken s a b) b above' realA outsideA nodupUp
  have relinked : ∀ z, z ∉ pathList path → ((RbNodes.taken s a b).relink (parentOf s.null path) a b).mem z =
      (RbNodes.taken s a b).mem z := by
    intro z outside
    by_cases same : z = s.null
    · exact relinkOther (.inr same)
    · exact relinkOther (.inl (outsideParent same outside))
  rw [← moved.root] at linked
  have moves := moved.others
  have atB : (transplant s a b).mem b = { s.mem a with key := (s.mem b).key } := by
    rw [moves b (outsideTop away.1) (outsideTop away.2.1),relinked b away.2.2,taken.1]
  have inLeft : ∀ z ∈ l.toList, z ≠ b ∧ z ∉ r.toList ∧ z ∉ pathList path := by
    intro z member
    refine ⟨?_,fun also => siblings z member z also rfl,fun also => (inPath z also).2.1 member⟩
    rintro rfl
    exact away.1 member
  have inRight : ∀ z ∈ r.toList, z ≠ b ∧ z ∉ l.toList ∧ z ∉ pathList path := by
    intro z member
    refine ⟨?_,fun also => siblings z also z member rfl,fun also => (inPath z also).2.2 member⟩
    rintro rfl
    exact away.2.1 member
  refine ⟨⟨?_,?_,?_,?_⟩,moved.null⟩
  · rw [moved.null]
    refine ⟨real,?_,shapeMoved first nodupL ?_ ?_,shapeMoved second nodupR ?_ ?_⟩
    · rw [atB]
      exact ⟨cell.near,cell.far,cell.parent,cell.color⟩
    · intro some
      have facts := inLeft _ (topMember s.null some)
      rw [moved.left some,relinked _ facts.2.2,taken.2 _ facts.1]
    · intro z member other
      have facts := inLeft z member
      rw [moves z (.inl other) (outsideTop facts.2.1),relinked z facts.2.2,taken.2 z facts.1]
    · intro some
      have facts := inRight _ (topMember s.null some)
      rw [moved.right some,relinked _ facts.2.2,taken.2 _ facts.1]
    · intro z member other
      have facts := inRight z member
      rw [moves z (outsideTop facts.2.1) (.inl other),relinked z facts.2.2,taken.2 z facts.1]
  · rw [moved.null]
    refine aboveCongr linked fun z member => ?_
    exact moves z (outsideTop (inPath z member).2.1) (outsideTop (inPath z member).2.2)
  · have exchanged : ∀ c : A, ((ColouredTree.node color l c r).toList ++ pathList path).Perm
        (c :: ((l.toList ++ r.toList) ++ pathList path)) := fun c => List.perm_middle.append_right _
    refine (exchanged b).nodup_iff.mpr (List.nodup_cons.mpr ⟨?_,(List.nodup_cons.mp ((exchanged a).nodup_iff.mp distinct)).2⟩)
    simp only [List.mem_append,not_or]
    exact ⟨⟨away.1,away.2.1⟩,away.2.2⟩
  · have same : (transplant s a b).mem s.null = s.mem s.null := by
      rw [moves s.null (.inr rfl) (.inr rfl),relinked s.null (aboveReal above),taken.2 s.null (Ne.symm real)]
    refine ground.keep moved.null ?_ ?_ ?_ keys
    · rw [same]
    · rw [same]
    · rw [same,ground.color]

theorem eraseSteps {node succ child : A} {unlinked moved : Store A K} (finds : tree.leaving node = some succ)
    (goesUp : (if (tree.store.mem succ).left ≠ tree.store.null then (tree.store.mem succ).left else (tree.store.mem succ).right)
      = child) (unlinks : unlink tree.store (tree.store.mem succ).parent succ child = unlinked)
    (moves : (if succ ≠ node then transplant unlinked node succ else unlinked) = moved) :
    tree.erase node = settle tree.size moved (moved.mem succ).color child := by
  subst goesUp unlinks moves
  unfold Rbtree.erase
  simp only [finds,Option.bind_eq_bind,Option.bind_some]
  rfl

omit [DecidableEq A] in
theorem raisedBlack {g h : Frame A} {c : Color} (raised : Rb.raiseSibling sentinel g = (c, f, some h)) : h.color = .black := by
  unfold Rb.raiseSibling at raised
  split at raised
  · split at raised
    · cases raised
    · cases raised
      rfl
  · cases raised

omit [DecidableEq A] in
theorem deleteFixupBlack {path : List (Frame A)} (rooted : ∀ f, path.getLast? = some f → f.color = .black)
    (real : t.isNull = false) (sentinel : Color) : (Rb.deleteFixup sentinel t path).color = .black := by
  induction path generalizing t sentinel with
  | nil => exact paintedColor .black real
  | cons f rest ih =>
    have plugged : ∀ (g : Frame A) (t : ColouredTree A), g.color = .black → (plug t (g :: rest)).color = .black := by
      intro g t black
      cases rest with
      | nil => exact (closeColor g t).trans black
      | cons h rest =>
        obtain ⟨l,last⟩ : ∃ l, (h :: rest).getLast? = some l := ⟨_,List.getLast?_eq_some_getLast (List.cons_ne_nil h rest)⟩
        have last' : (g :: h :: rest).getLast? = some l := last
        exact (plugLast last' t).trans (rooted l last)
    by_cases red : t.color = .red
    · rw [Rb.deleteFixup,if_pos red]
      obtain ⟨l,last⟩ : ∃ l, (f :: rest).getLast? = some l := ⟨_,List.getLast?_eq_some_getLast (List.cons_ne_nil f rest)⟩
      exact (plugLast last _).trans (rooted l last)
    · rcases result : Rb.raiseSibling sentinel f with ⟨c,g,above⟩
      rw [deleteFixupRound red result]
      split
      · cases above with
        | none =>
          refine ih ?_ (closeSome _ t) _
          intro l last
          refine rooted l ?_
          cases rest with
          | nil => cases last
          | cons => exact last
        | some h => exact plugged h _ (raisedBlack result)
      · exact paintedColor .black (plugSome (by rw [rotateSome,closeSome]) _)

/- The frames leave the root black, and where there are none, the node that goes was black. -/
structure Rooted (color : Color) (path : List (Frame A)) : Prop where
  last : ∀ f, path.getLast? = some f → f.color = .black
  alone : path = [] → color = .black

omit [DecidableEq A] in
theorem repairBlack (rooted : Rooted color path) (child : ColouredTree A) : (Rb.repair color child path).color = .black := by
  have plugged : path ≠ [] → (plug child path).color = .black := by
    intro some
    obtain ⟨l,last⟩ : ∃ l, path.getLast? = .some l := ⟨_,List.getLast?_eq_some_getLast some⟩
    exact (plugLast last _).trans (rooted.last l last)
  unfold Rb.repair
  split
  · exact deleteFixupBlack rooted.last rfl .black
  next other =>
    by_cases none : path = []
    · subst none
      rw [rooted.alone rfl] at other
      cases child with
      | null => rfl
      | node c l k r => exact absurd rfl (other c l k r rfl)
    · exact plugged none

theorem settleRepairs (focus : Focus s keyOf .black child path) (enough : path.length ≤ size) :
    ∃ tree' : Rbtree A K, settle size s color (top s.null child) = some tree' ∧ tree'.store.null = s.null ∧ tree'.size = size - 1 ∧
      Focus tree'.store keyOf .black (Rb.repair color child path) [] := by
  unfold settle
  cases color with
  | red => exact ⟨_,rfl,rfl,rfl,focusPlug.mp focus⟩
  | black =>
    rw [if_pos rfl]
    cases child with
    | null =>
      refine ⟨_,congrArg (Option.map _) (if_neg (not_not_intro rfl)),rfl,rfl,?_⟩
      exact focusPlug.mp (focus.paintNull .black)
    | node c l k =>
      have real : k ≠ s.null := focus.topReal rfl
      obtain ⟨s',c',fixed,after⟩ := deleteLoops focus rfl enough
      have null := deleteFixupNull fixed
      refine ⟨_,congrArg (Option.map _) ((if_pos real).trans fixed),null,rfl,?_⟩
      exact after.paintNull .black

omit [DecidableEq A] in
theorem focusAppend : Focus s keyOf sentinel t (inner ++ path) ↔ Focus s keyOf sentinel (plug t inner) path := by
  induction inner generalizing t with
  | nil => exact Iff.rfl
  | cons f rest ih => exact focusUp.trans ih

theorem Held.eraseSole (held : Held tree keyOf rb) (side : Side)
    (focus : Focus tree.store keyOf .black (Frame.close ⟨side,color,a,.null⟩ child) path)
    (whole : plug (Frame.close ⟨side,color,a,.null⟩ child) path = rb.root) :
    ∃ tree', tree.erase a = some tree' ∧ tree'.store.null = tree.store.null ∧ tree'.size = tree.size - 1 ∧
      Focus tree'.store keyOf .black (Rb.repair color child path) [] := by
  have down := focusUp.mpr focus
  have cell := down.cell
  have sole : (tree.store.mem a).left = tree.store.null ∨ (tree.store.mem a).right = tree.store.null := by
    cases side with
    | left => exact .inr cell.far
    | right => exact .inl cell.far
  have goesUp : (if (tree.store.mem a).left ≠ tree.store.null then (tree.store.mem a).left else (tree.store.mem a).right) =
      top tree.store.null child := by
    cases side with
    | left =>
      have left : (tree.store.mem a).left = top tree.store.null child := cell.near
      have right : (tree.store.mem a).right = tree.store.null := cell.far
      rw [left,right]
      split
      next => rfl
      next none => exact (not_not.mp none).symm
    | right =>
      have left : (tree.store.mem a).left = tree.store.null := cell.far
      have right : (tree.store.mem a).right = top tree.store.null child := cell.near
      rw [left,right]
      exact if_neg (not_not_intro rfl)
  have parent : (tree.store.mem a).parent = parentOf tree.store.null path := cell.parent
  obtain ⟨unlinked,unlinks⟩ : ∃ unlinked, unlink tree.store (tree.store.mem a).parent a (top tree.store.null child) =
    unlinked := ⟨_,rfl⟩
  have steps := eraseSteps (if_pos sole) goesUp unlinks (if_neg (not_not_intro rfl))
  rw [parent] at unlinks
  obtain ⟨after,null,same⟩ := unlinkFocus focus unlinks
  rw [same,cell.color] at steps
  have enough : path.length ≤ tree.size := by
    rw [held.size,← whole,plugSize]
    exact Nat.le_trans (pathLength path) (Nat.le_add_left _ _)
  obtain ⟨tree',settled,null',size,done⟩ := settleRepairs after enough
  rw [null] at settled
  exact ⟨tree',steps.trans settled,null'.trans null,size,done⟩

omit [DecidableEq A] in
theorem successorFirst {lc : Color} {lk : A} {ll lr : ColouredTree A} {sc : Color} {sk : A}
    (found : Rb.successor lc lk lr ll [] = (sc, sk, child, inner)) :
    plug (.node sc .null sk child) inner = .node lc ll lk lr ∧ ∃ rest, (ColouredTree.node lc ll lk lr).toList = sk :: rest := by
  have whole := successorPlug lc lk lr ll []
  have moved := successorOnward lc lk lr ll []
  rw [found] at whole moved
  refine ⟨whole,?_⟩
  have listed := plugList (.node sc .null sk child) inner
  rw [whole,moved] at listed
  exact ⟨_,listed⟩

theorem Held.eraseInner (held : Held tree keyOf rb) {lc sc : Color}
    {lk sk : A} {ll lr : ColouredTree A} (below : r = .node lc ll lk lr)
    (focus : Focus tree.store keyOf .black (.node color l a r) path) (real : l.isNull = false)
    (whole : plug (.node color l a r) path = rb.root) (found : Rb.successor lc lk lr ll [] = (sc, sk, child, inner)) :
    ∃ tree', tree.erase a = some tree' ∧ tree'.store.null = tree.store.null ∧ tree'.size = tree.size - 1 ∧
      Focus tree'.store keyOf .black (Rb.repair color child (inner ++ ⟨.right,color,sk,l⟩ :: path)) [] := by
  obtain ⟨closed,rest,first⟩ := successorFirst found
  rw [← below] at closed first
  have right : Focus tree.store keyOf .black r (⟨.right,color,a,l⟩ :: path) := focusUp.mpr focus
  have realR : r.isNull = false := by rw [below]; rfl
  have grown : plug r (⟨.right,color,a,l⟩ :: path) = rb.root := whole
  -- the successor is the one that the loop finds
  obtain ⟨b,rest',first',ends⟩ := held.outermost right realR grown .left
  obtain ⟨rfl,-⟩ : b = sk ∧ rest' = rest := List.cons.inj (first'.symm.trans first)
  have finds : tree.leaving a = some b := by
    have first : (tree.store.mem a).left ≠ tree.store.null := by
      rw [show (tree.store.mem a).left = top tree.store.null l from right.cell.far]
      exact (focusAcross.mp right).topReal real
    have second : (tree.store.mem a).right = top tree.store.null r := right.cell.near
    unfold Rbtree.leaving
    rw [second]
    refine (if_neg ?_).trans ends
    rintro (none | none)
    · exact first none
    · exact right.topReal realR none
  have down : Focus tree.store keyOf .black (Frame.close ⟨.right,sc,b,.null⟩ child) (inner ++ ⟨.right,color,a,l⟩ :: path) := by
    rw [focusAppend]
    show Focus tree.store keyOf .black (plug (.node sc .null b child) inner) _
    rw [closed]
    exact right
  have atB := (focusUp.mpr down).cell
  have realB : b ≠ tree.store.null := (focusUp.mpr down).real
  have parent : (tree.store.mem b).parent = parentOf tree.store.null (inner ++ ⟨.right,color,a,l⟩ :: path) := atB.parent
  have goesUp : (if (tree.store.mem b).left ≠ tree.store.null then (tree.store.mem b).left else (tree.store.mem b).right) =
      top tree.store.null child := by
    have left : (tree.store.mem b).left = tree.store.null := atB.far
    have right : (tree.store.mem b).right = top tree.store.null child := atB.near
    rw [left,right]
    exact if_neg (not_not_intro rfl)
  have flat := down.distinct
  obtain ⟨unlinked,unlinks⟩ : ∃ unlinked, unlink tree.store (tree.store.mem b).parent b (top tree.store.null child) =
    unlinked := ⟨_,rfl⟩
  have apart : b ∉ (ColouredTree.node color l a (plug child inner)).toList ++ pathList path := by
    intro member
    have inside := (plugPerm _ path).mem_iff.mpr member
    have joined : plug (.node color l a (plug child inner)) path = plug child (inner ++ ⟨.right,color,a,l⟩ :: path) :=
      (plugAppend child inner (⟨.right,color,a,l⟩ :: path)).symm
    rw [joined,(plugPerm child _).mem_iff] at inside
    exact (List.nodup_cons.mp flat).1 inside
  have other : b ≠ a := by
    rintro rfl
    exact apart (List.mem_append_left _ (List.mem_append_right _ List.mem_cons_self))
  have steps := eraseSteps finds goesUp unlinks (if_pos other)
  rw [parent] at unlinks
  obtain ⟨after,null,same⟩ := unlinkFocus down unlinks
  rw [focusAppend,focusUp] at after
  obtain ⟨moved,null'⟩ := transplantFocus (b := b) after (null.symm ▸ realB) apart
  have after' : Focus (transplant unlinked a b) keyOf .black child (inner ++ ⟨.right,color,b,l⟩ :: path) := by
    rw [focusAppend,focusUp]
    exact moved
  have enough : (inner ++ (⟨.right,color,b,l⟩ :: path : List (Frame A))).length ≤ tree.size := by
    have most := pathLength (inner ++ (⟨.right,color,b,l⟩ :: path : List (Frame A)))
    have outer := plugSize r (⟨.right,color,a,l⟩ :: path)
    have within := plugSize (.node sc .null b child) inner
    rw [grown] at outer
    rw [closed] at within
    rw [Rb.pathSizeAppend] at most
    simp only [pathSize] at most outer
    rw [held.size]
    omega
  obtain ⟨tree',settled,null'',size,done⟩ := settleRepairs after' enough
  rw [null',null] at settled
  rw [moved.below.2.1.color] at steps
  exact ⟨tree',steps.trans settled,null''.trans (null'.trans null),size,done⟩

theorem Held.eraseRepairs (held : Held tree keyOf rb) {way : List Side}
    (found : Rb.locate rb.root way [] = (.node color l a r, path))
    (focus : Focus tree.store keyOf .black (.node color l a r) path) (whole : plug (.node color l a r) path = rb.root)
    (rooted : Rooted color path) :
    ∃ tree' child above, tree.erase a = some tree' ∧ tree'.store.null = tree.store.null ∧ tree'.size = tree.size - 1 ∧
      Focus tree'.store keyOf .black (Rb.repair color child above) [] ∧ Rooted color above ∧
      rb.erase way = ⟨Rb.repair color child above,rb.size - 1⟩ := by
  unfold RbTree.erase
  rw [found]
  cases left : l with
  | null =>
    rw [left] at focus whole
    obtain ⟨tree',erases,null,size,done⟩ := held.eraseSole .right focus whole
    exact ⟨tree',r,path,erases,null,size,done,rooted,rfl⟩
  | node =>
    cases right : r with
    | null =>
      rw [right] at focus whole
      obtain ⟨tree',erases,null,size,done⟩ := held.eraseSole .left focus whole
      exact ⟨tree',l,path,erases,null,size,done,rooted,by rw [left]⟩
    | node rc rl rk rr =>
      rcases result : Rb.successor rc rk rr rl [] with ⟨sc,sk,child,inner⟩
      obtain ⟨tree',erases,null,size,done⟩ := held.eraseInner right focus (by rw [left]; rfl) whole result
      refine ⟨tree',child,_,erases,null,size,done,?_,?_⟩
      · constructor
        · intro f last
          rw [List.getLast?_append_cons] at last
          cases path with
          | nil =>
            cases last
            exact rooted.alone rfl
          | cons => exact rooted.last f last
        · intro none
          exact absurd none (by simp)
      · dsimp only
        rw [result,left]

theorem Held.erase (held : Held tree keyOf rb) (member : a ∈ rb.root.toList) :
    ∃ tree' rb', tree.erase a = some tree' ∧ tree'.store.null = tree.store.null ∧ Held tree' keyOf rb' ∧
      (∃ x y, rb.root.toList = x ++ a :: y ∧ rb'.root.toList = x ++ y) ∧ ∃ way, rb' = rb.erase way := by
  obtain ⟨way,c,l,r,path,found⟩ := locateMember member []
  have whole := locatePlug rb.root way []
  rw [found] at whole
  change plug (.node c l a r) path = rb.root at whole
  have focus : Focus tree.store keyOf .black (.node c l a r) path := by
    refine focusPlug.mpr ?_
    rw [whole]
    exact held.focus
  have rooted : Rooted c path := by
    constructor
    · intro f last
      rw [← plugLast last (.node c l a r),whole]
      exact held.black
    · intro none
      subst none
      have black := held.black
      rw [← whole] at black
      exact black
  obtain ⟨x,y,before,after⟩ := eraseList found
  obtain ⟨tree',child,above,erases,null,size,done,rooted',same⟩ := held.eraseRepairs found focus whole rooted
  have fewer : (Rb.repair c child above).size = rb.root.size - 1 := by
    rw [same] at after
    rw [← listLength,← listLength,before,after]
    simp only [List.length_append,List.length_cons]
    omega
  refine ⟨tree',rb.erase way,erases,null,?_,⟨x,y,before,after⟩,way,rfl⟩
  rw [same]
  refine ⟨done,?_,?_,repairBlack rooted' child⟩
  · rw [size,held.size,fewer]
  · rw [held.count,fewer]

end Pjproject.RbNodes
