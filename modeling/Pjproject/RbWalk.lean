import Pjproject.RbCalls

/-! The loops over a tree: down along one side to the outermost node, up to the next node on a side, and the walk over all
nodes, which shows them in their order. -/
namespace Pjproject.RbNodes
open Lib.RedBlack Lib.LinkedTree
open Rb (RbTree)

variable {A K : Type} [DecidableEq A] {s : Store A K} {keyOf : A → K} {sentinel : Color} {t : ColouredTree A}
  {path : List (Frame A)}

variable {fuel : Nat} {tree : Rbtree A K} {rb : RbTree A}

theorem outermostFirst (focus : Focus s keyOf sentinel t path) (some : t.isNull = false) (enough : t.size ≤ fuel)
    (side : Side) : ∃ a rest, listFrom side t = a :: rest ∧
      loop (downGoing side s) (fun node => (s.mem node).child side) fuel (top s.null t) = .some a := by
  induction fuel generalizing t path with
  | zero =>
    cases t with
    | null => cases some
    | node => exact absurd enough (Nat.not_succ_le_zero _)
  | succ fuel ih =>
    obtain ⟨c,a,near,far,rfl⟩ := asClosed side some
    have down := focusUp.mpr focus
    have child : (s.mem a).child side = top s.null near := down.cell.near
    rw [listClose,topClose]
    cases real : near.isNull with
    | true =>
      obtain rfl := nullOf real
      refine ⟨a,listFrom side far,?_,loopDone ?_ _⟩
      · cases side <;> rfl
      · refine decide_eq_false (not_not_intro ?_)
        exact child
    | false =>
      have more : downGoing side s a = true := by
        refine decide_eq_true ?_
        rw [child]
        exact down.topReal real
      have left : near.size ≤ fuel := by
        rw [closeSize] at enough
        omega
      obtain ⟨b,rest,first,ends⟩ := ih down real left
      refine ⟨b,rest ++ a :: listFrom side far,?_,?_⟩
      · rw [first,List.cons_append]
      · rw [loopStep more,child]
        exact ends

theorem Held.outermost (held : Held tree keyOf rb)
    (focus : Focus tree.store keyOf sentinel t path) (some : t.isNull = false) (whole : plug t path = rb.root) (side : Side) :
    ∃ a rest, listFrom side t = a :: rest ∧ outermost side tree (top tree.store.null t) = .some a := by
  refine outermostFirst focus some ?_ side
  rw [held.size,← whole,plugSize]
  exact Nat.le_add_right _ _

theorem Held.first (held : Held tree keyOf rb) (side : Side) :
    (RbNodes.outermost side tree tree.store.root).map tree.shown = some (listFrom side rb.root).head? := by
  have root : tree.store.root = top tree.store.null rb.root := held.focus.above
  rw [root]
  cases real : rb.root.isNull with
  | true =>
    have empty := nullOf real
    have focus := held.focus
    rw [empty] at focus ⊢
    have stops : downGoing side tree.store tree.store.null = false := by
      refine decide_eq_false (not_not_intro ?_)
      cases side
      · exact focus.ground.left
      · exact focus.ground.right
    have ends : RbNodes.outermost side tree (top tree.store.null .null) = some tree.store.null := loopDone stops _
    have nothing : (listFrom side (.null : ColouredTree A)).head? = none := by cases side <;> rfl
    rw [ends,nothing]
    exact congrArg some (if_pos rfl)
  | false =>
    obtain ⟨a,rest,first,ends⟩ := held.outermost held.focus real rfl side
    rw [ends,first]
    have member : a ∈ rb.root.toList := by
      have inside : a ∈ listFrom side rb.root := by
        rw [first]
        exact List.mem_cons_self
      cases side with
      | left => exact inside
      | right => exact List.mem_reverse.mp inside
    refine congrArg some (if_neg ?_)
    rintro rfl
    exact shapeReal held.focus.below member

theorem climbEnds (focus : Focus s keyOf sentinel t path) (some : t.isNull = false) (enough : path.length ≤ fuel)
    (side : Side) :
    ∃ node temp, loop (upGoing side s) (fun (_, temp) => (temp, (s.mem temp).parent)) fuel (top s.null t, parentOf s.null path) = .some (node, temp) ∧
      (if temp = s.null then none else .some temp) = (onward side path).head? := by
  induction path generalizing t fuel with
  | nil =>
    have stops : upGoing side s (top s.null t, s.null) = false := decide_eq_false fun more => more.1 rfl
    exact ⟨_,_,loopDone stops _,if_pos rfl⟩
  | cons f rest ih =>
    have real := focus.real
    by_cases same : side = f.side
    · obtain ⟨fuel,rfl⟩ : ∃ n, fuel = n + 1 := ⟨fuel - 1,by simp only [List.length_cons] at enough; omega⟩
      have more : upGoing side s (top s.null t, f.key) = true :=
        decide_eq_true ⟨real,(focus.childIff some side).mpr same⟩
      have left : rest.length ≤ fuel := by
        simp only [List.length_cons] at enough
        omega
      obtain ⟨node,temp,ends,shown⟩ := ih (focusUp.mp focus) (closeSome f t) left
      rw [topClose] at ends
      refine ⟨node,temp,?_,?_⟩
      · refine (loopStep more fuel).trans ?_
        show loop _ _ fuel (f.key, (s.mem f.key).parent) = _
        rw [focus.cell.parent]
        exact ends
      · rw [shown,onward,if_pos same.symm,List.nil_append]
    · have stops : upGoing side s (top s.null t, f.key) = false :=
        decide_eq_false fun more => same ((focus.childIff some side).mp more.2)
      refine ⟨_,_,loopDone stops _,?_⟩
      rw [onward,if_neg (Ne.symm same)]
      exact if_neg real

omit [DecidableEq A] in
theorem listChild (side : Side) (c : Color) (l r : ColouredTree A) (a : A) :
    listFrom side.flip (.node c l a r) = listFrom side.flip ((ColouredTree.node c l a r).child side.flip) ++
      a :: listFrom side.flip ((ColouredTree.node c l a r).child side) := by
  cases side with
  | left => simp [listFrom,Side.flip,ColouredTree.toList,ColouredTree.child]
  | right => rfl

omit [DecidableEq A] in
theorem downChild (side : Side) (c : Color) (l r : ColouredTree A) (a : A) :
    ∃ f : Frame A, f.close ((ColouredTree.node c l a r).child side) = .node c l a r := by
  cases side with
  | left => exact ⟨⟨.left,c,a,r⟩,rfl⟩
  | right => exact ⟨⟨.right,c,a,l⟩,rfl⟩

theorem Held.step (held : Held tree keyOf rb) (side : Side) {a : A} (member : a ∈ rb.root.toList) :
    ∃ before after, listFrom side.flip rb.root = before ++ a :: after ∧ tree.step side a = some after.head? := by
  obtain ⟨way,c,l,r,path,found⟩ := locateMember member []
  have whole := locatePlug rb.root way []
  rw [found] at whole
  change plug (.node c l a r) path = rb.root at whole
  have focus : Focus tree.store keyOf .black (.node c l a r) path := by
    refine focusPlug.mpr ?_
    rw [whole]
    exact held.focus
  have listed := listPlug side.flip (.node c l a r) path
  rw [whole,listChild,flipFlip,List.append_assoc,List.append_assoc,List.cons_append,← List.append_assoc] at listed
  refine ⟨_,_,listed,?_⟩
  have down : (tree.store.mem a).child side = _ := (childFocus focus side).1
  unfold Rbtree.step
  dsimp only
  rw [down]
  cases real : ((ColouredTree.node c l a r).child side).isNull with
  | true =>
    obtain empty := nullOf real
    have enough : path.length ≤ tree.size := by
      rw [held.size,← whole,plugSize]
      exact Nat.le_trans (pathLength path) (Nat.le_add_left _ _)
    obtain ⟨node,temp,ends,shown⟩ := climbEnds focus rfl enough side
    have up : (tree.store.mem a).parent = parentOf tree.store.null path := focus.topParent rfl
    have nothing : listFrom side.flip (.null : ColouredTree A) = [] := by cases side <;> rfl
    rw [empty,nothing,List.nil_append,up,← shown]
    refine (if_neg (not_not_intro rfl)).trans ?_
    exact congrArg (Option.map _) ends
  | false =>
    obtain ⟨f,closed⟩ := downChild side c l r a
    have below : Focus tree.store keyOf .black ((ColouredTree.node c l a r).child side) (f :: path) := by
      rw [focusUp,closed]
      exact focus
    have same : plug ((ColouredTree.node c l a r).child side) (f :: path) = rb.root := by rw [plug,closed,whole]
    obtain ⟨b,rest,first,ends⟩ := held.outermost below real same side.flip
    refine (if_pos (below.topReal real)).trans ?_
    rw [ends,first]
    refine congrArg some (if_neg ?_)
    have inside : b ∈ (onward side.flip path).reverse ++ listFrom side.flip ((ColouredTree.node c l a r).child side.flip) ++
        a :: (listFrom side.flip ((ColouredTree.node c l a r).child side) ++ onward side path) := by
      rw [first]
      exact List.mem_append_right _ (List.mem_cons_of_mem _ List.mem_cons_self)
    rw [← listed] at inside
    rintro rfl
    refine shapeReal held.focus.below ?_
    cases side with
    | left => exact List.mem_reverse.mp inside
    | right => exact inside

omit [DecidableEq A] in
theorem walkOn {step : A → Option (Option A)} {l : List A} (distinct : l.Nodup)
    (steps : ∀ a ∈ l, ∃ before after, l = before ++ a :: after ∧ step a = some after.head?) (before after : List A)
    (split : l = before ++ after) (enough : after.length ≤ fuel) : walk step fuel after.head? = some after := by
  induction after generalizing fuel before with
  | nil => cases fuel <;> rfl
  | cons a after ih =>
    obtain ⟨fuel,rfl⟩ : ∃ n, fuel = n + 1 := ⟨fuel - 1,by simp only [List.length_cons] at enough; omega⟩
    have member : a ∈ l := by
      rw [split]
      exact List.mem_append_right _ List.mem_cons_self
    obtain ⟨before',after',split',stepped⟩ := steps a member
    have apart : a ∉ before ∧ a ∉ after := by
      rw [split,List.nodup_middle,List.nodup_cons,List.mem_append,not_or] at distinct
      exact distinct.1
    obtain ⟨rfl,-,rfl⟩ := (List.append_cons_inj_of_notMem apart.1 apart.2).mp (split.symm.trans split')
    have left : after.length ≤ fuel := Nat.le_of_succ_le_succ enough
    have onward := ih (before ++ [a]) (by rw [split,List.append_assoc,List.singleton_append]) left
    show (step a).bind (fun following => (walk step fuel following).map (a :: ·)) = _
    rw [stepped,Option.bind_some,onward]
    rfl

theorem Held.walk (held : Held tree keyOf rb) (side : Side) :
    ((RbNodes.outermost side tree tree.store.root).map tree.shown).bind (walk (tree.step side.flip) tree.size) =
      some (listFrom side rb.root) := by
  have nodup : rb.root.toList.Nodup := by
    have distinct := held.focus.distinct
    rw [pathList,List.append_nil] at distinct
    exact distinct
  have distinct : (listFrom side rb.root).Nodup := by
    cases side with
    | left => exact nodup
    | right => exact List.nodup_reverse.mpr nodup
  have inside : ∀ a, a ∈ listFrom side rb.root → a ∈ rb.root.toList := by
    intro a member
    cases side with
    | left => exact member
    | right => exact List.mem_reverse.mp member
  have enough : (listFrom side rb.root).length ≤ tree.size := by
    rw [held.size,← listLength]
    cases side with
    | left => exact Nat.le_refl _
    | right => exact Nat.le_of_eq List.length_reverse
  rw [held.first side,Option.bind_some]
  refine walkOn distinct (fun a member => ?_) [] (listFrom side rb.root) rfl enough
  have steps := held.step side.flip (inside a member)
  rw [flipFlip] at steps
  exact steps

end Pjproject.RbNodes
