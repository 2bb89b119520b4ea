import Pjproject.RbOrder

/-! The calls on linked nodes: each is the call on the tree that the nodes form. A search ends where the search in the tree
does, an insertion hangs a red leaf there, and an erasure unlinks a node with at most one child. -/
namespace Pjproject.RbNodes
open Lib.RedBlack Lib.LinkedTree
open Rb (RbTree)

variable {A K : Type} [DecidableEq A] {comp : K → K → Int} {s : Store A K} {keyOf : A → K} {sentinel : Color}
  {t : ColouredTree A} {path : List (Frame A)}

/- The tree that the nodes form; its root is black between two calls. -/
structure Held (tree : Rbtree A K) (keyOf : A → K) (rb : RbTree A) : Prop where
  focus : Focus tree.store keyOf .black rb.root []
  size : tree.size = rb.root.size
  count : rb.size = rb.root.size
  black : rb.root.color = .black

/- The side of a place is what the last comparison says. -/
def Turned (path : List (Frame A)) (rv : Int) : Prop :=
  ∀ f rest, path = f :: rest → f.side = if rv < 0 then .left else .right

variable {rv : Int} {tree : Rbtree A K} {rb : RbTree A} {e : A} {s' : Store A K}

theorem searchSeeks (comp : K → K → Int) (key : K) {fuel : Nat} (focus : Focus s keyOf sentinel t path) (enough : t.size ≤ fuel)
    (turned : Turned path rv) : ∃ parent rv', search comp s key fuel (parentOf s.null path) (top s.null t) rv =
        some (if (seek comp keyOf key t path).1.isNull then none else some (top s.null (seek comp keyOf key t path).1),
          parent, rv') ∧
      ((seek comp keyOf key t path).1.isNull → parent = parentOf s.null (seek comp keyOf key t path).2 ∧
        Turned (seek comp keyOf key t path).2 rv') := by
  induction t generalizing fuel path rv with
  | null =>
    refine ⟨parentOf s.null path,rv,?_,fun _ => ⟨rfl,turned⟩⟩
    unfold search
    exact if_pos rfl
  | node c l a r left right =>
    have real : a ≠ s.null := focus.topReal rfl
    have cell := focus.below.2.1
    have keyed : (s.mem a).key = keyOf a := focus.ground.keys a
    obtain ⟨fuel,rfl⟩ : ∃ n, fuel = n + 1 := ⟨fuel - 1,by simp only [ColouredTree.size] at enough; omega⟩
    simp only [ColouredTree.size] at enough
    have first : (s.mem a).left = top s.null l := cell.near
    have second : (s.mem a).right = top s.null r := cell.far
    have round : search comp s key (fuel + 1) (parentOf s.null path) a rv =
        if comp key (keyOf a) = 0 then some (some a, parentOf s.null path, comp key (keyOf a))
        else search comp s key fuel a (if comp key (keyOf a) < 0 then top s.null l else top s.null r) (comp key (keyOf a)) := by
      rw [search,if_neg real]
      simp only [keyed,first,second]
    show ∃ parent rv', search comp s key (fuel + 1) (parentOf s.null path) a rv = _ ∧ _
    rw [round]
    unfold seek
    split
    · exact ⟨_,_,rfl,fun none => by cases none⟩
    · split
      next less =>
        have down : Focus s keyOf sentinel l (⟨.left,c,a,r⟩ :: path) := focusUp.mpr focus
        refine left down (by omega) ?_
        intro f rest same
        cases same
        exact (if_pos less).symm
      next more =>
        have down : Focus s keyOf sentinel r (⟨.right,c,a,l⟩ :: path) := focusUp.mpr focus
        refine right down (by omega) ?_
        intro f rest same
        cases same
        exact (if_neg more).symm

theorem Held.find (held : Held tree keyOf rb) (key : K) :
    tree.find comp key = some (if (seek comp keyOf key rb.root []).1.isNull then none
      else some (top tree.store.null (seek comp keyOf key rb.root []).1)) := by
  have root : tree.store.root = top tree.store.null rb.root := held.focus.above
  have start : Turned (A := A) [] 0 := fun f rest same => nomatch same
  obtain ⟨parent,rv,searched,_⟩ := searchSeeks comp key held.focus (Nat.le_of_eq held.size.symm) start
  unfold Rbtree.find
  rw [root]
  exact congrArg (Option.map Prod.fst) searched

theorem leafFocus {f : Frame A} (focus : Focus s keyOf sentinel .null (f :: path)) (real : e ≠ s.null)
    (outside : e ∉ pathList (f :: path))
    (hung : ((((s.paint e .red).setChild e .left s.null).setChild e .right s.null).setParent e f.key).setChild f.key f.side e =
      s') : Focus s' keyOf sentinel (.node .red .null e .null) (f :: path) := by
  obtain ⟨_,⟨parent,cell,other,above⟩,distinct,ground⟩ := focus
  have apart : f.key ≠ e := by
    rintro rfl
    exact outside List.mem_cons_self
  have null : s'.null = s.null := by subst hung; rfl
  have root : s'.root = s.root := by subst hung; rfl
  have atLeaf : s'.mem e = ⟨s.null,s.null,f.key,.red,(s.mem e).key⟩ := by
    subst hung
    simp [Store.setChild,Store.setParent,Store.paint,Node.setChild,Function.update_of_ne (Ne.symm apart)]
  have atParent : s'.mem f.key = (s.mem f.key).setChild f.side e := by
    subst hung
    simp [Store.setChild,Store.setParent,Store.paint,Function.update_of_ne apart]
  have others : ∀ z, z ≠ e → z ≠ f.key → s'.mem z = s.mem z := by
    intro z first second
    subst hung
    simp [Store.setChild,Store.setParent,Store.paint,Function.update_of_ne first,Function.update_of_ne second]
  have keys : ∀ z, (s'.mem z).key = (s.mem z).key := by
    intro z
    subst hung
    rw [setChildKeys,setParentKeys,setChildKeys,setChildKeys,paintKeys]
  have away := outside
  rw [pathList,List.mem_cons,List.mem_append,not_or,not_or] at outside
  have rest := (List.nodup_append.mp distinct).2.1
  rw [pathList,List.nodup_cons,List.mem_append,not_or] at rest
  have kept : ∀ {l : List A}, e ∉ l → f.key ∉ l → ∀ z ∈ l, s'.mem z = s.mem z := by
    intro l first second z member
    refine others z ?_ ?_
    · rintro rfl
      exact first member
    · rintro rfl
      exact second member
  refine ⟨⟨?_,?_,trivial,trivial⟩,⟨?_,?_,?_,?_⟩,?_,?_⟩
  · rw [null]
    exact real
  · rw [atLeaf,null]
    exact ⟨rfl,rfl,rfl,rfl⟩
  · rw [null]
    exact parent
  · rw [atParent,null]
    exact ⟨childSet _ _ _,(childFlipSet _ _ _).trans cell.far,(parentSet _ _ _).trans cell.parent,
      (colorSet _ _ _).trans cell.color⟩
  · rw [null]
    exact shapeCongr other (kept outside.2.1 rest.1.1)
  · rw [null,root]
    exact aboveCongr above (kept outside.2.2 rest.1.2)
  · refine List.nodup_cons.mpr ⟨?_,?_⟩
    · exact away
    · exact distinct
  · have same : s'.mem s.null = s.mem s.null := others s.null (Ne.symm real) (Ne.symm parent)
    refine ground.keep null ?_ ?_ ?_ keys
    · rw [same]
    · rw [same]
    · rw [same,ground.color]

theorem soleFocus (focus : Focus s keyOf .black .null []) (real : e ≠ s.null)
    (hung : (({ ((s.paint e .red).setChild e .left s.null).setChild e .right s.null with root := e } : Store A K).setParent e
      s.null).paint e .black = s') : Focus s' keyOf .black (.node .black .null e .null) [] := by
  have null : s'.null = s.null := by subst hung; rfl
  have root : s'.root = e := by subst hung; rfl
  have atLeaf : s'.mem e = ⟨s.null,s.null,s.null,.black,(s.mem e).key⟩ := by
    subst hung
    simp [Store.setChild,Store.setParent,Store.paint,Node.setChild]
  have others : ∀ z, z ≠ e → s'.mem z = s.mem z := by
    intro z first
    subst hung
    simp [Store.setChild,Store.setParent,Store.paint,Function.update_of_ne first]
  have keys : ∀ z, (s'.mem z).key = (s.mem z).key := by
    intro z
    by_cases same : z = e
    · rw [same,atLeaf]
    · rw [others z same]
  refine ⟨⟨?_,?_,trivial,trivial⟩,root,List.nodup_singleton e,?_⟩
  · rw [null]
    exact real
  · rw [atLeaf,null]
    exact ⟨rfl,rfl,rfl,rfl⟩
  · have same : s'.mem s.null = s.mem s.null := others s.null (Ne.symm real)
    refine focus.ground.keep null ?_ ?_ ?_ keys
    · rw [same]
    · rw [same]
    · rw [same,focus.ground.color]

omit [DecidableEq A] in
theorem seekOutside (total : Total comp) {out : List (Frame A)} (around : Around comp keyOf (keyOf e) out) :
    e ∉ pathList out := by
  intro member
  have inside := (plugPerm .null out).mem_iff.mpr member
  rw [plugList] at inside
  have equal := total.same (keyOf e)
  rcases List.mem_append.mp inside with before | after
  · rcases List.mem_append.mp before with near | none
    · have above := around.left e (List.mem_reverse.mp near)
      omega
    · cases none
  · have below := around.right e after
    omega

theorem Held.searched (held : Held tree keyOf rb) (comp : K → K → Int) (e : A) :
    ∃ parent rv, search comp tree.store (tree.store.mem e).key tree.size tree.store.null tree.store.root 0 =
        some (if (seek comp keyOf (keyOf e) rb.root []).1.isNull then none
          else some (top tree.store.null (seek comp keyOf (keyOf e) rb.root []).1), parent, rv) ∧
      ((seek comp keyOf (keyOf e) rb.root []).1.isNull →
        parent = parentOf tree.store.null (seek comp keyOf (keyOf e) rb.root []).2 ∧
          Turned (seek comp keyOf (keyOf e) rb.root []).2 rv) := by
  have root : tree.store.root = top tree.store.null rb.root := held.focus.above
  have start : Turned (A := A) [] 0 := fun f rest same => nomatch same
  rw [held.focus.ground.keys,root]
  exact searchSeeks comp (keyOf e) held.focus (Nat.le_of_eq held.size.symm) start

theorem Held.insertFound (held : Held tree keyOf rb)
    (found : (seek comp keyOf (keyOf e) rb.root []).1.isNull = false) : tree.insert comp e = some (tree, -1) := by
  obtain ⟨parent,rv,searched,_⟩ := held.searched comp e
  rw [found] at searched
  unfold Rbtree.insert
  simp only [searched,Option.bind_eq_bind,Option.bind_some]
  rfl

theorem insertBelow {parent : A} {side : Side} {hung : Store A K}
    (searched : search comp tree.store (tree.store.mem e).key tree.size tree.store.null tree.store.root 0 =
      some (none, parent, rv)) (real : parent ≠ tree.store.null) (turned : (if rv < 0 then Side.left else .right) = side)
    (hangs : ((((tree.store.paint e .red).setChild e .left tree.store.null).setChild e .right tree.store.null).setParent e
      parent).setChild parent side e = hung) (fixed : insertFixup tree.size hung e = some s') :
    tree.insert comp e = some (⟨s',tree.size + 1⟩, 0) := by
  subst turned hangs
  unfold Rbtree.insert
  simp only [searched,Option.bind_eq_bind,Option.bind_some]
  refine (if_pos real).trans ?_
  show (insertFixup tree.size (((((tree.store.paint e .red).setChild e .left tree.store.null).setChild e .right
    tree.store.null).setParent e parent).setChild parent (if rv < 0 then .left else .right) e) e).bind _ = _
  rw [fixed]
  rfl

theorem insertSole
    (searched : search comp tree.store (tree.store.mem e).key tree.size tree.store.null tree.store.root 0 =
      some (none, tree.store.null, rv))
    (hangs : (({ ((tree.store.paint e .red).setChild e .left tree.store.null).setChild e .right tree.store.null with
      root := e } : Store A K).setParent e tree.store.null).paint e .black = s') :
    tree.insert comp e = some (⟨s',tree.size + 1⟩, 0) := by
  subst hangs
  unfold Rbtree.insert
  simp only [searched,Option.bind_eq_bind,Option.bind_some]
  exact if_neg (not_not_intro rfl)

theorem Held.insertMissing (held : Held tree keyOf rb) (total : Total comp)
    (real : e ≠ tree.store.null) (ascending : Ascending comp keyOf rb.root.toList)
    (missing : (seek comp keyOf (keyOf e) rb.root []).1.isNull = true) :
    ∃ tree', tree.insert comp e = some (tree', 0) ∧ tree'.store.null = tree.store.null ∧
      Held tree' keyOf (rb.insert (fun a b => comp (keyOf a) (keyOf b)) e) := by
  obtain ⟨parent,rv,searched,place⟩ := held.searched comp e
  have around := (seekAround total ascending (pathAround (keyOf e))).1
  have whole : _ = rb.root := seekPlug comp keyOf (keyOf e) rb.root []
  have descends := descendSeek comp keyOf e rb.root []
  rcases result : seek comp keyOf (keyOf e) rb.root [] with ⟨u,out⟩
  rw [result] at around whole descends searched place missing
  dsimp only at around whole descends searched place missing
  rw [missing] at searched place descends
  obtain ⟨rfl,turned⟩ := place rfl
  obtain rfl := nullOf missing
  have focus : Focus tree.store keyOf .black .null out := by
    refine focusPlug.mpr ?_
    rw [whole]
    exact held.focus
  have outside := seekOutside total around
  have counted := plugSize .null out
  rw [whole] at counted
  unfold RbTree.insert
  rw [descends,if_pos rfl]
  cases out with
  | nil =>
    have empty : rb.root.size = 0 := counted
    refine ⟨_,insertSole searched rfl,rfl,soleFocus focus real rfl,?_,?_,rfl⟩
    · show tree.size + 1 = 1
      rw [held.size,empty]
    · show rb.size + 1 = 1
      rw [held.count,empty]
  | cons f rest =>
    have side : (if rv < 0 then Side.left else Side.right) = f.side := (turned f rest rfl).symm
    have rooted : ∀ p, (f :: rest).getLast? = some p → p.color = .black := by
      intro p last
      rw [← plugLast last .null,whole]
      exact held.black
    have enough : (f :: rest).length ≤ tree.size := by
      rw [held.size,counted]
      exact Nat.le_trans (pathLength _) (Nat.le_add_left _ _)
    obtain ⟨s',fixed,after⟩ := insertLoops (leafFocus focus real outside rfl) rfl rooted enough
    have null := insertFixupNull fixed
    refine ⟨_,insertBelow searched focus.real side rfl fixed,null,after,?_,?_,?_⟩
    · show tree.size + 1 = (Rb.insertFixup _ _).size
      rw [held.size,counted,Rb.insertFixupSize]
      simp only [ColouredTree.size]
      omega
    · show rb.size + 1 = (Rb.insertFixup _ _).size
      rw [held.count,counted,Rb.insertFixupSize]
      simp only [ColouredTree.size]
      omega
    · exact insertFixupBlack rfl (f :: rest)

end Pjproject.RbNodes
