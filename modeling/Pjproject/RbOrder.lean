import Pjproject.RbLinks

/-! The keys of red-black trees in order: repairs leave the order alone whatever the colours are, an erasure takes out the
key of its node, and a search goes to the place of its key. -/
namespace Pjproject.RbNodes
open Lib.RedBlack
open Rb (RbTree)

variable {α : Type}

def listFrom : Side → ColouredTree α → List α
  | .left, t => t.toList
  | .right, t => t.toList.reverse

/- What comes behind a subtree on a side, nearest first. -/
def onward (side : Side) : List (Frame α) → List α
  | [] => []
  | f :: rest => (if f.side = side then [] else f.key :: listFrom side.flip f.other) ++ onward side rest

variable (side : Side) (t : ColouredTree α)

theorem listClose (color : Color) (a : α) (far near : ColouredTree α) :
    listFrom side (Frame.close ⟨side,color,a,far⟩ near) = listFrom side near ++ a :: listFrom side far := by
  cases side with
  | left => rfl
  | right => simp [listFrom,Frame.close,ColouredTree.toList]

theorem listPlug (t : ColouredTree α) (path : List (Frame α)) :
    listFrom side (plug t path) = (onward side path).reverse ++ listFrom side t ++ onward side.flip path := by
  induction path generalizing t with
  | nil => simp [plug,onward]
  | cons f rest ih =>
    rw [plug,ih]
    obtain ⟨side',color,a,other⟩ := f
    cases side <;> cases side' <;> simp [onward,listFrom,Frame.close,ColouredTree.toList,Side.flip]

theorem plugList (path : List (Frame α)) :
    (plug t path).toList = (onward .left path).reverse ++ t.toList ++ onward .right path := listPlug .left t path

theorem closeAlike {side : Side} {c c' : Color} {a : α} {other other' t t' : ColouredTree α}
    (beside : other'.toList = other.toList) (same : t'.toList = t.toList) :
    (Frame.close ⟨side,c',a,other'⟩ t').toList = (Frame.close ⟨side,c,a,other⟩ t).toList := by
  cases side <;> simp only [Frame.close,ColouredTree.toList,beside,same]

theorem insertFixupList : ∀ (path : List (Frame α)) (node : ColouredTree α),
    (Rb.insertFixup node path).toList = (plug node path).toList
  | [], node => paintList _ _
  | [p], node => paintList _ _
  | p :: g :: rest, node => by
    unfold Rb.insertFixup
    split
    · exact paintList _ _
    · split
      · rw [insertFixupList rest]
        exact plugSame rest (closeAlike (paintList _ _) (closeAlike rfl rfl))
      · rw [paintList]
        refine plugSame rest ((rotateList _ _).trans (closeAlike rfl ((paintList _ _).trans ?_)))
        split
        · exact rotateList _ _
        · rfl

theorem insertFixupBlack : ∀ {node : ColouredTree α}, node.isNull = false → ∀ (path : List (Frame α)),
    (Rb.insertFixup node path).color = .black
  | _, real, [] => paintedColor .black (plugSome real [])
  | _, real, [p] => paintedColor .black (plugSome real [p])
  | node, real, p :: g :: rest => by
    unfold Rb.insertFixup
    split
    · exact paintedColor .black (plugSome real (p :: g :: rest))
    · split
      · exact insertFixupBlack (closeSome _ _) rest
      · exact paintedColor .black (plugSome (by rw [rotateSome,closeSome]) rest)

theorem raiseSiblingList (sentinel : Color) (t : ColouredTree α) (f : Frame α) (path : List (Frame α)) :
    (plug t ((Rb.raiseSibling sentinel f).2.1 :: ((Rb.raiseSibling sentinel f).2.2.toList ++ path))).toList =
      (plug t (f :: path)).toList := by
  unfold Rb.raiseSibling
  split
  · obtain ⟨side,color,a,other⟩ := f
    cases other with
    | null => exact plugSame path (closeAlike rfl rfl)
    | node =>
      refine plugSame path ?_
      cases side <;> simp [Frame.close,ColouredTree.toList]
  · rfl

theorem paintChildList (painted : Color) (t : ColouredTree α) : (paintChild side painted t).toList = t.toList := by
  cases t with
  | null => rfl
  | node => cases side <;> simp only [paintChild,ColouredTree.toList,paintList]

theorem deleteFixupList (path : List (Frame α)) (sentinel : Color) (node : ColouredTree α) :
    (Rb.deleteFixup sentinel node path).toList = (plug node path).toList := by
  induction path generalizing sentinel node with
  | nil => exact paintList _ _
  | cons f rest ih =>
    by_cases red : node.color = .red
    · rw [Rb.deleteFixup,if_pos red]
      exact plugSame _ (paintList _ _)
    · have raised := raiseSiblingList sentinel node f rest
      rcases result : Rb.raiseSibling sentinel f with ⟨c,g,above⟩
      rw [result] at raised
      rw [deleteFixupRound red result,← raised]
      split
      · cases above with
        | none =>
          rw [Option.elim_none,ih]
          exact plugSame rest (closeAlike (paintList _ _) rfl)
        | some h => exact plugSame (h :: rest) ((paintList _ _).trans (closeAlike (paintList _ _) rfl))
      · rw [paintList]
        refine plugSame _ ((rotateList _ _).trans (closeAlike ((paintChildList _ _ _).trans ((paintList _ _).trans ?_)) rfl))
        split
        · rw [rotateList,paintList,paintChildList]
        · rfl

theorem repairList (color : Color) (child : ColouredTree α) (path : List (Frame α)) :
    (Rb.repair color child path).toList = (plug child path).toList := by
  unfold Rb.repair
  split
  · exact deleteFixupList _ _ _
  · rfl

theorem plugAppend (inner path : List (Frame α)) : plug t (inner ++ path) = plug (plug t inner) path := by
  induction inner generalizing t with
  | nil => rfl
  | cons f rest ih => exact ih (f.close t)

theorem successorPlug (c : Color) (k : α) (r l : ColouredTree α) (inner : List (Frame α)) :
    plug (.node (Rb.successor c k r l inner).1 .null (Rb.successor c k r l inner).2.1 (Rb.successor c k r l inner).2.2.1)
      (Rb.successor c k r l inner).2.2.2 = plug (.node c l k r) inner := by
  induction l generalizing c k r inner with
  | null => rfl
  | node c' l' k' r' left => exact left c' k' r' (⟨.left,c,k,r⟩ :: inner)

theorem successorOnward (c : Color) (k : α) (r l : ColouredTree α) (inner : List (Frame α)) :
    onward .left (Rb.successor c k r l inner).2.2.2 = onward .left inner := by
  induction l generalizing c k r inner with
  | null => rfl
  | node c' l' k' r' left => exact left c' k' r' (⟨.left,c,k,r⟩ :: inner)

theorem locatePlug (way : List Side) (path : List (Frame α)) :
    plug (Rb.locate t way path).1 (Rb.locate t way path).2 = plug t path := by
  induction t generalizing way path with
  | null => rfl
  | node c l k r left right =>
    match way with
    | [] => rfl
    | .left :: way => exact left way (⟨.left,c,k,r⟩ :: path)
    | .right :: way => exact right way (⟨.right,c,k,l⟩ :: path)

theorem locateMember {t : ColouredTree α} {a : α} (member : a ∈ t.toList) (path : List (Frame α)) :
    ∃ way c l r above, Rb.locate t way path = (.node c l a r, above) := by
  induction t generalizing path with
  | null => cases member
  | node c l k r left right =>
    rcases List.mem_append.mp member with inside | later
    · obtain ⟨way,found⟩ := left inside (⟨.left,c,k,r⟩ :: path)
      exact ⟨.left :: way,found⟩
    · rcases List.mem_cons.mp later with rfl | inside
      · exact ⟨[],c,l,r,path,rfl⟩
      · obtain ⟨way,found⟩ := right inside (⟨.right,c,k,l⟩ :: path)
        exact ⟨.right :: way,found⟩

theorem eraseList {tree : RbTree α} {way : List Side} {c : Color} {l r : ColouredTree α} {a : α} {path : List (Frame α)}
    (found : Rb.locate tree.root way [] = (.node c l a r, path)) :
    ∃ x y, tree.root.toList = x ++ a :: y ∧ (tree.erase way).root.toList = x ++ y := by
  have whole := locatePlug tree.root way []
  rw [found] at whole
  have before : tree.root.toList = (onward .left path).reverse ++ l.toList ++ a :: (r.toList ++ onward .right path) := by
    rw [← show plug tree.root [] = tree.root from rfl,← whole,plugList]
    simp [ColouredTree.toList]
  refine ⟨_,_,before,?_⟩
  unfold RbTree.erase
  rw [found]
  cases l with
  | null =>
    show (Rb.repair c r path).toList = _
    rw [repairList,plugList]
    simp [ColouredTree.toList]
  | node lc ll lk lr =>
    cases r with
    | null =>
      show (Rb.repair c (.node lc ll lk lr) path).toList = _
      rw [repairList,plugList]
      simp [ColouredTree.toList]
    | node rc rl rk rr =>
      show (Rb.repair c (Rb.successor rc rk rr rl []).2.2.1 ((Rb.successor rc rk rr rl []).2.2.2 ++
        ⟨.right,c,(Rb.successor rc rk rr rl []).2.1,.node lc ll lk lr⟩ :: path)).toList = _
      have whole := congrArg ColouredTree.toList (successorPlug rc rk rr rl [])
      have moved := successorOnward rc rk rr rl []
      generalize Rb.successor rc rk rr rl [] = succ at whole moved ⊢
      obtain ⟨sc,sk,child,inner⟩ := succ
      dsimp only at whole moved ⊢
      have under : (plug child inner).toList = child.toList ++ onward .right inner := by
        rw [plugList,moved]
        rfl
      have right : sk :: (child.toList ++ onward .right inner) = (ColouredTree.node rc rl rk rr).toList := by
        rw [plugList,moved] at whole
        exact whole
      rw [repairList,plugAppend,plug,plugList,← right]
      simp [Frame.close,ColouredTree.toList,under]

section Search
variable {A K : Type} (comp : K → K → Int) (keyOf : A → K)

/- A comparison that orders the keys, some of which may be equal for it. -/
structure Total : Prop where
  flip : ∀ a b, comp a b < 0 ↔ 0 < comp b a
  trans : ∀ a b c, comp a b ≤ 0 → comp b c ≤ 0 → comp a c ≤ 0

def Ascending (l : List A) : Prop := l.Pairwise fun a b => comp (keyOf a) (keyOf b) < 0

/- The search in a tree: to the node with an equal key, or to the place where one is missing. -/
def seek (key : K) : ColouredTree A → List (Frame A) → ColouredTree A × List (Frame A)
  | .null, path => (.null, path)
  | .node c l a r, path =>
    if comp key (keyOf a) = 0 then (.node c l a r, path)
    else if comp key (keyOf a) < 0 then seek key l (⟨.left,c,a,r⟩ :: path)
    else seek key r (⟨.right,c,a,l⟩ :: path)

variable {comp keyOf}

theorem Total.same (total : Total comp) (a : K) : comp a a = 0 := by
  have flip := total.flip a a
  omega

theorem Total.swap (total : Total comp) {a b : K} (equal : comp a b = 0) : comp b a = 0 := by
  have one := total.flip a b
  have other := total.flip b a
  omega

theorem Total.before (total : Total comp) {a b c : K} (first : comp a b ≤ 0) (second : comp b c < 0) : comp a c < 0 := by
  have most := total.trans a b c first (Int.le_of_lt second)
  rcases Int.lt_or_eq_of_le most with less | equal
  · exact less
  · have back := total.trans c a b (Int.le_of_eq (total.swap equal)) first
    have above := (total.flip b c).mp second
    omega

theorem seekPlug (comp : K → K → Int) (keyOf : A → K) (key : K) (t : ColouredTree A) (path : List (Frame A)) :
    plug (seek comp keyOf key t path).1 (seek comp keyOf key t path).2 = plug t path := by
  induction t generalizing path with
  | null => rfl
  | node c l a r left right =>
    unfold seek
    split
    · rfl
    · split
      · exact left _
      · exact right _

theorem descendSeek (comp : K → K → Int) (keyOf : A → K) (e : A) (t : ColouredTree A) (path : List (Frame A)) :
    Rb.descend (fun a b => comp (keyOf a) (keyOf b)) e t path =
      if (seek comp keyOf (keyOf e) t path).1.isNull then some (seek comp keyOf (keyOf e) t path).2 else none := by
  induction t generalizing path with
  | null => rfl
  | node c l a r left right =>
    unfold Rb.descend seek
    dsimp only
    split
    · rfl
    · split
      · exact left _
      · exact right _

/- The keys on both sides of a place in the tree. -/
structure Around (comp : K → K → Int) (keyOf : A → K) (key : K) (path : List (Frame A)) : Prop where
  left : ∀ a ∈ onward .left path, 0 < comp key (keyOf a)
  right : ∀ a ∈ onward .right path, comp key (keyOf a) < 0

theorem seekAround (total : Total comp) {key : K} {t : ColouredTree A} {path : List (Frame A)}
    (ascending : Ascending comp keyOf t.toList) (around : Around comp keyOf key path) :
    Around comp keyOf key (seek comp keyOf key t path).2 ∧
      ∀ c l a r, (seek comp keyOf key t path).1 = .node c l a r → comp key (keyOf a) = 0 := by
  induction t generalizing path with
  | null => exact ⟨around,fun c l a r same => nomatch same⟩
  | node c l a r left right =>
    have parts := List.pairwise_append.mp ascending
    have behind := List.pairwise_cons.mp parts.2.1
    unfold seek
    split
    next equal =>
      refine ⟨around,fun c' l' a' r' same => ?_⟩
      cases same
      exact equal
    next other =>
      split
      next less =>
        refine left parts.1 ⟨around.left,fun b member => ?_⟩
        rcases List.mem_append.mp member with near | far
        · rcases List.mem_cons.mp near with rfl | inside
          · exact less
          · exact total.before (Int.le_of_lt less) (behind.1 b inside)
        · exact around.right b far
      next least =>
        have more : 0 < comp key (keyOf a) := by omega
        refine right behind.2 ⟨fun b member => ?_,around.right⟩
        rcases List.mem_append.mp member with near | far
        · rcases List.mem_cons.mp near with rfl | inside
          · exact more
          · have inside' : b ∈ l.toList := List.mem_reverse.mp inside
            have below := parts.2.2 b inside' a List.mem_cons_self
            exact (total.flip _ _).mp (total.before (Int.le_of_lt below) ((total.flip _ _).mpr more))
        · exact around.left b far

theorem pathAround (key : K) : Around comp keyOf key ([] : List (Frame A)) :=
  ⟨fun _ member => (nomatch member),fun _ member => (nomatch member)⟩

theorem insertAscending (total : Total comp) {e : A} {path : List (Frame A)} (around : Around comp keyOf (keyOf e) path)
    (ascending : Ascending comp keyOf (plug .null path).toList) (c : Color) :
    Ascending comp keyOf (plug (.node c .null e .null) path).toList := by
  rw [plugList] at ascending ⊢
  simp only [ColouredTree.toList,List.append_nil,List.nil_append,List.append_assoc,List.singleton_append] at ascending ⊢
  have parts := List.pairwise_append.mp ascending
  refine List.pairwise_append.mpr ⟨parts.1,List.pairwise_cons.mpr ⟨around.right,parts.2.1⟩,?_⟩
  intro b before d after
  have below : comp (keyOf b) (keyOf e) < 0 := (total.flip _ _).mpr (around.left b (List.mem_reverse.mp before))
  rcases List.mem_cons.mp after with rfl | behind
  · exact below
  · exact parts.2.2 b before d behind

end Search

end Pjproject.RbNodes
