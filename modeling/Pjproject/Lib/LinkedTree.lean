import Pjproject.Lib.RedBlack

/-! Binary trees in a memory: nodes linked to their children and their parent, and one node for every missing child. A
tree of addresses, seen from one of its nodes, says what the links are; a write is answered at the node where it falls. -/
namespace Pjproject.Lib.LinkedTree
open RedBlack

structure Node (A K : Type) where
  left : A
  right : A
  parent : A
  color : Color
  key : K

structure Store (A K : Type) where
  null : A
  root : A
  mem : A → Node A K

variable {A K : Type}

def Node.child (n : Node A K) : Side → A
  | .left => n.left
  | .right => n.right

def Node.setChild (n : Node A K) : Side → A → Node A K
  | .left, a => { n with left := a }
  | .right, a => { n with right := a }

variable (n : Node A K)

@[simp] theorem childSet (side : Side) (a : A) : (n.setChild side a).child side = a := by
  cases side <;> rfl

@[simp] theorem childSetFlip (side : Side) (a : A) : (n.setChild side.flip a).child side = n.child side := by
  cases side <;> rfl

@[simp] theorem childFlipSet (side : Side) (a : A) : (n.setChild side a).child side.flip = n.child side.flip := by
  cases side <;> rfl

@[simp] theorem parentSet (side : Side) (a : A) : (n.setChild side a).parent = n.parent := by
  cases side <;> rfl

@[simp] theorem colorSet (side : Side) (a : A) : (n.setChild side a).color = n.color := by
  cases side <;> rfl

@[simp] theorem keySet (side : Side) (a : A) : (n.setChild side a).key = n.key := by
  cases side <;> rfl

@[simp] theorem flipFlip (side : Side) : side.flip.flip = side := by
  cases side <;> rfl

section Writing
variable [DecidableEq A]

def Store.setChild (s : Store A K) (a : A) (side : Side) (child : A) : Store A K :=
  { s with mem := Function.update s.mem a ((s.mem a).setChild side child) }

def Store.setParent (s : Store A K) (a parent : A) : Store A K :=
  { s with mem := Function.update s.mem a { s.mem a with parent := parent } }

def Store.paint (s : Store A K) (a : A) (color : Color) : Store A K :=
  { s with mem := Function.update s.mem a { s.mem a with color := color } }

/- The link to a child is replaced in its parent, or at the root. -/
def Store.relink (s : Store A K) (parent old child : A) : Store A K :=
  if parent ≠ s.null then
    if (s.mem parent).left = old then s.setChild parent .left child else s.setChild parent .right child
  else { s with root := child }

end Writing

structure Cell (n : Node A K) (side : Side) (near far parent : A) (color : Color) : Prop where
  near : n.child side = near
  far : n.child side.flip = far
  parent : n.parent = parent
  color : n.color = color

section Shapes
variable (null root : A) (mem : A → Node A K)

def top : ColouredTree A → A
  | .null => null
  | .node _ _ a _ => a

def parentOf : List (Frame A) → A
  | [] => null
  | f :: _ => f.key

def Shape : A → ColouredTree A → Prop
  | _, .null => True
  | parent, .node color l a r =>
    a ≠ null ∧ Cell (mem a) .left (top null l) (top null r) parent color ∧ Shape a l ∧ Shape a r

def Above : A → List (Frame A) → Prop
  | child, [] => root = child
  | child, f :: rest =>
    f.key ≠ null ∧ Cell (mem f.key) f.side child (top null f.other) (parentOf null rest) f.color ∧
      Shape null mem f.key f.other ∧ Above f.key rest

end Shapes

variable {null root : A} {mem mem' : A → Node A K}

theorem Cell.turn {n : Node A K} {side : Side} {near far parent : A} {color : Color}
    (cell : Cell n side near far parent color) : Cell n side.flip far near parent color :=
  ⟨cell.far,(congrArg n.child (flipFlip side)).trans cell.near,cell.parent,cell.color⟩

theorem topPaint (painted : Color) (t : ColouredTree A) : top null (t.paint painted) = top null t := by
  cases t <;> rfl

theorem topClose (f : Frame A) (t : ColouredTree A) : top null (f.close t) = f.key := by
  unfold Frame.close
  split <;> rfl

theorem shapeClose {f : Frame A} {t : ColouredTree A} {parent : A} : Shape null mem parent (f.close t) ↔
      f.key ≠ null ∧ Cell (mem f.key) f.side (top null t) (top null f.other) parent f.color ∧
        Shape null mem f.key t ∧ Shape null mem f.key f.other := by
  obtain ⟨side,color,a,other⟩ := f
  cases side with
  | left => exact Iff.rfl
  | right =>
    constructor
    · rintro ⟨real,cell,first,second⟩
      exact ⟨real,cell.turn,second,first⟩
    · rintro ⟨real,cell,first,second⟩
      exact ⟨real,cell.turn,second,first⟩

theorem shapeReal {parent : A} {t : ColouredTree A} (shape : Shape null mem parent t) : null ∉ t.toList := by
  induction t generalizing parent with
  | null => exact List.not_mem_nil
  | node color l a r left right =>
    obtain ⟨real,_,first,second⟩ := shape
    simp only [ColouredTree.toList,List.mem_append,List.mem_cons,not_or]
    exact ⟨left first,Ne.symm real,right second⟩

theorem topMember (null : A) {t : ColouredTree A} (some : t.isNull = false) : top null t ∈ t.toList := by
  cases t with
  | null => cases some
  | node => exact List.mem_append_right _ List.mem_cons_self

theorem aboveReal {child : A} {path : List (Frame A)} (above : Above null root mem child path) : null ∉ pathList path := by
  induction path generalizing child with
  | nil => exact List.not_mem_nil
  | cons f rest ih =>
    obtain ⟨real,_,other,up⟩ := above
    simp only [pathList,List.mem_append,List.mem_cons,not_or]
    exact ⟨Ne.symm real,shapeReal other,ih up⟩

theorem shapeCongr {parent : A} {t : ColouredTree A} (shape : Shape null mem parent t)
    (same : ∀ a ∈ t.toList, mem' a = mem a) : Shape null mem' parent t := by
  induction t generalizing parent with
  | null => trivial
  | node color l a r left right =>
    obtain ⟨real,cell,first,second⟩ := shape
    have inside : ∀ b, b ∈ l.toList ∨ b = a ∨ b ∈ r.toList → mem' b = mem b := by
      intro b member
      exact same b (by simpa only [ColouredTree.toList,List.mem_append,List.mem_cons] using member)
    exact ⟨real,(inside a (.inr (.inl rfl))).symm ▸ cell,left first fun b member => inside b (.inl member),
      right second fun b member => inside b (.inr (.inr member))⟩

theorem aboveCongr {child : A} {path : List (Frame A)} (above : Above null root mem child path)
    (same : ∀ a ∈ pathList path, mem' a = mem a) : Above null root mem' child path := by
  induction path generalizing child with
  | nil => exact above
  | cons f rest ih =>
    obtain ⟨real,cell,other,up⟩ := above
    have inside : ∀ b, b = f.key ∨ b ∈ f.other.toList ∨ b ∈ pathList rest → mem' b = mem b := by
      intro b member
      exact same b (by simpa only [pathList,List.mem_append,List.mem_cons] using member)
    exact ⟨real,(inside f.key (.inl rfl)).symm ▸ cell,shapeCongr other fun b member => inside b (.inr (.inl member)),
      ih up fun b member => inside b (.inr (.inr member))⟩

theorem shapeMoved {parent parent' : A} {t : ColouredTree A} (shape : Shape null mem parent t) (distinct : t.toList.Nodup)
    (moved : t.isNull = false → mem' (top null t) = { mem (top null t) with parent := parent' })
    (same : ∀ a ∈ t.toList, a ≠ top null t → mem' a = mem a) : Shape null mem' parent' t := by
  cases t with
  | null => trivial
  | node color l a =>
    obtain ⟨real,cell,first,second⟩ := shape
    have apart := List.nodup_middle.mp distinct
    rw [List.nodup_cons,List.mem_append,not_or] at apart
    have here : mem' a = { mem a with parent := parent' } := moved rfl
    refine ⟨real,?_,shapeCongr first ?_,shapeCongr second ?_⟩
    · rw [here]
      exact ⟨cell.near,cell.far,rfl,cell.color⟩
    · intro b member
      refine same b (List.mem_append_left _ member) ?_
      rintro rfl
      exact apart.1.1 member
    · intro b member
      refine same b (List.mem_append_right _ (List.mem_cons_of_mem a member)) ?_
      rintro rfl
      exact apart.1.2 member

/- The node for missing children, and the keys of all nodes. -/
structure Ground (s : Store A K) (keyOf : A → K) (sentinel : Color) : Prop where
  left : (s.mem s.null).left = s.null
  right : (s.mem s.null).right = s.null
  color : (s.mem s.null).color = sentinel
  keys : ∀ a, (s.mem a).key = keyOf a

/- A whole tree in the memory, seen from one of its nodes. -/
structure Focus (s : Store A K) (keyOf : A → K) (sentinel : Color) (t : ColouredTree A) (path : List (Frame A)) : Prop where
  below : Shape s.null s.mem (parentOf s.null path) t
  above : Above s.null s.root s.mem (top s.null t) path
  distinct : (t.toList ++ pathList path).Nodup
  ground : Ground s keyOf sentinel

variable {s : Store A K} {keyOf : A → K} {sentinel : Color} {t : ColouredTree A} {f : Frame A} {path : List (Frame A)}

theorem outsideParent {z : A} (real : z ≠ null) (outside : z ∉ pathList path) : z ≠ parentOf null path := by
  cases path with
  | nil => exact real
  | cons =>
    rintro rfl
    exact outside List.mem_cons_self

theorem outsideTop {z : A} (outside : z ∉ t.toList) : z ≠ top null t ∨ z = null := by
  cases t with
  | null => exact (eq_or_ne z null).symm
  | node =>
    refine .inl ?_
    rintro rfl
    exact outside (List.mem_append_right _ List.mem_cons_self)

theorem closeDistinct : (t.toList ++ pathList (f :: path)).Nodup ↔ ((f.close t).toList ++ pathList path).Nodup := by
  refine List.Perm.nodup_iff ?_
  refine List.Perm.trans ?_ ((closePerm f t).symm.append_right _)
  rw [List.cons_append,List.append_assoc]
  exact List.perm_middle

theorem focusUp : Focus s keyOf sentinel t (f :: path) ↔ Focus s keyOf sentinel (f.close t) path := by
  constructor
  · rintro ⟨below,⟨real,cell,other,up⟩,distinct,ground⟩
    exact ⟨shapeClose.mpr ⟨real,cell,below,other⟩,(topClose f t).symm ▸ up,closeDistinct.mp distinct,ground⟩
  · rintro ⟨below,up,distinct,ground⟩
    obtain ⟨real,cell,below,other⟩ := shapeClose.mp below
    rw [topClose] at up
    exact ⟨below,⟨real,cell,other,up⟩,closeDistinct.mpr distinct,ground⟩

theorem focusPlug : Focus s keyOf sentinel t path ↔ Focus s keyOf sentinel (plug t path) [] := by
  induction path generalizing t with
  | nil => exact Iff.rfl
  | cons f rest ih => exact focusUp.trans ih

theorem closePaint (f : Frame A) (t : ColouredTree A) (painted : Color) :
    (f.close t).paint painted = Frame.close { f with color := painted } t := by
  obtain ⟨side,color,a,other⟩ := f
  cases side <;> rfl

/- The same node seen from the subtree on its other side. -/
def turn (f : Frame A) (t : ColouredTree A) : Frame A := ⟨f.side.flip,f.color,f.key,t⟩

theorem closeTurn (f : Frame A) (t : ColouredTree A) : (turn f t).close f.other = f.close t := by
  obtain ⟨side,color,a,other⟩ := f
  cases side <;> rfl

theorem focusAcross : Focus s keyOf sentinel t (f :: path) ↔ Focus s keyOf sentinel f.other (turn f t :: path) := by
  rw [focusUp,focusUp,closeTurn]

theorem Focus.real (focus : Focus s keyOf sentinel t (f :: path)) : f.key ≠ s.null := focus.above.1

theorem Focus.cell (focus : Focus s keyOf sentinel t (f :: path)) :
    Cell (s.mem f.key) f.side (top s.null t) (top s.null f.other) (parentOf s.null path) f.color := focus.above.2.1

theorem Focus.topReal (focus : Focus s keyOf sentinel t path) (some : t.isNull = false) : top s.null t ≠ s.null := by
  intro same
  have member := topMember s.null some
  rw [same] at member
  exact shapeReal focus.below member

theorem Focus.topParent (focus : Focus s keyOf sentinel t path) (some : t.isNull = false) :
    (s.mem (top s.null t)).parent = parentOf s.null path := by
  cases t with
  | null => cases some
  | node => exact focus.below.2.1.parent

theorem Focus.topColor (focus : Focus s keyOf sentinel t path) :
    (s.mem (top s.null t)).color = if t.isNull then sentinel else t.color := by
  cases t with
  | null => exact focus.ground.color
  | node => exact focus.below.2.1.color

theorem Focus.apart (focus : Focus s keyOf sentinel t path) : ∀ a ∈ t.toList, a ∉ pathList path := by
  intro a inside above
  exact (List.nodup_append.mp focus.distinct).2.2 a inside a above rfl

theorem Focus.beside (focus : Focus s keyOf sentinel t (f :: path)) (some : t.isNull = false) :
    top s.null f.other ≠ top s.null t := by
  intro same
  cases other : f.other with
  | null =>
    rw [other] at same
    exact focus.topReal some same.symm
  | node =>
    have member : top s.null f.other ∈ f.other.toList := topMember _ (by rw [other]; rfl)
    refine focus.apart _ (topMember s.null some) ?_
    rw [← same]
    exact List.mem_cons_of_mem _ (List.mem_append_left _ member)

theorem Focus.childIff (focus : Focus s keyOf sentinel t (f :: path)) (some : t.isNull = false) (side : Side) :
    (s.mem f.key).child side = top s.null t ↔ side = f.side := by
  constructor
  · intro same
    by_contra other
    have flipped : side = f.side.flip := by
      cases side <;> cases here : f.side <;> simp_all [Side.flip]
    rw [flipped,focus.cell.far] at same
    exact focus.beside some same
  · rintro rfl
    exact focus.cell.near

theorem Focus.side (focus : Focus s keyOf sentinel t (f :: path)) (some : t.isNull = false) [DecidableEq A] :
    (if (s.mem f.key).left = top s.null t then Side.left else Side.right) = f.side := by
  have left := focus.childIff some .left
  split
  next same => exact left.mp same
  next other =>
    cases side : f.side with
    | left => exact absurd (left.mpr side.symm) other
    | right => rfl

theorem Focus.rootOnly (focus : Focus s keyOf sentinel t path) (some : t.isNull = false) :
    top s.null t = s.root ↔ path = [] := by
  cases path with
  | nil => exact ⟨fun _ => rfl,fun _ => focus.above.symm⟩
  | cons f rest =>
    refine ⟨fun same => ?_,fun nothing => (nomatch nothing)⟩
    have climbs : ∀ (path : List (Frame A)) (child : A), Above s.null s.root s.mem child path → path ≠ [] →
        s.root ∈ pathList path := by
      intro path
      induction path with
      | nil => exact fun _ _ none => absurd rfl none
      | cons f rest ih =>
        intro child above _
        cases rest with
        | nil => exact above.2.2.2 ▸ List.mem_cons_self
        | cons g rest =>
          exact List.mem_cons_of_mem _ (List.mem_append_right _ (ih f.key above.2.2.2 (List.cons_ne_nil g rest)))
    refine absurd (climbs _ _ focus.above (List.cons_ne_nil f rest)) ?_
    rw [← same]
    exact focus.apart _ (topMember _ some)

theorem Ground.keep {s' : Store A K} {sentinel' : Color} (ground : Ground s keyOf sentinel) (null : s'.null = s.null)
    (left : (s'.mem s.null).left = (s.mem s.null).left) (right : (s'.mem s.null).right = (s.mem s.null).right)
    (color : (s'.mem s.null).color = sentinel') (keys : ∀ a, (s'.mem a).key = (s.mem a).key) :
    Ground s' keyOf sentinel' := by
  refine ⟨?_,?_,?_,fun a => (keys a).trans (ground.keys a)⟩
  · rw [null,left,ground.left]
  · rw [null,right,ground.right]
  · rw [null,color]

section Changing
variable [DecidableEq A]

theorem updateKeys {mem : A → Node A K} {a : A} {n : Node A K} (same : n.key = (mem a).key) (b : A) :
    (Function.update mem a n b).key = (mem b).key := by
  by_cases here : b = a
  · rw [here,Function.update_self,same]
  · rw [Function.update_of_ne here]

@[simp] theorem nullPaint (s : Store A K) (a : A) (color : Color) : (s.paint a color).null = s.null := rfl

theorem paintKeys (s : Store A K) (a : A) (color : Color) (b : A) : ((s.paint a color).mem b).key = (s.mem b).key :=
  updateKeys (by rfl) b

theorem setChildKeys (s : Store A K) (a : A) (side : Side) (child b : A) :
    ((s.setChild a side child).mem b).key = (s.mem b).key :=
  updateKeys (keySet _ _ _) b

theorem setParentKeys (s : Store A K) (a parent b : A) : ((s.setParent a parent).mem b).key = (s.mem b).key :=
  updateKeys (by rfl) b

theorem relinkRoot (s : Store A K) (old child : A) : s.relink s.null old child = { s with root := child } :=
  if_neg (not_not_intro rfl)

theorem relinkInside {parent : A} (real : parent ≠ s.null) (old child : A) : s.relink parent old child =
      if (s.mem parent).left = old then s.setChild parent .left child else s.setChild parent .right child :=
  if_pos real

theorem relinkKeys (s : Store A K) (parent old child b : A) :
    ((s.relink parent old child).mem b).key = (s.mem b).key := by
  unfold Store.relink
  split
  · split <;> exact setChildKeys _ _ _ _ _
  · rfl

theorem Focus.paint {color : Color} {l r : ColouredTree A} {a : A} (focus : Focus s keyOf sentinel (.node color l a r) path)
    (painted : Color) : Focus (s.paint a painted) keyOf sentinel (.node painted l a r) path := by
  obtain ⟨⟨real,cell,first,second⟩,above,distinct,ground⟩ := focus
  have apart : a ∉ l.toList ∧ a ∉ r.toList ∧ a ∉ pathList path := by
    rw [List.nodup_append,ColouredTree.toList,List.nodup_middle,List.nodup_cons,List.mem_append,not_or] at distinct
    refine ⟨distinct.1.1.1,distinct.1.1.2,fun also => ?_⟩
    exact distinct.2.2 a (List.mem_append_right _ List.mem_cons_self) a also rfl
  have others : ∀ b, b ≠ a → (s.paint a painted).mem b = s.mem b := fun b other => Function.update_of_ne other _ _
  have elsewhere : ∀ {l : List A}, a ∉ l → ∀ b ∈ l, (s.paint a painted).mem b = s.mem b := by
    intro l outside b member
    refine others b ?_
    rintro rfl
    exact outside member
  have here : (s.paint a painted).mem a = { s.mem a with color := painted } := Function.update_self _ _ _
  have null : (s.paint a painted).mem s.null = s.mem s.null := others _ (Ne.symm real)
  refine ⟨⟨real,?_,shapeCongr first (elsewhere apart.1),shapeCongr second (elsewhere apart.2.1)⟩,
    aboveCongr above (elsewhere apart.2.2),distinct,?_⟩
  · rw [here]
    exact ⟨cell.near,cell.far,cell.parent,rfl⟩
  · refine ground.keep rfl ?_ ?_ ?_ (paintKeys s a painted)
    · rw [null]
    · rw [null]
    · rw [null,ground.color]

theorem Focus.paintNull (focus : Focus s keyOf sentinel t path) (painted : Color) :
    Focus (s.paint s.null painted) keyOf painted t path := by
  have others : ∀ b, b ≠ s.null → (s.paint s.null painted).mem b = s.mem b := fun b other => Function.update_of_ne other _ _
  have here : (s.paint s.null painted).mem s.null = { s.mem s.null with color := painted } := Function.update_self _ _ _
  refine ⟨shapeCongr focus.below ?_,aboveCongr focus.above ?_,focus.distinct,?_⟩
  · intro b member
    refine others b ?_
    rintro rfl
    exact shapeReal focus.below member
  · intro b member
    refine others b ?_
    rintro rfl
    exact aboveReal focus.above member
  · refine focus.ground.keep rfl ?_ ?_ ?_ (paintKeys s s.null painted) <;> rw [here]

theorem Focus.paintTop (focus : Focus s keyOf sentinel t path) (painted : Color) :
    Focus (s.paint (top s.null t) painted) keyOf (if t.isNull then painted else sentinel) (t.paint painted) path := by
  cases t with
  | null => exact focus.paintNull painted
  | node => exact focus.paint painted

theorem Focus.paintFrame (focus : Focus s keyOf sentinel t (f :: path)) (painted : Color) :
    Focus (s.paint f.key painted) keyOf sentinel t ({ f with color := painted } :: path) := by
  have whole := (focusUp.mp focus).paintTop painted
  rw [topClose,closePaint,closeSome] at whole
  exact focusUp.mpr whole

theorem Focus.paintOther (focus : Focus s keyOf sentinel t (f :: path)) (painted : Color) :
    Focus (s.paint (top s.null f.other) painted) keyOf (if f.other.isNull then painted else sentinel) t
      ({ f with other := f.other.paint painted } :: path) := by
  have beside := (focusAcross.mp focus).paintTop painted
  rw [focusUp] at beside ⊢
  have turned := closeTurn { f with other := f.other.paint painted } t
  exact turned ▸ beside

theorem aboveRelinked {old : A} (child : A) (above : Above s.null s.root s.mem old path) (real : old ≠ s.null)
    (outside : old ∉ pathList path) (distinct : (pathList path).Nodup) :
    Above s.null (s.relink (parentOf s.null path) old child).root (s.relink (parentOf s.null path) old child).mem child path := by
  cases path with
  | nil =>
    show Above s.null (s.relink s.null old child).root (s.relink s.null old child).mem child []
    rw [relinkRoot]
    rfl
  | cons f rest =>
    obtain ⟨parent,cell,other,up⟩ := above
    rw [pathList,List.nodup_cons,List.mem_append,not_or] at distinct
    have linked : s.relink (parentOf s.null (f :: rest)) old child = s.setChild f.key f.side child := by
      refine (relinkInside parent old child).trans ?_
      cases side : f.side with
      | left =>
        rw [side] at cell
        exact if_pos cell.near
      | right =>
        rw [side] at cell
        refine if_neg ?_
        intro same
        have far : old = top s.null f.other := same.symm.trans cell.far
        cases beside : f.other with
        | null => exact real (far.trans (by rw [beside]; rfl))
        | node =>
          refine outside (List.mem_cons_of_mem _ (List.mem_append_left _ ?_))
          rw [far]
          exact topMember _ (by rw [beside]; rfl)
    rw [linked]
    have here : (s.setChild f.key f.side child).mem f.key = (s.mem f.key).setChild f.side child := Function.update_self _ _ _
    have elsewhere : ∀ {l : List A}, f.key ∉ l → ∀ b ∈ l, (s.setChild f.key f.side child).mem b = s.mem b := by
      intro l outside b member
      refine Function.update_of_ne ?_ _ _
      rintro rfl
      exact outside member
    refine ⟨parent,?_,shapeCongr other (elsewhere distinct.1.1),aboveCongr up (elsewhere distinct.1.2)⟩
    rw [here]
    exact ⟨childSet _ _ _,(childFlipSet _ _ _).trans cell.far,(parentSet _ _ _).trans cell.parent,
      (colorSet _ _ _).trans cell.color⟩

theorem relinkOther {parent old child a : A} (other : a ≠ parent ∨ a = s.null) :
    (s.relink parent old child).mem a = s.mem a := by
  unfold Store.relink
  split
  next real =>
    have apart : a ≠ parent := by
      rcases other with apart | rfl
      · exact apart
      · exact Ne.symm real
    split <;> exact Function.update_of_ne apart _ _
  next => rfl

theorem relinkNull (s : Store A K) (parent old child : A) : (s.relink parent old child).null = s.null := by
  unfold Store.relink
  split
  · split <;> rfl
  · rfl

end Changing

end Pjproject.Lib.LinkedTree
