import Mathlib

/-! Red-black trees seen from one of their nodes: the subtree at the node and the frames above it, up to the root. The
rules say when a subtree may stand under its frames and how a missing black node shows. -/
namespace Pjproject.Lib.RedBlack

inductive Color where
  | red
  | black
  deriving DecidableEq, Repr

inductive ColouredTree (α : Type) where
  | null
  | node (color : Color) (left : ColouredTree α) (key : α) (right : ColouredTree α)
  deriving DecidableEq, Repr

inductive Side where
  | left
  | right
  deriving DecidableEq, Repr

structure Frame (α : Type) where
  side : Side
  color : Color
  key : α
  other : ColouredTree α
  deriving DecidableEq, Repr

section
variable {α : Type}

def Side.flip : Side → Side
  | .left => .right
  | .right => .left

def ColouredTree.color : ColouredTree α → Color
  | .null => .black
  | .node color _ _ _ => color

def ColouredTree.isNull : ColouredTree α → Bool
  | .null => true
  | .node _ _ _ _ => false

def ColouredTree.paint (color : Color) : ColouredTree α → ColouredTree α
  | .null => .null
  | .node _ left key right => .node color left key right

def ColouredTree.child : Side → ColouredTree α → ColouredTree α
  | _, .null => .null
  | .left, .node _ left _ _ => left
  | .right, .node _ _ _ right => right

def ColouredTree.size : ColouredTree α → Nat
  | .null => 0
  | .node _ left _ right => left.size + right.size + 1

def ColouredTree.height : ColouredTree α → Nat
  | .null => 0
  | .node _ left _ right => max left.height right.height + 1

def Frame.close (f : Frame α) (t : ColouredTree α) : ColouredTree α :=
  match f.side with
  | .left => .node f.color t f.key f.other
  | .right => .node f.color f.other f.key t

/- The whole tree; the nearest frame comes first. -/
def plug (t : ColouredTree α) : List (Frame α) → ColouredTree α
  | [] => t
  | f :: rest => plug (f.close t) rest

/- The child on the other side comes up, and its inner subtree changes sides. -/
def rotate : Side → ColouredTree α → ColouredTree α
  | .left, .node c l k (.node c' l' k' r') => .node c' (.node c l k l') k' r'
  | .right, .node c (.node c' l' k' r') k r => .node c' l' k' (.node c r' k r)
  | _, t => t

/- For every way down to a missing child, the number of black nodes on it. -/
def ColouredTree.blacks : ColouredTree α → List Nat
  | .null => [0]
  | .node color left _ right => (left.blacks ++ right.blacks).map (· + if color = .black then 1 else 0)

def ColouredTree.NoRedRed : ColouredTree α → Prop
  | .null => True
  | .node color left _ right =>
    (color = .red → left.color = .black ∧ right.color = .black) ∧ left.NoRedRed ∧ right.NoRedRed

structure Balanced (t : ColouredTree α) : Prop where
  root : t.color = .black
  children : t.NoRedRed
  paths : ∀ a ∈ t.blacks, ∀ b ∈ t.blacks, a = b

/- The same by recursion: the colour of the root, and the number of black nodes on every way down. -/
inductive Valid : Color → Nat → ColouredTree α → Prop where
  | null : Valid .black 0 .null
  | red {n left key right} (l : Valid .black n left) (r : Valid .black n right) :
    Valid .red n (.node .red left key right)
  | black {n c d left key right} (l : Valid c n left) (r : Valid d n right) :
    Valid .black (n + 1) (.node .black left key right)

variable {t : ColouredTree α} {c : Color} {n : Nat}

theorem Valid.color (valid : Valid c n t) : t.color = c := by
  cases valid <;> rfl

theorem Valid.noRedRed (valid : Valid c n t) : t.NoRedRed := by
  induction valid with
  | null => trivial
  | red l r left right => exact ⟨fun _ => ⟨l.color,r.color⟩,left,right⟩
  | black l r left right => exact ⟨nofun,left,right⟩

theorem Valid.blacks (valid : Valid c n t) : ∀ a ∈ t.blacks, a = n := by
  induction valid with
  | null => simp [ColouredTree.blacks]
  | red l r left right =>
    intro a member
    simp only [ColouredTree.blacks,reduceCtorEq,if_false,Nat.add_zero,List.map_id',List.mem_append] at member
    exact member.elim (left a) (right a)
  | black l r left right =>
    intro a member
    simp only [ColouredTree.blacks,if_true,List.mem_map,List.mem_append] at member
    obtain ⟨b,inside,rfl⟩ := member
    rw [inside.elim (left b) (right b)]

theorem Valid.balanced (valid : Valid .black n t) : Balanced t :=
  ⟨valid.color,valid.noRedRed,fun a ha b hb => (valid.blacks a ha).trans (valid.blacks b hb).symm⟩

theorem Valid.heightBound (valid : Valid c n t) : t.height ≤ 2 * n + if c = .red then 1 else 0 := by
  induction valid with
  | null => simp [ColouredTree.height]
  | red l r left right =>
    simp only [reduceCtorEq,if_false] at left right
    simp only [ColouredTree.height,if_true]
    omega
  | @black n c d _ _ _ l r left right =>
    simp only [ColouredTree.height,reduceCtorEq,if_false]
    have one (c : Color) : (if c = .red then 1 else 0) ≤ 1 := by cases c <;> decide
    have := one c
    have := one d
    omega

theorem Valid.sizeBound (valid : Valid c n t) : 2 ^ n ≤ t.size + 1 := by
  induction valid with
  | null => simp
  | red =>
    simp only [ColouredTree.size]
    omega
  | black =>
    simp only [ColouredTree.size]
    omega

theorem Valid.heightLog (valid : Valid .black n t) : t.height ≤ 2 * Nat.log 2 (t.size + 1) := by
  have height := valid.heightBound
  simp only [reduceCtorEq,if_false,Nat.add_zero] at height
  have most : n ≤ Nat.log 2 (t.size + 1) := Nat.le_log_of_pow_le (by decide) valid.sizeBound
  omega

theorem Valid.paintBlack (valid : Valid c n t) : ∃ m, Valid .black m (t.paint .black) := by
  cases valid with
  | null => exact ⟨0,.null⟩
  | red l r => exact ⟨_,.black l r⟩
  | black l r => exact ⟨_,.black l r⟩

/- A valid tree can stand under these frames when its root has this colour and its paths this number of black nodes. The
root of the whole tree is black, so a red frame is never the last one. -/
inductive Fits : Color → Nat → List (Frame α) → Prop where
  | root {n : Nat} : Fits .black n []
  | red {n : Nat} {side key other rest} (sibling : Valid .black n other) (up : Fits .red n rest) :
    Fits .black n (⟨side,.red,key,other⟩ :: rest)
  | black {n : Nat} {c d side key other rest} (sibling : Valid d n other) (up : Fits .black (n + 1) rest) :
    Fits c n (⟨side,.black,key,other⟩ :: rest)

variable {path : List (Frame α)}

theorem Fits.toBlack (fits : Fits c n path) : Fits .black n path := by
  cases fits with
  | root => exact .root
  | red sibling up => exact .red sibling up
  | black sibling up => exact .black sibling up

theorem closeRed {side : Side} {key : α} {other : ColouredTree α} (sibling : Valid .black n other) (valid : Valid .black n t) :
    Valid .red n (Frame.close ⟨side,.red,key,other⟩ t) := by
  cases side with
  | left => exact .red valid sibling
  | right => exact .red sibling valid

theorem closeBlack {side : Side} {key : α} {other : ColouredTree α} {d : Color} (sibling : Valid d n other)
    (valid : Valid c n t) : Valid .black (n + 1) (Frame.close ⟨side,.black,key,other⟩ t) := by
  cases side with
  | left => exact .black valid sibling
  | right => exact .black sibling valid

theorem plugValid (fits : Fits c n path) (valid : Valid c n t) : ∃ m, Valid .black m (plug t path) := by
  induction fits generalizing t with
  | root => exact ⟨_,valid⟩
  | red sibling up ih => exact ih (closeRed sibling valid)
  | black sibling up ih => exact ih (closeBlack sibling valid)

theorem blacksNonempty (t : ColouredTree α) : t.blacks ≠ [] := by
  cases t with
  | null => simp [ColouredTree.blacks]
  | node color left =>
    have := blacksNonempty left
    simp [ColouredTree.blacks,this]

variable (f : Frame α) (side : Side)

theorem closeBlacks (t : ColouredTree α) {a : Nat} (member : a ∈ t.blacks ∨ a ∈ f.other.blacks) :
    a + (if f.color = .black then 1 else 0) ∈ (f.close t).blacks := by
  unfold Frame.close
  split
  · exact List.mem_map.mpr ⟨a,List.mem_append.mpr member,rfl⟩
  · exact List.mem_map.mpr ⟨a,List.mem_append.mpr member.symm,rfl⟩

theorem plugUneven (path : List (Frame α)) {t : ColouredTree α} {a b : Nat} (left : a ∈ t.blacks) (right : b ∈ t.blacks)
    (uneven : a ≠ b) : ∃ a ∈ (plug t path).blacks, ∃ b ∈ (plug t path).blacks, a ≠ b := by
  induction path generalizing t a b with
  | nil => exact ⟨a,left,b,right,uneven⟩
  | cons f rest ih => exact ih (closeBlacks f t (.inl left)) (closeBlacks f t (.inl right)) (by omega)

theorem plugUnbalanced {f : Frame α} (fits : Fits c n (f :: path)) (uneven : ∀ a ∈ t.blacks, a ≠ n) :
    ¬Balanced (plug t (f :: path)) := by
  intro balanced
  obtain ⟨a,inside⟩ := List.exists_mem_of_ne_nil _ (blacksNonempty t)
  obtain ⟨b,beside⟩ := List.exists_mem_of_ne_nil _ (blacksNonempty f.other)
  have even : b = n := by
    cases fits with
    | red sibling => exact sibling.blacks b beside
    | black sibling => exact sibling.blacks b beside
  have differ : a + (if f.color = .black then 1 else 0) ≠ b + (if f.color = .black then 1 else 0) := by
    have := uneven a inside
    omega
  obtain ⟨x,hx,y,hy,other⟩ := plugUneven path (closeBlacks f t (.inl inside)) (closeBlacks f t (.inr beside)) differ
  exact other (balanced.paths x hx y hy)

theorem paintSize (color : Color) (t : ColouredTree α) : (t.paint color).size = t.size := by
  cases t <;> rfl

theorem rotateSize (t : ColouredTree α) : (rotate side t).size = t.size := by
  unfold rotate
  split
  · simp only [ColouredTree.size]
    omega
  · simp only [ColouredTree.size]
    omega
  · rfl

def pathSize : List (Frame α) → Nat
  | [] => 0
  | f :: rest => f.other.size + 1 + pathSize rest

theorem closeSize (t : ColouredTree α) : (f.close t).size = t.size + f.other.size + 1 := by
  unfold Frame.close
  split
  · rfl
  · simp only [ColouredTree.size]
    omega

theorem plugSize (t : ColouredTree α) (path : List (Frame α)) : (plug t path).size = t.size + pathSize path := by
  induction path generalizing t with
  | nil => rfl
  | cons f rest ih =>
    simp only [plug,ih,closeSize,pathSize]
    omega

theorem nullOf (none : t.isNull = true) : t = .null := by
  cases t with
  | null => rfl
  | node => cases none

theorem paintNull (painted : Color) : (t.paint painted).isNull = t.isNull := by
  cases t <;> rfl

theorem asClosed (some : t.isNull = false) : ∃ color key near far, t = Frame.close ⟨side,color,key,far⟩ near := by
  cases t with
  | null => cases some
  | node color l key r =>
    cases side with
    | left => exact ⟨color,key,l,r,rfl⟩
    | right => exact ⟨color,key,r,l,rfl⟩

theorem otherSide {side side' : Side} (other : side' ≠ side) : side' = side.flip := by
  cases side <;> cases side' <;> first | rfl | exact absurd rfl other

theorem closeSome (t : ColouredTree α) : (f.close t).isNull = false := by
  unfold Frame.close
  split <;> rfl

theorem plugSome (some : t.isNull = false) (path : List (Frame α)) : (plug t path).isNull = false := by
  induction path generalizing t with
  | nil => exact some
  | cons f rest ih => exact ih (closeSome f t)

theorem rotateSome (t : ColouredTree α) : (rotate side t).isNull = t.isNull := by
  unfold rotate
  split <;> rfl

theorem closeColor (t : ColouredTree α) : (f.close t).color = f.color := by
  unfold Frame.close
  split <;> rfl

theorem paintedColor (painted : Color) (some : t.isNull = false) : (t.paint painted).color = painted := by
  cases t with
  | null => cases some
  | node => rfl

theorem plugLast {path : List (Frame α)} {f : Frame α} (last : path.getLast? = some f) (t : ColouredTree α) :
    (plug t path).color = f.color := by
  induction path generalizing t with
  | nil => cases last
  | cons g rest ih =>
    cases rest with
    | nil =>
      cases last
      exact closeColor _ t
    | cons => exact ih last (g.close t)

def ColouredTree.toList : ColouredTree α → List α
  | .null => []
  | .node _ left key right => left.toList ++ key :: right.toList

def pathList : List (Frame α) → List α
  | [] => []
  | f :: rest => f.key :: (f.other.toList ++ pathList rest)

theorem paintList (color : Color) (t : ColouredTree α) : (t.paint color).toList = t.toList := by
  cases t <;> rfl

theorem rotateList (t : ColouredTree α) : (rotate side t).toList = t.toList := by
  unfold rotate
  split <;> simp [ColouredTree.toList]

theorem closeSame {t t' : ColouredTree α} (same : t'.toList = t.toList) :
    (f.close t').toList = (f.close t).toList := by
  unfold Frame.close
  split <;> simp only [ColouredTree.toList,same]

theorem plugSame (path : List (Frame α)) {t t' : ColouredTree α} (same : t'.toList = t.toList) :
    (plug t' path).toList = (plug t path).toList := by
  induction path generalizing t t' with
  | nil => exact same
  | cons f rest ih => exact ih (closeSame f same)

theorem closePerm (t : ColouredTree α) : (f.close t).toList.Perm (f.key :: (t.toList ++ f.other.toList)) := by
  unfold Frame.close
  split
  · exact List.perm_middle
  · exact List.perm_middle.trans (List.perm_append_comm.cons _)

theorem plugPerm (t : ColouredTree α) (path : List (Frame α)) : (plug t path).toList.Perm (t.toList ++ pathList path) := by
  induction path generalizing t with
  | nil =>
    rw [pathList,List.append_nil]
    exact .refl _
  | cons f rest ih =>
    refine (ih (f.close t)).trans (((closePerm f t).append_right _).trans ?_)
    rw [List.cons_append,List.append_assoc]
    exact List.perm_middle.symm

theorem listLength (t : ColouredTree α) : t.toList.length = t.size := by
  induction t with
  | null => rfl
  | node c l k r left right =>
    simp only [ColouredTree.toList,ColouredTree.size,List.length_append,List.length_cons,left,right]
    omega

theorem pathLength (path : List (Frame α)) : path.length ≤ pathSize path := by
  induction path with
  | nil => exact Nat.le_refl 0
  | cons =>
    simp only [pathSize,List.length_cons]
    omega

end
end Pjproject.Lib.RedBlack
