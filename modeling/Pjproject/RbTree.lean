import Pjproject.Lib.RedBlack

/-! The red-black tree of rbtree.c. A node is given by its subtree and the frames above it, which are its parent pointers;
the sentinel for a missing child is `null`, with a colour of its own that only the repair after an erasure changes. -/
namespace Pjproject.Rb
open Lib.RedBlack

variable {α : Type}

structure RbTree (α : Type) where
  root : ColouredTree α := .null
  size : Nat := 0
  deriving DecidableEq, Repr

/- The loop of insert_fixup, with the two mirrored halves as one. A red parent is not the root: there is a frame above it. -/
def insertFixup (node : ColouredTree α) : List (Frame α) → ColouredTree α
  | p :: g :: rest =>
    if p.color = .black then (plug node (p :: g :: rest)).paint .black
    else if g.other.color = .red then
      insertFixup (Frame.close { g with color := .red, other := g.other.paint .black }
        (Frame.close { p with color := .black } node)) rest
    else
      let parent := p.close node
      let temp := if p.side ≠ g.side then rotate g.side parent else parent
      (plug (rotate g.side.flip (Frame.close { g with color := .red } (temp.paint .black))) rest).paint .black
  | path => (plug node path).paint .black

def colorOf (sentinel : Color) : ColouredTree α → Color
  | .null => sentinel
  | .node color _ _ _ => color

/- The first case of delete_fixup: a red sibling comes up, and a frame for it stands above the parent. -/
def raiseSibling (sentinel : Color) (f : Frame α) : Color × Frame α × Option (Frame α) :=
  if colorOf sentinel f.other = .red then
    match f.other with
    | .null => (.black, { f with color := .red }, none)
    | .node _ left key right =>
      let near := if f.side = .left then left else right
      let far := if f.side = .left then right else left
      (sentinel, { f with color := .red, other := near }, some ⟨f.side,.black,key,far⟩)
  else (sentinel, f, none)

/- delete_fixup, with the mirrored halves as one. Under a sibling that came up the parent is red, which ends the loop. -/
def deleteFixup (sentinel : Color) (node : ColouredTree α) : List (Frame α) → ColouredTree α
  | [] => node.paint .black
  | f :: rest =>
    if node.color = .red then plug (node.paint .black) (f :: rest)
    else
      let (sentinel, f, above) := raiseSibling sentinel f
      let near := f.other.child f.side
      let far := f.other.child f.side.flip
      if colorOf sentinel near = .black ∧ colorOf sentinel far = .black then
        let parent := Frame.close { f with other := f.other.paint .red } node
        match above with
        | some g => plug (parent.paint .black) (g :: rest)
        | none => deleteFixup (if f.other.isNull then .red else sentinel) parent rest
      else
        let temp :=
          if colorOf sentinel far = .black then
            let opened := match f.side, f.other with
              | .left, .node _ l k r => .node .red (l.paint .black) k r
              | .right, .node _ l k r => .node .red l k (r.paint .black)
              | _, .null => .null
            rotate f.side.flip opened
          else f.other
        let temp := match f.side, temp.paint f.color with
          | .left, .node c l k r => .node c l k (r.paint .black)
          | .right, .node c l k r => .node c (l.paint .black) k r
          | _, .null => .null
        (plug (rotate f.side (Frame.close { f with color := .black, other := temp } node))
          (above.toList ++ rest)).paint .black

/- The descent of pj_rbtree_insert; none when an equal key is there. -/
def descend (comp : α → α → Int) (key : α) : ColouredTree α → List (Frame α) → Option (List (Frame α))
  | .null, path => some path
  | .node c l k r, path =>
    let rv := comp key k
    if rv = 0 then none
    else if rv < 0 then descend comp key l (⟨.left,c,k,r⟩ :: path)
    else descend comp key r (⟨.right,c,k,l⟩ :: path)

def RbTree.insert (comp : α → α → Int) (tree : RbTree α) (key : α) : RbTree α :=
  match descend comp key tree.root [] with
  | none => tree
  | some [] => ⟨.node .black .null key .null,tree.size + 1⟩
  | some path => ⟨insertFixup (.node .red .null key .null) path,tree.size + 1⟩

/- A node of the tree, named by the way down to it. -/
def locate : ColouredTree α → List Side → List (Frame α) → ColouredTree α × List (Frame α)
  | .node c l k r, .left :: way, path => locate l way (⟨.left,c,k,r⟩ :: path)
  | .node c l k r, .right :: way, path => locate r way (⟨.right,c,k,l⟩ :: path)
  | t, _, path => (t, path)

/- The successor of a node in its right subtree: its colour, its key, its right child and the frames above it. -/
def successor (c : Color) (k : α) (r : ColouredTree α) : ColouredTree α → List (Frame α) → Color × α × ColouredTree α × List (Frame α)
  | .null, path => (c, k, r, path)
  | .node c' l' k' r', path => successor c' k' r' l' (⟨.left,c,k,r⟩ :: path)

/- The repair of pj_rbtree_erase. `color` is what succ->color is by then: the colour of the erased node. -/
def repair (color : Color) (child : ColouredTree α) (path : List (Frame α)) : ColouredTree α :=
  match color, child with
  | .black, .node c l k r => deleteFixup .black (.node c l k r) path
  | _, child => plug child path

def RbTree.erase (tree : RbTree α) (way : List Side) : RbTree α :=
  match locate tree.root way [] with
  | (.null, _) => tree
  | (.node color .null _ right, path) => ⟨repair color right path,tree.size - 1⟩
  | (.node color left _ .null, path) => ⟨repair color left path,tree.size - 1⟩
  | (.node color left _ (.node c l k r), path) =>
    let (_, key, child, inner) := successor c k r l []
    ⟨repair color child (inner ++ ⟨.right,color,key,left⟩ :: path),tree.size - 1⟩

inductive Op (α : Type) where
  | insert (key : α)
  | erase (way : List Side)

def RbTree.step (comp : α → α → Int) (tree : RbTree α) : Op α → RbTree α
  | .insert key => tree.insert comp key
  | .erase way => tree.erase way

def RbTree.run (comp : α → α → Int) : RbTree α → List (Op α) → RbTree α
  | tree, [] => tree
  | tree, op :: rest => (tree.step comp op).run comp rest

section Insert
variable {node other uncle : ColouredTree α} {n : Nat} {path : List (Frame α)}

theorem turnValid {ps gs : Side} {pk gk : α} (valid : Valid .red n node) (sibling : Valid .black n other)
    (above : Valid .black n uncle) : Valid .black (n + 1) (rotate gs.flip (Frame.close ⟨gs,.red,gk,uncle⟩
      ((if ps ≠ gs then rotate gs (Frame.close ⟨ps,.red,pk,other⟩ node)
        else Frame.close ⟨ps,.red,pk,other⟩ node).paint .black))) := by
  cases valid with
  | red l r =>
    cases ps with
    | left =>
      cases gs with
      | left => exact .black (.red l r) (.red sibling above)
      | right => exact .black (.red above l) (.red r sibling)
    | right =>
      cases gs with
      | left => exact .black (.red sibling l) (.red r above)
      | right => exact .black (.red above sibling) (.red l r)

theorem insertFixupValid : ∀ {path : List (Frame α)} {node : ColouredTree α} {n : Nat}, Valid .red n node → Fits .black n path →
    ∃ m, Valid .black m (insertFixup node path)
  | [], _, _, valid, _ => valid.paintBlack
  | [p], node, n, valid, fits => by
    unfold insertFixup
    cases fits with
    | red sibling up => nomatch up
    | black sibling => exact (closeBlack sibling valid).paintBlack
  | p :: g :: rest, node, n, valid, fits => by
    unfold insertFixup
    cases fits with
    | black sibling up =>
      rw [if_pos rfl]
      obtain ⟨m,whole⟩ := plugValid up (closeBlack sibling valid)
      exact whole.paintBlack
    | red sibling up =>
      rw [if_neg nofun]
      cases up with
      | black above up =>
        split
        · next red =>
          rw [above.color] at red
          subst red
          refine insertFixupValid (closeRed ?_ (closeBlack sibling valid)) up
          cases above with
          | red l r => exact .black l r
        · next black =>
          rw [above.color] at black
          have painted : ∀ c : Color, c ≠ .red → c = .black := by
            intro c other
            cases c
            · exact absurd rfl other
            · rfl
          rw [painted _ black] at above
          obtain ⟨m,whole⟩ := plugValid up (turnValid valid sibling above)
          exact whole.paintBlack

theorem descendFits {comp : α → α → Int} {key : α} {t : ColouredTree α} {c : Color} {n : Nat} {path out : List (Frame α)}
    (valid : Valid c n t) (fits : Fits c n path) (found : descend comp key t path = some out) : Fits .black 0 out := by
  induction valid generalizing path with
  | null =>
    cases found
    exact fits
  | red l r left right =>
    simp only [descend] at found
    split at found
    · contradiction
    · split at found
      · exact left (.red r fits) found
      · exact right (.red l fits) found
  | black l r left right =>
    simp only [descend] at found
    split at found
    · contradiction
    · split at found
      · exact left (.black r fits) found
      · exact right (.black l fits) found

end Insert

/- What holds of the tree and its counter. -/
structure RbTree.Sound (tree : RbTree α) : Prop where
  valid : ∃ n, Valid .black n tree.root
  size : tree.root.size = tree.size

theorem insertFixupSize : ∀ (path : List (Frame α)) (node : ColouredTree α),
    (insertFixup node path).size = node.size + pathSize path
  | [], node => paintSize _ _
  | [p], node => by
    unfold insertFixup
    rw [paintSize,plugSize]
  | p :: g :: rest, node => by
    unfold insertFixup
    split
    · rw [paintSize,plugSize]
    · split
      · rw [insertFixupSize rest,closeSize,closeSize]
        simp only [paintSize,pathSize]
        omega
      · simp only [paintSize,plugSize,rotateSize,closeSize,pathSize]
        split <;> simp only [rotateSize,closeSize] <;> omega

theorem descendSize {comp : α → α → Int} {key : α} {t : ColouredTree α} {path out : List (Frame α)}
    (found : descend comp key t path = some out) : pathSize out = t.size + pathSize path := by
  induction t generalizing path with
  | null =>
    cases found
    simp [ColouredTree.size]
  | node c l k r left right =>
    simp only [descend] at found
    split at found
    · contradiction
    · split at found
      · rw [left found]
        simp only [pathSize,ColouredTree.size]
        omega
      · rw [right found]
        simp only [pathSize,ColouredTree.size]
        omega

theorem RbTree.Sound.insert {tree : RbTree α} (sound : tree.Sound) (comp : α → α → Int) (key : α) :
    (tree.insert comp key).Sound := by
  obtain ⟨n,valid⟩ := sound.valid
  have single : Valid .red 0 (.node .red .null key .null) := .red .null .null
  unfold RbTree.insert
  split
  · exact sound
  · next found =>
    refine ⟨⟨1,.black .null .null⟩,?_⟩
    have size := descendSize found
    simp only [pathSize,sound.size] at size
    simp only [ColouredTree.size]
    omega
  · next path _ found =>
    refine ⟨insertFixupValid single (descendFits valid .root found),?_⟩
    have size := descendSize found
    simp only [pathSize,sound.size] at size
    simp only [insertFixupSize,ColouredTree.size]
    omega

/- Where an erasure leaves the number of black nodes alone: what leaves its place (the node itself, or its successor when
it has two children) is red, or it is black over a child that is painted black, which needs the erased node to be black,
or it is the only node. -/
def RbTree.Careful (tree : RbTree α) (way : List Side) : Prop :=
  match locate tree.root way [] with
  | (.node color .null _ right, path) => color = .red ∨ right.isNull = false ∨ path = []
  | (.node color (.node _ _ _ _) _ (.node c l k r), _) =>
    (successor c k r l []).1 = .red ∨ (successor c k r l []).2.2.1.isNull = false ∧ color = .black
  | _ => True

section Erase
variable {c color : Color} {n : Nat} {key : α} {t child : ColouredTree α} {path : List (Frame α)}

theorem locateFits {t : ColouredTree α} {c : Color} {n : Nat} (way : List Side) {path : List (Frame α)} (valid : Valid c n t)
    (fits : Fits c n path) : ∃ c' n', Valid c' n' (locate t way path).1 ∧ Fits c' n' (locate t way path).2 := by
  induction valid generalizing way path with
  | null =>
    unfold locate
    exact ⟨_,_,.null,fits⟩
  | red l r left right =>
    match way with
    | [] => exact ⟨_,_,.red l r,fits⟩
    | .left :: way => exact left way (.red r fits)
    | .right :: way => exact right way (.red l fits)
  | black l r left right =>
    match way with
    | [] => exact ⟨_,_,.black l r,fits⟩
    | .left :: way => exact left way (.black r fits)
    | .right :: way => exact right way (.black l fits)

theorem locateSize (t : ColouredTree α) (way : List Side) (path : List (Frame α)) :
    (locate t way path).1.size + pathSize (locate t way path).2 = t.size + pathSize path := by
  induction t generalizing way path with
  | null => simp [locate]
  | node c l k r left right =>
    match way with
    | [] => simp [locate]
    | .left :: way =>
      simp only [locate,left,pathSize,ColouredTree.size]
      omega
    | .right :: way =>
      simp only [locate,right,pathSize,ColouredTree.size]
      omega

theorem successorFits {l : ColouredTree α} {c : Color} {n : Nat} {k : α} {r : ColouredTree α} (inner above : List (Frame α))
    (valid : Valid c n (.node c l k r)) (fits : Fits c n (inner ++ above)) :
    ∃ m, Valid (successor c k r l inner).1 m
        (.node (successor c k r l inner).1 .null (successor c k r l inner).2.1 (successor c k r l inner).2.2.1) ∧
      Fits (successor c k r l inner).1 m ((successor c k r l inner).2.2.2 ++ above) := by
  induction l generalizing c n k r inner with
  | null => exact ⟨n,valid,fits⟩
  | node c' l' k' r' left =>
    cases valid with
    | red l r =>
      have same := l.color
      cases same
      exact left (⟨.left,.red,k,_⟩ :: inner) l (.red r fits)
    | black l r =>
      have same := l.color
      cases same
      exact left (⟨.left,.black,k,_⟩ :: inner) l (.black r fits)

theorem successorSize (c : Color) (k : α) (r l : ColouredTree α) (inner : List (Frame α)) :
    (successor c k r l inner).2.2.1.size + pathSize (successor c k r l inner).2.2.2 + 1 =
      l.size + r.size + 1 + pathSize inner := by
  induction l generalizing c k r inner with
  | null =>
    simp only [successor,ColouredTree.size]
    omega
  | node c' l' k' r' left =>
    simp only [successor,left,pathSize,ColouredTree.size]
    omega

theorem pathSizeAppend (path above : List (Frame α)) : pathSize (path ++ above) = pathSize path + pathSize above := by
  induction path with
  | nil => simp [pathSize]
  | cons f rest ih =>
    simp only [List.cons_append,pathSize,ih]
    omega

theorem deleteFixupRed {node : ColouredTree α} (sentinel : Color) (red : node.color = .red) (path : List (Frame α)) :
    deleteFixup sentinel node path = plug (node.paint .black) path := by
  cases path with
  | nil => rfl
  | cons =>
    unfold deleteFixup
    rw [if_pos red]

theorem repairValid (removed color : Color) (child : ColouredTree α) (path : List (Frame α))
    (valid : removed = .red → child = .null)
    (single : removed = .black → Valid .red 0 child ∧ color = .black ∨ child = .null ∧ path = [])
    (fits : Fits removed (if removed = .black then 1 else 0) path) :
    (∃ m, Valid .black m (repair color child path)) ∧ (repair color child path).size = child.size + pathSize path := by
  have bare : child = .null → repair color child path = plug .null path := by
    rintro rfl
    unfold repair
    split
    · contradiction
    · rfl
  cases removed with
  | red =>
    have none := valid rfl
    rw [bare none,none,plugSize]
    exact ⟨plugValid fits.toBlack .null,rfl⟩
  | black =>
    rcases single rfl with ⟨red,rfl⟩ | ⟨none,rfl⟩
    · have painted : repair .black child path = plug (child.paint .black) path := by
        cases red with
        | red => exact deleteFixupRed .black rfl path
      rw [painted,plugSize,paintSize]
      refine ⟨plugValid fits ?_,rfl⟩
      cases red with
      | red l r => exact .black l r
    · rw [bare none,none]
      exact ⟨⟨0,.null⟩,rfl⟩

theorem validZero (valid : Valid c 0 t) (some : t.isNull = false) : Valid .red 0 t := by
  cases valid with
  | null => contradiction
  | red l r => exact .red l r

theorem validZeroBlack (valid : Valid .black 0 t) : t = .null := by
  cases valid
  rfl

theorem repairUnbalanced {f : Frame α} (fits : Fits .black 1 (f :: path)) (few : ∀ a ∈ child.blacks, a = 0)
    (bare : child.isNull = false → color = .red) : ¬Balanced (repair color child (f :: path)) := by
  have plain : repair color child (f :: path) = plug child (f :: path) := by
    unfold repair
    split
    · exact absurd (bare rfl) nofun
    · rfl
  rw [plain]
  exact plugUnbalanced fits fun a member => by rw [few a member]; decide

theorem RbTree.Sound.erase {tree : RbTree α} (sound : tree.Sound) (way : List Side) (careful : tree.Careful way) :
    (tree.erase way).Sound := by
  obtain ⟨n,whole⟩ := sound.valid
  obtain ⟨c,m,valid,fits⟩ := locateFits way whole .root
  have size := locateSize tree.root way []
  unfold RbTree.Careful at careful
  unfold RbTree.erase
  generalize locate tree.root way [] = place at careful valid fits size
  obtain ⟨t,path⟩ := place
  simp only [pathSize,Nat.add_zero,sound.size] at size
  cases t with
  | null => exact sound
  | node color left key right =>
    cases left with
    | null =>
      obtain ⟨root,count⟩ : (∃ m, Valid .black m (repair color right path)) ∧
          (repair color right path).size = right.size + pathSize path := by
        cases valid with
        | red l r =>
          cases l
          exact repairValid .red .red right path (fun _ => validZeroBlack r) (by simp) fits
        | black l r =>
          cases l
          refine repairValid .black .black right path (by simp) (fun _ => ?_) fits
          cases some : right.isNull with
          | false => exact .inl ⟨validZero r some,rfl⟩
          | true =>
            refine .inr ⟨?_,(careful.resolve_left (by simp)).resolve_left (by simp [some])⟩
            cases right with
            | null => rfl
            | node => contradiction
      refine ⟨root,?_⟩
      simp only [ColouredTree.size] at size
      simp only [count]
      omega
    | node lc ll lk lr =>
      cases right with
      | null =>
        obtain ⟨root,count⟩ : (∃ m, Valid .black m (repair color (.node lc ll lk lr) path)) ∧
            (repair color (.node lc ll lk lr) path).size = (ColouredTree.node lc ll lk lr).size + pathSize path := by
          cases valid with
          | red l r =>
            cases r
            cases validZeroBlack l
          | black l r =>
            cases r
            exact repairValid .black .black _ path (by simp) (fun _ => .inl ⟨validZero l rfl,rfl⟩) fits
        refine ⟨root,?_⟩
        simp only [ColouredTree.size] at size count
        simp only [count]
        omega
      | node rc rl rk rr =>
        have above : ∃ m d, Valid d m (.node rc rl rk rr) ∧ Fits d m ([] ++ (⟨.right,color,
            (successor rc rk rr rl []).2.1,.node lc ll lk lr⟩ :: path)) := by
          cases valid with
          | red l r => exact ⟨_,_,r,.red l fits⟩
          | black l r => exact ⟨_,_,r,.black l fits⟩
        obtain ⟨m,d,inner,above⟩ := above
        have same : rc = d := inner.color
        subst same
        obtain ⟨m',last,fits'⟩ := successorFits [] _ inner above
        have moved := successorSize rc rk rr rl []
        change (successor rc rk rr rl []).1 = .red ∨
          (successor rc rk rr rl []).2.2.1.isNull = false ∧ color = .black at careful
        change RbTree.Sound ⟨repair color (successor rc rk rr rl []).2.2.1 ((successor rc rk rr rl []).2.2.2 ++
          ⟨.right,color,(successor rc rk rr rl []).2.1,.node lc ll lk lr⟩ :: path),tree.size - 1⟩
        generalize successor rc rk rr rl [] = succ at careful above last fits' moved ⊢
        obtain ⟨sc,sk,child,path'⟩ := succ
        dsimp only at careful last fits' moved ⊢
        obtain ⟨root,count⟩ := repairValid sc color child
          (path' ++ ⟨.right,color,sk,.node lc ll lk lr⟩ :: path) (by
            rintro rfl
            cases last with
            | red l r =>
              cases l
              exact validZeroBlack r) (by
            rintro rfl
            obtain ⟨some,black⟩ := careful.resolve_left (by simp)
            cases last with
            | black l r =>
              cases l
              exact .inl ⟨validZero r some,black⟩) (by
            cases last with
            | red l =>
              cases l
              exact fits'
            | black l =>
              cases l
              exact fits')
        refine ⟨root,?_⟩
        simp only [ColouredTree.size,pathSize,Nat.add_zero] at size moved
        simp only [count,pathSizeAppend,pathSize,ColouredTree.size]
        omega

theorem eraseUnbalanced {tree : RbTree α} (sound : tree.Sound) (way : List Side) (careless : ¬tree.Careful way) :
    ¬Balanced (tree.erase way).root := by
  obtain ⟨n,whole⟩ := sound.valid
  obtain ⟨c,m,valid,fits⟩ := locateFits way whole .root
  unfold RbTree.Careful at careless
  unfold RbTree.erase
  generalize locate tree.root way [] = place at careless valid fits
  obtain ⟨t,path⟩ := place
  cases t with
  | null => exact absurd trivial careless
  | node color left key right =>
    cases left with
    | null =>
      simp only [not_or] at careless
      obtain ⟨black,none,inner⟩ := careless
      cases path with
      | nil => exact absurd rfl inner
      | cons =>
        cases valid with
        | red => exact absurd rfl black
        | black l r =>
          cases l
          exact repairUnbalanced fits r.blacks fun some => absurd some none
    | node lc ll lk lr =>
      cases right with
      | null => exact absurd trivial careless
      | node rc rl rk rr =>
        have above : ∃ m d, Valid d m (.node rc rl rk rr) ∧ Fits d m ([] ++ (⟨.right,color,
            (successor rc rk rr rl []).2.1,.node lc ll lk lr⟩ :: path)) := by
          cases valid with
          | red l r => exact ⟨_,_,r,.red l fits⟩
          | black l r => exact ⟨_,_,r,.black l fits⟩
        obtain ⟨m,d,inner,above⟩ := above
        have same : rc = d := inner.color
        subst same
        obtain ⟨m',last,fits'⟩ := successorFits [] _ inner above
        change ¬((successor rc rk rr rl []).1 = .red ∨
          (successor rc rk rr rl []).2.2.1.isNull = false ∧ color = .black) at careless
        change ¬Balanced (repair color (successor rc rk rr rl []).2.2.1 ((successor rc rk rr rl []).2.2.2 ++
          ⟨.right,color,(successor rc rk rr rl []).2.1,.node lc ll lk lr⟩ :: path))
        generalize successor rc rk rr rl [] = succ at careless above last fits' ⊢
        obtain ⟨sc,sk,child,path'⟩ := succ
        simp only [not_or,not_and] at careless
        dsimp only at careless last fits' ⊢
        have bare : child.isNull = false → color = .red := fun some => by
          cases color with
          | red => rfl
          | black => exact absurd rfl (careless.2 some)
        cases last with
        | red => exact absurd rfl careless.1
        | black l r =>
          cases l
          cases path' with
          | nil => exact repairUnbalanced fits' r.blacks bare
          | cons => exact repairUnbalanced fits' r.blacks bare

end Erase

def RbTree.CarefulOp (tree : RbTree α) : Op α → Prop
  | .insert _ => True
  | .erase way => tree.Careful way

def RbTree.CarefulRun (comp : α → α → Int) : RbTree α → List (Op α) → Prop
  | _, [] => True
  | tree, op :: rest => tree.CarefulOp op ∧ (tree.step comp op).CarefulRun comp rest

section Run
variable {comp : α → α → Int} {tree : RbTree α}

theorem RbTree.Sound.step (sound : tree.Sound) (op : Op α) (careful : tree.CarefulOp op) : (tree.step comp op).Sound := by
  cases op with
  | insert key => exact sound.insert comp key
  | erase way => exact sound.erase way careful

theorem stepBalanced (sound : tree.Sound) (op : Op α) (balanced : Balanced (tree.step comp op).root) :
    tree.CarefulOp op := by
  cases op with
  | insert => trivial
  | erase way =>
    by_contra careless
    exact eraseUnbalanced sound way careless balanced

theorem RbTree.Sound.run {ops : List (Op α)} (sound : tree.Sound) (careful : tree.CarefulRun comp ops) :
    (tree.run comp ops).Sound := by
  induction ops generalizing tree with
  | nil => exact sound
  | cons op rest ih => exact ih (sound.step op careful.1) careful.2

theorem carefulTake {ops : List (Op α)} (careful : tree.CarefulRun comp ops) (k : Nat) :
    tree.CarefulRun comp (ops.take k) := by
  induction ops generalizing tree k with
  | nil => simp [RbTree.CarefulRun]
  | cons op rest ih =>
    cases k with
    | zero => trivial
    | succ k => exact ⟨careful.1,ih careful.2 k⟩

theorem balancedCareful {ops : List (Op α)} (sound : tree.Sound)
    (balanced : ∀ k, Balanced (tree.run comp (ops.take k)).root) : tree.CarefulRun comp ops := by
  induction ops generalizing tree with
  | nil => trivial
  | cons op rest ih =>
    have careful := stepBalanced sound op (balanced 1)
    exact ⟨careful,ih (sound.step op careful) fun k => balanced (k + 1)⟩

end Run

theorem emptySound : ({} : RbTree α).Sound := ⟨⟨0,.null⟩,rfl⟩

theorem balancedExactly (comp : α → α → Int) (ops : List (Op α)) :
    (∀ k, Balanced (RbTree.run comp {} (ops.take k)).root ∧
      (RbTree.run comp {} (ops.take k)).root.height ≤ 2 * Nat.log 2 ((RbTree.run comp {} (ops.take k)).size + 1)) ↔
    RbTree.CarefulRun comp {} ops := by
  refine ⟨fun holds => balancedCareful emptySound fun k => (holds k).1,fun careful k => ?_⟩
  have sound := emptySound.run (carefulTake careful k)
  obtain ⟨n,valid⟩ := sound.valid
  exact ⟨valid.balanced,sound.size ▸ valid.heightLog⟩

/- Four keys in order, then the first one goes: a black leaf, and nothing is repaired. -/
theorem blackLeafErased : ¬Balanced (RbTree.run (fun a b : Nat => (a : Int) - b) {}
    [.insert 1,.insert 2,.insert 3,.insert 4,.erase [.left]]).root :=
  fun balanced => absurd (balanced.paths 1 (by decide) 2 (by decide)) (by decide)

/- pj_rbtree_max_height and pj_rbtree_min_height. Below the node the second one asks for the greatest height, as the first. -/
def maxHeight : ColouredTree α → Nat
  | .null => 0
  | .node _ left _ right =>
    max (if left.isNull then 0 else maxHeight left + 1) (if right.isNull then 0 else maxHeight right + 1)

def minHeight : ColouredTree α → Nat
  | .null => 0
  | .node _ left _ right =>
    min (if left.isNull then 0 else maxHeight left + 1) (if right.isNull then 0 else maxHeight right + 1)

theorem sideHeight (t : ColouredTree α) : (if t.isNull then 0 else maxHeight t + 1) = t.height := by
  induction t with
  | null => rfl
  | node color left key right atLeft atRight =>
    change max (if left.isNull then 0 else maxHeight left + 1) (if right.isNull then 0 else maxHeight right + 1) + 1 = _
    rw [atLeft,atRight]
    rfl

/- The two heights of a tree whose erasures were all repaired. -/
theorem heightsApart (comp : α → α → Int) (ops : List (Op α)) (careful : RbTree.CarefulRun comp {} ops) :
    maxHeight (RbTree.run comp {} ops).root ≤ 2 * minHeight (RbTree.run comp {} ops).root + 1 := by
  obtain ⟨n,valid⟩ := (emptySound.run careful).valid
  generalize (RbTree.run comp {} ops).root = root at valid
  have most := valid.heightBound
  cases valid with
  | null => exact Nat.zero_le _
  | black l r =>
    have atLeast : ∀ {c n} {t : ColouredTree α}, Valid c n t → n ≤ t.height := by
      intro c n t valid
      induction valid with
      | null => exact Nat.zero_le _
      | red l r left => exact Nat.le_succ_of_le (Nat.le_trans left (Nat.le_max_left _ _))
      | black l r left => exact Nat.succ_le_succ (Nat.le_trans left (Nat.le_max_left _ _))
    simp only [ColouredTree.height,reduceCtorEq,if_false] at most
    simp only [maxHeight,minHeight,sideHeight]
    have left := atLeast l
    have right := atLeast r
    omega

/- The root goes, its successor takes its place, and a red leaf goes. -/
theorem threeHeightsApart : let comp := fun a b : Nat => (a : Int) - b
    let ops := [.insert 1,.insert 2,.insert 3,.erase [],.insert 4,.erase [.left]]
    maxHeight (RbTree.run comp {} ops).root ≤ 2 * minHeight (RbTree.run comp {} ops).root + 1 :=
  heightsApart _ _ ⟨trivial,trivial,trivial,.inl rfl,trivial,.inl rfl,trivial⟩

end Pjproject.Rb
