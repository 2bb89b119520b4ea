import Pjproject.Lib.LinkedTree

/-! The red-black tree of rbtree.c in memory: nodes linked to their children and their parent, and the node null_node in the
tree itself for what is missing. Loops take fuel and return none where it does not last to their end. -/
namespace Pjproject.RbNodes
open Lib.RedBlack Lib.LinkedTree

/- pj_rbtree; size is kept without its modulus, for a tree of fewer than 2^32 nodes. -/
structure Rbtree (A K : Type) where
  store : Store A K
  size : Nat

variable {A K : Type} [DecidableEq A]

/- pj_rbtree_init. -/
def Rbtree.init (null : A) (mem : A → Node A K) : Rbtree A K :=
  { store :=
      { null
        root := null
        mem := Function.update mem null { mem null with left := null, right := null, parent := null, color := .black } }
    size := 0 }

def loop {S : Type} (going : S → Bool) (round : S → S) : Nat → S → Option S
  | 0, state => if going state then none else some state
  | fuel + 1, state => if going state then loop going round fuel (round state) else some state

/- left_rotate, and right_rotate for the other side. -/
def rotate (side : Side) (s : Store A K) (node : A) : Store A K :=
  let up := (s.mem node).child side.flip
  if up = s.null then s
  else
    let inner := (s.mem up).child side
    let s := s.setChild node side.flip inner
    let s := if inner ≠ s.null then s.setParent inner node else s
    let parent := (s.mem node).parent
    let s := s.setParent up parent
    let s := s.relink parent node up
    let s := s.setChild up side node
    s.setParent node up

def leftRotate : Store A K → A → Store A K := rotate .left

def rightRotate : Store A K → A → Store A K := rotate .right

/- One round of insert_fixup; its mirrored halves are one, for a parent on either side. -/
def insertRound : Store A K × A → Store A K × A
  | (s, node) =>
    let parent := (s.mem node).parent
    let grand := (s.mem parent).parent
    let side := if (s.mem grand).left = parent then .left else .right
    let temp := (s.mem grand).child side.flip
    if (s.mem temp).color = .red then
      let s := s.paint temp .black
      let s := s.paint parent .black
      let node := (s.mem parent).parent
      (s.paint node .red, node)
    else
      let (s, node) := if (s.mem parent).child side.flip = node then (rotate side s parent, parent) else (s, node)
      let temp := (s.mem node).parent
      let s := s.paint temp .black
      let temp := (s.mem temp).parent
      let s := s.paint temp .red
      (rotate side.flip s temp, node)

def insertGoing : Store A K × A → Bool
  | (s, node) => node ≠ s.root ∧ (s.mem (s.mem node).parent).color = .red

def insertFixup (fuel : Nat) (s : Store A K) (node : A) : Option (Store A K) :=
  (loop insertGoing insertRound fuel (s, node)).map fun (s, _) => s.paint s.root .black

/- A red sibling comes up; the sibling of the node after that. -/
def raiseRed (side : Side) (s : Store A K) (node : A) : Store A K × A :=
  let temp := (s.mem (s.mem node).parent).child side.flip
  if (s.mem temp).color = .red then
    let s := s.paint temp .black
    let s := s.paint (s.mem node).parent .red
    let s := rotate side s (s.mem node).parent
    (s, (s.mem (s.mem node).parent).child side.flip)
  else (s, temp)

/- Over a black far nephew the near one comes up; the sibling of the node after that. -/
def raiseNear (side : Side) (s : Store A K) (node temp : A) : Store A K × A :=
  if (s.mem ((s.mem temp).child side.flip)).color = .black then
    let s := s.paint ((s.mem temp).child side) .black
    let s := s.paint temp .red
    let s := rotate side.flip s temp
    (s, (s.mem (s.mem node).parent).child side.flip)
  else (s, temp)

/- The sibling comes up over a black parent and a black far nephew. -/
def raiseSibling (side : Side) (s : Store A K) (node temp : A) : Store A K :=
  let s := s.paint temp (s.mem (s.mem node).parent).color
  let s := s.paint ((s.mem temp).child side.flip) .black
  let s := s.paint (s.mem node).parent .black
  rotate side s (s.mem node).parent

/- One round of delete_fixup; its mirrored halves are one. They write a node's parent and its far nephew in either order. -/
def deleteRound : Store A K × A → Store A K × A
  | (s, node) =>
    let side := if (s.mem (s.mem node).parent).left = node then .left else .right
    let (s, temp) := raiseRed side s node
    if (s.mem ((s.mem temp).child side)).color = .black ∧ (s.mem ((s.mem temp).child side.flip)).color = .black then
      let s := s.paint temp .red
      (s, (s.mem node).parent)
    else
      let (s, temp) := raiseNear side s node temp
      let s := raiseSibling side s node temp
      (s, s.root)

def deleteGoing : Store A K × A → Bool
  | (s, node) => node ≠ s.root ∧ (s.mem node).color = .black

def deleteFixup (fuel : Nat) (s : Store A K) (node : A) : Option (Store A K) :=
  (loop deleteGoing deleteRound fuel (s, node)).map fun (s, node) => s.paint node .black

def downGoing (side : Side) (s : Store A K) (node : A) : Bool := (s.mem node).child side ≠ s.null

/- The loops that go down on one side. -/
def outermost (side : Side) (tree : Rbtree A K) (node : A) : Option A :=
  loop (downGoing side tree.store) (fun node => (tree.store.mem node).child side) tree.size node

/- A node, or NULL for null_node. -/
def Rbtree.shown (tree : Rbtree A K) (node : A) : Option A := if node = tree.store.null then none else some node

def Rbtree.first (tree : Rbtree A K) : Option (Option A) := (outermost .left tree tree.store.root).map tree.shown

def Rbtree.last (tree : Rbtree A K) : Option (Option A) := (outermost .right tree tree.store.root).map tree.shown

def upGoing (side : Side) (s : Store A K) : A × A → Bool
  | (node, temp) => temp ≠ s.null ∧ (s.mem temp).child side = node

/- pj_rbtree_next, and pj_rbtree_prev for the other side. -/
def Rbtree.step (side : Side) (tree : Rbtree A K) (node : A) : Option (Option A) :=
  let s := tree.store
  if (s.mem node).child side ≠ s.null then
    (outermost side.flip tree ((s.mem node).child side)).map tree.shown
  else
    (loop (upGoing side s) (fun (_, temp) => (temp, (s.mem temp).parent)) tree.size (node, (s.mem node).parent)).map
      fun (_, temp) => tree.shown temp

def Rbtree.next (tree : Rbtree A K) : A → Option (Option A) := tree.step .right

def Rbtree.prev (tree : Rbtree A K) : A → Option (Option A) := tree.step .left

variable (comp : K → K → Int)

/- The search loop: the node with an equal key, or else the last node passed and how the key compares with its key. -/
def search (s : Store A K) (key : K) : Nat → A → A → Int → Option (Option A × A × Int)
  | fuel, parent, node, rv =>
    if node = s.null then some (none, parent, rv)
    else
      match fuel with
      | 0 => none
      | fuel + 1 =>
        let rv := comp key (s.mem node).key
        if rv = 0 then some (some node, parent, rv)
        else search s key fuel node (if rv < 0 then (s.mem node).left else (s.mem node).right) rv

def Rbtree.find (tree : Rbtree A K) (key : K) : Option (Option A) :=
  (search comp tree.store key tree.size tree.store.null tree.store.root 0).map Prod.fst

/- pj_rbtree_insert, with what it returns. -/
def Rbtree.insert (tree : Rbtree A K) (element : A) : Option (Rbtree A K × Int) := do
  let s := tree.store
  let (found, parent, rv) ← search comp s (s.mem element).key tree.size s.null s.root 0
  match found with
  | some _ => some (tree, -1)
  | none =>
    let s := s.paint element .red
    let s := (s.setChild element .left s.null).setChild element .right s.null
    if parent ≠ s.null then
      let s := s.setParent element parent
      let s := s.setChild parent (if rv < 0 then .left else .right) element
      let s ← insertFixup tree.size s element
      some (⟨s,tree.size + 1⟩, 0)
    else
      let s := { s with root := element }
      let s := s.setParent element s.null
      some (⟨s.paint element .black,tree.size + 1⟩, 0)

/- The part of pj_rbtree_erase that puts the successor into the place of the node. -/
def transplant (s : Store A K) (node succ : A) : Store A K :=
  let s := s.setParent succ (s.mem node).parent
  let s := s.setChild succ .left (s.mem node).left
  let s := s.setChild succ .right (s.mem node).right
  let s := s.paint succ (s.mem node).color
  let parent := (s.mem node).parent
  let s := if parent ≠ s.null then s.relink parent node succ else s
  let s := if (s.mem node).left ≠ s.null then s.setParent (s.mem node).left succ else s
  let s := if (s.mem node).right ≠ s.null then s.setParent (s.mem node).right succ else s
  if s.root = node then { s with root := succ } else s

/- The node that leaves its place: the erased one, or its successor below it. -/
def Rbtree.leaving (tree : Rbtree A K) (node : A) : Option A :=
  if (tree.store.mem node).left = tree.store.null ∨ (tree.store.mem node).right = tree.store.null then some node
  else outermost .left tree (tree.store.mem node).right

/- The end of pj_rbtree_erase, with the colour of succ. -/
def settle (size : Nat) (s : Store A K) (color : Color) (child : A) : Option (Rbtree A K) :=
  if color = .black then
    (if child ≠ s.null then deleteFixup size s child else some s).map fun s => ⟨s.paint s.null .black,size - 1⟩
  else some ⟨s,size - 1⟩

def Rbtree.erase (tree : Rbtree A K) (node : A) : Option (Rbtree A K) := do
  let s := tree.store
  let succ ← tree.leaving node
  let child := if (s.mem succ).left ≠ s.null then (s.mem succ).left else (s.mem succ).right
  let parent := (s.mem succ).parent
  let s := s.setParent child parent
  let s := s.relink parent succ child
  let s := if succ ≠ node then transplant s node succ else s
  settle tree.size s (s.mem succ).color child

/- The calls on a tree. Nodes that are not in it are the caller's to write. -/
inductive Call (A K : Type) where
  | insert (element : A)
  | erase (node : A)
  | fill (node : A) (contents : Node A K)

def Rbtree.call (tree : Rbtree A K) : Call A K → Option (Rbtree A K × Option Int)
  | .insert element => (tree.insert comp element).map fun (tree, status) => (tree, some status)
  | .erase node => (tree.erase node).map (·, none)
  | .fill node contents =>
    some ({ tree with store := { tree.store with mem := Function.update tree.store.mem node contents } }, none)

/- A run, with what the insertions return. -/
def Rbtree.run : Rbtree A K → List (Call A K) → Option (Rbtree A K × List Int)
  | tree, [] => some (tree, [])
  | tree, call :: calls => do
    let (tree, status) ← tree.call comp call
    let (tree, statuses) ← Rbtree.run tree calls
    some (tree, status.toList ++ statuses)

/- The loop that a caller runs from a first node on, for at most as many rounds as there is fuel. -/
def walk (step : A → Option (Option A)) : Nat → Option A → Option (List A)
  | _, none => some []
  | 0, some _ => none
  | fuel + 1, some a => (step a).bind fun next => (walk step fuel next).map (a :: ·)

end Pjproject.RbNodes
