import Pjproject.RbNodes
import Pjproject.RbTree

/-! The code on linked nodes against the trees seen from one of their nodes: a rotation moves the frame above a node, a
write of a colour paints one place, and the two repairs are those of the trees, whatever the colours are. -/
namespace Pjproject.RbNodes
open Lib.RedBlack Lib.LinkedTree

variable {A K : Type} [DecidableEq A] {s : Store A K} {keyOf : A → K} {sentinel color color' : Color} {side : Side}
  {t x near far : ColouredTree A} {a b : A} {f : Frame A} {path : List (Frame A)}

theorem rotateNone (focus : Focus s keyOf sentinel x (⟨side,color,a,.null⟩ :: path)) : rotate side s a = s := by
  unfold rotate
  exact if_pos focus.cell.far

/- The first writes of a rotation: the inner subtree changes sides. -/
def lowered (side : Side) (s : Store A K) (node inner : A) : Store A K :=
  let s := s.setChild node side.flip inner
  if inner ≠ s.null then s.setParent inner node else s

structure Lowered (side : Side) (s lower : Store A K) (node inner : A) : Prop where
  null : lower.null = s.null
  root : lower.root = s.root
  atNode : lower.mem node = (s.mem node).setChild side.flip inner
  atInner : inner ≠ s.null → lower.mem inner = { s.mem inner with parent := node }
  others : ∀ z, z ≠ node → z ≠ inner ∨ z = s.null → lower.mem z = s.mem z

theorem loweredCells {node inner : A} (beside : inner ≠ node) :
    Lowered side s (lowered side s node inner) node inner := by
  unfold lowered
  dsimp only
  split
  next real =>
    refine ⟨rfl,rfl,?_,fun _ => ?_,fun z first second => ?_⟩
    · exact (Function.update_of_ne (Ne.symm beside) _ _).trans (Function.update_self _ _ _)
    · have kept : (s.setChild node side.flip inner).mem inner = s.mem inner := Function.update_of_ne beside _ _
      refine (Function.update_self _ _ _).trans ?_
      rw [kept]
    · have away : z ≠ inner := by
        rcases second with away | rfl
        · exact away
        · exact Ne.symm real
      exact (Function.update_of_ne away _ _).trans (Function.update_of_ne first _ _)
  next none =>
    refine ⟨rfl,rfl,Function.update_self _ _ _,fun real => absurd real none,fun z first _ => ?_⟩
    exact Function.update_of_ne first _ _

theorem rotateLowered {node up inner : A} (child : (s.mem node).child side.flip = up) (real : up ≠ s.null)
    (step : (s.mem up).child side = inner) {lower : Store A K} (lowers : lowered side s node inner = lower) :
    rotate side s node =
      (((lower.setParent up (lower.mem node).parent).relink (lower.mem node).parent node up).setChild up side node).setParent
        node up := by
  subst child step lowers
  exact if_neg real

theorem loweredKeys (s : Store A K) (node inner b : A) : ((lowered side s node inner).mem b).key = (s.mem b).key := by
  unfold lowered
  dsimp only
  split
  · rw [setParentKeys,setChildKeys]
  · exact setChildKeys _ _ _ _ _

theorem rotateKeys (side : Side) (s : Store A K) (node b : A) : ((rotate side s node).mem b).key = (s.mem b).key := by
  by_cases none : (s.mem node).child side.flip = s.null
  · unfold rotate
    rw [if_pos none]
  · rw [rotateLowered rfl none rfl rfl,setParentKeys,setChildKeys,relinkKeys,setParentKeys,loweredKeys]

theorem rotateNull (s : Store A K) (node : A) : (rotate side s node).null = s.null := by
  by_cases none : (s.mem node).child side.flip = s.null
  · unfold rotate
    rw [if_pos none]
  · rw [rotateLowered rfl none rfl rfl]
    refine (relinkNull _ _ _ _).trans ?_
    show (lowered side s node _).null = s.null
    unfold lowered
    dsimp only
    split <;> rfl

theorem rotateFocus
    (focus : Focus s keyOf sentinel x (⟨side,color,a,Frame.close ⟨side,color',b,far⟩ near⟩ :: path)) :
    Focus (rotate side s a) keyOf sentinel x (⟨side,color,a,near⟩ :: ⟨side,color',b,far⟩ :: path) := by
  obtain ⟨below,⟨real,cell,beside,above⟩,distinct,ground⟩ := focus
  obtain ⟨real',cell',within,outer⟩ := shapeClose.mp beside
  have flat : (x.toList ++ (a :: (near.toList ++ (b :: (far.toList ++ pathList path))))).Nodup := by
    refine (List.Perm.nodup_iff ?_).mp distinct
    refine List.Perm.append_left _ (List.Perm.cons _ ?_)
    refine ((closePerm ⟨side,color',b,far⟩ near).append_right _).trans ?_
    rw [List.cons_append,List.append_assoc]
    exact List.perm_middle.symm
  have apart := flat
  simp only [List.nodup_append,List.nodup_cons,List.mem_append,List.mem_cons,not_or] at apart
  have ab : b ≠ a := by grind
  have inPath : ∀ z ∈ pathList path, z ≠ a ∧ z ≠ b ∧ z ∉ near.toList := by grind
  have inFar : ∀ z ∈ far.toList, z ≠ a ∧ z ≠ b ∧ z ∉ near.toList ∧ z ∉ pathList path := by grind
  have inNear : ∀ z ∈ near.toList, z ≠ a ∧ z ≠ b ∧ z ∉ pathList path := by grind
  have inX : ∀ z ∈ x.toList, z ≠ a ∧ z ≠ b ∧ z ∉ near.toList ∧ z ∉ pathList path := by grind
  have inner : top s.null near ≠ a := by
    have outside : a ∉ near.toList := fun member => (inNear a member).1 rfl
    rcases outsideTop outside with other | null
    · exact Ne.symm other
    · exact absurd null real
  have lowers : Lowered side s (lowered side s a (top s.null near)) a (top s.null near) := loweredCells inner
  have turned := rotateLowered (cell.far.trans (topClose _ _)) real' cell'.near rfl
  generalize lowered side s a (top s.null near) = lower at lowers turned
  have parent : (lower.mem a).parent = parentOf s.null path := by rw [lowers.atNode,parentSet,cell.parent]
  rw [parent] at turned
  have kept : ∀ z, z ≠ a → z ∉ near.toList → lower.mem z = s.mem z := fun z first second =>
    lowers.others z first (outsideTop second)
  -- the link from above goes to the node that came up
  have above' : Above (lower.setParent b (parentOf s.null path)).null (lower.setParent b (parentOf s.null path)).root
      (lower.setParent b (parentOf s.null path)).mem a path := by
    refine aboveCongr (?_ : Above lower.null lower.root s.mem a path) ?_
    · rw [lowers.null,lowers.root]
      exact above
    · intro z member
      exact (Function.update_of_ne (inPath z member).2.1 _ _).trans (kept z (inPath z member).1 (inPath z member).2.2)
  have linked := aboveRelinked b above' (lowers.null.symm ▸ real) (by grind) (by grind)
  have null : (lower.setParent b (parentOf s.null path)).null = s.null := lowers.null
  rw [null] at linked
  have atB : (lower.setParent b (parentOf s.null path)).mem b = { s.mem b with parent := parentOf s.null path } := by
    refine (Function.update_self _ _ _).trans ?_
    rw [kept b ab (by grind)]
  have others : ∀ z, z ≠ b → (lower.setParent b (parentOf s.null path)).mem z = lower.mem z :=
    fun z other => Function.update_of_ne other _ _
  have relinked : ∀ z, z ∉ pathList path → ((lower.setParent b (parentOf s.null path)).relink (parentOf s.null path) a b).mem z =
      (lower.setParent b (parentOf s.null path)).mem z := by
    intro z outside
    by_cases same : z = s.null
    · exact relinkOther (.inr (same.trans null.symm))
    · exact relinkOther (.inl (outsideParent same outside))
  have whole : ((lower.setParent b (parentOf s.null path)).relink (parentOf s.null path) a b).null = s.null :=
    (relinkNull _ _ _ _).trans null
  have keys := rotateKeys side s a
  rw [turned] at keys ⊢
  generalize (lower.setParent b (parentOf s.null path)).relink (parentOf s.null path) a b = linkedUp at *
  have last : ∀ z, z ≠ a → z ≠ b → ((linkedUp.setChild b side a).setParent a b).mem z = linkedUp.mem z :=
    fun z first second => (Function.update_of_ne first _ _).trans (Function.update_of_ne second _ _)
  have final : ∀ z, z ≠ a → z ≠ b → z ∉ pathList path → z ∉ near.toList →
      ((linkedUp.setChild b side a).setParent a b).mem z = s.mem z := by
    intro z first second outside away
    rw [last z first second,relinked z outside,others z second,kept z first away]
  have finalA : ((linkedUp.setChild b side a).setParent a b).mem a =
      { (s.mem a).setChild side.flip (top s.null near) with parent := b } := by
    have same : (linkedUp.setChild b side a).mem a = (s.mem a).setChild side.flip (top s.null near) := by
      refine (Function.update_of_ne (Ne.symm ab) _ _).trans ?_
      rw [relinked a (fun member => (inPath a member).1 rfl),others a (Ne.symm ab),lowers.atNode]
    refine (Function.update_self _ _ _).trans ?_
    rw [same]
  have finalB : ((linkedUp.setChild b side a).setParent a b).mem b =
      ({ s.mem b with parent := parentOf s.null path } : Node A K).setChild side a := by
    refine (Function.update_of_ne ab _ _).trans ((Function.update_self _ _ _).trans ?_)
    rw [relinked b (fun member => (inPath b member).2.1 rfl),atB]
  refine ⟨?_,?_,?_,?_⟩
  · show Shape linkedUp.null _ a x
    rw [whole]
    refine shapeCongr below fun z member => ?_
    exact final z (inX z member).1 (inX z member).2.1 (inX z member).2.2.2 (inX z member).2.2.1
  · show Above linkedUp.null linkedUp.root _ (top linkedUp.null x) _
    rw [whole]
    refine ⟨real,?_,?_,real',?_,?_,?_⟩
    · rw [finalA]
      exact ⟨(childSetFlip _ _ _).trans cell.near,childSet _ _ _,rfl,(colorSet _ _ _).trans cell.color⟩
    · refine shapeMoved within ?_ ?_ ?_
      · exact apart.2.1.2.1
      · intro some
        have member := topMember s.null some
        have facts := inNear _ member
        rw [last _ facts.1 facts.2.1,relinked _ facts.2.2,others _ facts.2.1,lowers.atInner]
        intro null'
        rw [null'] at member
        exact shapeReal within member
      · intro z member other
        have facts := inNear z member
        rw [last z facts.1 facts.2.1,relinked z facts.2.2,others z facts.2.1,lowers.others z facts.1 (.inl other)]
    · rw [finalB]
      exact ⟨childSet _ _ _,(childFlipSet _ _ _).trans cell'.far,parentSet _ _ _,(colorSet _ _ _).trans cell'.color⟩
    · refine shapeCongr outer fun z member => ?_
      exact final z (inFar z member).1 (inFar z member).2.1 (inFar z member).2.2.2 (inFar z member).2.2.1
    · refine aboveCongr linked fun z member => ?_
      exact last z (inPath z member).1 (inPath z member).2.1
  · exact flat
  · have same : ((linkedUp.setChild b side a).setParent a b).mem s.null = s.mem s.null :=
      final s.null (Ne.symm real) (Ne.symm real') (aboveReal above) (shapeReal within)
    refine ground.keep whole ?_ ?_ ?_ keys
    · rw [same]
    · rw [same]
    · rw [same,ground.color]

theorem rotateTop (focus : Focus s keyOf sentinel t path) (some : t.isNull = false) (side : Side) :
    Focus (rotate side s (top s.null t)) keyOf sentinel (Lib.RedBlack.rotate side t) path := by
  obtain ⟨c,a,near,far,rfl⟩ := asClosed side some
  rw [topClose]
  have down := focusUp.mpr focus
  cases other : far with
  | null =>
    rw [other] at down focus
    rw [rotateNone down]
    cases side <;> cases near <;> exact focus
  | node d l b =>
    obtain ⟨d,b,inner,outer,same⟩ := asClosed side (t := far) (by rw [other]; rfl)
    rw [← other]
    rw [same] at down ⊢
    have up := focusUp.mp (focusUp.mp (rotateFocus down))
    cases side <;> exact up

variable {S : Type} {going : S → Bool} {round : S → S} {state : S}

theorem loopDone (done : going state = false) (fuel : Nat) : loop going round fuel state = some state := by
  cases fuel <;> simp [loop,done]

theorem loopStep (more : going state = true) (fuel : Nat) :
    loop going round (fuel + 1) state = loop going round fuel (round state) := if_pos more

theorem loopKeeps {Inv : S → Prop} (kept : ∀ state, Inv state → Inv (round state))
    {fuel : Nat} {last : S} (ends : loop going round fuel state = some last) (start : Inv state) : Inv last := by
  induction fuel generalizing state with
  | zero =>
    unfold loop at ends
    split at ends
    · cases ends
    · cases ends
      exact start
  | succ fuel ih =>
    unfold loop at ends
    split at ends
    · exact ih ends (kept state start)
    · cases ends
      exact start

section Insert

variable {gs : Side} {pk gk node : A} {s' : Store A K}

theorem turnFocus {pc gc : Color} {po uncle : ColouredTree A}
    (focus : Focus s keyOf .black t (⟨gs,pc,pk,po⟩ :: ⟨gs,gc,gk,uncle⟩ :: path)) :
    Focus (rotate gs.flip ((s.paint pk .black).paint gk .red) gk) keyOf .black t
      (⟨gs,.black,pk,Frame.close ⟨gs.flip,.red,gk,po⟩ uncle⟩ :: path) := by
  have first := focusUp.mp (focus.paintFrame .black)
  have second := focusAcross.mp (first.paintFrame .red)
  have turned := closeTurn ⟨gs,.black,pk,po⟩ t
  have third : Focus ((s.paint pk .black).paint gk .red) keyOf .black uncle
      (⟨gs.flip,.red,gk,Frame.close ⟨gs.flip,.black,pk,t⟩ po⟩ :: path) := turned ▸ second
  have fourth := focusAcross.mp (focusUp.mp (rotateFocus third))
  simpa only [turn,flipFlip] using fourth

theorem insertRoundRed {u : A} (parent : (s.mem node).parent = pk) (grand : (s.mem pk).parent = gk)
    (side : (if (s.mem gk).left = pk then Side.left else .right) = gs) (temp : (s.mem gk).child gs.flip = u)
    (red : (s.mem u).color = .red) : insertRound (s, node) =
      (((s.paint u .black).paint pk .black).paint (((s.paint u .black).paint pk .black).mem pk).parent .red,
        (((s.paint u .black).paint pk .black).mem pk).parent) := by
  simp only [insertRound,parent,grand,side,temp,red,if_true]

theorem insertRoundBlack {u : A} (parent : (s.mem node).parent = pk) (grand : (s.mem pk).parent = gk)
    (side : (if (s.mem gk).left = pk then Side.left else .right) = gs) (temp : (s.mem gk).child gs.flip = u)
    (black : (s.mem u).color = .black) {node' : A}
    (turned : (if (s.mem pk).child gs.flip = node then (rotate gs s pk, pk) else (s, node)) = (s', node')) :
    insertRound (s, node) = (rotate gs.flip ((s'.paint (s'.mem node').parent .black).paint
        ((s'.paint (s'.mem node').parent .black).mem (s'.mem node').parent).parent .red)
        ((s'.paint (s'.mem node').parent .black).mem (s'.mem node').parent).parent, node') := by
  simp only [insertRound,parent,grand,side,temp,black,reduceCtorEq,if_false,turned]

theorem insertEnds (focus : Focus s keyOf .black t path) : Focus (s.paint s.root .black) keyOf .black ((plug t path).paint .black) [] := by
  have whole := focusPlug.mp focus
  have root : s.root = top s.null (plug t path) := whole.above
  have painted := whole.paintTop .black
  rw [← root,ite_self] at painted
  exact painted

theorem insertStops (focus : Focus s keyOf .black t path) (stops : ∀ f rest, path = f :: rest → f.color = .black)
    (some : t.isNull = false) : insertGoing (s, top s.null t) = false := by
  refine decide_eq_false ?_
  rintro ⟨inner,red⟩
  cases path with
  | nil => exact inner ((focus.rootOnly some).mpr rfl)
  | cons f rest =>
    rw [focus.topParent some] at red
    have black := (focus.cell.color.trans (stops f rest rfl)).symm.trans red
    cases black

theorem insertGoes (focus : Focus s keyOf .black t (f :: path)) (red : f.color = .red) (some : t.isNull = false) :
    insertGoing (s, top s.null t) = true := by
  refine decide_eq_true ⟨fun same => ?_,?_⟩
  · exact nomatch (focus.rootOnly some).mp same
  · rw [focus.topParent some]
    exact focus.cell.color.trans red

theorem insertRaises {p g : Frame A} (focus : Focus s keyOf .black t (p :: g :: path)) (some : t.isNull = false)
    (uncle : g.other.color = .red) :
    ∃ s', insertRound (s, top s.null t) = (s', g.key) ∧
      Focus s' keyOf .black (Frame.close { g with color := .red, other := g.other.paint .black }
        (Frame.close { p with color := .black } t)) path := by
  have parent := focusUp.mp focus
  have real : g.other.isNull = false := by
    cases other : g.other with
    | null =>
      rw [other] at uncle
      cases uncle
    | node => rfl
  have told : (s.mem (top s.null g.other)).color = .red := by
    have color := (focusAcross.mp parent).topColor
    rw [real] at color
    exact color.trans uncle
  have side := parent.side (closeSome p t)
  have grand := parent.topParent (closeSome p t)
  rw [topClose] at side grand
  have rounds := insertRoundRed (focus.topParent some) grand side parent.cell.far told
  have first := parent.paintOther .black
  rw [real] at first
  have second := first.paintTop .black
  rw [topClose,closePaint,closeSome] at second
  have third := second.paintFrame .red
  have above := second.topParent (closeSome _ t)
  rw [topClose] at above
  refine ⟨_,rounds.trans (Prod.ext rfl above),?_⟩
  exact focusUp.mp (above.symm ▸ third)

theorem turnEnds {pc gc : Color} {po uncle : ColouredTree A}
    (focus : Focus s keyOf .black t (⟨gs,pc,pk,po⟩ :: ⟨gs,gc,gk,uncle⟩ :: path)) (some : t.isNull = false)
    (turned : rotate gs.flip ((s.paint (s.mem (top s.null t)).parent .black).paint
      ((s.paint (s.mem (top s.null t)).parent .black).mem (s.mem (top s.null t)).parent).parent .red)
      ((s.paint (s.mem (top s.null t)).parent .black).mem (s.mem (top s.null t)).parent).parent = s') :
    insertGoing (s', top s.null t) = false ∧
      Focus s' keyOf .black (Frame.close ⟨gs,.black,pk,Frame.close ⟨gs.flip,.red,gk,po⟩ uncle⟩ t) path := by
  have up : (s.mem (top s.null t)).parent = pk := focus.topParent some
  have above := (focusUp.mp (focus.paintFrame .black)).topParent (closeSome _ t)
  rw [topClose] at above
  have after := turnFocus focus
  rw [up] at turned
  change ((s.paint pk .black).mem pk).parent = gk at above
  rw [above] at turned
  rw [turned] at after
  have same : s'.null = s.null := by
    rw [← turned]
    exact rotateNull _ _
  have stops := insertStops after (fun f rest first => by cases first; rfl) some
  rw [same] at stops
  exact ⟨stops,focusUp.mp after⟩

theorem insertTurns {p g : Frame A} (focus : Focus s keyOf .black t (p :: g :: path)) (some : t.isNull = false)
    (uncle : g.other.color = .black) :
    ∃ s' node, insertRound (s, top s.null t) = (s', node) ∧ insertGoing (s', node) = false ∧
      Focus s' keyOf .black (Lib.RedBlack.rotate g.side.flip (Frame.close { g with color := .red }
        ((if p.side ≠ g.side then Lib.RedBlack.rotate g.side (p.close t) else p.close t).paint .black))) path := by
  obtain ⟨ps,pc,pk,po⟩ := p
  obtain ⟨gs,gc,gk,un⟩ := g
  have parent := focusUp.mp focus
  have told : (s.mem (top s.null un)).color = .black := by
    have color := (focusAcross.mp parent).topColor
    cases un with
    | null => exact color
    | node => exact color.trans uncle
  have side := parent.side (closeSome _ t)
  have grand := parent.topParent (closeSome _ t)
  rw [topClose] at side grand
  by_cases same : ps = gs
  · subst same
    have outer : (if (s.mem pk).child ps.flip = top s.null t then (rotate ps s pk, pk) else (s, top s.null t)) =
        (s, top s.null t) := by
      refine if_neg fun inner => ?_
      have flipped := (focus.childIff some ps.flip).mp inner
      cases ps <;> cases flipped
    have rounds := insertRoundBlack (focus.topParent some) grand side parent.cell.far told outer
    obtain ⟨stops,after⟩ := turnEnds focus some rfl
    refine ⟨_,_,rounds,stops,?_⟩
    rw [if_neg (not_not_intro rfl)]
    cases ps <;> exact after
  · -- the node is on the inner side and comes up first
    obtain rfl := otherSide same
    obtain ⟨c,xk,near,far,rfl⟩ := asClosed gs some
    have inner : (if (s.mem pk).child gs.flip = top s.null (Frame.close ⟨gs,c,xk,far⟩ near) then (rotate gs s pk, pk)
        else (s, top s.null (Frame.close ⟨gs,c,xk,far⟩ near))) = (rotate gs s pk, pk) :=
      if_pos ((focus.childIff some gs.flip).mpr rfl)
    have rounds := insertRoundBlack (focus.topParent some) grand side parent.cell.far told inner
    have across := focusAcross.mp focus
    simp only [turn,flipFlip] at across
    have lifted := focusUp.mp (rotateFocus across)
    have node : top (rotate gs s pk).null (Frame.close ⟨gs,pc,pk,near⟩ po) = pk := topClose _ _
    obtain ⟨stops,after⟩ := turnEnds lifted (closeSome _ po) rfl
    rw [node] at stops after
    refine ⟨_,_,rounds,stops,?_⟩
    rw [if_pos (by cases gs <;> exact nofun)]
    cases gs <;> exact after

theorem insertRoundNull (state : Store A K × A) : (insertRound state).1.null = state.1.null := by
  obtain ⟨s,node⟩ := state
  simp only [insertRound]
  generalize (if (s.mem (s.mem (s.mem node).parent).parent).left = (s.mem node).parent then Side.left else Side.right) = side
  split
  · rfl
  · refine (rotateNull _ _).trans ?_
    split
    · exact rotateNull _ _
    · rfl

theorem insertFixupNull {fuel : Nat} {s : Store A K} (ends : insertFixup fuel s node = some s') :
    s'.null = s.null := by
  obtain ⟨⟨s'',last⟩,looped,painted⟩ := Option.map_eq_some_iff.mp ends
  subst painted
  have kept : ∀ state : Store A K × A, state.1.null = s.null → (insertRound state).1.null = s.null :=
    fun state same => (insertRoundNull state).trans same
  exact loopKeeps kept looped rfl

theorem insertLoops : ∀ {path : List (Frame A)} {node : ColouredTree A} {s : Store A K} {fuel : Nat},
    Focus s keyOf .black node path → node.isNull = false → (∀ p, path.getLast? = some p → p.color = .black) →
      path.length ≤ fuel → ∃ s', insertFixup fuel s (top s.null node) = some s' ∧
        Focus s' keyOf .black (Rb.insertFixup node path) []
  | [], node, s, fuel, focus, real, _, _ => by
    have stops := insertStops focus (fun f rest same => nomatch same) real
    refine ⟨_,congrArg (Option.map _) (loopDone stops fuel),?_⟩
    exact insertEnds focus
  | [p], node, s, fuel, focus, real, rooted, _ => by
    have black := rooted p rfl
    have stops := insertStops focus (fun f rest same => by cases same; exact black) real
    refine ⟨_,congrArg (Option.map _) (loopDone stops fuel),?_⟩
    exact insertEnds focus
  | p :: g :: rest, node, s, fuel, focus, real, rooted, enough => by
    unfold Rb.insertFixup
    split
    next black =>
      have stops := insertStops focus (fun f rest same => by cases same; exact black) real
      refine ⟨_,congrArg (Option.map _) (loopDone stops fuel),?_⟩
      exact insertEnds focus
    next red =>
      have goes := insertGoes focus (by cases h : p.color <;> simp_all) real
      obtain ⟨fuel,rfl⟩ : ∃ n, fuel = n + 1 := ⟨fuel - 1,by simp at enough; omega⟩
      split
      next uncle =>
        obtain ⟨s',rounds,raised⟩ := insertRaises focus real uncle
        have further : ∀ q, rest.getLast? = some q → q.color = .black := by
          intro q last
          refine rooted q ?_
          cases rest with
          | nil => cases last
          | cons => exact last
        have left : rest.length ≤ fuel := by
          simp only [List.length_cons] at enough
          omega
        have onward := insertLoops raised (closeSome _ _) further left
        rw [topClose] at onward
        unfold insertFixup at onward ⊢
        rw [loopStep goes,rounds]
        exact onward
      next uncle =>
        obtain ⟨s',last,rounds,stops,turned⟩ := insertTurns focus real (by cases h : g.other.color <;> simp_all)
        have looped : loop insertGoing insertRound (fuel + 1) (s, top s.null node) = some (s', last) := by
          rw [loopStep goes,rounds,loopDone stops]
        refine ⟨_,congrArg (Option.map _) looped,?_⟩
        exact insertEnds turned

end Insert

section Delete

theorem deleteStops (focus : Focus s keyOf sentinel t path) (some : t.isNull = false) (stops : path = [] ∨ t.color = .red) :
    deleteGoing (s, top s.null t) = false := by
  refine decide_eq_false ?_
  rintro ⟨inner,black⟩
  rcases stops with rfl | red
  · exact inner ((focus.rootOnly some).mpr rfl)
  · have color := focus.topColor
    rw [some,black] at color
    exact nomatch color.trans red

theorem deleteGoes (focus : Focus s keyOf sentinel t (f :: path)) (some : t.isNull = false) (black : t.color = .black) :
    deleteGoing (s, top s.null t) = true := by
  refine decide_eq_true ⟨fun same => ?_,?_⟩
  · exact nomatch (focus.rootOnly some).mp same
  · have color := focus.topColor
    rw [some] at color
    exact color.trans black

omit [DecidableEq A] in
theorem siblingColor (focus : Focus s keyOf sentinel t (f :: path)) :
    (s.mem (top s.null f.other)).color = Rb.colorOf sentinel f.other := by
  refine (focusAcross.mp focus).topColor.trans ?_
  cases f.other <;> rfl

omit [DecidableEq A] in
theorem raiseSiblingClosed {c : Color} (red : Rb.colorOf sentinel (Frame.close ⟨side,c,b,far⟩ near) = .red) :
    Rb.raiseSibling sentinel ⟨side,color,a,Frame.close ⟨side,c,b,far⟩ near⟩ =
      (sentinel, ⟨side,.red,a,near⟩, some ⟨side,.black,b,far⟩) := by
  unfold Rb.raiseSibling
  rw [if_pos red]
  cases side <;> rfl

theorem raiseRedFocus (focus : Focus s keyOf sentinel t (f :: path)) (some : t.isNull = false) :
    ∃ s', raiseRed f.side s (top s.null t) = (s', top s.null (Rb.raiseSibling sentinel f).2.1.other) ∧ s'.null = s.null ∧
      Focus s' keyOf (Rb.raiseSibling sentinel f).1 t
        ((Rb.raiseSibling sentinel f).2.1 :: ((Rb.raiseSibling sentinel f).2.2.toList ++ path)) := by
  obtain ⟨side,color,a,other⟩ := f
  have up : (s.mem (top s.null t)).parent = a := focus.topParent some
  have temp : (s.mem a).child side.flip = top s.null other := focus.cell.far
  have told := siblingColor focus
  simp only [raiseRed,up,temp,told]
  by_cases red : Rb.colorOf sentinel other = .red
  · have first := focus.paintOther .black
    have up₁ : ((s.paint (top s.null other) .black).mem (top s.null t)).parent = a := first.topParent some
    have second := first.paintFrame .red
    have up₂ : (((s.paint (top s.null other) .black).paint a .red).mem (top s.null t)).parent = a := second.topParent some
    simp only [red,if_true,up₁,up₂]
    cases real : other.isNull with
    | true =>
      obtain rfl := nullOf real
      have same : rotate side ((s.paint (top s.null .null) .black).paint a .red) a = _ := rotateNone second
      have far : (((s.paint (top s.null .null) .black).paint a .red).mem a).child side.flip = s.null := second.cell.far
      simp only [same,up₂,far,Rb.raiseSibling,red,if_true]
      exact ⟨_,rfl,rfl,second⟩
    | false =>
      obtain ⟨c,b,near,far,rfl⟩ := asClosed side real
      simp only [closeSome,closePaint,Bool.false_eq_true,if_false] at second
      have third := rotateFocus second
      have up₃ := third.topParent some
      have near' := third.cell.far
      simp only [rotateNull,nullPaint] at up₃ near'
      rw [raiseSiblingClosed red]
      refine ⟨_,?_,?_,third⟩
      · rw [up₃]
        exact Prod.ext rfl near'
      · exact rotateNull _ _
  · rw [if_neg red]
    refine ⟨s,?_,rfl,?_⟩
    · simp only [Rb.raiseSibling,red,if_false]
    · simp only [Rb.raiseSibling,red,if_false]
      exact focus

omit [DecidableEq A] in
theorem closeChild (side : Side) (color : Color) (a : A) (far near : ColouredTree A) :
    (Frame.close ⟨side,color,a,far⟩ near).child side = near ∧
      (Frame.close ⟨side,color,a,far⟩ near).child side.flip = far := by
  cases side <;> exact ⟨rfl,rfl⟩

omit [DecidableEq A] in
theorem childFocus (focus : Focus s keyOf sentinel t path) (side : Side) :
    (s.mem (top s.null t)).child side = top s.null (t.child side) ∧
      (s.mem (top s.null (t.child side))).color = Rb.colorOf sentinel (t.child side) := by
  cases real : t.isNull with
  | true =>
    obtain rfl := nullOf real
    cases side
    · exact ⟨focus.ground.left,focus.ground.color⟩
    · exact ⟨focus.ground.right,focus.ground.color⟩
  | false =>
    obtain ⟨c,b,near,far,rfl⟩ := asClosed side real
    have down := focusUp.mpr focus
    rw [(closeChild side c b far near).1,topClose]
    refine ⟨down.cell.near,down.topColor.trans ?_⟩
    cases near <;> rfl

def paintChild (side : Side) (painted : Color) : ColouredTree A → ColouredTree A
  | .null => .null
  | .node color l a r =>
    match side with
    | .left => .node color (l.paint painted) a r
    | .right => .node color l a (r.paint painted)

theorem paintChildFocus (focus : Focus s keyOf sentinel t path) (side : Side) (painted : Color) :
    ∃ c, Focus (s.paint (top s.null (t.child side)) painted) keyOf c (paintChild side painted t) path := by
  cases real : t.isNull with
  | true =>
    obtain rfl := nullOf real
    cases side <;> exact ⟨_,focus.paintNull painted⟩
  | false =>
    obtain ⟨c,b,near,far,rfl⟩ := asClosed side real
    have down := focusUp.mp ((focusUp.mpr focus).paintTop painted)
    rw [(closeChild side c b far near).1]
    cases side <;> exact ⟨_,down⟩

omit [DecidableEq A] in
theorem topPaintChild (null : A) (side : Side) (painted : Color) (t : ColouredTree A) :
    top null (paintChild side painted t) = top null t := by
  cases t <;> cases side <;> rfl

omit [DecidableEq A] in
theorem nullPaintChild (side : Side) (painted : Color) (t : ColouredTree A) :
    (paintChild side painted t).isNull = t.isNull := by
  cases t <;> cases side <;> rfl

theorem raiseNearFocus (focus : Focus s keyOf sentinel t (f :: path)) (some : t.isNull = false)
    (red : Rb.colorOf sentinel (f.other.child f.side.flip) = .black → f.other.isNull = false) :
    ∃ s' c temp, raiseNear f.side s (top s.null t) (top s.null f.other) = (s', top s.null temp) ∧ s'.null = s.null ∧
      temp = (if Rb.colorOf sentinel (f.other.child f.side.flip) = .black then
        Lib.RedBlack.rotate f.side.flip ((paintChild f.side .black f.other).paint .red) else f.other) ∧
      Focus s' keyOf c t ({ f with other := temp } :: path) := by
  have across := focusAcross.mp focus
  have far := childFocus across f.side.flip
  have near := childFocus across f.side
  unfold raiseNear
  rw [far.1,far.2,near.1]
  split
  next black =>
    have real := red black
    obtain ⟨c,first⟩ := paintChildFocus across f.side .black
    have second := first.paintTop .red
    have opened : ((paintChild f.side .black f.other).paint .red).isNull = false := by
      rw [paintNull,nullPaintChild,real]
    have third := rotateTop second opened f.side.flip
    simp only [topPaint,topPaintChild,nullPaint] at third
    have back := (focusAcross (f := { f with
      other := Lib.RedBlack.rotate f.side.flip ((paintChild f.side .black f.other).paint .red) })).mpr third
    have up := back.topParent some
    have far' := back.cell.far
    simp only [rotateNull,nullPaint,parentOf] at up far'
    refine ⟨_,_,_,?_,?_,rfl,back⟩
    · dsimp only
      rw [up]
      exact Prod.ext rfl far'
    · exact rotateNull _ _
  next => exact ⟨s,sentinel,f.other,rfl,rfl,rfl,focus⟩

theorem raiseSiblingFocus (focus : Focus s keyOf sentinel t (f :: path)) (some : t.isNull = false) :
    (raiseSibling f.side s (top s.null t) (top s.null f.other)).null = s.null ∧
      ∃ c, Focus (raiseSibling f.side s (top s.null t) (top s.null f.other)) keyOf c
        (Lib.RedBlack.rotate f.side (Frame.close
          { f with color := .black, other := paintChild f.side.flip .black (f.other.paint f.color) } t)) path := by
  have up : (s.mem (top s.null t)).parent = f.key := focus.topParent some
  have color : (s.mem f.key).color = f.color := focus.cell.color
  have first := focusAcross.mp (focus.paintOther f.color)
  have far := (childFocus first f.side.flip).1
  obtain ⟨c,second⟩ := paintChildFocus first f.side.flip .black
  simp only [topPaint,nullPaint] at far second
  have back := (focusAcross (f := { f with other := paintChild f.side.flip .black (f.other.paint f.color) })).mpr second
  have third := back.paintFrame .black
  have fourth := rotateTop (focusUp.mp third) (closeSome _ t) f.side
  have up₂ := back.topParent some
  have up₃ := third.topParent some
  simp only [nullPaint,parentOf,topClose] at up₂ up₃ fourth
  unfold raiseSibling
  simp only [up,color,far,up₂,up₃]
  exact ⟨rotateNull _ _,c,fourth⟩

omit [DecidableEq A] in
theorem raisedFrame (sentinel : Color) (f : Frame A) :
    (Rb.raiseSibling sentinel f).2.1.side = f.side ∧ (Rb.raiseSibling sentinel f).2.1.key = f.key ∧
      ((Rb.raiseSibling sentinel f).2.2.isSome → (Rb.raiseSibling sentinel f).2.1.color = .red) := by
  unfold Rb.raiseSibling
  split
  · split
    · exact ⟨rfl,rfl,nofun⟩
    · exact ⟨rfl,rfl,fun _ => rfl⟩
  · exact ⟨rfl,rfl,nofun⟩

omit [DecidableEq A] in
theorem deleteFixupRound {c : Color} {g : Frame A} {above : Option (Frame A)} (black : t.color ≠ .red)
    (raised : Rb.raiseSibling sentinel f = (c, g, above)) :
    Rb.deleteFixup sentinel t (f :: path) =
      if Rb.colorOf c (g.other.child g.side) = .black ∧ Rb.colorOf c (g.other.child g.side.flip) = .black then
        above.elim
          (Rb.deleteFixup (if g.other.isNull then .red else c) (Frame.close { g with other := g.other.paint .red } t) path)
          fun h => plug ((Frame.close { g with other := g.other.paint .red } t).paint .black) (h :: path)
      else
        (plug (Lib.RedBlack.rotate g.side (Frame.close { g with
          color := .black
          other := paintChild g.side.flip .black ((if Rb.colorOf c (g.other.child g.side.flip) = .black then
            Lib.RedBlack.rotate g.side.flip ((paintChild g.side .black g.other).paint .red) else g.other).paint g.color) } t))
          (above.toList ++ path)).paint .black := by
  rw [Rb.deleteFixup,if_neg black,raised]
  dsimp only
  split
  · cases above <;> rfl
  · obtain ⟨side,color,a,other⟩ := g
    by_cases far : Rb.colorOf c (other.child side.flip) = .black
    · simp only [far,if_true]
      cases side with
      | left =>
        cases other with
        | null => rfl
        | node d l => cases l <;> rfl
      | right =>
        cases other with
        | null => rfl
        | node d l b r => cases r <;> rfl
    · simp only [far,if_false]
      cases side <;> cases other <;> rfl

theorem deleteEnds (focus : Focus s keyOf sentinel t path) (some : t.isNull = false) (painted : Color) :
    Focus (s.paint (top s.null t) painted) keyOf sentinel (plug (t.paint painted) path) [] := by
  have whole := focus.paintTop painted
  rw [some] at whole
  exact focusPlug.mp whole

theorem raiseNull (side : Side) (s : Store A K) (node temp : A) :
    (raiseRed side s node).1.null = s.null ∧ (raiseNear side s node temp).1.null = s.null ∧
      (raiseSibling side s node temp).null = s.null := by
  refine ⟨?_,?_,rotateNull _ _⟩
  · unfold raiseRed
    dsimp only
    split
    · exact rotateNull _ _
    · rfl
  · unfold raiseNear
    dsimp only
    split
    · exact rotateNull _ _
    · rfl

theorem deleteRoundNull (state : Store A K × A) : (deleteRound state).1.null = state.1.null := by
  obtain ⟨s,node⟩ := state
  simp only [deleteRound]
  generalize (if (s.mem (s.mem node).parent).left = node then Side.left else Side.right) = side
  split
  · exact (raiseNull side s node node).1
  · exact (raiseNull side _ node _).2.2.trans ((raiseNull side _ node _).2.1.trans (raiseNull side s node node).1)

theorem deleteFixupNull {fuel : Nat} {s s' : Store A K} {node : A} (ends : deleteFixup fuel s node = some s') :
    s'.null = s.null := by
  obtain ⟨⟨s'',last⟩,looped,painted⟩ := Option.map_eq_some_iff.mp ends
  subst painted
  have kept : ∀ state : Store A K × A, state.1.null = s.null → (deleteRound state).1.null = s.null :=
    fun state same => (deleteRoundNull state).trans same
  exact loopKeeps kept looped rfl

theorem deleteRoot (focus : Focus s keyOf sentinel t path) (some : t.isNull = false) :
    deleteGoing (s, s.root) = false ∧
      Focus (s.paint s.root .black) keyOf sentinel ((plug t path).paint .black) [] := by
  have whole := focusPlug.mp focus
  have root : s.root = top s.null (plug t path) := whole.above
  have real := plugSome some path
  have stops := deleteStops whole real (.inl rfl)
  have painted := deleteEnds whole real .black
  rw [← root] at stops painted
  exact ⟨stops,painted⟩

theorem deleteRoundRaised {node temp : A} {s₁ : Store A K}
    (turned : (if (s.mem (s.mem node).parent).left = node then Side.left else .right) = side)
    (raises : raiseRed side s node = (s₁, temp)) : deleteRound (s, node) =
      if (s₁.mem ((s₁.mem temp).child side)).color = .black ∧ (s₁.mem ((s₁.mem temp).child side.flip)).color = .black then
        (s₁.paint temp .red, ((s₁.paint temp .red).mem node).parent) else
        (raiseSibling side (raiseNear side s₁ node temp).1 node (raiseNear side s₁ node temp).2,
          (raiseSibling side (raiseNear side s₁ node temp).1 node (raiseNear side s₁ node temp).2).root) := by
  simp only [deleteRound,turned,raises]

theorem deleteTurns (focus : Focus s keyOf sentinel t (f :: path)) (real : t.isNull = false)
    (nephew : ¬(Rb.colorOf sentinel (f.other.child f.side) = .black ∧ Rb.colorOf sentinel (f.other.child f.side.flip) = .black))
    {s' : Store A K} (turned : raiseSibling f.side (raiseNear f.side s (top s.null t) (top s.null f.other)).1 (top s.null t)
      (raiseNear f.side s (top s.null t) (top s.null f.other)).2 = s') :
    deleteGoing (s', s'.root) = false ∧ ∃ c, Focus (s'.paint s'.root .black) keyOf c
      ((plug (Lib.RedBlack.rotate f.side (Frame.close { f with
        color := .black
        other := paintChild f.side.flip .black ((if Rb.colorOf sentinel (f.other.child f.side.flip) = .black then
          Lib.RedBlack.rotate f.side.flip ((paintChild f.side .black f.other).paint .red) else f.other).paint f.color) } t))
        path).paint .black) [] := by
  have there : Rb.colorOf sentinel (f.other.child f.side.flip) = .black → f.other.isNull = false := by
    intro far
    cases other : f.other with
    | null =>
      rw [other] at far nephew
      exact absurd ⟨far,far⟩ nephew
    | node => rfl
  obtain ⟨s₁,c,temp,raises,null,shape,raised⟩ := raiseNearFocus focus real there
  have onward := raiseSiblingFocus raised real
  rw [null] at onward
  rw [raises] at turned
  dsimp only at turned onward
  rw [turned,shape] at onward
  obtain ⟨_,c',after⟩ := onward
  obtain ⟨stops,painted⟩ := deleteRoot after (by rw [rotateSome,closeSome])
  exact ⟨stops,c',painted⟩

theorem deleteLifts (focus : Focus s keyOf sentinel t (f :: path)) (real : t.isNull = false) :
    ((s.paint (top s.null f.other) .red).mem (top s.null t)).parent = f.key ∧
      Focus (s.paint (top s.null f.other) .red) keyOf (if f.other.isNull then .red else sentinel)
        (Frame.close { f with other := f.other.paint .red } t) path := by
  have painted := focus.paintOther .red
  exact ⟨painted.topParent real,focusUp.mp painted⟩

theorem deleteLoops {path : List (Frame A)} {node : ColouredTree A} {s : Store A K} {sentinel : Color} {fuel : Nat}
    (focus : Focus s keyOf sentinel node path) (real : node.isNull = false) (enough : path.length ≤ fuel) :
    ∃ s' c, deleteFixup fuel s (top s.null node) = some s' ∧ Focus s' keyOf c (Rb.deleteFixup sentinel node path) [] := by
  induction path generalizing node s sentinel fuel with
  | nil =>
    have stops := deleteStops focus real (.inl rfl)
    exact ⟨_,_,congrArg (Option.map _) (loopDone stops fuel),deleteEnds focus real .black⟩
  | cons f rest ih =>
    by_cases red : node.color = .red
    · have stops := deleteStops focus real (.inr red)
      refine ⟨_,sentinel,congrArg (Option.map _) (loopDone stops fuel),?_⟩
      rw [Rb.deleteFixup,if_pos red]
      exact deleteEnds focus real .black
    · obtain ⟨fuel,rfl⟩ : ∃ n, fuel = n + 1 := ⟨fuel - 1,by simp only [List.length_cons] at enough; omega⟩
      have goes := deleteGoes focus real (by cases h : node.color <;> simp_all)
      have side := focus.side real
      have up : (s.mem (top s.null node)).parent = f.key := focus.topParent real
      rw [← up] at side
      obtain ⟨s₁,raises,null,raised⟩ := raiseRedFocus focus real
      obtain ⟨sameSide,sameKey,aboveRed⟩ := raisedFrame sentinel f
      have round := deleteRoundRaised side raises
      rcases result : Rb.raiseSibling sentinel f with ⟨c,g,above⟩
      rw [result] at round raised sameSide sameKey aboveRed
      dsimp only at round raised sameSide sameKey aboveRed
      have across := focusAcross.mp raised
      have near := childFocus across g.side
      have far := childFocus across g.side.flip
      rw [null] at near far
      rw [← sameSide,near.1,near.2,far.1,far.2] at round
      rw [deleteFixupRound red result]
      unfold deleteFixup
      rw [loopStep goes,round]
      split
      · have lifts := deleteLifts raised real
        rw [null] at lifts
        rw [lifts.1]
        cases above with
        | none =>
          have left : rest.length ≤ fuel := by
            simp only [List.length_cons] at enough
            omega
          have onward := ih lifts.2 (closeSome _ node) left
          rw [topClose] at onward
          exact onward
        | some =>
          have parentRed : (Frame.close { g with other := g.other.paint .red } node).color = .red :=
            (closeColor _ node).trans (aboveRed rfl)
          have stops := deleteStops lifts.2 (closeSome _ node) (.inr parentRed)
          have ends := deleteEnds lifts.2 (closeSome _ node) .black
          rw [topClose] at stops ends
          exact ⟨_,_,congrArg (Option.map _) (loopDone stops fuel),ends⟩
      next nephew =>
        obtain ⟨stops,c',painted⟩ := deleteTurns raised real nephew (by rw [null])
        refine ⟨_,c',congrArg (Option.map _) (loopDone stops fuel),painted⟩

end Delete

end Pjproject.RbNodes
