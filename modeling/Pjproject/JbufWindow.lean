import Pjproject.JbufFrameList

/-! The frame list as a queue of cells: a cell is missing, discarded or a frame, and each
operation on the arrays is an operation on the queue. -/
namespace Pjproject.Media
open Lib.Ring

inductive Cell where
  | missing
  | discarded
  | frame (f : Frame) (len : Nat)
  deriving DecidableEq, Repr

def FrameList.cell (fl : FrameList) (i : Nat) : Cell :=
  match fl.frameType i with
  | .missing => .missing
  | .discarded => .discarded
  | .normal => .frame ⟨(fl.content i).take (fl.contentLen i),fl.bitInfo i,fl.ts i⟩ (fl.contentLen i)

def FrameList.window (fl : FrameList) : List Cell := view fl.cell fl.maxCount fl.head fl.size

structure Sound (fl : FrameList) : Prop where
  pos : 0 < fl.maxCount
  headLt : fl.head < fl.maxCount
  sizeLe : fl.size ≤ fl.maxCount
  vacant : Vacant fl.cell fl.maxCount fl.head fl.size .missing

def Counted (fl : FrameList) : Prop := fl.discardedNum = fl.window.countP (· = .discarded)

variable {fl : FrameList}

theorem cellMissing {fl : FrameList} {i : Nat} : fl.cell i = .missing ↔ fl.frameType i = .missing := by
  unfold FrameList.cell
  cases fl.frameType i <;> simp

theorem cellDiscarded {i : Nat} : fl.cell i = .discarded ↔ fl.frameType i = .discarded := by
  unfold FrameList.cell
  cases fl.frameType i <;> simp

@[simp] theorem windowLength (fl : FrameList) : fl.window.length = fl.size := viewLength _ _ _ _

theorem Counted.discardedLe (c : Counted fl) : fl.discardedNum ≤ fl.size := by
  rw [c,← windowLength fl]
  exact List.countP_le_length

theorem windowNil (empty : fl.size = 0) : fl.window = [] :=
  List.eq_nil_of_length_eq_zero (by simp [empty])

theorem soundReset (pos : 0 < fl.maxCount) (origin : Int) :
    Sound { fl.reset with origin := origin } :=
  { pos, headLt := pos, sizeLe := Nat.zero_le _
    vacant := fun _ _ _ => rfl }

theorem soundOrigin (s : Sound fl) (origin : Int) : Sound { fl with origin := origin } :=
  ⟨s.pos,s.headLt,s.sizeLe,s.vacant⟩

theorem uncountEq (t : Nat → SlotType) (i len num : Nat) :
    uncount t i len num = num - (List.range len).countP fun k => t (i + k) = .discarded := by
  induction len generalizing i num with
  | zero => simp [uncount]
  | succ len ih =>
    rw [uncount,ih,List.range_succ_eq_map,List.countP_cons,List.countP_map]
    have shift : ((fun k => decide (t (i + k) = .discarded)) ∘ Nat.succ) =
        fun k => decide (t (i + 1 + k) = .discarded) := by
      funext k
      simp [Nat.add_assoc,Nat.add_comm 1 k]
    rw [shift]
    by_cases here : t i = .discarded
    · simp only [here,if_pos,Nat.add_zero,decide_true]
      omega
    · simp [here]

theorem countFront (t : Nat → SlotType) {cap head c step1 : Nat} (h : head < cap) (hc : c ≤ cap)
    (hs : step1 = min c (cap - head)) : (List.range c).countP (fun k => t (slot cap head k) = .discarded) =
      (List.range step1).countP (fun k => t (head + k) = .discarded) +
      (List.range (c - step1)).countP (fun k => t k = .discarded) := by
  have whole : List.range c = List.range step1 ++ (List.range (c - step1)).map (step1 + ·) := by
    rw [← List.range_add,Nat.add_sub_cancel' (by omega)]
  rw [whole,List.countP_append,List.countP_map]
  congr 1
  · apply List.countP_congr
    intro k member
    have inside := List.mem_range.mp member
    have place : slot cap head k = head + k := by
      rw [slotWrap h (by omega),if_pos (by omega)]
    simp [place]
  · apply List.countP_congr
    intro k member
    have inside := List.mem_range.mp member
    have place : slot cap head (step1 + k) = k := by
      rw [slotWrap h (by omega),if_neg (by omega)]
      omega
    simp [place]

theorem windowCountTake (fl : FrameList) {c : Nat} (hc : c ≤ fl.size) :
    (fl.window.take c).countP (· = .discarded) =
      (List.range c).countP fun k => fl.frameType (slot fl.maxCount fl.head k) = .discarded := by
  rw [FrameList.window,view,← List.map_take,List.take_range,Nat.min_eq_left hc,List.countP_map]
  apply List.countP_congr
  intro k _
  simp [cellDiscarded]

theorem fillCleared {α : Type} {cap head c step1 i : Nat} (t : Nat → α) (v : α) (h : head < cap)
    (hc : c ≤ cap) (hi : i < cap) (hs : step1 = min c (cap - head)) (front : Front cap head c i) :
    fill (fill t head step1 v) 0 (c - step1) v i = v := by
  have segments := (frontSegments h hc hi).mp front
  clear front
  unfold fill
  split
  · rfl
  · split
    · rfl
    · omega

theorem fillKept {α : Type} {cap head c step1 i : Nat} (t : Nat → α) (v : α) (h : head < cap)
    (hc : c ≤ cap) (hi : i < cap) (hs : step1 = min c (cap - head)) (back : ¬Front cap head c i) :
    fill (fill t head step1 v) 0 (c - step1) v i = t i := by
  have segments := mt (frontSegments h hc hi).mpr back
  clear back
  unfold fill
  rw [if_neg (by omega),if_neg (by omega)]

structure RemoveSpec (fl : FrameList) (count : Nat) (out : Nat × FrameList) : Prop where
  removed : out.1 = min count fl.size
  sound : Sound out.2
  counted : Counted fl → Counted out.2
  window : out.2.window = fl.window.drop (min count fl.size)
  origin : out.2.origin = fl.origin + (min count fl.size : Nat)
  maxCount : out.2.maxCount = fl.maxCount
  frameSize : out.2.frameSize = fl.frameSize

/- Clearing the first `c` slots and moving the head past them. -/
def FrameList.advance (fl : FrameList) (c : Nat) : FrameList :=
  let step1 := min c (fl.maxCount - fl.head)
  { (fl.clearSegment fl.head step1).clearSegment 0 (c - step1) with
    origin := fl.origin + c
    head := (fl.head + c) % fl.maxCount
    size := fl.size - c }

theorem removeHeadAdvance (s : Sound fl) {count : Nat} (pos : min count fl.size ≠ 0) :
    fl.removeHead count = (min count fl.size, fl.advance (min count fl.size)) := by
  have capped : (if count > fl.size then fl.size else count) = min count fl.size := by
    split <;> omega
  have fits : min count fl.size ≤ fl.maxCount := Nat.le_trans (Nat.min_le_right _ _) s.sizeLe
  unfold FrameList.removeHead FrameList.advance
  simp only [capped,if_neg pos]
  have below := s.headLt
  have step : (if fl.head + min count fl.size > fl.maxCount then fl.maxCount - fl.head
      else min count fl.size) = min (min count fl.size) (fl.maxCount - fl.head) := by
    split <;> omega
  rw [step]

section Advance
variable (s : Sound fl) {c : Nat} (hc : c ≤ fl.size)
include s hc

theorem advanceCleared {i : Nat} (hi : i < fl.maxCount) (front : Front fl.maxCount fl.head c i) :
    (fl.advance c).cell i = .missing :=
  cellMissing.mpr (fillCleared fl.frameType _ s.headLt (Nat.le_trans hc s.sizeLe) hi rfl front)

theorem advanceKept {i : Nat} (hi : i < fl.maxCount) (back : ¬Front fl.maxCount fl.head c i) :
    (fl.advance c).cell i = fl.cell i := by
  have fits : c ≤ fl.maxCount := Nat.le_trans hc s.sizeLe
  have types : (fl.advance c).frameType i = fl.frameType i :=
    fillKept fl.frameType _ s.headLt fits hi rfl back
  have lens : (fl.advance c).contentLen i = fl.contentLen i :=
    fillKept fl.contentLen _ s.headLt fits hi rfl back
  unfold FrameList.cell
  rw [types,lens]
  rfl

theorem advanceWindow : (fl.advance c).window = fl.window.drop c := by
  have fits := s.sizeLe
  have moved : (fl.advance c).window =
      view (fl.advance c).cell fl.maxCount (slot fl.maxCount fl.head c) (fl.size - c) := rfl
  rw [moved,FrameList.window,← viewDrop]
  apply viewCongr
  intro k inside
  rw [slotSlot]
  apply advanceKept s hc (slotLt _ _ s.pos)
  rintro ⟨j,front,clash⟩
  have same := slotInj (by omega) (by omega) clash
  omega

theorem advanceDiscardedNum :
    (fl.advance c).discardedNum = fl.discardedNum - (fl.window.take c).countP (· = .discarded) := by
  have fits : c ≤ fl.maxCount := Nat.le_trans hc s.sizeLe
  rw [windowCountTake fl hc,countFront fl.frameType s.headLt fits rfl]
  have counts : (fl.advance c).discardedNum =
      uncount (fill fl.frameType fl.head (min c (fl.maxCount - fl.head)) .missing) 0
        (c - min c (fl.maxCount - fl.head))
        (uncount fl.frameType fl.head (min c (fl.maxCount - fl.head)) fl.discardedNum) := rfl
  rw [counts,uncountEq,uncountEq,Nat.sub_sub]
  congr 2
  apply List.countP_congr
  intro k member
  have inside := List.mem_range.mp member
  have below := s.headLt
  have untouched : ¬(fl.head ≤ k ∧ k < fl.head + min c (fl.maxCount - fl.head)) := by omega
  simp [fill,untouched]

theorem advanceSound : Sound (fl.advance c) where
  pos := s.pos
  headLt := Nat.mod_lt _ s.pos
  sizeLe := Nat.le_trans (Nat.sub_le _ _) s.sizeLe
  vacant := vacantAdvance s.vacant (fun _ hi => advanceCleared s hc hi) fun _ hi => advanceKept s hc hi

theorem advanceCounted (counted : Counted fl) : Counted (fl.advance c) := by
  have whole : (fl.window.take c ++ fl.window.drop c).countP (· = .discarded) =
      (fl.window.take c).countP (· = .discarded) + (fl.window.drop c).countP (· = .discarded) :=
    List.countP_append
  rw [List.take_append_drop,← counted] at whole
  rw [Counted,advanceDiscardedNum s hc,advanceWindow s hc]
  omega

end Advance

theorem removeHeadSpec (s : Sound fl) (count : Nat) :
    RemoveSpec fl count (fl.removeHead count) := by
  by_cases none : min count fl.size = 0
  · have unchanged : fl.removeHead count = (0, fl) := by
      have capped : (if count > fl.size then fl.size else count) = 0 := by
        rw [← none]
        split <;> omega
      unfold FrameList.removeHead
      simp [capped]
    rw [unchanged]
    exact ⟨none.symm,s,id,by simp [none],by simp [none],rfl,rfl⟩
  · rw [removeHeadAdvance s none]
    have le : min count fl.size ≤ fl.size := Nat.min_le_right _ _
    exact ⟨rfl,advanceSound s le,advanceCounted s le,advanceWindow s le,rfl,rfl,rfl⟩

theorem frontOne {cap head i : Nat} (h : head < cap) : Front cap head 1 i ↔ i = head := by
  constructor
  · rintro ⟨k,first,rfl⟩
    rw [Nat.lt_one_iff.mp first,slotZero h]
  · rintro rfl
    exact ⟨0,Nat.one_pos,slotZero h⟩

section Pop
variable (s : Sound fl) (pos : 0 < fl.size)

theorem popHeadCell (fl : FrameList) (i : Nat) :
    fl.popHead.cell i = if i = fl.head then .missing else fl.cell i := by
  unfold FrameList.cell FrameList.popHead
  by_cases here : i = fl.head
  · simp [here]
  · simp [here]

include s pos

theorem popHeadWindow : fl.popHead.window = fl.window.tail := by
  have fits := s.sizeLe
  have moved : fl.popHead.window =
      view fl.popHead.cell fl.maxCount (slot fl.maxCount fl.head 1) (fl.size - 1) := rfl
  rw [moved,FrameList.window,← List.drop_one,← viewDrop]
  apply viewCongr
  intro k inside
  rw [slotSlot,popHeadCell,if_neg]
  intro clash
  have same := slotInj (by omega) (by omega) (clash.trans (slotZero s.headLt).symm)
  omega

theorem windowHead : fl.window = fl.cell fl.head :: fl.window.tail := by
  rw [FrameList.window,viewHead _ s.headLt pos]
  rfl

omit pos in
theorem popHeadSound : Sound fl.popHead where
  pos := s.pos
  headLt := Nat.mod_lt _ s.pos
  sizeLe := Nat.le_trans (Nat.sub_le _ _) s.sizeLe
  vacant := by
    refine vacantAdvance s.vacant (fun i _ front => ?_) fun i _ back => ?_
    · rw [popHeadCell,if_pos ((frontOne s.headLt).mp front)]
    · rw [popHeadCell,if_neg (mt (frontOne s.headLt).mpr back)]

theorem popHeadCounted (kept : fl.frameType fl.head ≠ .discarded) (counted : Counted fl) : Counted fl.popHead := by
  have whole := counted
  rw [Counted,windowHead s pos,List.countP_cons_of_neg] at whole
  · rw [Counted,popHeadWindow s pos]
    exact whole
  · simpa [cellDiscarded] using kept

end Pop

/- Skipping drops the discarded cells at the front of the queue. -/
structure SkipSpec (fl : FrameList) (prev : Bool) (out : Bool × FrameList) : Prop where
  sound : Sound out.2
  counted : Counted fl → Counted out.2
  skipped : ∃ k, k ≤ fl.size ∧ out.2.window = fl.window.drop k ∧ out.2.origin = fl.origin + (k : Nat) ∧
    (out.1 = false ↔ prev = false ∧ k = 0)
  maxCount : out.2.maxCount = fl.maxCount
  frameSize : out.2.frameSize = fl.frameSize
  kept : out.2.frameType out.2.head ≠ .discarded

theorem skipDiscardedSpec (s : Sound fl) {fuel : Nat} (enough : fl.size < fuel)
    (prev : Bool) : ∃ out, fl.skipDiscarded fuel prev = some out ∧ SkipSpec fl prev out := by
  induction fuel generalizing fl prev with
  | zero => omega
  | succ fuel ih =>
    unfold FrameList.skipDiscarded
    split
    · next dropped =>
      have occupied : 0 < fl.size := by
        by_contra empty
        have blank := s.vacant fl.head s.headLt fun k hk => by omega
        rw [cellMissing] at blank
        simp [blank] at dropped
      have spec := removeHeadSpec s 1
      have one : min 1 fl.size = 1 := by omega
      have shorter : (fl.removeHead 1).2.size < fuel := by
        rw [← windowLength,spec.window,one,List.length_drop,windowLength]
        omega
      obtain ⟨out,found,rest⟩ := ih spec.sound shorter true
      refine ⟨out,found,?_⟩
      obtain ⟨k,kLe,window,origin,flag⟩ := rest.skipped
      have size : (fl.removeHead 1).2.size = fl.size - 1 := by
        rw [← windowLength,spec.window,one,List.length_drop,windowLength]
      exact
        { sound := rest.sound
          counted := fun c => rest.counted (spec.counted c)
          skipped := by
            refine ⟨k + 1,by omega,?_,?_,by simp [flag]⟩
            · rw [window,spec.window,one,List.drop_drop,Nat.add_comm]
            · rw [origin,spec.origin,one]
              omega
          maxCount := rest.maxCount.trans spec.maxCount
          frameSize := rest.frameSize.trans spec.frameSize
          kept := rest.kept }
    · next kept =>
      exact ⟨(prev, fl),rfl,s,id,⟨0,Nat.zero_le _,rfl,by simp,by simp⟩,rfl,rfl,kept⟩

/- The queue after a frame is put at place `d`: missing cells fill the gap. -/
def place (cells : List Cell) (d : Nat) (c : Cell) : List Cell :=
  (cells ++ List.replicate (d + 1 - cells.length) Cell.missing).set d c

theorem placeCount {cells : List Cell} {d : Nat} {f : Frame} {n : Nat}
    (free : ∀ c, cells[d]? = some c → c = .missing) :
    (place cells d (.frame f n)).countP (· = .discarded) = cells.countP (· = .discarded) := by
  have bound : d < (cells ++ List.replicate (d + 1 - cells.length) Cell.missing).length := by
    simp only [List.length_append,List.length_replicate]
    omega
  have blank : (cells ++ List.replicate (d + 1 - cells.length) Cell.missing)[d] = .missing := by
    rw [List.getElem_append]
    split
    · next inside => exact free _ (List.getElem?_eq_getElem inside)
    · simp
  unfold place
  rw [List.countP_set bound,blank,List.countP_append,List.countP_replicate]
  simp

/- What a put changes when its slot is free. -/
def FrameList.stored (fl : FrameList) (index : Int) (d : Nat) (frame : Frame) : FrameList :=
  let pos := slot fl.maxCount fl.head d
  { fl with
    frameType := Function.update fl.frameType pos .normal
    contentLen := Function.update fl.contentLen pos frame.bytes.length
    bitInfo := Function.update fl.bitInfo pos frame.bitInfo
    ts := Function.update fl.ts pos frame.ts
    size := if fl.origin + fl.size ≤ index then d + 1 else fl.size
    content := Function.update fl.content pos (overwrite (fl.content pos) frame.bytes) }

theorem storeFree {d : Nat} (index : Int) (frame : Frame)
    (free : fl.frameType (slot fl.maxCount fl.head d) = .missing) :
    fl.store index d frame = (.success, fl.stored index d frame) := by
  unfold FrameList.store
  exact if_neg (not_not_intro free)

theorem storedCell (fl : FrameList) (d : Nat) (index : Int) (frame : Frame) : (fl.stored index d frame).cell =
      Function.update fl.cell (slot fl.maxCount fl.head d) (.frame frame frame.bytes.length) := by
  funext i
  unfold FrameList.stored
  by_cases here : i = slot fl.maxCount fl.head d
  · subst here
    simp [FrameList.cell,overwrite]
  · simp [FrameList.cell,Function.update_of_ne here]

structure StoreSpec (fl : FrameList) (d : Nat) (frame : Frame) (out : PutStatus × FrameList) : Prop where
  status : out.1 = .success
  free : ∀ c, fl.window[d]? = some c → c = .missing
  sound : Sound out.2
  counted : Counted fl → Counted out.2
  window : out.2.window = place fl.window d (.frame frame frame.bytes.length)
  origin : out.2.origin = fl.origin
  maxCount : out.2.maxCount = fl.maxCount
  frameSize : out.2.frameSize = fl.frameSize

theorem storeSpec (s : Sound fl) {d : Nat} (hd : d < fl.maxCount) {index : Int}
    (seq : index = fl.origin + d) (frame : Frame) (free : fl.frameType (slot fl.maxCount fl.head d) = .missing) :
    StoreSpec fl d frame (fl.store index d frame) := by
  have fits := s.sizeLe
  have grown : (fl.stored index d frame).size = max fl.size (d + 1) := by
    unfold FrameList.stored
    dsimp only
    split <;> omega
  have window : (fl.stored index d frame).window = place fl.window d (.frame frame frame.bytes.length) := by
    have read : (fl.stored index d frame).window =
        view (fl.stored index d frame).cell fl.maxCount fl.head (fl.stored index d frame).size := rfl
    rw [read,storedCell,grown,viewSet (by omega) (by omega),
      viewGrow s.vacant s.pos (Nat.le_max_left _ _) (by omega),place,windowLength]
    congr 3
    omega
  have blank : ∀ c, fl.window[d]? = some c → c = .missing := by
    intro c found
    rw [FrameList.window,viewGet?] at found
    split at found
    · rw [← Option.some.inj found]
      exact cellMissing.mpr free
    · simp at found
  rw [storeFree index frame free]
  refine ⟨rfl,blank,?_,fun counted => ?_,window,rfl,rfl,rfl⟩
  · exact
    { pos := s.pos
      headLt := s.headLt
      sizeLe := by
        change (fl.stored index d frame).size ≤ fl.maxCount
        rw [grown]
        omega
      vacant := by
        change Vacant (fl.stored index d frame).cell fl.maxCount fl.head (fl.stored index d frame).size .missing
        rw [storedCell,grown]
        exact vacantUpdate s.vacant (Nat.le_max_left _ _) (by omega) }
  · rw [Counted,window,placeCount blank]
    exact counted

structure DiscardSpec (fl : FrameList) (d : Nat) (next : FrameList) : Prop where
  sound : Sound next
  counted : fl.window[d]? ≠ some .discarded → Counted fl → Counted next
  window : next.window = fl.window.set d .discarded
  origin : next.origin = fl.origin
  maxCount : next.maxCount = fl.maxCount
  frameSize : next.frameSize = fl.frameSize

theorem discardSpec (s : Sound fl) {d : Nat} (hd : d < fl.size) :
    DiscardSpec fl d (fl.discard (fl.origin + d)).2 := by
  have inside : fl.origin + (d : Int) ≥ fl.origin ∧ fl.origin + (d : Int) < fl.origin + fl.size := by omega
  have shape : (fl.discard (fl.origin + d)).2 =
      { fl with
        frameType := Function.update fl.frameType (slot fl.maxCount fl.head d) .discarded
        discardedNum := fl.discardedNum + 1 } := by
    unfold FrameList.discard
    rw [if_pos inside]
    simp [slot]
  rw [shape]
  have cells : FrameList.cell
      { fl with
        frameType := Function.update fl.frameType (slot fl.maxCount fl.head d) .discarded
        discardedNum := fl.discardedNum + 1 } =
      Function.update fl.cell (slot fl.maxCount fl.head d) .discarded := by
    funext i
    by_cases here : i = slot fl.maxCount fl.head d
    · subst here
      simp [FrameList.cell]
    · simp [FrameList.cell,Function.update_of_ne here]
  have window : FrameList.window
      { fl with
        frameType := Function.update fl.frameType (slot fl.maxCount fl.head d) .discarded
        discardedNum := fl.discardedNum + 1 } = fl.window.set d .discarded := by
    rw [FrameList.window,cells]
    exact viewSet hd s.sizeLe _
  refine ⟨⟨s.pos,s.headLt,s.sizeLe,?_⟩,fun fresh counted => ?_,window,rfl,rfl,rfl⟩
  · rw [cells]
    exact vacantUpdate s.vacant (Nat.le_refl _) hd
  · have bound : d < fl.window.length := by simpa using hd
    have unmarked : fl.window[d] ≠ .discarded := by
      intro bad
      exact fresh (by rw [List.getElem?_eq_getElem bound,bad])
    rw [Counted,window,List.countP_set bound,← counted]
    simp [unmarked]

end Pjproject.Media
