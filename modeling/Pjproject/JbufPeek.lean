import Pjproject.JbufRemove

/-! Peeking at a frame against taking it: both find the same slot, the get after discarded frames returns a missing one,
and the peeked number leaves the discarded frames out. -/
namespace Pjproject.Media
open Lib.Ring

variable {fl : FrameList} {fuel : Nat}

/- What a slot holds, whether it is missing or not. -/
structure Slot where
  type : SlotType
  content : List UInt8
  len : Nat
  bitInfo : UInt32
  ts : UInt32

def FrameList.shown (fl : FrameList) (i : Nat) : Slot :=
  ⟨fl.frameType i,fl.content i,fl.contentLen i,fl.bitInfo i,fl.ts i⟩

def FrameList.slots (fl : FrameList) : List Slot := view fl.shown fl.maxCount fl.head fl.size

@[simp] theorem slotsLength (fl : FrameList) : fl.slots.length = fl.size := viewLength _ _ _ _

/- The place of the cell that is not discarded with so many of them before it. -/
def keptAt : List Cell → Nat → Option Nat
  | [], _ => none
  | .discarded :: rest, i => (keptAt rest i).map (· + 1)
  | _ :: _, 0 => some 0
  | _ :: rest, i + 1 => (keptAt rest i).map (· + 1)

theorem keptAtSome {cells : List Cell} {i : Nat} (inside : i < keptCells cells) :
    ∃ p, keptAt cells i = some p ∧ p < cells.length := by
  fun_induction keptAt cells i with
  | case1 => simp [keptCells] at inside
  | case2 i rest ih =>
    obtain ⟨p,found,bound⟩ := ih (by simpa [keptCells] using inside)
    exact ⟨p + 1,by simp [found],by simpa using bound⟩
  | case3 => exact ⟨0,rfl,by simp⟩
  | case4 c rest i other ih =>
    have here : c ≠ .discarded := other
    obtain ⟨p,found,bound⟩ := ih (by simpa [keptCells,here] using inside)
    exact ⟨p + 1,by simp [found],by simpa using bound⟩

theorem keptAtFirst {cells : List Cell} {p : Nat} (found : keptAt cells 0 = some p) :
    (∀ j, j < p → cells[j]? = some .discarded) ∧ (∃ c, cells[p]? = some c ∧ c ≠ .discarded) ∧
      keptCells cells = keptCells (cells.drop (p + 1)) + 1 ∧
      ∀ i, keptAt cells (i + 1) = (keptAt (cells.drop (p + 1)) i).map (· + (p + 1)) := by
  induction cells generalizing p with
  | nil => simp [keptAt] at found
  | cons c rest ih =>
    by_cases here : c = .discarded
    · subst here
      obtain ⟨q,later,rfl⟩ := Option.map_eq_some_iff.mp found
      obtain ⟨before,at_,count,onward⟩ := ih later
      refine ⟨fun j early => ?_,at_,by simpa [keptCells] using count,fun i => ?_⟩
      · cases j with
        | zero => rfl
        | succ j => exact before j (by omega)
      · have next : keptAt (.discarded :: rest) (i + 1) = (keptAt rest (i + 1)).map (· + 1) := rfl
        rw [next,onward i,Option.map_map]
        rfl
    · have first : keptAt (c :: rest) 0 = some 0 := by cases c <;> simp_all [keptAt]
      obtain rfl : 0 = p := Option.some.inj (first.symm.trans found)
      refine ⟨fun j early => absurd early (Nat.not_lt_zero j),⟨c,rfl,here⟩,by simp [keptCells,here],fun i => ?_⟩
      cases c <;> simp_all [keptAt]

theorem keptAtNone {cells : List Cell} (none : keptCells cells = 0) : ∀ c ∈ cells, c = .discarded := by
  intro c mem
  by_contra other
  have positive : 0 < keptCells cells := List.countP_pos_iff.mpr ⟨c,mem,by simpa using other⟩
  omega

def Slot.output (slot : Slot) (prevDiscarded : Bool) (seq : Int) : Output :=
  if prevDiscarded then
    { type := .missing, bytes := [], size := 0, bitInfo := some 0, ts := some slot.ts, seq := some seq }
  else
    { type := if slot.type = .normal then .normal else .missing
      bytes := slot.content.take slot.len
      size := slot.len
      bitInfo := some slot.bitInfo
      ts := some slot.ts
      seq := some seq }

def Slot.cell (slot : Slot) : Cell :=
  match slot.type with
  | .missing => .missing
  | .discarded => .discarded
  | .normal => .frame ⟨slot.content.take slot.len,slot.bitInfo,slot.ts⟩ slot.len

theorem windowSlots (fl : FrameList) : fl.window = fl.slots.map Slot.cell := by
  unfold FrameList.window FrameList.slots view
  rw [List.map_map]
  rfl

/- The list after its first `n` slots are taken away. -/
structure Ahead (fl : FrameList) (n : Nat) (next : FrameList) : Prop where
  sound : Sound next
  slots : next.slots = fl.slots.drop n
  origin : next.origin = fl.origin + n
  maxCount : next.maxCount = fl.maxCount

theorem Ahead.window {fl next : FrameList} {n : Nat} (h : Ahead fl n next) : next.window = fl.window.drop n := by
  rw [windowSlots,windowSlots,h.slots,List.map_drop]

theorem Ahead.refl (s : Sound fl) : Ahead fl 0 fl := ⟨s,rfl,by simp,rfl⟩

theorem Ahead.trans {a b c : FrameList} {m n : Nat} (ab : Ahead a m b) (bc : Ahead b n c) : Ahead a (m + n) c where
  sound := bc.sound
  slots := by rw [bc.slots,ab.slots,List.drop_drop]
  origin := by
    rw [bc.origin,ab.origin]
    push_cast
    omega
  maxCount := bc.maxCount.trans ab.maxCount

section Taking

variable (s : Sound fl)
include s

theorem advanceShown {c i : Nat} (hc : c ≤ fl.size) (hi : i < fl.maxCount) (back : ¬Front fl.maxCount fl.head c i) :
    (fl.advance c).shown i = fl.shown i := by
  have fits : c ≤ fl.maxCount := Nat.le_trans hc s.sizeLe
  have types : (fl.advance c).frameType i = fl.frameType i :=
    fillKept fl.frameType _ s.headLt fits hi rfl back
  have lens : (fl.advance c).contentLen i = fl.contentLen i :=
    fillKept fl.contentLen _ s.headLt fits hi rfl back
  unfold FrameList.shown
  rw [types,lens]
  rfl

theorem removeOneAhead (pos : 0 < fl.size) : Ahead fl 1 (fl.removeHead 1).2 := by
  have one : min 1 fl.size = 1 := by omega
  rw [removeHeadAdvance s (by omega),one]
  have fits := s.sizeLe
  refine ⟨advanceSound s pos,?_,rfl,rfl⟩
  have moved : (fl.advance 1).slots =
      view (fl.advance 1).shown fl.maxCount (slot fl.maxCount fl.head 1) (fl.size - 1) := rfl
  rw [moved,FrameList.slots,← viewDrop]
  apply viewCongr
  intro k inside
  rw [slotSlot]
  apply advanceShown s pos (slotLt _ _ s.pos)
  rintro ⟨j,front,clash⟩
  have same := slotInj (by omega) (by omega) clash
  omega

theorem popHeadAhead (pos : 0 < fl.size) : Ahead fl 1 fl.popHead := by
  have fits := s.sizeLe
  refine ⟨popHeadSound s,?_,rfl,rfl⟩
  have moved : fl.popHead.slots =
      view fl.popHead.shown fl.maxCount (slot fl.maxCount fl.head 1) (fl.size - 1) := rfl
  rw [moved,FrameList.slots,← viewDrop]
  apply viewCongr
  intro k inside
  rw [slotSlot]
  have other : slot fl.maxCount fl.head (1 + k) ≠ fl.head := by
    intro clash
    have same := slotInj (by omega) (by omega) (clash.trans (slotZero s.headLt).symm)
    omega
  simp [FrameList.shown,FrameList.popHead,Function.update_of_ne other]

theorem headShown (pos : 0 < fl.size) : fl.slots[0]? = some (fl.shown fl.head) := by
  rw [FrameList.slots,viewGet?,if_pos pos,slotZero s.headLt]

theorem headCell (pos : 0 < fl.size) : fl.window[0]? = some (fl.cell fl.head) := by
  rw [FrameList.window,viewGet?,if_pos pos,slotZero s.headLt]

end Taking

theorem skipAhead (s : Sound fl) (enough : fl.size < fuel) (prev : Bool) :
    ∃ k next, fl.skipDiscarded fuel prev = some (prev || decide (0 < k), next) ∧ Ahead fl k next ∧
      (∀ j, j < k → fl.window[j]? = some .discarded) ∧ next.frameType next.head ≠ .discarded := by
  induction fuel generalizing fl prev with
  | zero => omega
  | succ fuel ih =>
    unfold FrameList.skipDiscarded
    split
    · next dropped =>
      have occupied : 0 < fl.size := by
        by_contra empty
        have blank := s.vacant fl.head s.headLt fun k hk => by omega
        rw [cellMissing] at blank
        simp [blank] at dropped
      have first := removeOneAhead s occupied
      have shorter : (fl.removeHead 1).2.size < fuel := by
        rw [← slotsLength,first.slots,List.length_drop,slotsLength]
        omega
      obtain ⟨k,next,found,ahead,before,stop⟩ := ih first.sound shorter true
      refine ⟨1 + k,next,by simpa [Nat.add_comm 1 k] using found,first.trans ahead,fun j early => ?_,stop⟩
      cases j with
      | zero => rw [headCell s occupied,cellDiscarded.mpr dropped]
      | succ j =>
        have later := before j (by omega)
        rw [first.window,List.getElem?_drop,Nat.add_comm] at later
        exact later
    · next kept => exact ⟨0,fl,by simp,.refl s,fun j early => absurd early (Nat.not_lt_zero j),kept⟩

theorem headOutputShown (fl : FrameList) (prevDiscarded : Bool) :
    fl.headOutput none prevDiscarded = (fl.shown fl.head).output prevDiscarded fl.origin := by
  unfold FrameList.headOutput Slot.output
  dsimp only
  rw [Option.getD_none,Nat.min_self]
  rfl

theorem getFirst (s : Sound fl) (enough : fl.size < fuel) {p : Nat}
    (found : keptAt fl.window 0 = some p) : ∃ slot next, fl.slots[p]? = some slot ∧ Ahead fl (p + 1) next ∧
      fl.get none fuel = some (some (slot.output (decide (0 < p)) (fl.origin + p)), next) := by
  obtain ⟨before,⟨c,here,kept⟩,_,_⟩ := keptAtFirst found
  have inside : p < fl.window.length := (List.getElem?_eq_some_iff.mp here).1
  rw [windowLength] at inside
  obtain ⟨k,mid,skipped,ahead,early,stop⟩ := skipAhead s enough false
  have midSize : mid.size = fl.size - k := by rw [← slotsLength,ahead.slots,List.length_drop,slotsLength]
  -- the skipping stops at the first slot that is kept
  have same : k = p := by
    rcases Nat.lt_trichotomy k p with less | same | more
    · have occupied : 0 < mid.size := by omega
      have head := headCell ahead.sound occupied
      rw [ahead.window,List.getElem?_drop,Nat.add_zero,before k less] at head
      exact absurd (cellDiscarded.mp (Option.some.inj head).symm) stop
    · exact same
    · rw [early p more] at here
      exact absurd (Option.some.inj here).symm kept
  subst same
  have occupied : 0 < mid.size := by omega
  have head := headShown ahead.sound occupied
  rw [ahead.slots,List.getElem?_drop,Nat.add_zero] at head
  refine ⟨_,mid.popHead,head,ahead.trans (popHeadAhead ahead.sound occupied),?_⟩
  unfold FrameList.get
  rw [if_neg (by omega),skipped]
  dsimp only
  rw [if_neg (by omega),← ahead.origin,headOutputShown,Bool.false_or]

theorem getNothing (s : Sound fl) (enough : fl.size < fuel)
    (none : keptCells fl.window = 0) : ∃ next, fl.get .none fuel = some (.none, next) ∧ Sound next ∧ next.size = 0 := by
  unfold FrameList.get
  split
  · next empty => exact ⟨fl,rfl,s,empty⟩
  · obtain ⟨k,mid,skipped,ahead,early,stop⟩ := skipAhead s enough false
    have gone : mid.size = 0 := by
      by_contra more
      have occupied := Nat.pos_of_ne_zero more
      have head := headCell ahead.sound occupied
      rw [ahead.window] at head
      have member := List.mem_of_mem_drop (List.mem_of_getElem? head)
      exact stop (cellDiscarded.mp (keptAtNone none _ member))
    rw [skipped]
    simp only [gone,if_true]
    exact ⟨mid,rfl,ahead.sound,gone⟩

/- So many gets after a first one; the last one counts. -/
def FrameList.gets (fuel : Nat) : Nat → FrameList → Option (Option Output × FrameList)
  | 0, fl => fl.get none fuel
  | n + 1, fl => (fl.get none fuel).bind fun out => FrameList.gets fuel n out.2

def prevDiscarded (cells : List Cell) : Nat → Bool
  | 0 => false
  | p + 1 => cells[p]? = some .discarded

theorem getsKept (s : Sound fl) (enough : fl.size < fuel) {offset p : Nat}
    (found : keptAt fl.window offset = some p) : ∃ slot next, fl.slots[p]? = some slot ∧
      fl.gets fuel offset = some (some (slot.output (prevDiscarded fl.window p) (fl.origin + p)), next) := by
  induction offset generalizing fl p with
  | zero =>
    obtain ⟨slot,next,here,ahead,got⟩ := getFirst s enough found
    have flag : prevDiscarded fl.window p = decide (0 < p) := by
      cases p with
      | zero => rfl
      | succ p => simp [prevDiscarded,(keptAtFirst found).1 p (Nat.lt_succ_self p)]
    rw [flag]
    exact ⟨slot,next,here,got⟩
  | succ offset ih =>
    have positive : 0 < keptCells fl.window := by
      by_contra none
      have gone : ∀ (cells : List Cell), keptCells cells = 0 → ∀ i, keptAt cells i = .none := by
        intro cells none i
        have all := keptAtNone none
        clear none
        induction cells with
        | nil => rfl
        | cons c rest ihr =>
          obtain rfl := all c (List.mem_cons_self ..)
          simp [keptAt,ihr fun d mem => all d (List.mem_cons_of_mem _ mem)]
      rw [gone _ (by omega)] at found
      simp at found
    obtain ⟨q,first,_⟩ := keptAtSome positive
    obtain ⟨_,⟨c,here,kept⟩,_,onward⟩ := keptAtFirst first
    rw [onward] at found
    obtain ⟨r,later,rfl⟩ := Option.map_eq_some_iff.mp found
    obtain ⟨slot,next,_,ahead,got⟩ := getFirst s enough first
    have smaller : next.size < fuel := by
      rw [← slotsLength,ahead.slots,List.length_drop,slotsLength]
      omega
    rw [← ahead.window] at later
    obtain ⟨slot,last,there,gets⟩ := ih ahead.sound smaller later
    rw [ahead.slots,List.getElem?_drop,Nat.add_comm] at there
    -- the slot before is one of the later ones, or the one taken first
    have flag : prevDiscarded next.window r = prevDiscarded fl.window (r + (q + 1)) := by
      rw [ahead.window]
      cases r with
      | zero =>
        rw [Nat.zero_add]
        simp [prevDiscarded,here,kept]
      | succ r =>
        have place : r + 1 + (q + 1) = q + 1 + r + 1 := by omega
        rw [place]
        simp [prevDiscarded,List.getElem?_drop]
    have number : next.origin + r = fl.origin + (r + (q + 1) : Nat) := by
      rw [ahead.origin]
      push_cast
      omega
    refine ⟨slot,last,there,?_⟩
    rw [flag,number] at gets
    rw [FrameList.gets,got]
    exact gets

theorem getsNothing (s : Sound fl) (enough : fl.size < fuel) {offset : Nat}
    (few : keptCells fl.window ≤ offset) : ∃ next, fl.gets fuel offset = some (none, next) := by
  induction offset generalizing fl with
  | zero =>
    obtain ⟨next,got,_⟩ := getNothing s enough (by omega)
    exact ⟨next,got⟩
  | succ offset ih =>
    rcases Nat.eq_zero_or_pos (keptCells fl.window) with none | positive
    · obtain ⟨next,got,sound,empty⟩ := getNothing s enough none
      obtain ⟨last,gets⟩ := ih sound (by omega) (by rw [windowNil empty]; simp [keptCells])
      exact ⟨last,by rw [FrameList.gets,got]; exact gets⟩
    · obtain ⟨q,first,_⟩ := keptAtSome positive
      obtain ⟨slot,next,_,ahead,got⟩ := getFirst s enough first
      have count := (keptAtFirst first).2.2.1
      have smaller : next.size < fuel := by
        rw [← slotsLength,ahead.slots,List.length_drop,slotsLength]
        omega
      obtain ⟨last,gets⟩ := ih ahead.sound smaller (by rw [ahead.window]; omega)
      exact ⟨last,by rw [FrameList.gets,got]; exact gets⟩

theorem peekPosKept {fuel j offset p : Nat} (enough : p < fuel)
    (found : keptAt (fl.window.drop j) offset = some p) :
    fl.peekPos fuel (slot fl.maxCount fl.head j) offset = some (slot fl.maxCount fl.head (j + p)) := by
  induction fuel generalizing j offset p with
  | zero => omega
  | succ fuel ih =>
    have inside : j < fl.window.length := by
      by_contra past
      rw [List.drop_eq_nil_of_le (by omega)] at found
      simp [keptAt] at found
    have here : fl.window[j] = fl.cell (slot fl.maxCount fl.head j) := viewGet inside
    have onward : (slot fl.maxCount fl.head j + 1) % fl.maxCount = slot fl.maxCount fl.head (j + 1) :=
      slotSlot fl.maxCount fl.head j 1
    rw [List.drop_eq_getElem_cons inside,here] at found
    unfold FrameList.peekPos
    rw [onward]
    split
    · next dropped =>
      rw [cellDiscarded.mpr dropped] at found
      obtain ⟨q,later,rfl⟩ := Option.map_eq_some_iff.mp found
      rw [ih (by omega) later]
      congr 2
      omega
    · next kept =>
      have cell := mt cellDiscarded.mp kept
      cases offset with
      | zero =>
        have first : some p = some 0 := by
          rw [← found]
          cases shape : fl.cell (slot fl.maxCount fl.head j) <;> simp_all [keptAt]
        rw [Option.some.inj first]
        simp
      | succ offset =>
        have next : keptAt (fl.cell (slot fl.maxCount fl.head j) :: fl.window.drop (j + 1)) (offset + 1) =
            (keptAt (fl.window.drop (j + 1)) offset).map (· + 1) := by
          cases shape : fl.cell (slot fl.maxCount fl.head j) <;> simp_all [keptAt]
        rw [next] at found
        obtain ⟨q,later,rfl⟩ := Option.map_eq_some_iff.mp found
        simp only [Nat.add_one_ne_zero,if_false,Nat.add_sub_cancel]
        rw [ih (by omega) later]
        congr 2
        omega

/- What peek shows of a slot, but for the number. -/
structure Slot.Shows (slot : Slot) (out : Output) : Prop where
  type : out.type = if slot.type = .normal then .normal else .missing
  bytes : out.bytes = slot.content
  size : out.size = slot.len
  bitInfo : out.bitInfo = some slot.bitInfo
  ts : out.ts = some slot.ts

/- A peeked frame and the one the gets return last: of one slot, which peek shows as it is, and equal but for what
discarded frames change. -/
structure SameSlot (fl : FrameList) (offset : Nat) (peeked got : Output) : Prop where
  shown : ∃ p slot, keptAt fl.window offset = some p ∧ fl.slots[p]? = some slot ∧ slot.Shows peeked
  ts : got.ts = peeked.ts
  whole : (∀ p, keptAt fl.window offset = some p → prevDiscarded fl.window p = false) →
    got.type = peeked.type ∧ got.size = peeked.size ∧ got.bytes = peeked.bytes.take peeked.size ∧
      got.bitInfo = peeked.bitInfo
  concealed : (∃ p, keptAt fl.window offset = some p ∧ prevDiscarded fl.window p = true) →
    got.type = .missing ∧ got.size = 0
  numbered : keptAt fl.window offset = some offset → got.seq = peeked.seq

theorem peekFrameKept {jb : Jbuf} (s : Sound jb.framelist) {fuel offset p : Nat} (enough : jb.framelist.size < fuel)
    (below : offset < jb.framelist.effSize) (found : keptAt jb.framelist.window offset = some p) {shown : Slot}
    (here : jb.framelist.slots[p]? = some shown) :
    jb.peekFrame offset fuel = some
      { type := if shown.type = .normal then .normal else .missing
        bytes := shown.content
        size := shown.len
        bitInfo := some shown.bitInfo
        ts := some shown.ts
        seq := some (jb.framelist.origin + offset) } := by
  have inside := (List.getElem?_eq_some_iff.mp here).1
  rw [slotsLength] at inside
  have search := @peekPosKept jb.framelist fuel 0 _ _ (by omega) found
  rw [slotZero s.headLt,Nat.zero_add] at search
  rw [FrameList.slots,viewGet?,if_pos inside] at here
  obtain rfl := Option.some.inj here
  unfold Jbuf.peekFrame FrameList.peek
  rw [if_neg (by omega),search]
  rfl

/- Below both sizes the slot is found, and beyond both there is none; in between the counter is wrong. -/
theorem peekFindsSlot {jb : Jbuf} (reached : Reachable jb) (offset : Nat) {fuel : Nat}
    (enough : jb.framelist.size < fuel) :
    (offset < jb.framelist.effSize → offset < keptCells jb.framelist.window → ∃ peeked got next,
      jb.peekFrame offset fuel = some peeked ∧ jb.framelist.gets fuel offset = some (some got, next) ∧
        SameSlot jb.framelist offset peeked got) ∧
    (jb.framelist.effSize ≤ offset → keptCells jb.framelist.window ≤ offset → ∃ peeked next,
      jb.peekFrame offset fuel = some peeked ∧ peeked.type = .zeroEmpty ∧
        jb.framelist.gets fuel offset = some (none, next)) := by
  constructor
  · intro below inside
    obtain ⟨p,found,bound⟩ := keptAtSome inside
    have s : Sound jb.framelist := by
      rcases reachableHeld reached with held | shut
      · exact held.sound
      · rw [windowNil shut.empty] at bound
        exact absurd bound (Nat.not_lt_zero p)
    obtain ⟨shown,next,here,gets⟩ := getsKept s enough found
    refine ⟨_,_,next,peekFrameKept s enough below found here,gets,?_⟩
    cases flag : prevDiscarded jb.framelist.window p with
    | false =>
      refine ⟨⟨p,shown,found,here,rfl,rfl,rfl,rfl,rfl⟩,rfl,fun _ => ⟨rfl,rfl,rfl,rfl⟩,?_,fun at_ => ?_⟩
      · rintro ⟨q,at_,discarded⟩
        obtain rfl := Option.some.inj (found.symm.trans at_)
        rw [flag] at discarded
        contradiction
      · obtain rfl := Option.some.inj (found.symm.trans at_)
        rfl
    | true =>
      refine ⟨⟨p,shown,found,here,rfl,rfl,rfl,rfl,rfl⟩,rfl,fun plain => ?_,fun _ => ⟨rfl,rfl⟩,fun at_ => ?_⟩
      · rw [plain p found] at flag
        contradiction
      · obtain rfl := Option.some.inj (found.symm.trans at_)
        rfl
  · intro beyond few
    have none : jb.framelist.peek offset fuel = some none := if_pos beyond
    have nothing : ∃ next, jb.framelist.gets fuel offset = some (.none, next) := by
      rcases reachableHeld reached with held | shut
      · exact getsNothing held.sound enough few
      · refine ⟨jb.framelist,?_⟩
        have got : jb.framelist.get .none fuel = some (.none, jb.framelist) := if_pos shut.empty
        clear few beyond none
        induction offset with
        | zero => exact got
        | succ offset ih => rw [FrameList.gets,got]; exact ih
    obtain ⟨next,gets⟩ := nothing
    have peeked : jb.peekFrame offset fuel = some
        { type := .zeroEmpty, bytes := [], size := 0, bitInfo := .none, ts := .none, seq := .none } := by
      unfold Jbuf.peekFrame
      rw [none]
    exact ⟨_,next,peeked,rfl,gets⟩

theorem discardedOncePeeked :
    (10 < discardedOnce.framelist.effSize → 10 < keptCells discardedOnce.framelist.window → ∃ peeked got next,
      discardedOnce.peekFrame 10 60 = some peeked ∧ discardedOnce.framelist.gets 60 10 = some (some got, next) ∧
        SameSlot discardedOnce.framelist 10 peeked got) ∧
    (discardedOnce.framelist.effSize ≤ 10 → keptCells discardedOnce.framelist.window ≤ 10 → ∃ peeked next,
      discardedOnce.peekFrame 10 60 = some peeked ∧ peeked.type = .zeroEmpty ∧
        discardedOnce.framelist.gets 60 10 = some (none, next)) :=
  peekFindsSlot (reachedByReachable 1 20 50 (by decide) 60 roundsOfOne) 10 (by decide +kernel)

def behindDiscarded : Jbuf := reachedBy 1 20 50 60 (roundsOfOne ++ [.call (.put [17] 0 17 0)])

/- Frame 17 is peeked as number 16, and missing for the get; a slot counted twice hides the last one. -/
theorem peekedOtherwise :
    Reachable behindDiscarded ∧
      (behindDiscarded.peekFrame 10 60).map (fun out => (out.type, out.bytes, out.seq)) =
        some (.normal, [17], some 16) ∧
      (behindDiscarded.framelist.gets 60 10).map (fun out => out.1.map fun got => (got.type, got.bytes, got.seq)) =
        some (some (.missing, [], some 17)) ∧
      Reachable discardedTwice ∧
      (discardedTwice.peekFrame 25 60).map Output.type = some .zeroEmpty ∧
      (discardedTwice.framelist.gets 60 25).map (fun out => out.1.map Output.type) = some (some .normal) :=
  ⟨reachedByReachable 1 20 50 (by decide) 60 _,by decide +kernel,by decide +kernel,
    reachedByReachable 1 20 50 (by decide) 60 _,by decide +kernel,by decide +kernel⟩

end Pjproject.Media
