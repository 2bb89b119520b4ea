import Pjproject.Jbuf
import Pjproject.JbufWindow

/-! What every call keeps of the jitter buffer: the frame list is sound, and no slot that
progressive discard can still choose is discarded already. -/
namespace Pjproject.Media
open Lib.Ring

def DiscardedUpTo (fl : FrameList) (ref : Int) : Prop :=
  ∀ k, fl.window[k]? = some .discarded → fl.origin + (k : Nat) ≤ ref

variable {fl base : FrameList} {ref index : Int} {frame : Frame} {fuel : Nat} {jb next : Jbuf} {out : PutStatus × Jbuf}

theorem discardedUpToDrop {next : FrameList} (h : DiscardedUpTo fl ref) {c : Nat}
    (window : next.window = fl.window.drop c) (origin : next.origin = fl.origin + (c : Nat)) :
    DiscardedUpTo next ref := by
  intro k found
  rw [window,List.getElem?_drop] at found
  have bound := h (c + k) found
  rw [origin]
  push_cast at bound
  omega

theorem discardedUpToNil (empty : fl.window = []) : DiscardedUpTo fl ref := by
  intro k found
  simp [empty] at found

theorem placeDiscarded {cells : List Cell} {d k : Nat} {f : Frame} {n : Nat}
    (found : (place cells d (.frame f n))[k]? = some .discarded) : cells[k]? = some .discarded := by
  unfold place at found
  rw [List.getElem?_set] at found
  split at found
  · split at found <;> simp at found
  · rw [List.getElem?_append] at found
    split at found
    · exact found
    · rw [List.getElem?_replicate] at found
      split at found <;> simp at found

/- The list a frame is stored into: numbered so that the frame is not before its origin. -/
structure Rebased (fl base : FrameList) (index : Int) : Prop where
  sound : Sound base
  counted : Counted fl → Counted base
  reached : base.origin ≤ index
  cells : (base.window = fl.window ∧ base.origin ≤ fl.origin) ∨ base.window = []
  maxCount : base.maxCount = fl.maxCount
  frameSize : base.frameSize = fl.frameSize

theorem Rebased.discardedUpTo (r : Rebased fl base index) (h : DiscardedUpTo fl ref) : DiscardedUpTo base ref := by
  rcases r.cells with ⟨window,origin⟩ | empty
  · intro k found
    have bound := h k (window ▸ found)
    omega
  · exact discardedUpToNil empty

theorem rebaseSpec (s : Sound fl) (index : Int) : (fl.rebase index = none ∧ index < fl.origin) ∨
      ∃ base, Rebased fl base index ∧ fl.rebase index = some (base, index - base.origin) := by
  unfold FrameList.rebase
  dsimp only
  split
  · next before =>
    split
    · exact .inl ⟨rfl,by omega⟩
    · split
      · refine .inr ⟨{ fl with origin := index - fl.size },⟨soundOrigin s _,id,?_,.inl ⟨rfl,?_⟩,rfl,rfl⟩,?_⟩
        · simp
        · change index - fl.size ≤ fl.origin
          omega
        · simp
      · refine .inr ⟨{ fl.reset with origin := index },
          ⟨soundReset s.pos _,fun _ => rfl,le_refl index,.inr rfl,rfl,rfl⟩,?_⟩
        simp
  · next after => exact .inr ⟨fl,⟨s,id,by omega,.inl ⟨rfl,le_refl _⟩,rfl,rfl⟩,rfl⟩

theorem adoptSpec (r : Rebased fl base index) :
    ∃ next, Rebased fl next index ∧ base.adopt index (index - base.origin) = (next, index - next.origin) := by
  unfold FrameList.adopt
  split
  · next empty =>
    refine ⟨_,⟨soundOrigin r.sound index,r.counted,le_refl _,.inr ?_,r.maxCount,r.frameSize⟩,by simp⟩
    exact windowNil empty
  · exact ⟨base,r,rfl⟩

/- A put is late, or finds the list full, or tries to store into a renumbered list. -/
inductive PutCase (fl : FrameList) (index : Int) (frame : Frame) : PutStatus × FrameList → Prop where
  | late (before : index < fl.origin) : PutCase fl index frame (.tooSmall, fl)
  | full (base : FrameList) (r : Rebased fl base index) (far : toInt32 fl.maxCount ≤ index - base.origin)
      (near : index - base.origin ≤ maxDropout) : PutCase fl index frame (.tooMany, base)
  | store (base : FrameList) (r : Rebased fl base index) (inside : index - base.origin < toInt32 fl.maxCount ∨
      index = base.origin) : PutCase fl index frame (base.store index (index - base.origin) frame)

theorem putAtCases (s : Sound fl) (index : Int)
    (fits : frame.bytes.length ≤ fl.frameSize) : PutCase fl index frame (fl.putAt index frame) := by
  unfold FrameList.putAt
  rw [if_neg (by omega)]
  rcases rebaseSpec s index with ⟨none,before⟩ | ⟨first,r,found⟩
  · rw [none]
    exact .late before
  · obtain ⟨base,r,adopted⟩ := adoptSpec r
    rw [found]
    simp only [adopted]
    unfold FrameList.accept
    rw [r.maxCount]
    split
    · next none =>
      split at none
      · next far =>
        split at none
        · simp at none
        · next near => exact .full base r far (by omega)
      · simp at none
    · next last distance admitted =>
      split at admitted
      · next far =>
        split at admitted
        · next jump =>
          obtain ⟨rfl,rfl⟩ := Prod.mk.inj (Option.some.inj admitted)
          have again : Rebased fl { base.reset with origin := index } index :=
            ⟨soundReset r.sound.pos index,fun _ => rfl,le_refl _,.inr rfl,r.maxCount,r.frameSize⟩
          have stored := @PutCase.store fl index frame _ again (.inr rfl)
          simpa using stored
        · simp at admitted
      · next inside =>
        obtain ⟨rfl,rfl⟩ := Prod.mk.inj (Option.some.inj admitted)
        exact .store base r (.inl (by omega))

theorem toInt32Le (n : Nat) : toInt32 n ≤ n := by
  unfold toInt32
  split <;> omega

/- What a call on the frame list leaves: soundness, and no new discarded slot. -/
structure Preserved (fl next : FrameList) : Prop where
  sound : Sound next
  counted : Counted fl → Counted next
  marks : ∀ ref, DiscardedUpTo fl ref → DiscardedUpTo next ref
  maxCount : next.maxCount = fl.maxCount
  frameSize : next.frameSize = fl.frameSize

theorem Preserved.refl (s : Sound fl) : Preserved fl fl := ⟨s,id,fun _ h => h,rfl,rfl⟩

theorem Preserved.trans {a b c : FrameList} (ab : Preserved a b) (bc : Preserved b c) : Preserved a c :=
  ⟨bc.sound,fun c => bc.counted (ab.counted c),fun ref h => bc.marks ref (ab.marks ref h),bc.maxCount.trans ab.maxCount,
    bc.frameSize.trans ab.frameSize⟩

theorem Rebased.preserved (r : Rebased fl base index) : Preserved fl base :=
  ⟨r.sound,r.counted,fun _ h => r.discardedUpTo h,r.maxCount,r.frameSize⟩

theorem removeHeadPreserved (s : Sound fl) (count : Nat) : Preserved fl (fl.removeHead count).2 := by
  have spec := removeHeadSpec s count
  exact ⟨spec.sound,spec.counted,fun _ h => discardedUpToDrop h spec.window spec.origin,
    spec.maxCount,spec.frameSize⟩

theorem storeCases (s : Sound fl) (reached : fl.origin ≤ index)
    (inside : index - fl.origin < fl.maxCount) (frame : Frame) :
    fl.store index (index - fl.origin) frame = (.existing, fl) ∨
      ∃ d : Nat, index = fl.origin + d ∧ StoreSpec fl d frame (fl.store index (index - fl.origin) frame) := by
  obtain ⟨d,distance⟩ := Int.eq_ofNat_of_zero_le (show 0 ≤ index - fl.origin by omega)
  rw [distance]
  by_cases free : fl.frameType (slot fl.maxCount fl.head d) = .missing
  · exact .inr ⟨d,by omega,storeSpec s (by omega) (by omega) frame free⟩
  · refine .inl ?_
    unfold FrameList.store
    exact if_pos free

theorem storePreserved (s : Sound fl) (reached : fl.origin ≤ index)
    (inside : index - fl.origin < fl.maxCount) (frame : Frame) :
    Preserved fl (fl.store index (index - fl.origin) frame).2 := by
  rcases storeCases s reached inside frame with taken | ⟨d,seq,spec⟩
  · rw [taken]
    exact .refl s
  · refine ⟨spec.sound,spec.counted,fun ref h k found => ?_,spec.maxCount,spec.frameSize⟩
    rw [spec.window] at found
    rw [spec.origin]
    exact h k (placeDiscarded found)

theorem putAtPreserved (s : Sound fl) (index : Int)
    (fits : frame.bytes.length ≤ fl.frameSize) : Preserved fl (fl.putAt index frame).2 := by
  have outcome := putAtCases s index fits
  revert outcome
  generalize fl.putAt index frame = out
  intro outcome
  cases outcome with
  | late => exact .refl s
  | full base r => exact r.preserved
  | store base r =>
    have bound := toInt32Le fl.maxCount
    have pos := s.pos
    refine r.preserved.trans (storePreserved r.sound r.reached ?_ frame)
    rw [r.maxCount]
    omega

theorem skipPreserved {prev : Bool} {out : Bool × FrameList} (spec : SkipSpec fl prev out) :
    Preserved fl out.2 := by
  obtain ⟨k,_,window,origin,_⟩ := spec.skipped
  exact ⟨spec.sound,spec.counted,fun _ h => discardedUpToDrop h window origin,spec.maxCount,spec.frameSize⟩

theorem popHeadPreserved (s : Sound fl) (pos : 0 < fl.size)
    (kept : fl.frameType fl.head ≠ .discarded) : Preserved fl fl.popHead := by
  refine ⟨popHeadSound s,popHeadCounted s pos kept,fun _ h => discardedUpToDrop (c := 1) h ?_ rfl,rfl,rfl⟩
  rw [popHeadWindow s pos,List.drop_one]

theorem getPreserved (s : Sound fl) (maxSize : Option Nat)
    (enough : fl.size < fuel) : ∃ out, fl.get maxSize fuel = some out ∧ Preserved fl out.2 := by
  unfold FrameList.get
  split
  · exact ⟨_,rfl,.refl s⟩
  · obtain ⟨⟨prev,next⟩,found,spec⟩ := skipDiscardedSpec s enough false
    rw [found]
    dsimp only
    split
    · exact ⟨_,rfl,skipPreserved spec⟩
    · next occupied =>
      exact ⟨_,rfl,(skipPreserved spec).trans (popHeadPreserved spec.sound (Nat.pos_of_ne_zero occupied) spec.kept)⟩

theorem removeMorePreserved (s : Sound fl) (last count : Nat)
    (enough : (if fl.discardedNum < last then fl.discardedNum + 1 else 0) < fuel) :
    ∃ out, fl.removeMore fuel last count = some out ∧ Preserved fl out.2 := by
  induction fuel generalizing fl last count with
  | zero => omega
  | succ fuel ih =>
    unfold FrameList.removeMore
    split
    · next fewer =>
      rw [if_pos fewer] at enough
      have step := removeHeadPreserved s (last - fl.discardedNum)
      have less : (if (fl.removeHead (last - fl.discardedNum)).2.discardedNum < fl.discardedNum
          then (fl.removeHead (last - fl.discardedNum)).2.discardedNum + 1 else 0) < fuel := by
        split <;> omega
      obtain ⟨out,found,rest⟩ := ih step.sound fl.discardedNum
        (count - (last - fl.discardedNum) + (fl.removeHead (last - fl.discardedNum)).1) less
      exact ⟨out,found,step.trans rest⟩
    · exact ⟨_,rfl,.refl s⟩

variable {cap : Nat}

/- The scheduled discards are numbered after every frame discarded before. -/
structure Good (cap : Nat) (jb : Jbuf) : Prop where
  sound : Sound jb.framelist
  counted : Counted jb.framelist
  capacity : jb.maxCount = cap
  maxCount : jb.framelist.maxCount = jb.maxCount
  frameSize : jb.framelist.frameSize = jb.frameSize
  gap : 1 ≤ jb.minShrinkGap
  scheduled : jb.discardDist ≠ 0 → DiscardedUpTo jb.framelist jb.discardRef
  idle : jb.discardAlgo = .static → jb.discardDist = 0

theorem Good.congr (g : Good cap jb) (p : Preserved jb.framelist next.framelist)
    (maxCount : next.maxCount = jb.maxCount) (frameSize : next.frameSize = jb.frameSize)
    (gap : next.minShrinkGap = jb.minShrinkGap) (dist : next.discardDist = jb.discardDist)
    (ref : next.discardRef = jb.discardRef) (algo : next.discardAlgo = jb.discardAlgo) : Good cap next where
  sound := p.sound
  counted := p.counted g.counted
  capacity := maxCount.trans g.capacity
  maxCount := by rw [p.maxCount,maxCount,g.maxCount]
  frameSize := by rw [p.frameSize,frameSize,g.frameSize]
  gap := gap ▸ g.gap
  scheduled := by
    rw [dist,ref]
    exact fun set => p.marks _ (g.scheduled set)
  idle := by
    rw [algo,dist]
    exact g.idle

theorem discardStaticGood (g : Good cap jb) (algo : jb.discardAlgo = .static) : Good cap jb.discardStatic := by
  have dist := g.idle algo
  have removed := removeHeadPreserved g.sound 1
  unfold Jbuf.discardStatic
  dsimp only
  split
  · generalize (if jb.framelist.origin < jb.discardRef then jb.framelist.origin else jb.discardRef) = ref
    split
    · exact ⟨removed.sound,removed.counted g.counted,g.capacity,removed.maxCount.trans g.maxCount,removed.frameSize.trans g.frameSize,g.gap,
        fun set => absurd dist set,g.idle⟩
    · exact ⟨g.sound,g.counted,g.capacity,g.maxCount,g.frameSize,g.gap,fun set => absurd dist set,g.idle⟩
  · exact g

theorem discardedUpToLast : DiscardedUpTo fl (fl.origin + fl.size - 1) := by
  intro k found
  have inside := (List.getElem?_eq_some_iff.mp found).1
  rw [windowLength] at inside
  omega

theorem scheduleDiscardGood (g : Good cap jb) (algo : jb.discardAlgo = .progressive) (dist : Nat) :
    Good cap (jb.scheduleDiscard dist (jb.framelist.origin + jb.framelist.size - 1)) ∧ DiscardedUpTo jb.framelist
        (jb.scheduleDiscard dist (jb.framelist.origin + jb.framelist.size - 1)).discardRef := by
  have marked : DiscardedUpTo jb.framelist
      (jb.scheduleDiscard dist (jb.framelist.origin + jb.framelist.size - 1)).discardRef := by
    unfold Jbuf.scheduleDiscard
    dsimp only
    split
    · exact discardedUpToLast
    · next set =>
      split
      · exact discardedUpToLast
      · exact g.scheduled set
  refine ⟨⟨g.sound,g.counted,g.capacity,g.maxCount,g.frameSize,g.gap,fun _ => marked,fun static => ?_⟩,marked⟩
  have clash : jb.discardAlgo = .static := static
  simp [algo] at clash

theorem performDiscardGood (g : Good cap jb) (occupied : 0 < jb.framelist.size)
    (marked : DiscardedUpTo jb.framelist jb.discardRef) (dist : 1 ≤ jb.discardDist) :
    Good cap (jb.performDiscard (jb.framelist.origin + jb.framelist.size - 1)) := by
  unfold Jbuf.performDiscard
  dsimp only
  split
  · next due =>
    generalize seq : (if jb.discardRef + jb.discardDist < jb.framelist.origin then jb.framelist.origin
      else jb.discardRef + jb.discardDist) = discardSeq
    have bounds : jb.framelist.origin ≤ discardSeq ∧ jb.discardRef < discardSeq ∧
        discardSeq < jb.framelist.origin + jb.framelist.size := by
      rw [← seq]
      split <;> omega
    obtain ⟨low,after,high⟩ := bounds
    obtain ⟨d,place⟩ := Int.eq_ofNat_of_zero_le (show 0 ≤ discardSeq - jb.framelist.origin by omega)
    have here : discardSeq = jb.framelist.origin + d := by omega
    have fresh : jb.framelist.window[d]? ≠ some .discarded := by
      intro found
      have early := marked d found
      omega
    rw [here]
    have spec := discardSpec (d := d) g.sound (by omega)
    refine ⟨spec.sound,spec.counted fresh g.counted,g.capacity,spec.maxCount.trans g.maxCount,
      spec.frameSize.trans g.frameSize,g.gap,fun _ k found => ?_,g.idle⟩
    rw [spec.window,List.getElem?_set] at found
    change (jb.framelist.discard (jb.framelist.origin + d)).2.origin + k ≤ jb.framelist.origin + d
    rw [spec.origin]
    split at found
    · next same => omega
    · next other =>
      have early := marked k found
      omega
  · exact g

theorem discardProgressiveGood (g : Good cap jb) (algo : jb.discardAlgo = .progressive) :
    Good cap jb.discardProgressive := by
  unfold Jbuf.discardProgressive
  split
  · exact g
  · dsimp only
    split
    · exact ⟨g.sound,g.counted,g.capacity,g.maxCount,g.frameSize,g.gap,fun set => absurd rfl set,fun _ => rfl⟩
    · next beyond =>
      have occupied : 0 < jb.framelist.size := by
        have few := g.counted.discardedLe
        unfold FrameList.effSize at beyond
        omega
      obtain ⟨good,marked⟩ := scheduleDiscardGood g algo
        (discardDuration (toUInt32 (max jb.effLevel jb.level)) /
          (jb.framelist.effSize - toUInt32 (max jb.effLevel jb.level)) / jb.framePtime)
      refine performDiscardGood good occupied marked ?_
      exact le_trans g.gap (le_max_left _ _)

theorem runDiscardGood (g : Good cap jb) : Good cap jb.runDiscard := by
  unfold Jbuf.runDiscard
  split
  · split
    · exact g
    · next algo => exact discardStaticGood g algo
    · next algo => exact discardProgressiveGood g algo
  · exact g

/- The level computations touch neither the frame list nor the discard schedule. -/
structure SameList (jb next : Jbuf) : Prop where
  framelist : next.framelist = jb.framelist
  maxCount : next.maxCount = jb.maxCount
  frameSize : next.frameSize = jb.frameSize
  minShrinkGap : next.minShrinkGap = jb.minShrinkGap
  discardDist : next.discardDist = jb.discardDist
  discardRef : next.discardRef = jb.discardRef
  discardAlgo : next.discardAlgo = jb.discardAlgo

theorem SameList.trans {a b c : Jbuf} (ab : SameList a b) (bc : SameList b c) : SameList a c :=
  ⟨bc.framelist.trans ab.framelist,bc.maxCount.trans ab.maxCount,bc.frameSize.trans ab.frameSize,
    bc.minShrinkGap.trans ab.minShrinkGap,bc.discardDist.trans ab.discardDist,
    bc.discardRef.trans ab.discardRef,bc.discardAlgo.trans ab.discardAlgo⟩

theorem SameList.good (same : SameList jb next) (g : Good cap jb) : Good cap next := by
  refine g.congr ?_ same.maxCount same.frameSize same.minShrinkGap same.discardDist same.discardRef
    same.discardAlgo
  rw [same.framelist]
  exact .refl g.sound

theorem calculateJitterSame (jb : Jbuf) : SameList jb jb.calculateJitter := by
  unfold Jbuf.calculateJitter
  dsimp only
  split
  · unfold Jbuf.decreaseLevel
    dsimp only
    split
    · exact ⟨rfl,rfl,rfl,rfl,rfl,rfl,rfl⟩
    · exact ⟨rfl,rfl,rfl,rfl,rfl,rfl,rfl⟩
  · split
    · exact ⟨rfl,rfl,rfl,rfl,rfl,rfl,rfl⟩
    · exact ⟨rfl,rfl,rfl,rfl,rfl,rfl,rfl⟩

theorem switchOpSame (jb : Jbuf) (oper : LastOp) : SameList jb (jb.switchOp oper).1 := by
  unfold Jbuf.switchOp
  dsimp only
  split
  · split
    · exact ⟨rfl,rfl,rfl,rfl,rfl,rfl,rfl⟩
    · exact ⟨rfl,rfl,rfl,rfl,rfl,rfl,rfl⟩
  · exact ⟨rfl,rfl,rfl,rfl,rfl,rfl,rfl⟩

theorem updateCases (jb : Jbuf) (oper : LastOp) :
    ∃ next, SameList jb next ∧ (jb.update oper = next ∨ jb.update oper = next.runDiscard) := by
  unfold Jbuf.update
  split
  · have switched := switchOpSame jb oper
    generalize jb.switchOp oper = out at switched
    obtain ⟨next,goOn⟩ := out
    dsimp only at switched ⊢
    cases goOn with
    | false => exact ⟨next,switched,.inl rfl⟩
    | true =>
      refine ⟨_,?_,.inr rfl⟩
      split
      · exact switched.trans ((calculateJitterSame next).trans ⟨rfl,rfl,rfl,rfl,rfl,rfl,rfl⟩)
      · exact switched.trans ⟨rfl,rfl,rfl,rfl,rfl,rfl,rfl⟩
  · exact ⟨jb,⟨rfl,rfl,rfl,rfl,rfl,rfl,rfl⟩,.inr rfl⟩

theorem updateGood (g : Good cap jb) (oper : LastOp) : Good cap (jb.update oper) := by
  obtain ⟨next,same,plain | discarded⟩ := updateCases jb oper
  · rw [plain]
    exact same.good g
  · rw [discarded]
    exact runDiscardGood (same.good g)

theorem Good.withList (g : Good cap jb) {framelist : FrameList} (p : Preserved jb.framelist framelist)
    (discard : Nat) : Good cap { jb with framelist, discard } :=
  g.congr p rfl rfl rfl rfl rfl rfl

theorem makeRoomGood (g : Good cap jb) (seq : Int) (fits : frame.bytes.length ≤ jb.frameSize) {status : PutStatus}
    (done : Jbuf.makeRoom seq frame fuel jb status = some out) : Good cap out.2 := by
  induction fuel generalizing jb status with
  | zero => simp [Jbuf.makeRoom] at done
  | succ fuel ih =>
    unfold Jbuf.makeRoom at done
    split at done
    · have removed := removeHeadPreserved g.sound
        (toUInt32 ((seq - jb.framelist.origin) - toInt32 jb.maxCount + 1))
      have room : frame.bytes.length ≤ (jb.framelist.removeHead
          (toUInt32 ((seq - jb.framelist.origin) - toInt32 jb.maxCount + 1))).2.frameSize := by
        rw [removed.frameSize,g.frameSize]
        exact fits
      exact ih (g.withList (removed.trans (putAtPreserved removed.sound seq room)) _) fits done
    · rw [← Option.some.inj done]
      exact g

theorem putFrame3Inv {frame : List UInt8} {bitInfo : UInt32} {seq : Int} {ts : UInt32}
    (done : jb.putFrame3 frame bitInfo seq ts fuel = some out) :
    ∃ mid, Jbuf.makeRoom seq ⟨frame.take jb.frameSize,bitInfo,ts⟩ fuel
        { jb with framelist := (jb.framelist.putAt seq ⟨frame.take jb.frameSize,bitInfo,ts⟩).2 }
        (jb.framelist.putAt seq ⟨frame.take jb.frameSize,bitInfo,ts⟩).1 = some (out.1, mid) ∧
      ∃ ready, SameList mid ready ∧ (out.2 = ready ∨ out.2 = ready.update .put) := by
  unfold Jbuf.putFrame3 at done
  dsimp only at done
  split at done
  · simp at done
  · next status next room =>
    refine ⟨next,?_⟩
    split at done
    · rw [← Option.some.inj done]
      refine ⟨room,_,?_,.inr rfl⟩
      exact ⟨rfl,rfl,rfl,rfl,rfl,rfl,rfl⟩
    · rw [← Option.some.inj done]
      refine ⟨room,_,?_,.inl rfl⟩
      exact ⟨rfl,rfl,rfl,rfl,rfl,rfl,rfl⟩

theorem putFrame3Good (g : Good cap jb) (frame : List UInt8) (bitInfo : UInt32) (seq : Int) (ts : UInt32)
    (done : jb.putFrame3 frame bitInfo seq ts fuel = some out) : Good cap out.2 := by
  have fits : (frame.take jb.frameSize).length ≤ jb.frameSize := List.length_take_le _ _
  have first : Good cap { jb with
      framelist := (jb.framelist.putAt seq ⟨frame.take jb.frameSize,bitInfo,ts⟩).2 } :=
    g.withList (putAtPreserved g.sound seq (by rw [g.frameSize]; exact fits)) jb.discard
  obtain ⟨mid,room,ready,same,plain | updated⟩ := putFrame3Inv done
  · rw [plain]
    exact same.good (makeRoomGood first seq fits room)
  · rw [updated]
    exact updateGood (same.good (makeRoomGood first seq fits room)) .put

theorem getFrame3Inv {maxSize : Option Nat} {out : Output} (done : jb.getFrame3 maxSize fuel = some (out, next)) :
    ∃ framelist ready, SameList { jb with framelist } ready ∧ next = ready.update .get ∧
      ((framelist = jb.framelist ∧ out.type ≠ .normal) ∨
        (jb.framelist.get maxSize fuel = some (none, framelist) ∧ out.type ≠ .normal) ∨
        jb.framelist.get maxSize fuel = some (some out, framelist)) := by
  unfold Jbuf.getFrame3 at done
  dsimp only at done
  split at done
  · obtain ⟨rfl,rfl⟩ := Prod.mk.inj (Option.some.inj done)
    refine ⟨jb.framelist,_,?_,rfl,.inl ⟨rfl,by simp⟩⟩
    exact ⟨rfl,rfl,rfl,rfl,rfl,rfl,rfl⟩
  · split at done
    · simp at done
    · next framelist found =>
      obtain ⟨rfl,rfl⟩ := Prod.mk.inj (Option.some.inj done)
      refine ⟨framelist,_,?_,rfl,.inr (.inr found)⟩
      split <;> exact ⟨rfl,rfl,rfl,rfl,rfl,rfl,rfl⟩
    · next framelist found =>
      obtain ⟨rfl,rfl⟩ := Prod.mk.inj (Option.some.inj done)
      refine ⟨framelist,_,?_,rfl,.inr (.inl ⟨found,by simp⟩)⟩
      exact ⟨rfl,rfl,rfl,rfl,rfl,rfl,rfl⟩

theorem getFrame3Returns {maxSize : Option Nat} {out : Option Output × FrameList}
    (found : jb.framelist.get maxSize fuel = some out) : ∃ out, jb.getFrame3 maxSize fuel = some out := by
  unfold Jbuf.getFrame3
  split
  · exact ⟨_,rfl⟩
  · rw [found]
    obtain ⟨res,next⟩ := out
    cases res <;> exact ⟨_,rfl⟩

theorem getFrame3Good (g : Good cap jb) (maxSize : Option Nat)
    (enough : jb.maxCount < fuel) : ∃ out, jb.getFrame3 maxSize fuel = some out ∧ Good cap out.2 := by
  have bound : jb.framelist.size < fuel := by
    have := g.sound.sizeLe
    rw [g.maxCount] at this
    omega
  obtain ⟨res,found,kept⟩ := getPreserved g.sound maxSize bound
  obtain ⟨⟨out,next⟩,done⟩ := getFrame3Returns found
  refine ⟨_,done,?_⟩
  obtain ⟨framelist,ready,same,rfl,outcome⟩ := getFrame3Inv done
  refine updateGood (same.good (g.withList ?_ jb.discard)) .get
  rcases outcome with ⟨rfl,_⟩ | ⟨empty,_⟩ | read
  · exact .refl g.sound
  · rw [empty] at found
    rw [← Option.some.inj found] at kept
    exact kept
  · rw [read] at found
    rw [← Option.some.inj found] at kept
    exact kept

theorem removeFrameGood (g : Good cap jb) (frameCnt : Nat)
    (enough : jb.maxCount + 1 < fuel) : ∃ out, jb.removeFrame frameCnt fuel = some out ∧ Good cap out.2 := by
  have removed := removeHeadPreserved g.sound frameCnt
  have bound : (if (jb.framelist.removeHead frameCnt).2.discardedNum < jb.framelist.discardedNum
      then (jb.framelist.removeHead frameCnt).2.discardedNum + 1 else 0) < fuel := by
    have few := (removed.counted g.counted).discardedLe
    have size := removed.sound.sizeLe
    rw [removed.maxCount,g.maxCount] at size
    split <;> omega
  obtain ⟨⟨count,next⟩,found,kept⟩ := removeMorePreserved removed.sound jb.framelist.discardedNum
    (jb.framelist.removeHead frameCnt).1 bound
  unfold Jbuf.removeFrame
  dsimp only
  rw [found]
  exact ⟨_,rfl,g.withList (removed.trans kept) jb.discard⟩

theorem resetGood (g : Good cap jb) : Good cap jb.reset :=
  { sound := soundReset g.sound.pos _
    counted := rfl
    capacity := g.capacity
    maxCount := g.maxCount
    frameSize := g.frameSize
    gap := g.gap
    scheduled := fun set => absurd rfl set
    idle := fun _ => rfl }

end Pjproject.Media
