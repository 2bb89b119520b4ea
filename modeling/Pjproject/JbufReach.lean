import Pjproject.JbufDelivery

/-! Every reachable jitter buffer: calls and settings in any order, any frame time and any capacity. The frame list
stays a circular window; its discard counter, a natural number here, may count a slot more than once. -/
namespace Pjproject.Media
open Lib.Ring

def Jbuf.setPtime (jb : Jbuf) (ptime : Nat) : Jbuf :=
  { jb with
    framePtime := ptime
    minShrinkGap := (discMinGap / ptime : Nat)
    maxBurst := toInt32 (max (maxBurstMsec / ptime) (jb.maxCount * 3 / 4) % 4294967296) }

/- A frame time of zero is a division by zero. -/
inductive Act where
  | call (c : Call)
  | setting (s : Setting)
  | ptime (ptime : UInt32)
  deriving DecidableEq, Repr

def Jbuf.act (fuel : Nat) (jb : Jbuf) : Act → Option Jbuf
  | .call c => jb.call fuel c
  | .setting s => some (jb.apply s)
  | .ptime ptime => if ptime = 0 then none else some (jb.setPtime ptime.toNat)

def Jbuf.acts (fuel : Nat) : Jbuf → List Act → Option Jbuf
  | jb, [] => some jb
  | jb, a :: rest => (jb.act fuel a).bind fun next => Jbuf.acts fuel next rest

/- A call whose loops end with some fuel is a call that returns. -/
inductive Reachable : Jbuf → Prop where
  | create (frameSize ptime maxCount : UInt32) (divisor : ptime ≠ 0) : Reachable (create frameSize ptime maxCount)
  | act {jb next : Jbuf} {fuel : Nat} {a : Act} (reached : Reachable jb) (done : jb.act fuel a = some next) :
      Reachable next

theorem actsReachable {fuel : Nat} {acts : List Act} {jb last : Jbuf} (reached : Reachable jb)
    (done : jb.acts fuel acts = some last) : Reachable last := by
  induction acts generalizing jb with
  | nil => exact Option.some.inj done ▸ reached
  | cons a rest ih =>
    obtain ⟨next,first,later⟩ := Option.bind_eq_some_iff.mp done
    exact ih (reached.act first) later

/- Where a list of acts leads, and the new buffer if one of them does not return. -/
def reachedBy (frameSize ptime maxCount : UInt32) (fuel : Nat) (acts : List Act) : Jbuf :=
  ((create frameSize ptime maxCount).acts fuel acts).getD (create frameSize ptime maxCount)

theorem reachedByReachable (frameSize ptime maxCount : UInt32) (divisor : ptime ≠ 0) (fuel : Nat) (acts : List Act) :
    Reachable (reachedBy frameSize ptime maxCount fuel acts) := by
  have start := Reachable.create frameSize ptime maxCount divisor
  unfold reachedBy
  cases done : (create frameSize ptime maxCount).acts fuel acts with
  | none => exact start
  | some => exact actsReachable start done

def discardedCells (fl : FrameList) : Nat := fl.window.countP (· = .discarded)

/- A sound list of that capacity, whose counter has missed no discarded slot. -/
structure Fit (cap frameSize : Nat) (fl : FrameList) : Prop where
  sound : Sound fl
  counts : discardedCells fl ≤ fl.discardedNum
  maxCount : fl.maxCount = cap
  frameSize : fl.frameSize = frameSize

section Lists

variable {cap frameSize : Nat} {fl : FrameList}

theorem removeHeadNum (s : Sound fl) (count : Nat) :
    (fl.removeHead count).2.discardedNum = fl.discardedNum - (fl.window.take count).countP (· = .discarded) := by
  have taken : fl.window.take count = fl.window.take (min count fl.size) := by
    rw [← windowLength fl,List.take_eq_take_min]
  by_cases none : min count fl.size = 0
  · have capped : (if count > fl.size then fl.size else count) = 0 := by
      rw [← none]
      split <;> omega
    unfold FrameList.removeHead
    rw [taken,none]
    simp [capped]
  · rw [removeHeadAdvance s none,taken]
    exact advanceDiscardedNum s (Nat.min_le_right _ _)

theorem Fit.removeHead (h : Fit cap frameSize fl) (count : Nat) : Fit cap frameSize (fl.removeHead count).2 := by
  have spec := removeHeadSpec h.sound count
  refine ⟨spec.sound,?_,spec.maxCount.trans h.maxCount,spec.frameSize.trans h.frameSize⟩
  have taken : fl.window.take count = fl.window.take (min count fl.size) := by
    rw [← windowLength fl,List.take_eq_take_min]
  have whole : (fl.window.take (min count fl.size) ++ fl.window.drop (min count fl.size)).countP (· = .discarded) =
      (fl.window.take (min count fl.size)).countP (· = .discarded) +
      (fl.window.drop (min count fl.size)).countP (· = .discarded) := List.countP_append
  have counts := h.counts
  unfold discardedCells at counts ⊢
  rw [List.take_append_drop] at whole
  rw [removeHeadNum h.sound,taken,spec.window]
  omega

theorem Fit.popHead (h : Fit cap frameSize fl) (pos : 0 < fl.size) : Fit cap frameSize fl.popHead := by
  refine ⟨popHeadSound h.sound,?_,h.maxCount,h.frameSize⟩
  have fewer : fl.window.tail.countP (· = .discarded) ≤ discardedCells fl := (List.tail_sublist _).countP_le
  unfold discardedCells
  rw [popHeadWindow h.sound pos]
  exact Nat.le_trans fewer h.counts

theorem Fit.skip (h : Fit cap frameSize fl) {fuel : Nat} {prev : Bool} {out : Bool × FrameList}
    (found : fl.skipDiscarded fuel prev = some out) : Fit cap frameSize out.2 := by
  induction fuel generalizing fl prev with
  | zero => simp [FrameList.skipDiscarded] at found
  | succ fuel ih =>
    unfold FrameList.skipDiscarded at found
    split at found
    · exact ih (h.removeHead 1) found
    · rw [← Option.some.inj found]
      exact h

theorem Fit.get (h : Fit cap frameSize fl) {maxSize : Option Nat} {fuel : Nat} {out : Option Output × FrameList}
    (found : fl.get maxSize fuel = some out) : Fit cap frameSize out.2 := by
  unfold FrameList.get at found
  split at found
  · rw [← Option.some.inj found]
    exact h
  · split at found
    · simp at found
    · next prev mid skipped =>
      have kept := h.skip skipped
      split at found
      · rw [← Option.some.inj found]
        exact kept
      · next occupied =>
        rw [← Option.some.inj found]
        exact kept.popHead (Nat.pos_of_ne_zero occupied)

theorem Fit.withOrigin (h : Fit cap frameSize fl) (origin : Int) : Fit cap frameSize { fl with origin := origin } :=
  ⟨soundOrigin h.sound origin,h.counts,h.maxCount,h.frameSize⟩

theorem Fit.reset (h : Fit cap frameSize fl) (origin : Int) : Fit cap frameSize { fl.reset with origin := origin } :=
  ⟨soundReset h.sound.pos origin,Nat.le_refl 0,h.maxCount,h.frameSize⟩

theorem Fit.discard (h : Fit cap frameSize fl) (index : Int) : Fit cap frameSize (fl.discard index).2 := by
  by_cases inside : index ≥ fl.origin ∧ index < fl.origin + fl.size
  · obtain ⟨d,distance⟩ := Int.eq_ofNat_of_zero_le (show 0 ≤ index - fl.origin by omega)
    have here : index = fl.origin + d := by omega
    have bound : d < fl.window.length := by rw [windowLength]; omega
    have spec := discardSpec h.sound (show d < fl.size by omega)
    rw [here]
    refine ⟨spec.sound,?_,spec.maxCount.trans h.maxCount,spec.frameSize.trans h.frameSize⟩
    have num : (fl.discard (fl.origin + d)).2.discardedNum = fl.discardedNum + 1 := by
      unfold FrameList.discard
      rw [if_pos (by omega)]
    have counts := h.counts
    unfold discardedCells at counts ⊢
    rw [spec.window,num,List.countP_set bound]
    have one : (if decide (Cell.discarded = .discarded) = true then 1 else 0) = 1 := rfl
    omega
  · unfold FrameList.discard
    rw [if_neg inside]
    exact h

theorem Fit.store (h : Fit cap frameSize fl) {index : Int} (reached : fl.origin ≤ index)
    (inside : index - fl.origin < fl.maxCount) (frame : Frame) :
    Fit cap frameSize (fl.store index (index - fl.origin) frame).2 := by
  have num : (fl.store index (index - fl.origin) frame).2.discardedNum = fl.discardedNum := by
    unfold FrameList.store
    dsimp only
    split <;> rfl
  rcases storeCases h.sound reached inside frame with taken | ⟨d,seq,spec⟩
  · rw [taken]
    exact h
  · refine ⟨spec.sound,?_,spec.maxCount.trans h.maxCount,spec.frameSize.trans h.frameSize⟩
    unfold discardedCells
    rw [spec.window,num,placeCount spec.free]
    exact h.counts

theorem Fit.rebase (h : Fit cap frameSize fl) {index : Int} {out : FrameList × Int}
    (found : fl.rebase index = some out) : Fit cap frameSize out.1 := by
  unfold FrameList.rebase at found
  dsimp only at found
  split at found
  · split at found
    · simp at found
    · split at found
      · rw [← Option.some.inj found]
        exact h.withOrigin _
      · rw [← Option.some.inj found]
        exact h.reset _
  · rw [← Option.some.inj found]
    exact h

theorem Fit.adopt (h : Fit cap frameSize fl) (index distance : Int) :
    Fit cap frameSize (fl.adopt index distance).1 := by
  unfold FrameList.adopt
  split
  · exact h.withOrigin _
  · exact h

theorem Fit.putAt (h : Fit cap frameSize fl) (index : Int) {frame : Frame} (fits : frame.bytes.length ≤ frameSize) :
    Fit cap frameSize (fl.putAt index frame).2 := by
  unfold FrameList.putAt
  rw [if_neg (by rw [h.frameSize]; omega)]
  rcases rebaseSpec h.sound index with ⟨none,before⟩ | ⟨first,r,found⟩
  · rw [none]
    exact h
  · have based := h.rebase found
    obtain ⟨base,r,adopted⟩ := adoptSpec r
    have kept := based.adopt index (index - first.origin)
    rw [adopted] at kept
    rw [found]
    simp only [adopted]
    unfold FrameList.accept
    split
    · exact kept
    · next last distance admitted =>
      have small := toInt32Le base.maxCount
      have pos := kept.sound.pos
      split at admitted
      · split at admitted
        · obtain ⟨rfl,rfl⟩ := Prod.mk.inj (Option.some.inj admitted)
          have inside : index - index < (base.reset.maxCount : Int) := by
            rw [Int.sub_self]
            exact Int.ofNat_lt.mpr pos
          have stored := (kept.reset index).store (le_refl index) inside frame
          simpa using stored
        · simp at admitted
      · obtain ⟨rfl,rfl⟩ := Prod.mk.inj (Option.some.inj admitted)
        exact kept.store r.reached (show index - base.origin < base.maxCount by omega) frame

theorem Fit.removeMore (h : Fit cap frameSize fl) {fuel last count : Nat} {out : Nat × FrameList}
    (found : fl.removeMore fuel last count = some out) : Fit cap frameSize out.2 := by
  induction fuel generalizing fl last count with
  | zero => simp [FrameList.removeMore] at found
  | succ fuel ih =>
    unfold FrameList.removeMore at found
    split at found
    · exact ih (h.removeHead _) found
    · rw [← Option.some.inj found]
      exact h

end Lists

def Held (jb : Jbuf) : Prop := Fit jb.maxCount jb.frameSize jb.framelist

section Buffers

variable {jb next : Jbuf} {fuel : Nat}

theorem SameList.held (same : SameList jb next) (h : Held jb) : Held next := by
  unfold Held
  rw [same.framelist,same.maxCount,same.frameSize]
  exact h

theorem Held.runDiscard (h : Held jb) : Held jb.runDiscard := by
  obtain ⟨maxCount,frameSize,list⟩ := runDiscardCases jb
  unfold Held
  rw [maxCount,frameSize]
  rcases list with same | removed | ⟨index,discarded⟩
  · exact same.symm ▸ h
  · exact removed.symm ▸ Fit.removeHead h 1
  · exact discarded.symm ▸ Fit.discard h index

theorem Held.update (h : Held jb) (oper : LastOp) : Held (jb.update oper) := by
  obtain ⟨next,same,plain | discarded⟩ := updateCases jb oper
  · rw [plain]
    exact same.held h
  · rw [discarded]
    exact Held.runDiscard (same.held h)

theorem Held.makeRoom (h : Held jb) {seq : Int} {frame : Frame} (fits : frame.bytes.length ≤ jb.frameSize)
    {status : PutStatus} {out : PutStatus × Jbuf} (done : Jbuf.makeRoom seq frame fuel jb status = some out) :
    Held out.2 := by
  induction fuel generalizing jb status with
  | zero => simp [Jbuf.makeRoom] at done
  | succ fuel ih =>
    unfold Jbuf.makeRoom at done
    split at done
    · have kept : Held { jb with
          framelist := ((jb.framelist.removeHead
            (toUInt32 ((seq - jb.framelist.origin) - toInt32 jb.maxCount + 1))).2.putAt seq frame).2
          discard := jb.discard + (jb.framelist.removeHead
            (toUInt32 ((seq - jb.framelist.origin) - toInt32 jb.maxCount + 1))).1 } :=
        Fit.putAt (Fit.removeHead h _) seq fits
      exact ih kept fits done
    · rw [← Option.some.inj done]
      exact h

theorem Held.call (h : Held jb) {c : Call} (done : jb.call fuel c = some next) : Held next := by
  cases c with
  | put frame bitInfo seq ts =>
    obtain ⟨out,found,rfl⟩ := Option.map_eq_some_iff.mp done
    have fits : (Frame.mk (frame.take jb.frameSize) bitInfo ts).bytes.length ≤ jb.frameSize :=
      List.length_take_le _ _
    have first : Held { jb with
        framelist := (jb.framelist.putAt seq ⟨frame.take jb.frameSize,bitInfo,ts⟩).2 } := Fit.putAt h seq fits
    obtain ⟨mid,room,ready,same,plain | updated⟩ := putFrame3Inv found
    · rw [plain]
      exact same.held (first.makeRoom fits room)
    · rw [updated]
      exact Held.update (same.held (first.makeRoom fits room)) .put
  | get =>
    obtain ⟨⟨out,last⟩,found,rfl⟩ := Option.map_eq_some_iff.mp done
    obtain ⟨framelist,ready,same,rfl,outcome⟩ := getFrame3Inv found
    refine Held.update (same.held ?_) .get
    rcases outcome with ⟨rfl,_⟩ | ⟨empty,_⟩ | read
    · exact h
    · exact Fit.get h empty
    · exact Fit.get h read
  | peek =>
    obtain ⟨out,_,rfl⟩ := Option.map_eq_some_iff.mp done
    exact h
  | remove frameCnt =>
    obtain ⟨out,found,rfl⟩ := Option.map_eq_some_iff.mp done
    unfold Jbuf.removeFrame at found
    dsimp only at found
    split at found
    · simp at found
    · next count framelist more =>
      rw [← Option.some.inj found]
      exact Fit.removeMore (Fit.removeHead h frameCnt) more
  | reset =>
    rw [← Option.some.inj done]
    exact Fit.reset h invalidOffset

theorem applySame (jb : Jbuf) (s : Setting) :
    (jb.apply s).framelist = jb.framelist ∧ (jb.apply s).maxCount = jb.maxCount ∧
      (jb.apply s).frameSize = jb.frameSize := by
  cases s with
  | fixed =>
    unfold Jbuf.apply Jbuf.setFixed
    dsimp only
    split <;> exact ⟨rfl,rfl,rfl⟩
  | adaptive =>
    unfold Jbuf.apply Jbuf.setAdaptive
    dsimp only
    split <;> exact ⟨rfl,rfl,rfl⟩
  | discard => exact ⟨rfl,rfl,rfl⟩

theorem Held.act (h : Held jb) {a : Act} (done : jb.act fuel a = some next) : Held next := by
  cases a with
  | call => exact h.call done
  | setting s =>
    obtain ⟨list,maxCount,frameSize⟩ := applySame jb s
    rw [← Option.some.inj done]
    unfold Held
    rw [list,maxCount,frameSize]
    exact h
  | ptime ptime =>
    change (if ptime = 0 then none else some (jb.setPtime ptime.toNat)) = some next at done
    split at done
    · simp at done
    · rw [← Option.some.inj done]
      exact h

theorem Shut.get (h : Shut jb.framelist) {maxSize : Option Nat} {out : Option Output × FrameList}
    (found : jb.framelist.get maxSize fuel = some out) : Shut out.2 := by
  have nothing : jb.framelist.get maxSize fuel = some (none, jb.framelist) := if_pos h.empty
  rw [nothing] at found
  rw [← Option.some.inj found]
  exact h

theorem Shut.call (h : Shut jb.framelist) {c : Call} (done : jb.call fuel c = some next) :
    Shut next.framelist := by
  cases c with
  | put frame bitInfo seq ts =>
    obtain ⟨out,found,rfl⟩ := Option.map_eq_some_iff.mp done
    obtain ⟨mid,room,ready,same,outcome⟩ := putFrame3Inv found
    have first := h.putAt seq ⟨frame.take jb.frameSize,bitInfo,ts⟩
    obtain ⟨refused,shut⟩ := @Shut.makeRoom _
      { jb with framelist := (jb.framelist.putAt seq ⟨frame.take jb.frameSize,bitInfo,ts⟩).2 }
      first.2 _ _ _ first.1 _ room
    have steady : Shut ready.framelist := same.framelist ▸ shut
    rcases outcome with plain | updated
    · exact plain ▸ steady
    · exact updated ▸ steady.update .put
  | get =>
    obtain ⟨⟨out,last⟩,found,rfl⟩ := Option.map_eq_some_iff.mp done
    obtain ⟨framelist,ready,same,rfl,outcome⟩ := getFrame3Inv found
    refine Shut.update ?_ .get
    rw [same.framelist]
    rcases outcome with ⟨rfl,_⟩ | ⟨empty,_⟩ | read
    · exact h
    · exact h.get empty
    · exact h.get read
  | peek =>
    obtain ⟨out,_,rfl⟩ := Option.map_eq_some_iff.mp done
    exact h
  | remove =>
    obtain ⟨out,found,rfl⟩ := Option.map_eq_some_iff.mp done
    unfold Jbuf.removeFrame at found
    rw [h.removeHead] at found
    cases fuel with
    | zero => simp [FrameList.removeMore] at found
    | succ =>
      simp only [FrameList.removeMore,Nat.lt_irrefl,if_false] at found
      rw [← Option.some.inj found]
      exact h
  | reset =>
    rw [← Option.some.inj done]
    exact ⟨rfl,h.cap⟩

theorem Shut.act (h : Shut jb.framelist) {a : Act} (done : jb.act fuel a = some next) :
    Shut next.framelist := by
  cases a with
  | call => exact h.call done
  | setting s =>
    rw [← Option.some.inj done,(applySame jb s).1]
    exact h
  | ptime ptime =>
    change (if ptime = 0 then none else some (jb.setPtime ptime.toNat)) = some next at done
    split at done
    · simp at done
    · rw [← Option.some.inj done]
      exact h

theorem createFrameList (frameSize ptime maxCount : UInt32) :
    (create frameSize ptime maxCount).framelist = .reset (.init frameSize.toNat maxCount.toNat) := rfl

theorem reachableHeld (reached : Reachable jb) : Held jb ∨ Shut jb.framelist := by
  induction reached with
  | create frameSize ptime maxCount =>
    by_cases open_ : 0 < maxCount.toNat
    · refine .inl ⟨soundReset open_ invalidOffset,Nat.le_refl 0,rfl,rfl⟩
    · refine .inr ⟨rfl,?_⟩
      rw [createFrameList]
      change toInt32 maxCount.toNat ≤ 0
      rw [Nat.eq_zero_of_not_pos open_]
      exact le_refl 0
  | act reached done ih =>
    rcases ih with held | shut
    · exact .inl (held.act done)
    · exact .inr (shut.act done)

end Buffers

end Pjproject.Media
