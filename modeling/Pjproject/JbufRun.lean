import Pjproject.JbufInvariant

/-! Runs of the jitter buffer: every sequence of calls returns, and after each one the frame
list is a circular window whose discarded slots are counted. -/
namespace Pjproject.Media
open Lib.Ring

variable {cap : Nat}

variable {fl : FrameList} {index : Int} {frame : Frame} {fuel : Nat} {jb : Jbuf}

theorem putAtAhead (fits : frame.bytes.length ≤ fl.frameSize)
    (ahead : fl.origin ≤ index) :
    fl.putAt index frame =
      match (fl.adopt index (index - fl.origin)).1.accept index (fl.adopt index (index - fl.origin)).2 with
      | none => (.tooMany, (fl.adopt index (index - fl.origin)).1)
      | some (next, distance) => next.store index distance frame := by
  have based : fl.rebase index = some (fl, index - fl.origin) := by
    unfold FrameList.rebase
    exact if_neg (by omega)
  unfold FrameList.putAt
  refine (if_neg (by omega)).trans ?_
  generalize fl.rebase index = found at based ⊢
  subst based
  rfl

theorem putAtEmpty (fits : frame.bytes.length ≤ fl.frameSize)
    (ahead : fl.origin ≤ index) (empty : fl.size = 0) (cap : 0 < toInt32 fl.maxCount) :
    fl.putAt index frame = FrameList.store { fl with origin := index } index 0 frame := by
  rw [putAtAhead fits ahead]
  unfold FrameList.adopt FrameList.accept
  simp [empty,Int.not_le.mpr cap]

theorem putAtInside (fits : frame.bytes.length ≤ fl.frameSize)
    (ahead : fl.origin ≤ index) (occupied : fl.size ≠ 0) (inside : index - fl.origin < toInt32 fl.maxCount) :
    fl.putAt index frame = fl.store index (index - fl.origin) frame := by
  rw [putAtAhead fits ahead]
  unfold FrameList.adopt FrameList.accept
  simp [occupied,Int.not_le.mpr inside]

theorem storeStatus (fl : FrameList) (index distance : Int) (frame : Frame) :
    (fl.store index distance frame).1 ≠ .tooMany := by
  unfold FrameList.store
  dsimp only
  split <;> simp

theorem toInt32Small {n : Nat} (small : n < 2147483648) : toInt32 n = n := if_pos small

theorem toUInt32Small {n : Int} (low : 0 ≤ n) (high : n < 4294967296) : (toUInt32 n : Int) = n := by
  unfold toUInt32
  rw [Int.emod_eq_of_lt low high,Int.toNat_of_nonneg low]

theorem roomMade (s : Sound fl) (fits : frame.bytes.length ≤ fl.frameSize) (small : fl.maxCount < 2147483648)
    (far : toInt32 fl.maxCount ≤ index - fl.origin) (near : index - fl.origin ≤ maxDropout) :
    ((fl.removeHead (toUInt32 ((index - fl.origin) - toInt32 fl.maxCount + 1))).2.putAt index frame).1 ≠
      .tooMany := by
  have cap := toInt32Small small
  have pos := s.pos
  have dropout : maxDropout = 3000 := rfl
  generalize excess : toUInt32 ((index - fl.origin) - toInt32 fl.maxCount + 1) = k
  have amount : (k : Int) = (index - fl.origin) - toInt32 fl.maxCount + 1 := by
    rw [← excess]
    exact toUInt32Small (by omega) (by omega)
  have spec := removeHeadSpec s k
  have size : (fl.removeHead k).2.size = fl.size - min k fl.size := by
    rw [← windowLength,spec.window,List.length_drop,windowLength]
  have origin := spec.origin
  have room : frame.bytes.length ≤ (fl.removeHead k).2.frameSize := by
    rw [spec.frameSize]
    exact fits
  have sameCap : toInt32 (fl.removeHead k).2.maxCount = fl.maxCount := by rw [spec.maxCount,cap]
  by_cases empty : (fl.removeHead k).2.size = 0
  · rw [putAtEmpty room (by omega) empty (by omega)]
    exact storeStatus _ _ _ _
  · rw [putAtInside room (by omega) empty (by omega)]
    exact storeStatus _ _ _ _

theorem makeRoomStops (seq : Int) (frame : Frame) (jb : Jbuf) {status : PutStatus}
    (settled : status ≠ .tooMany) : Jbuf.makeRoom seq frame (fuel + 1) jb status = some (status, jb) := by
  unfold Jbuf.makeRoom
  exact if_neg settled

theorem putFrame3Returns (s : Sound jb.framelist) (listCap : jb.framelist.maxCount = jb.maxCount)
    (listSize : jb.framelist.frameSize = jb.frameSize) (small : jb.maxCount < 2147483648) (frame : List UInt8)
    (bitInfo : UInt32) (seq : Int) (ts : UInt32) (enough : 2 ≤ fuel) :
    ∃ out, jb.putFrame3 frame bitInfo seq ts fuel = some out := by
  obtain ⟨fuel,rfl⟩ : ∃ n, fuel = n + 2 := ⟨fuel - 2,by omega⟩
  have fits : (frame.take jb.frameSize).length ≤ jb.frameSize := List.length_take_le _ _
  have outcome := putAtCases s seq (show (Frame.mk (frame.take jb.frameSize) bitInfo ts).bytes.length ≤ _ by
    rw [listSize]
    exact fits)
  have made : ∃ out, Jbuf.makeRoom seq ⟨frame.take jb.frameSize,bitInfo,ts⟩ (fuel + 2)
      { jb with framelist := (jb.framelist.putAt seq ⟨frame.take jb.frameSize,bitInfo,ts⟩).2 }
      (jb.framelist.putAt seq ⟨frame.take jb.frameSize,bitInfo,ts⟩).1 = some out := by
    revert outcome
    generalize jb.framelist.putAt seq ⟨frame.take jb.frameSize,bitInfo,ts⟩ = first
    intro outcome
    cases outcome with
    | late => exact ⟨_,makeRoomStops _ _ _ (by simp)⟩
    | full base r far near =>
      have cap : base.maxCount = jb.maxCount := r.maxCount.trans listCap
      have room : (frame.take jb.frameSize).length ≤ base.frameSize := by
        rw [r.frameSize,listSize]
        exact fits
      have settled := roomMade r.sound
        (show (Frame.mk (frame.take jb.frameSize) bitInfo ts).bytes.length ≤ base.frameSize from room)
        (by omega) (by rw [r.maxCount]; exact far) near
      unfold Jbuf.makeRoom
      rw [if_pos rfl]
      dsimp only
      rw [cap] at settled
      exact ⟨_,makeRoomStops _ _ _ settled⟩
    | store => exact ⟨_,makeRoomStops _ _ _ (storeStatus _ _ _ _)⟩
  obtain ⟨⟨status,next⟩,found⟩ := made
  unfold Jbuf.putFrame3
  dsimp only
  rw [found]
  dsimp only
  split <;> exact ⟨_,rfl⟩

theorem peekPosFound {j idx : Nat} (hj : j ≤ fl.size)
    (left : idx < (fl.window.drop j).countP (· ≠ .discarded)) (enough : fl.size - j < fuel) :
    ∃ pos, fl.peekPos fuel (slot fl.maxCount fl.head j) idx = some pos := by
  induction fuel generalizing j idx with
  | zero => omega
  | succ fuel ih =>
    have inside : j < fl.size := by
      by_contra past
      have none : fl.window.drop j = [] := List.drop_eq_nil_of_le (by rw [windowLength]; omega)
      simp [none] at left
    have bound : j < fl.window.length := by rw [windowLength]; exact inside
    have here : fl.window[j] = fl.cell (slot fl.maxCount fl.head j) := viewGet bound
    have onward : (slot fl.maxCount fl.head j + 1) % fl.maxCount = slot fl.maxCount fl.head (j + 1) :=
      slotSlot fl.maxCount fl.head j 1
    rw [List.drop_eq_getElem_cons bound,List.countP_cons,here] at left
    unfold FrameList.peekPos
    rw [onward]
    split
    · next dropped =>
      have cell := cellDiscarded.mpr dropped
      simp only [cell,ne_eq,not_true_eq_false,decide_false,Bool.false_eq_true,if_false,
        Nat.add_zero] at left
      exact ih (by omega) left (by omega)
    · split
      · exact ⟨_,rfl⟩
      · next more =>
        refine ih (by omega) ?_ (by omega)
        split at left <;> omega

theorem wrapSub {a d m : Nat} (le : d ≤ a) (lt : a < m) : (m + a - d) % m = a - d := by
  have shifted : m + a - d = (a - d) + m := by omega
  rw [shifted,Nat.add_mod_right,Nat.mod_eq_of_lt (by omega)]

theorem effSizePlain (counted : Counted fl) (small : fl.size < 4294967296) :
    fl.effSize = fl.size - fl.discardedNum := by
  unfold FrameList.effSize
  exact wrapSub counted.discardedLe small

theorem effSizeCount (counted : Counted fl)
    (plain : fl.effSize = fl.size - fl.discardedNum) : fl.effSize = fl.window.countP (· ≠ .discarded) := by
  have whole : fl.window.length = fl.window.countP (· = .discarded) +
      fl.window.countP fun c => decide (¬decide (c = .discarded) = true) :=
    List.length_eq_countP_add_countP _
  have same : (fl.window.countP fun c => decide (¬decide (c = Cell.discarded) = true)) =
      fl.window.countP (· ≠ .discarded) := by
    apply List.countP_congr
    simp
  rw [windowLength,← counted,same] at whole
  omega

theorem peekReturns (s : Sound fl) (effective : fl.effSize = fl.window.countP (· ≠ .discarded))
    (offset : Nat) (enough : fl.size < fuel) : ∃ out, fl.peek offset fuel = some out := by
  unfold FrameList.peek
  generalize fl.effSize = n at effective
  by_cases none : offset ≥ n
  · exact ⟨Option.none,if_pos none⟩
  · rw [if_neg none]
    have left : offset < (fl.window.drop 0).countP (· ≠ .discarded) := by
      rw [List.drop_zero,← effective]
      omega
    obtain ⟨pos,found⟩ := peekPosFound (Nat.zero_le _) left (show fl.size - 0 < fuel by omega)
    rw [slotZero s.headLt] at found
    rw [found]
    exact ⟨_,rfl⟩

theorem peekFrameReturns (g : Good cap jb) (small : jb.maxCount < 2147483648) (offset : Nat)
    (enough : jb.maxCount < fuel) : ∃ out, jb.peekFrame offset fuel = some out := by
  have size := g.sound.sizeLe
  rw [g.maxCount] at size
  have fits : jb.framelist.size < 4294967296 := by omega
  have effective := effSizeCount g.counted (effSizePlain g.counted fits)
  have bound : jb.framelist.size < fuel := by omega
  obtain ⟨out,found⟩ := peekReturns g.sound effective offset bound
  cases out with
  | none => exact ⟨_,by simp only [Jbuf.peekFrame,found]; rfl⟩
  | some out => exact ⟨out,by simp only [Jbuf.peekFrame,found]⟩

/- `put_frame` and `put_frame2` are `put_frame3` without the outputs they leave out. -/
inductive Call where
  | put (frame : List UInt8) (bitInfo : UInt32) (seq : Int) (ts : UInt32)
  | get (maxSize : Option Nat)
  | peek (offset : Nat)
  | remove (frameCnt : Nat)
  | reset
  deriving DecidableEq, Repr

def Jbuf.call (jb : Jbuf) (fuel : Nat) : Call → Option Jbuf
  | .put frame bitInfo seq ts => (jb.putFrame3 frame bitInfo seq ts fuel).map (·.2)
  | .get maxSize => (jb.getFrame3 maxSize fuel).map (·.2)
  | .peek offset => (jb.peekFrame offset fuel).map fun _ => jb
  | .remove frameCnt => (jb.removeFrame frameCnt fuel).map (·.2)
  | .reset => some jb.reset

def Jbuf.run (jb : Jbuf) (fuel : Nat) : List Call → Option Jbuf
  | [] => some jb
  | c :: rest => (jb.call fuel c).bind fun next => next.run fuel rest

/- The settings an application makes after creation, before it puts frames. -/
inductive Setting where
  | fixed (prefetch : Nat)
  | adaptive (prefetch minPrefetch maxPrefetch : Nat)
  | discard (algo : DiscardAlgo)
  deriving DecidableEq, Repr

def Jbuf.apply (jb : Jbuf) : Setting → Jbuf
  | .fixed prefetch => jb.setFixed prefetch
  | .adaptive prefetch minPrefetch maxPrefetch => jb.setAdaptive prefetch minPrefetch maxPrefetch
  | .discard algo => jb.setDiscard algo

def configured (frameSize ptime maxCount : UInt32) (settings : List Setting) : Jbuf :=
  settings.foldl Jbuf.apply (create frameSize ptime maxCount)

theorem callGood {next : Jbuf} (g : Good cap jb) (enough : jb.maxCount + 2 ≤ fuel) {c : Call}
    (done : jb.call fuel c = some next) : Good cap next := by
  cases c with
  | put frame bitInfo seq ts =>
    obtain ⟨out,found,rfl⟩ := Option.map_eq_some_iff.mp done
    exact putFrame3Good g frame bitInfo seq ts found
  | get maxSize =>
    obtain ⟨out,found,good⟩ := getFrame3Good g maxSize (show jb.maxCount < fuel by omega)
    simp only [Jbuf.call,found,Option.map_some,Option.some.injEq] at done
    exact done ▸ good
  | peek =>
    obtain ⟨out,found,rfl⟩ := Option.map_eq_some_iff.mp done
    exact g
  | remove frameCnt =>
    obtain ⟨out,found,good⟩ := removeFrameGood g frameCnt (show jb.maxCount + 1 < fuel by omega)
    simp only [Jbuf.call,found,Option.map_some,Option.some.injEq] at done
    exact done ▸ good
  | reset =>
    rw [← Option.some.inj done]
    exact resetGood g

theorem callReturns (g : Good cap jb) (small : jb.maxCount < 2147483648)
    (enough : jb.maxCount + 2 ≤ fuel) (c : Call) : ∃ next, jb.call fuel c = some next := by
  cases c with
  | put frame bitInfo seq ts =>
    obtain ⟨out,found⟩ := putFrame3Returns g.sound g.maxCount g.frameSize small frame bitInfo seq ts
      (show 2 ≤ fuel by omega)
    exact ⟨_,by rw [Jbuf.call,found]; rfl⟩
  | get maxSize =>
    obtain ⟨out,found,_⟩ := getFrame3Good g maxSize (show jb.maxCount < fuel by omega)
    exact ⟨_,by rw [Jbuf.call,found]; rfl⟩
  | peek offset =>
    obtain ⟨out,found⟩ := peekFrameReturns g small offset (show jb.maxCount < fuel by omega)
    exact ⟨_,by rw [Jbuf.call,found]; rfl⟩
  | remove frameCnt =>
    obtain ⟨out,found,_⟩ := removeFrameGood g frameCnt (show jb.maxCount + 1 < fuel by omega)
    exact ⟨_,by rw [Jbuf.call,found]; rfl⟩
  | reset => exact ⟨_,rfl⟩

theorem runGood {last : Jbuf} (g : Good cap jb) (enough : cap + 2 ≤ fuel) {calls : List Call}
    (done : jb.run fuel calls = some last) : Good cap last := by
  induction calls generalizing jb with
  | nil =>
    rw [← Option.some.inj done]
    exact g
  | cons c rest ih =>
    obtain ⟨next,first,later⟩ := Option.bind_eq_some_iff.mp done
    exact ih (callGood g (by rw [g.capacity]; exact enough) first) later

theorem runReturns (g : Good cap jb) (small : cap < 2147483648)
    (enough : cap + 2 ≤ fuel) (calls : List Call) : ∃ last, jb.run fuel calls = some last := by
  induction calls generalizing jb with
  | nil => exact ⟨jb,rfl⟩
  | cons c rest ih =>
    have room : jb.maxCount + 2 ≤ fuel := by rw [g.capacity]; exact enough
    obtain ⟨next,found⟩ := callReturns g (by rw [g.capacity]; exact small) room c
    obtain ⟨last,done⟩ := ih (callGood g room found)
    refine ⟨last,?_⟩
    rw [Jbuf.run,found]
    exact done

theorem applyGood (g : Good cap jb) (idle : jb.discardDist = 0) (setting : Setting) :
    Good cap (jb.apply setting) ∧ (jb.apply setting).discardDist = 0 := by
  have kept : ∀ next : Jbuf, next.framelist = jb.framelist → next.maxCount = jb.maxCount →
      next.frameSize = jb.frameSize → next.minShrinkGap = jb.minShrinkGap → next.discardDist = 0 →
      Good cap next := by
    intro next list maxCount frameSize gap dist
    exact
      { sound := list ▸ g.sound
        counted := list ▸ g.counted
        capacity := maxCount.trans g.capacity
        maxCount := by rw [list,maxCount,g.maxCount]
        frameSize := by rw [list,frameSize,g.frameSize]
        gap := gap ▸ g.gap
        scheduled := fun set => absurd dist set
        idle := fun _ => dist }
  cases setting with
  | fixed =>
    unfold Jbuf.apply Jbuf.setFixed
    dsimp only
    split
    · exact ⟨kept _ rfl rfl rfl rfl idle,idle⟩
    · exact ⟨g,idle⟩
  | adaptive =>
    unfold Jbuf.apply Jbuf.setAdaptive
    dsimp only
    split
    · exact ⟨kept _ rfl rfl rfl rfl idle,idle⟩
    · exact ⟨g,idle⟩
  | discard => exact ⟨kept _ rfl rfl rfl rfl idle,idle⟩

theorem createGood (frameSize : UInt32) {ptime maxCount : UInt32} (cap : 1 ≤ maxCount.toNat)
    (low : 1 ≤ ptime.toNat) (high : ptime.toNat ≤ discMinGap) :
    Good maxCount.toNat (create frameSize ptime maxCount) where
  sound := soundReset (show 0 < (FrameList.init frameSize.toNat maxCount.toNat).maxCount from cap) _
  counted := rfl
  capacity := rfl
  maxCount := rfl
  frameSize := rfl
  gap := by
    have positive : 1 ≤ discMinGap / ptime.toNat := (Nat.one_le_div_iff (by omega)).mpr high
    exact Int.ofNat_le.mpr positive
  scheduled := fun set => absurd rfl set
  idle := fun _ => rfl

theorem configuredGood (frameSize : UInt32) {ptime maxCount : UInt32} (cap : 1 ≤ maxCount.toNat)
    (low : 1 ≤ ptime.toNat) (high : ptime.toNat ≤ discMinGap) (settings : List Setting) :
    Good maxCount.toNat (configured frameSize ptime maxCount settings) := by
  have start : Good maxCount.toNat (create frameSize ptime maxCount) ∧
      (create frameSize ptime maxCount).discardDist = 0 := ⟨createGood frameSize cap low high,rfl⟩
  unfold configured
  generalize create frameSize ptime maxCount = jb at start
  induction settings generalizing jb with
  | nil => exact start.1
  | cons setting rest ih => exact ih _ (applyGood start.1 start.2 setting)

/- The frame list as its arrays: a window from `head` on, blank slots outside, discards counted. -/
structure WindowOk (fl : FrameList) : Prop where
  size : fl.size ≤ fl.maxCount
  head : fl.head < fl.maxCount
  outside : ∀ i, i < fl.maxCount → (∀ k, k < fl.size → (fl.head + k) % fl.maxCount ≠ i) →
    fl.frameType i = .missing
  counted : fl.discardedNum =
    (List.range fl.size).countP fun k => fl.frameType ((fl.head + k) % fl.maxCount) = .discarded
  effective : fl.discardedNum ≤ fl.size

theorem Sound.windowOk (s : Sound fl) (counted : Counted fl) : WindowOk fl where
  size := s.sizeLe
  head := s.headLt
  outside := fun i inside unreached => cellMissing.mp (s.vacant i inside unreached)
  counted := by
    have whole := windowCountTake fl (Nat.le_refl _)
    rw [List.take_of_length_le (by simp)] at whole
    exact counted.trans whole
  effective := counted.discardedLe

/- The loop of a put that finds the list full compares with `(int)max_count`: a capacity that
does not fit an int makes it spin, so there the claim is about the calls that do return. -/
theorem frameListInvariant (frameSize ptime maxCount : UInt32) (settings : List Setting)
    (calls : List Call) (fuel : Nat) (cap : 1 ≤ maxCount.toNat) (low : 1 ≤ ptime.toNat)
    (high : ptime.toNat ≤ discMinGap) (enough : maxCount.toNat + 2 ≤ fuel) :
    (∀ jb, (configured frameSize ptime maxCount settings).run fuel calls = some jb →
      WindowOk jb.framelist ∧ jb.framelist.maxCount = maxCount.toNat) ∧
    (maxCount.toNat < 2 ^ 31 →
      ∃ jb, (configured frameSize ptime maxCount settings).run fuel calls = some jb) := by
  have start := configuredGood frameSize cap low high settings
  constructor
  · intro jb done
    have good := runGood start enough done
    exact ⟨good.sound.windowOk good.counted,good.maxCount.trans good.capacity⟩
  · intro small
    exact runReturns start small enough calls

def mixedCalls : List Call :=
  [.put [1] 0 5 0,.put [2] 0 7 0,.get none,.put [3] 0 12 0,.peek 1,.remove 2,.put [4] 0 12 9,.reset]

theorem mixedCallsKeepWindow :
    (∀ jb, (configured 4 20 3 [.adaptive 0 0 2]).run 5 mixedCalls = some jb →
      WindowOk jb.framelist ∧ jb.framelist.maxCount = 3) ∧
    ((3 : UInt32).toNat < 2 ^ 31 →
      ∃ jb, (configured 4 20 3 [.adaptive 0 0 2]).run 5 mixedCalls = some jb) :=
  frameListInvariant 4 20 3 [.adaptive 0 0 2] mixedCalls 5 (by decide) (by decide) (by decide) (by decide)

end Pjproject.Media
