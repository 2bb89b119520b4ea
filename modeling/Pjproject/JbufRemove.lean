import Pjproject.JbufReach

/-! Removing frames: the loop around the discarded ones takes the shortest front of the window that holds as many
other frames as asked for. -/
namespace Pjproject.Media
open Lib.Ring

def keptCells (cells : List Cell) : Nat := cells.countP (· ≠ .discarded)

/- The first `taken` cells hold `count` cells that are not discarded, or all there are, and no fewer cells do. -/
structure Takes (cells : List Cell) (count taken : Nat) : Prop where
  inside : taken ≤ cells.length
  holds : keptCells (cells.take taken) = min count (keptCells cells)
  least : ∀ j, j < taken → keptCells (cells.take j) < count
  all : keptCells cells < count → taken = cells.length

theorem keptAppend (front back : List Cell) : keptCells (front ++ back) = keptCells front + keptCells back :=
  List.countP_append

variable (cells : List Cell)

theorem keptSplit : keptCells cells + cells.countP (· = .discarded) = cells.length := by
  rw [List.length_eq_countP_add_countP (fun c : Cell => decide (c = .discarded)),Nat.add_comm]
  simp [keptCells]

theorem keptLe : keptCells cells ≤ cells.length := List.countP_le_length

theorem keptTakeAdd (m j : Nat) :
    keptCells (cells.take (m + j)) = keptCells (cells.take m) + keptCells ((cells.drop m).take j) := by
  rw [List.take_add,keptAppend]

theorem keptTakeDrop (m : Nat) : keptCells cells = keptCells (cells.take m) + keptCells (cells.drop m) := by
  rw [← keptAppend,List.take_append_drop]

theorem Takes.round {cells : List Cell} {count taken : Nat}
    (later : Takes (cells.drop count) ((cells.take count).countP (· = .discarded)) taken) :
    Takes cells count (min count cells.length + taken) := by
  have whole := keptTakeDrop cells count
  have split := keptSplit (cells.take count)
  rw [List.length_take] at split
  have first : cells.take (min count cells.length) = cells.take count := List.take_eq_take_min.symm
  have rest : cells.drop (min count cells.length) = cells.drop count := by
    rcases Nat.le_total count cells.length with small | large
    · rw [Nat.min_eq_left small]
    · rw [Nat.min_eq_right large,List.drop_eq_nil_of_le large,List.drop_length]
  have bound := later.inside
  have holds := later.holds
  have few := keptLe (cells.drop count)
  rw [List.length_drop] at bound few
  refine ⟨by omega,?_,fun j before => ?_,fun short => ?_⟩
  · rw [keptTakeAdd,first,rest,holds]
    omega
  · rcases Nat.lt_or_ge j (min count cells.length) with early | late
    · have few := keptLe (cells.take j)
      rw [List.length_take] at few
      omega
    · obtain ⟨k,rfl⟩ := Nat.exists_eq_add_of_le late
      have more := later.least k (by omega)
      rw [keptTakeAdd,first,rest]
      omega
  · rcases Nat.lt_or_ge cells.length count with large | small
    · omega
    · have end_ := later.all (by omega)
      rw [List.length_drop] at end_
      omega

theorem Takes.none : Takes cells 0 0 :=
  ⟨Nat.zero_le _,by simp [keptCells],fun _ before => absurd before (Nat.not_lt_zero _),
    fun short => absurd short (Nat.not_lt_zero _)⟩

/- The frames after the first `taken` stay as they are, under their numbers. -/
structure Dropped (fl : FrameList) (taken : Nat) (next : FrameList) : Prop where
  window : next.window = fl.window.drop taken
  origin : next.origin = fl.origin + taken
  maxCount : next.maxCount = fl.maxCount
  frameSize : next.frameSize = fl.frameSize

theorem Dropped.trans {a b c : FrameList} {m n : Nat} (ab : Dropped a m b) (bc : Dropped b n c) :
    Dropped a (m + n) c where
  window := by rw [bc.window,ab.window,List.drop_drop]
  origin := by
    rw [bc.origin,ab.origin]
    push_cast
    omega
  maxCount := bc.maxCount.trans ab.maxCount
  frameSize := bc.frameSize.trans ab.frameSize

theorem removeHeadDropped {fl : FrameList} (s : Sound fl) (count : Nat) :
    Dropped fl (min count fl.window.length) (fl.removeHead count).2 := by
  have spec := removeHeadSpec s count
  rw [windowLength]
  exact ⟨spec.window,spec.origin,spec.maxCount,spec.frameSize⟩

variable {cap frameSize : Nat}

theorem removeRounds {fl : FrameList} (h : Fit cap frameSize fl) {fuel : Nat} (enough : fl.size < fuel)
    (count base : Nat) : ∃ taken next, Takes fl.window count taken ∧ Dropped fl taken next ∧
      (fl.removeHead count).2.removeMore fuel fl.discardedNum (base + (fl.removeHead count).1) =
        some (base + min count (keptCells fl.window), next) := by
  induction fuel generalizing fl count base with
  | zero => omega
  | succ fuel ih =>
    have dropped := removeHeadDropped h.sound count
    have num := removeHeadNum h.sound count
    have removed := (removeHeadSpec h.sound count).removed
    have counts := h.counts
    have fit := h.removeHead count
    have few : (fl.window.take count).countP (· = .discarded) ≤ discardedCells fl :=
      (List.take_sublist _ _).countP_le
    have split := keptSplit (fl.window.take count)
    rw [List.length_take,windowLength] at split
    have rest : fl.window.drop (min count fl.window.length) = fl.window.drop count := by
      rcases Nat.le_total count fl.window.length with small | large
      · rw [Nat.min_eq_left small]
      · rw [Nat.min_eq_right large,List.drop_eq_nil_of_le large,List.drop_length]
    unfold FrameList.removeMore
    split
    · next fewer =>
      have pending : fl.discardedNum - (fl.removeHead count).2.discardedNum =
          (fl.window.take count).countP (· = .discarded) := by omega
      have smaller : (fl.removeHead count).2.size < fuel := by
        rw [← windowLength,dropped.window,List.length_drop,windowLength]
        omega
      obtain ⟨taken,next,takes,after,done⟩ := ih fit smaller ((fl.window.take count).countP (· = .discarded))
        (base + (fl.removeHead count).1 - (fl.window.take count).countP (· = .discarded))
      rw [dropped.window,rest] at takes
      refine ⟨_,next,takes.round,dropped.trans after,?_⟩
      dsimp only
      rw [pending,done]
      have whole := keptTakeDrop fl.window count
      have back := keptLe (fl.window.drop count)
      rw [List.length_drop,windowLength] at back
      rw [dropped.window,rest,removed]
      congr 2
      omega
    · next same =>
      have clean : (fl.window.take count).countP (· = .discarded) = 0 := by omega
      have takes : Takes fl.window count (min count fl.window.length + 0) :=
        Takes.round (by rw [clean]; exact .none _)
      refine ⟨_,_,takes,dropped,?_⟩
      have holds := takes.holds
      rw [Nat.add_zero,windowLength] at holds
      have first : fl.window.take (min count fl.size) = fl.window.take count := by
        rw [← windowLength fl]
        exact List.take_eq_take_min.symm
      rw [first] at holds
      rw [removed]
      congr 2
      omega

/- What a call that removes frames leaves, and what it returns. -/
structure Removed (fl : FrameList) (count : Nat) (out : Nat × FrameList) : Prop where
  returned : out.1 = min count (keptCells fl.window)
  front : ∃ taken, Takes fl.window count taken ∧ Dropped fl taken out.2

theorem removeFrameRemoves {jb : Jbuf} (reached : Reachable jb) (frameCnt : Nat) {fuel : Nat}
    (enough : jb.framelist.size < fuel) :
    ∃ count framelist, jb.removeFrame frameCnt fuel = some (count, { jb with framelist }) ∧
      Removed jb.framelist frameCnt (count, framelist) := by
  rcases reachableHeld reached with held | shut
  · obtain ⟨taken,next,takes,dropped,done⟩ := removeRounds held enough frameCnt 0
    rw [Nat.zero_add,Nat.zero_add] at done
    refine ⟨_,next,?_,rfl,taken,takes,dropped⟩
    unfold Jbuf.removeFrame
    simp only [done]
  · obtain ⟨fuel,rfl⟩ : ∃ n, fuel = n + 1 := ⟨fuel - 1,by omega⟩
    have nothing : jb.framelist.window = [] := windowNil shut.empty
    refine ⟨0,jb.framelist,?_,?_,0,?_,?_⟩
    · unfold Jbuf.removeFrame
      rw [shut.removeHead]
      simp [FrameList.removeMore]
    · simp [nothing,keptCells]
    · rw [nothing]
      exact ⟨le_refl 0,by simp [keptCells],fun _ before => absurd before (Nat.not_lt_zero _),fun _ => rfl⟩
    · exact ⟨by simp,by simp,rfl,rfl⟩

/- The code returns what it removed, and its effective size trusts the counter. -/
theorem removeFrameCounts {jb : Jbuf} (reached : Reachable jb) (frameCnt : Nat) {fuel : Nat}
    (enough : jb.framelist.size < fuel) :
    (∃ framelist taken, jb.removeFrame frameCnt fuel =
        some (min frameCnt jb.framelist.effSize, { jb with framelist }) ∧
        Takes jb.framelist.window frameCnt taken ∧ Dropped jb.framelist taken framelist) ↔
      jb.framelist.effSize = keptCells jb.framelist.window ∨
        (frameCnt ≤ jb.framelist.effSize ∧ frameCnt ≤ keptCells jb.framelist.window) := by
  obtain ⟨count,framelist,done,returned,taken,takes,dropped⟩ := removeFrameRemoves reached frameCnt enough
  dsimp only at returned dropped
  constructor
  · rintro ⟨other,_,same,_,_⟩
    rw [done] at same
    have returns := (Prod.mk.inj (Option.some.inj same)).1
    omega
  · intro exact_
    refine ⟨framelist,taken,?_,takes,dropped⟩
    rw [done,returned]
    congr 2
    omega

def roundsOfOne : List Act :=
  [.setting (.adaptive 0 0 40),.call (.put [1] 0 0 0),.call (.get none),.call (.put [1] 0 1 0),.call (.get none),
    .call (.put [1] 0 2 0),.call (.get none),.call (.put [1] 0 3 0),.call (.get none),.call (.put [1] 0 4 0),
    .call (.get none),.call (.put [1] 0 5 0),.call (.put [1] 0 6 0),.call (.get none),.call (.put [1] 0 30 0)]

def discardedOnce : Jbuf := reachedBy 1 20 50 60 roundsOfOne

/- The static algorithm has moved the reference back to the origin, and slot 16 is discarded again. -/
def discardedTwice : Jbuf :=
  reachedBy 1 20 50 60 (roundsOfOne ++ [.setting (.discard .static),.call (.put [1] 0 31 0),
    .setting (.discard .progressive),.call (.put [1] 0 32 0)])

theorem discardedOnceCounts :
    (∃ framelist taken, discardedOnce.removeFrame 12 60 =
        some (min 12 discardedOnce.framelist.effSize, { discardedOnce with framelist }) ∧
        Takes discardedOnce.framelist.window 12 taken ∧ Dropped discardedOnce.framelist taken framelist) ↔
      discardedOnce.framelist.effSize = keptCells discardedOnce.framelist.window ∨
        (12 ≤ discardedOnce.framelist.effSize ∧ 12 ≤ keptCells discardedOnce.framelist.window) :=
  removeFrameCounts (reachedByReachable 1 20 50 (by decide) 60 roundsOfOne) 12 (by decide +kernel)

theorem removedUncounted :
    Reachable discardedTwice ∧ (discardedTwice.removeFrame 40 60).map Prod.fst = some 26 ∧
      min 40 discardedTwice.framelist.effSize = 25 :=
  ⟨reachedByReachable 1 20 50 (by decide) 60 _,by decide +kernel,by decide +kernel⟩

end Pjproject.Media
