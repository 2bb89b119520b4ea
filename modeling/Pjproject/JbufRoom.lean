import Pjproject.JbufPeek

/-! Putting a frame into a full jitter buffer: one round makes room by dropping as few of the oldest slots as let the
frame in. -/
namespace Pjproject.Media
open Lib.Ring

/- The number of the first slot when the frame is put: a frame far before it continues the list under new numbers. -/
def FrameList.numbering (fl : FrameList) (seq : Int) : Int := if seq < fl.origin then seq - fl.size else fl.origin

/- A jump that empties the list: far back, or further ahead than the list holds. -/
def Restarts (fl : FrameList) (seq : Int) : Prop :=
  (seq < fl.origin ∧ maxMisorder ≤ fl.origin - seq ∧ (fl.origin + fl.size) % 4294967296 < maxFrameIndex) ∨
    (fl.size ≠ 0 ∧ fl.maxCount ≤ seq - fl.numbering seq ∧ maxDropout < seq - fl.numbering seq)

/- What the put leaves, before the discard algorithm runs. The frame is `d` places behind the first slot; where the list
is too short for it, the slots in excess are evicted, or all slots when they are fewer. -/
inductive PutOutcome (fl : FrameList) (seq : Int) (frame : Frame) : PutStatus → FrameList → Prop where
  | late (before : seq < fl.origin) (near : fl.origin - seq < maxMisorder) : PutOutcome fl seq frame .tooSmall fl
  | taken {next : FrameList} (d : Nat) (c : Cell) (here : seq = fl.numbering seq + d)
      (occupied : fl.window[d]? = some c) (full : c ≠ .missing) (window : next.window = fl.window)
      (origin : next.origin = fl.numbering seq) : PutOutcome fl seq frame .existing next
  | stored {next : FrameList} (d evicted : Nat) (here : seq = fl.numbering seq + d)
      (fewest : evicted = min (d + 1 - fl.maxCount) fl.size)
      (window : next.window = place (fl.window.drop evicted) (if evicted = fl.size then 0 else d - evicted)
        (.frame frame frame.bytes.length))
      (origin : next.origin = if evicted = fl.size then seq else fl.numbering seq + evicted) :
      PutOutcome fl seq frame .success next
  | restarted {next : FrameList} (far : Restarts fl seq) (window : next.window = [.frame frame frame.bytes.length])
      (origin : next.origin = seq) : PutOutcome fl seq frame .success next

section Ahead

variable {fl : FrameList} {seq : Int} {frame : Frame} (s : Sound fl) (fits : frame.bytes.length ≤ fl.frameSize)

theorem numberingAhead (ahead : fl.origin ≤ seq) : fl.numbering seq = fl.origin := if_neg (by omega)

include s

theorem storeEmpty (empty : fl.size = 0) :
    ∃ next, FrameList.store { fl with origin := seq } seq 0 frame = (.success, next) ∧
      next.window = [.frame frame frame.bytes.length] ∧ next.origin = seq := by
  have sound := soundOrigin s seq
  have free : fl.frameType (slot fl.maxCount fl.head 0) = .missing := by
    rw [slotZero s.headLt]
    exact cellMissing.mp (s.vacant fl.head s.headLt fun k hk => by omega)
  have spec := @storeSpec { fl with origin := seq } sound 0 s.pos seq (by simp) frame free
  have none : FrameList.window { fl with origin := seq } = [] := windowNil empty
  exact ⟨_,Prod.ext spec.status rfl,spec.window.trans (by rw [none]; rfl),spec.origin⟩

theorem storeReset :
    ∃ next, FrameList.store { fl.reset with origin := seq } seq 0 frame = (.success, next) ∧
      next.window = [.frame frame frame.bytes.length] ∧ next.origin = seq :=
  @storeEmpty { fl.reset with origin := seq } _ _ (soundReset s.pos seq) rfl

theorem storeInside {d : Nat} (here : seq = fl.origin + d) (inside : d < fl.maxCount) :
    (∃ c, fl.window[d]? = some c ∧ c ≠ .missing ∧ fl.store seq (seq - fl.origin) frame = (.existing, fl)) ∨
      ∃ next, fl.store seq (seq - fl.origin) frame = (.success, next) ∧
        next.window = place fl.window d (.frame frame frame.bytes.length) ∧ next.origin = fl.origin := by
  have distance : seq - fl.origin = d := by omega
  rw [distance]
  by_cases free : fl.frameType (slot fl.maxCount fl.head d) = .missing
  · have spec := storeSpec s inside here frame free
    exact .inr ⟨_,Prod.ext spec.status rfl,spec.window,spec.origin⟩
  · refine .inl ⟨fl.cell (slot fl.maxCount fl.head d),?_,mt cellMissing.mp free,if_pos free⟩
    have reached : d < fl.size := by
      by_contra beyond
      refine free (cellMissing.mp (s.vacant _ (slotLt _ _ s.pos) fun k hk clash => ?_))
      have fits := s.sizeLe
      have same := slotInj (by omega) inside clash
      omega
    rw [FrameList.window,viewGet?,if_pos reached]

/- A put that is not before the list, when it is not sent back because the list is full. -/
inductive AheadPut (fl : FrameList) (seq : Int) (frame : Frame) : PutStatus × FrameList → Prop where
  | full (d : Nat) (here : seq = fl.origin + d) (occupied : fl.size ≠ 0) (far : fl.maxCount ≤ d)
      (near : (d : Int) ≤ maxDropout) : AheadPut fl seq frame (.tooMany, fl)
  | done {status : PutStatus} {next : FrameList} (outcome : PutOutcome fl seq frame status next) :
      AheadPut fl seq frame (status, next)

include fits

theorem putAhead (ahead : fl.origin ≤ seq) (cap : toInt32 fl.maxCount = fl.maxCount) :
    AheadPut fl seq frame (fl.putAt seq frame) := by
  have pos := s.pos
  obtain ⟨d,distance⟩ := Int.eq_ofNat_of_zero_le (show 0 ≤ seq - fl.origin by omega)
  have here : seq = fl.origin + d := by omega
  have number := numberingAhead ahead
  by_cases empty : fl.size = 0
  · rw [putAtEmpty fits ahead empty (by omega)]
    obtain ⟨next,stored,window,origin⟩ := @storeEmpty _ seq frame s empty
    rw [stored]
    refine .done (.stored d 0 (by rw [number]; exact here) (by omega) ?_ ?_)
    · rw [window,windowNil empty,empty,if_pos rfl]
      rfl
    · rw [origin,empty,if_pos rfl]
  · by_cases inside : d < fl.maxCount
    · rw [putAtInside fits ahead empty (by omega)]
      rcases @storeInside _ _ frame s _ here inside with
        ⟨c,occupied,full,stored⟩ | ⟨next,stored,window,origin⟩
      · rw [stored]
        exact .done (.taken d c (by rw [number]; exact here) occupied full rfl number.symm)
      · rw [stored]
        refine .done (.stored d 0 (by rw [number]; exact here) (by omega) ?_ ?_)
        · rw [window,if_neg (Ne.symm empty)]
          rfl
        · rw [origin,if_neg (Ne.symm empty),number]
          simp
    · rw [putAtAhead fits ahead]
      unfold FrameList.adopt FrameList.accept
      simp only [empty,if_false]
      rw [if_pos (show seq - fl.origin ≥ toInt32 fl.maxCount by omega)]
      by_cases jump : seq - fl.origin > maxDropout
      · rw [if_pos jump]
        obtain ⟨next,stored,window,origin⟩ := @storeReset _ seq frame s
        simp only [stored]
        refine .done (.restarted (.inr ⟨empty,?_,?_⟩) window origin)
        · rw [number]; omega
        · rw [number]; exact jump
      · rw [if_neg jump]
        exact .full d here empty (by omega) (by omega)

theorem putRoom {d : Nat} (here : seq = fl.origin + d) (far : fl.maxCount ≤ d)
    (cap : toInt32 fl.maxCount = fl.maxCount) :
    ∃ next, (fl.removeHead (d + 1 - fl.maxCount)).2.putAt seq frame = (.success, next) ∧
      PutOutcome fl seq frame .success next := by
  have spec := removeHeadSpec s (d + 1 - fl.maxCount)
  have pos := s.pos
  have number := numberingAhead (show fl.origin ≤ seq by omega)
  have origin := spec.origin
  have size : (fl.removeHead (d + 1 - fl.maxCount)).2.size = fl.size - min (d + 1 - fl.maxCount) fl.size := by
    rw [← windowLength,spec.window,List.length_drop,windowLength]
  have room : frame.bytes.length ≤ (fl.removeHead (d + 1 - fl.maxCount)).2.frameSize := by
    rw [spec.frameSize]
    exact fits
  have sameCap : toInt32 (fl.removeHead (d + 1 - fl.maxCount)).2.maxCount = fl.maxCount := by rw [spec.maxCount,cap]
  by_cases empty : (fl.removeHead (d + 1 - fl.maxCount)).2.size = 0
  · obtain ⟨next,stored,window,origin⟩ := @storeEmpty _ seq frame spec.sound empty
    refine ⟨next,(putAtEmpty room (by omega) empty (by omega)).trans stored,?_⟩
    refine .stored d fl.size (by rw [number]; exact here) (by omega) ?_ ?_
    · rw [window,if_pos rfl,List.drop_eq_nil_of_le (by rw [windowLength])]
      rfl
    · rw [origin,if_pos rfl]
  · have fewer : min (d + 1 - fl.maxCount) fl.size = d + 1 - fl.maxCount := by omega
    rw [fewer] at origin
    have place : seq = (fl.removeHead (d + 1 - fl.maxCount)).2.origin + (fl.maxCount - 1 : Nat) := by omega
    rw [putAtInside room (by omega) empty (by omega)]
    have bound := s.sizeLe
    rcases @storeInside _ _ frame spec.sound _ place (by rw [spec.maxCount]; omega) with
      ⟨c,occupied,_,_⟩ | ⟨next,stored,window,numbered⟩
    · have inside := (List.getElem?_eq_some_iff.mp occupied).1
      rw [windowLength] at inside
      omega
    · refine ⟨next,stored,.stored d (d + 1 - fl.maxCount) (by rw [number]; exact here) fewer.symm ?_ ?_⟩
      · rw [window,spec.window,fewer,if_neg (by omega)]
        congr 1
        omega
      · rw [numbered,origin,number,if_neg (by omega)]

end Ahead

section Room

variable {fl : FrameList} {seq : Int} {frame : Frame}

theorem PutOutcome.renumbered (before : seq < fl.origin) {status : PutStatus} {next : FrameList}
    (outcome : PutOutcome { fl with origin := seq - fl.size } seq frame status next) :
    PutOutcome fl seq frame status next := by
  have number : fl.numbering seq = seq - fl.size := if_pos before
  have same : FrameList.numbering { fl with origin := seq - fl.size } seq = seq - fl.size :=
    @numberingAhead { fl with origin := seq - fl.size } _ (show seq - fl.size ≤ seq by omega)
  cases outcome with
  | late early =>
    have early : seq < seq - fl.size := early
    omega
  | taken d c here occupied full window origin =>
    rw [same] at here origin
    exact .taken d c (by rw [number]; exact here) occupied full window (by rw [number]; exact origin)
  | stored d evicted here fewest window origin =>
    rw [same] at here origin
    exact .stored d evicted (by rw [number]; exact here) fewest window (by rw [number]; exact origin)
  | restarted far window origin =>
    rcases far with ⟨early,_⟩ | ⟨occupied,full,jump⟩
    · have early : seq < seq - fl.size := early
      omega
    · rw [same] at full jump
      exact .restarted (.inr ⟨occupied,by rw [number]; exact full,by rw [number]; exact jump⟩) window origin

/- The first put: settled, or sent back by the list that room is to be made in. -/
inductive FirstPut (fl : FrameList) (seq : Int) (frame : Frame) : PutStatus × FrameList → Prop where
  | full (base : FrameList) (sound : Sound base) (maxCount : base.maxCount = fl.maxCount)
      (frameSize : base.frameSize = fl.frameSize) (d : Nat) (here : seq = base.origin + d) (far : base.maxCount ≤ d)
      (near : (d : Int) ≤ maxDropout)
      (settles : ∀ next, PutOutcome base seq frame .success next → PutOutcome fl seq frame .success next) :
      FirstPut fl seq frame (.tooMany, base)
  | done {status : PutStatus} {next : FrameList} (settled : status ≠ .tooMany)
      (outcome : PutOutcome fl seq frame status next) : FirstPut fl seq frame (status, next)

theorem PutOutcome.settled {status : PutStatus} {next : FrameList} (outcome : PutOutcome fl seq frame status next) :
    status ≠ .tooMany := by
  cases outcome <;> simp

theorem firstPut (s : Sound fl) (fits : frame.bytes.length ≤ fl.frameSize)
    (cap : toInt32 fl.maxCount = fl.maxCount) : FirstPut fl seq frame (fl.putAt seq frame) := by
  by_cases before : seq < fl.origin
  · by_cases near : fl.origin - seq < maxMisorder
    · have late : fl.putAt seq frame = (.tooSmall, fl) := by
        unfold FrameList.putAt FrameList.rebase
        rw [if_neg (by omega)]
        dsimp only
        rw [if_pos (by omega),if_pos near]
      rw [late]
      exact .done (by simp) (.late before near)
    · by_cases again : (fl.origin + fl.size) % 4294967296 ≥ maxFrameIndex
      · have moved : fl.putAt seq frame = FrameList.putAt { fl with origin := seq - fl.size } seq frame := by
          rw [@putAtAhead { fl with origin := seq - fl.size } _ _ fits (show seq - fl.size ≤ seq by omega)]
          unfold FrameList.putAt FrameList.rebase
          rw [if_neg (by omega)]
          dsimp only
          rw [if_pos (by omega),if_neg near,if_pos again]
          rewrite [sub_sub_cancel]
          rfl
        have outcome := @putAhead { fl with origin := seq - fl.size } _ frame (soundOrigin s _) fits
          (show seq - fl.size ≤ seq by omega) cap
        rw [moved]
        generalize FrameList.putAt { fl with origin := seq - fl.size } seq frame = out at outcome
        cases outcome with
        | full d here occupied far near =>
          exact .full _ (soundOrigin s _) rfl rfl d here far near fun next stored => stored.renumbered before
        | done outcome => exact .done outcome.settled (outcome.renumbered before)
      · obtain ⟨next,stored,window,origin⟩ := @storeReset _ seq frame s
        have pos := s.pos
        have fresh : fl.putAt seq frame = (.success, next) := by
          unfold FrameList.putAt FrameList.rebase
          rw [if_neg (by omega)]
          dsimp only
          rw [if_pos (by omega),if_neg near,if_neg again]
          unfold FrameList.adopt FrameList.accept
          have open_ : ¬(0 : Int) ≥ toInt32 fl.maxCount := by omega
          simp [FrameList.reset,open_]
          exact stored
        rw [fresh]
        exact .done (by simp) (.restarted (.inl ⟨before,by omega,by omega⟩) window origin)
  · have outcome := @putAhead _ _ frame s fits (show fl.origin ≤ seq by omega) cap
    generalize fl.putAt seq frame = out at outcome
    cases outcome with
    | full d here occupied far near => exact .full fl s rfl rfl d here far near fun next stored => stored
    | done outcome => exact .done outcome.settled outcome

theorem makeRoomOnce {jb : Jbuf} (h : Held jb) (small : jb.framelist.maxCount < 2147483648) (seq : Int) {frame : Frame}
    (fits : frame.bytes.length ≤ jb.frameSize) :
    ∃ status next, Jbuf.makeRoom seq frame 2 { jb with framelist := (jb.framelist.putAt seq frame).2 }
        (jb.framelist.putAt seq frame).1 = some (status, next) ∧
      PutOutcome jb.framelist seq frame status next.framelist := by
  have cap := toInt32Small small
  have listCap := h.maxCount
  have outcome := @firstPut _ seq frame h.sound (by rw [h.frameSize]; exact fits) cap
  generalize jb.framelist.putAt seq frame = out at outcome
  cases outcome with
  | done settled outcome => exact ⟨_,_,makeRoomStops _ _ _ settled,outcome⟩
  | full base sound maxCount frameSize d here far near settles =>
    have excess : toUInt32 ((seq - base.origin) - toInt32 jb.maxCount + 1) = d + 1 - base.maxCount := by
      have dropout : maxDropout = 3000 := rfl
      have amount := toUInt32Small (n := (seq - base.origin) - toInt32 jb.maxCount + 1)
        (by rw [← listCap,cap]; omega) (by rw [← listCap,cap]; omega)
      rw [← listCap,cap] at amount ⊢
      omega
    obtain ⟨next,put,stored⟩ := putRoom sound (by rw [frameSize,h.frameSize]; exact fits) here far
      (by rw [maxCount]; exact cap)
    refine ⟨.success,{ jb with
      framelist := next
      discard := jb.discard + (base.removeHead (d + 1 - base.maxCount)).1 },?_,settles next stored⟩
    unfold Jbuf.makeRoom
    rw [if_pos rfl]
    dsimp only
    rw [excess,put]
    exact makeRoomStops _ _ _ (by simp)

end Room

/- The put of a frame: the list before the discard algorithm runs, and what the algorithm starts from. -/
theorem putMakesRoom {jb : Jbuf} (reached : Reachable jb) (slots : 1 ≤ jb.framelist.maxCount)
    (small : jb.framelist.maxCount < 2147483648) (frame : List UInt8) (bitInfo : UInt32) (seq : Int) (ts : UInt32) :
    ∃ status mid ready next,
      Jbuf.makeRoom seq ⟨frame.take jb.frameSize,bitInfo,ts⟩ 2
          { jb with framelist := (jb.framelist.putAt seq ⟨frame.take jb.frameSize,bitInfo,ts⟩).2 }
          (jb.framelist.putAt seq ⟨frame.take jb.frameSize,bitInfo,ts⟩).1 = some (status, mid) ∧
        PutOutcome jb.framelist seq ⟨frame.take jb.frameSize,bitInfo,ts⟩ status mid.framelist ∧
        jb.putFrame3 frame bitInfo seq ts 2 = some (status, next) ∧ ready.framelist = mid.framelist ∧
        (next = ready ∨ next = ready.update .put) := by
  have held : Held jb := by
    rcases reachableHeld reached with held | shut
    · exact held
    · have cap := shut.cap
      rw [toInt32Small small] at cap
      omega
  obtain ⟨status,mid,room,outcome⟩ := makeRoomOnce held small seq
    (show (Frame.mk (frame.take jb.frameSize) bitInfo ts).bytes.length ≤ jb.frameSize from List.length_take_le _ _)
  obtain ⟨⟨returned,next⟩,put⟩ := putFrame3Returns held.sound held.maxCount held.frameSize
    (by rw [← held.maxCount]; exact small) frame bitInfo seq ts (le_refl 2)
  obtain ⟨other,again,ready,same,leaves⟩ := putFrame3Inv put
  rw [room] at again
  obtain ⟨rfl,rfl⟩ := Prod.mk.inj (Option.some.inj again)
  exact ⟨_,mid,ready,next,room,outcome,put,same.framelist,leaves⟩

theorem Shut.spins {jb : Jbuf} (h : Shut jb.framelist) {seq : Int} {frame : Frame}
    (fits : frame.bytes.length ≤ jb.framelist.frameSize) (ahead : jb.framelist.origin ≤ seq) (fuel : Nat) :
    Jbuf.makeRoom seq frame fuel jb .tooMany = none := by
  induction fuel generalizing jb with
  | zero => rfl
  | succ fuel ih =>
    have full : jb.framelist.putAt seq frame = (.tooMany, { jb.framelist with origin := seq }) := by
      rw [putAtAhead fits ahead]
      unfold FrameList.adopt FrameList.accept
      simp [h.empty,h.cap,maxDropout]
    simp only [makeRoomOnward,h.removeHead,full]
    exact @ih { jb with framelist := { jb.framelist with origin := seq }, discard := jb.discard + 0 }
      ⟨h.empty,h.cap⟩ fits (le_refl seq)

theorem createSpins (maxCount : UInt32) (cap : toInt32 maxCount.toNat ≤ 0) (fuel : Nat) :
    (create 1 20 maxCount).putFrame3 [1] 0 0 0 fuel = none := by
  have shut : Shut (create 1 20 maxCount).framelist := ⟨rfl,cap⟩
  have ahead : (create 1 20 maxCount).framelist.origin ≤ 0 := show (-9999 : Int) ≤ 0 by decide
  have fits : (Frame.mk [1] 0 0).bytes.length ≤ (create 1 20 maxCount).framelist.frameSize := Nat.le_refl 1
  have full : (create 1 20 maxCount).framelist.putAt 0 ⟨[1],0,0⟩ =
      (.tooMany, { (create 1 20 maxCount).framelist with origin := 0 }) := by
    rw [putAtAhead fits ahead]
    unfold FrameList.adopt FrameList.accept
    simp [shut.empty,shut.cap,maxDropout]
  have spins := @Shut.spins { create 1 20 maxCount with
      framelist := { (create 1 20 maxCount).framelist with origin := 0 } }
    ⟨shut.empty,shut.cap⟩ 0 ⟨[1],0,0⟩ fits (le_refl 0) fuel
  unfold Jbuf.putFrame3
  dsimp only
  rw [show ([1] : List UInt8).take (create 1 20 maxCount).frameSize = [1] from rfl,full,spins]

theorem discardedOnceTakes :
    ∃ status mid ready next,
      Jbuf.makeRoom 60 ⟨[1],0,0⟩ 2
          { discardedOnce with framelist := (discardedOnce.framelist.putAt 60 ⟨[1],0,0⟩).2 }
          (discardedOnce.framelist.putAt 60 ⟨[1],0,0⟩).1 = some (status, mid) ∧
        PutOutcome discardedOnce.framelist 60 ⟨[1],0,0⟩ status mid.framelist ∧
        discardedOnce.putFrame3 [1] 0 60 0 2 = some (status, next) ∧ ready.framelist = mid.framelist ∧
        (next = ready ∨ next = ready.update .put) :=
  putMakesRoom (reachedByReachable 1 20 50 (by decide) 60 roundsOfOne) (by decide +kernel) (by decide +kernel)
    [1] 0 60 0

/- Frame 16 was never put, but its slot has been discarded; and without a positive capacity the loop does not end. -/
theorem discardedRefused :
    Reachable discardedOnce ∧ (discardedOnce.putFrame3 [1] 0 16 0 60).map Prod.fst = some .existing ∧
      (∀ frame bitInfo ts, Act.call (.put frame bitInfo 16 ts) ∉ roundsOfOne) ∧
      (∀ fuel, (create 1 20 0).putFrame3 [1] 0 0 0 fuel = none) ∧
      (∀ fuel, (create 1 20 2147483648).putFrame3 [1] 0 0 0 fuel = none) :=
  ⟨reachedByReachable 1 20 50 (by decide) 60 roundsOfOne,by decide +kernel,by simp [roundsOfOne],
    createSpins 0 (by decide),createSpins 2147483648 (by decide)⟩

end Pjproject.Media
