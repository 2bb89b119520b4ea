import Pjproject.JbufRun

/-! What a reader of the jitter buffer gets: the accepted frames, in sequence order, each at
most once, as long as no put restarts the numbering. -/
namespace Pjproject.Media
open Lib.Ring

structure Accepted where
  seq : Int
  frame : List UInt8
  bitInfo : UInt32
  ts : UInt32
  deriving DecidableEq, Repr

structure Delivered where
  maxSize : Option Nat
  out : Output
  deriving DecidableEq, Repr

inductive Event where
  | accepted (a : Accepted)
  | delivered (d : Delivered)
  deriving DecidableEq, Repr

inductive Transfer where
  | put (a : Accepted)
  | get (maxSize : Option Nat)
  deriving DecidableEq, Repr

def Jbuf.transfer (jb : Jbuf) (fuel : Nat) : Transfer → Option (Jbuf × List Event)
  | .put a =>
    match jb.putFrame3 a.frame a.bitInfo a.seq a.ts fuel with
    | none => none
    | some (status, next) => some (next, if status = .success then [.accepted a] else [])
  | .get maxSize =>
    match jb.getFrame3 maxSize fuel with
    | none => none
    | some (out, next) => some (next, if out.type = .normal then [.delivered ⟨maxSize,out⟩] else [])

def Jbuf.transfers (fuel : Nat) : Jbuf → List Event → List Transfer → Option (Jbuf × List Event)
  | jb, log, [] => some (jb, log)
  | jb, log, t :: rest =>
    match jb.transfer fuel t with
    | none => none
    | some (next, events) => next.transfers fuel (log ++ events) rest

/- The put restarts the numbering or resets the list: its number is far from the window. -/
def FrameList.farJump (fl : FrameList) (index : Int) : Prop :=
  (index < fl.origin ∧ maxMisorder ≤ fl.origin - index) ∨
    (fl.size ≠ 0 ∧ toInt32 fl.maxCount ≤ index - fl.origin ∧ maxDropout < index - fl.origin)

instance (fl : FrameList) (index : Int) : Decidable (fl.farJump index) :=
  inferInstanceAs (Decidable (_ ∨ _))

def Jbuf.steady (fuel : Nat) : Jbuf → List Transfer → Bool
  | _, [] => true
  | jb, t :: rest =>
    (match t with
      | .put a => !decide (jb.framelist.farJump a.seq)
      | .get _ => true) &&
    (match jb.transfer fuel t with
      | none => true
      | some (next, _) => next.steady fuel rest)

variable {fuel n cap : Nat} {jb next : Jbuf} {fl : FrameList} {a : Accepted} {events log : List Event} {maxSize : Option Nat} {calls : List Transfer}

theorem steadyCons {t : Transfer} {rest : List Transfer} (steady : Jbuf.steady fuel jb (t :: rest) = true) :
    (∀ a, t = .put a → ¬jb.framelist.farJump a.seq) ∧
      ∀ next events, jb.transfer fuel t = some (next, events) → Jbuf.steady fuel next rest = true := by
  unfold Jbuf.steady at steady
  obtain ⟨calm,later⟩ := Bool.and_eq_true_iff.mp steady
  constructor
  · rintro a rfl
    simpa using calm
  · intro next events found
    rw [found] at later
    exact later

def acceptedSeqs (log : List Event) : List Int :=
  log.filterMap fun e => match e with
    | .accepted a => some a.seq
    | .delivered _ => none

def deliveredSeqs (log : List Event) : List Int :=
  log.filterMap fun e => match e with
    | .accepted _ => none
    | .delivered d => d.out.seq

/- `bytesOf` says what a reader with the given buffer length gets of an accepted frame. -/
structure DeliveryOk (bytesOf : Option Nat → Accepted → List UInt8) (log : List Event) : Prop where
  increasing : (deliveredSeqs log).Pairwise (· < ·)
  once : (acceptedSeqs log).Nodup
  faithful : ∀ before d after, log = before ++ .delivered d :: after →
    ∃ a, .accepted a ∈ before ∧ d.out.seq = some a.seq ∧ d.out.bytes = bytesOf d.maxSize a ∧
      d.out.size = (bytesOf d.maxSize a).length ∧ d.out.bitInfo = some a.bitInfo ∧ d.out.ts = some a.ts

/- A frame is cut to the buffer's frame size when put, and to the reader's buffer when read. -/
def cutBytes (frameSize : Nat) (maxSize : Option Nat) (a : Accepted) : List UInt8 :=
  let kept := a.frame.take frameSize
  kept.take (maxSize.getD kept.length)

structure Tracks (frameSize : Nat) (cells : List Cell) (origin : Int) (log : List Event) : Prop where
  stored : ∀ (k : Nat) f n, cells[k]? = some (.frame f n) →
    ∃ a, .accepted a ∈ log ∧ a.seq = origin + k ∧ f = ⟨a.frame.take frameSize,a.bitInfo,a.ts⟩ ∧
      n = (a.frame.take frameSize).length
  seen : ∀ a, .accepted a ∈ log →
    a.seq < origin ∨ ∃ (k : Nat) (c : Cell), a.seq = origin + k ∧ cells[k]? = some c ∧ c ≠ .missing
  past : ∀ q, q ∈ deliveredSeqs log → q < origin
  ok : DeliveryOk (cutBytes frameSize) log

section Tracks
variable {frameSize : Nat} {cells : List Cell} {origin : Int}

theorem Tracks.drop (t : Tracks frameSize cells origin log) (c : Nat) :
    Tracks frameSize (cells.drop c) (origin + c) log where
  stored := by
    intro k f n found
    rw [List.getElem?_drop] at found
    obtain ⟨a,member,seq,rest⟩ := t.stored (c + k) f n found
    exact ⟨a,member,by push_cast at seq; omega,rest⟩
  seen := by
    intro a member
    rcases t.seen a member with before | ⟨k,cell,seq,found,kept⟩
    · exact .inl (by omega)
    · by_cases early : k < c
      · exact .inl (by omega)
      · refine .inr ⟨k - c,cell,by omega,?_,kept⟩
        rw [List.getElem?_drop,Nat.add_sub_cancel' (by omega)]
        exact found
  past := fun q member => by
    have before := t.past q member
    omega
  ok := t.ok

theorem Tracks.raise (t : Tracks frameSize [] origin log) {next : Int} (later : origin ≤ next) :
    Tracks frameSize [] next log where
  stored := fun k f n found => by simp at found
  seen := by
    intro a member
    rcases t.seen a member with before | ⟨k,cell,_,found,_⟩
    · exact .inl (by omega)
    · simp at found
  past := fun q member => lt_of_lt_of_le (t.past q member) later
  ok := t.ok

theorem Tracks.mark (t : Tracks frameSize cells origin log) (d : Nat) :
    Tracks frameSize (cells.set d .discarded) origin log where
  stored := by
    intro k f n found
    rw [List.getElem?_set] at found
    split at found
    · split at found <;> simp at found
    · exact t.stored k f n found
  seen := by
    intro a member
    rcases t.seen a member with before | ⟨k,cell,seq,found,kept⟩
    · exact .inl before
    · refine .inr ?_
      have inside := (List.getElem?_eq_some_iff.mp found).1
      by_cases here : d = k
      · exact ⟨k,.discarded,seq,by rw [List.getElem?_set,if_pos here,if_pos (here ▸ inside)],by simp⟩
      · exact ⟨k,cell,seq,by rw [List.getElem?_set,if_neg here]; exact found,kept⟩
  past := t.past
  ok := t.ok

theorem placeGet {d : Nat} {c : Cell} (k : Nat) : (place cells d c)[k]? = if k = d then some c
      else if k < cells.length then cells[k]? else if k < d + 1 then some .missing else none := by
  unfold place
  rw [List.getElem?_set]
  by_cases here : d = k
  · subst here
    rw [if_pos rfl,if_pos rfl,if_pos]
    simp only [List.length_append,List.length_replicate]
    omega
  · rw [if_neg here,if_neg (Ne.symm here),List.getElem?_append]
    split
    · rfl
    · rw [List.getElem?_replicate]
      split <;> split <;> first | rfl | omega

theorem acceptedSeqsAppend (a : Accepted) : acceptedSeqs (log ++ [.accepted a]) = acceptedSeqs log ++ [a.seq] := by
  simp [acceptedSeqs]

theorem deliveredSeqsAccepted (a : Accepted) : deliveredSeqs (log ++ [.accepted a]) = deliveredSeqs log := by
  simp [deliveredSeqs]

theorem acceptedSeqsDelivered (d : Delivered) : acceptedSeqs (log ++ [.delivered d]) = acceptedSeqs log := by
  simp [acceptedSeqs]

variable {d : Delivered}

theorem deliveredSeqsAppend {q : Int} (seq : d.out.seq = some q) :
    deliveredSeqs (log ++ [.delivered d]) = deliveredSeqs log ++ [q] := by
  simp [deliveredSeqs,seq]

theorem acceptedMem {q : Int} (member : q ∈ acceptedSeqs log) : ∃ a, .accepted a ∈ log ∧ a.seq = q := by
  obtain ⟨e,inside,found⟩ := List.mem_filterMap.mp member
  cases e with
  | accepted a => exact ⟨a,inside,Option.some.inj found⟩
  | delivered => simp at found

theorem lastDelivery {e : Event} {before after : List Event}
    (split : log ++ [e] = before ++ .delivered d :: after) :
    (∃ rest, log = before ++ .delivered d :: rest) ∨ (log = before ∧ e = .delivered d) := by
  rcases List.append_eq_append_iff.mp split with ⟨mid,whole,tail⟩ | ⟨mid,whole,tail⟩
  · cases mid with
    | nil =>
      simp only [List.nil_append,List.append_nil,List.cons.injEq] at tail whole
      exact .inr ⟨whole.symm,tail.1⟩
    | cons =>
      have lengths := congrArg List.length tail
      simp at lengths
  · cases mid with
    | nil =>
      simp only [List.nil_append,List.append_nil,List.cons.injEq] at tail whole
      exact .inr ⟨whole,tail.1.symm⟩
    | cons x xs =>
      simp only [List.cons_append,List.cons.injEq] at tail
      refine .inl ⟨xs,?_⟩
      rw [whole,tail.1]

theorem Tracks.accept (t : Tracks frameSize cells origin log) {d : Nat} {a : Accepted}
    (seq : a.seq = origin + d) (free : ∀ c, cells[d]? = some c → c = .missing) :
    Tracks frameSize
      (place cells d (.frame ⟨a.frame.take frameSize,a.bitInfo,a.ts⟩ (a.frame.take frameSize).length))
      origin (log ++ [.accepted a]) where
  stored := by
    intro k f n found
    rw [placeGet] at found
    split at found
    · next here =>
      obtain ⟨rfl,rfl⟩ := Cell.frame.inj (Option.some.inj found)
      exact ⟨a,by simp,by rw [seq,here],rfl,rfl⟩
    · split at found
      · obtain ⟨b,member,rest⟩ := t.stored k f n found
        exact ⟨b,List.mem_append_left _ member,rest⟩
      · split at found <;> simp at found
  seen := by
    intro b member
    rcases List.mem_append.mp member with old | new
    · rcases t.seen b old with before | ⟨k,cell,bseq,found,kept⟩
      · exact .inl before
      · refine .inr ⟨k,cell,bseq,?_,kept⟩
        have other : k ≠ d := by
          rintro rfl
          exact kept (free cell found)
        rw [placeGet,if_neg other,if_pos (List.getElem?_eq_some_iff.mp found).1]
        exact found
    · rw [Event.accepted.inj (List.mem_singleton.mp new)]
      exact .inr ⟨d,_,seq,by rw [placeGet,if_pos rfl],by simp⟩
  past := by
    rw [deliveredSeqsAccepted]
    exact t.past
  ok :=
    { increasing := by
        rw [deliveredSeqsAccepted]
        exact t.ok.increasing
      once := by
        rw [acceptedSeqsAppend]
        refine List.nodup_append.mpr ⟨t.ok.once,by simp,?_⟩
        intro q old q' new
        rw [List.mem_singleton.mp new]
        obtain ⟨b,member,rfl⟩ := acceptedMem old
        intro clash
        rcases t.seen b member with before | ⟨k,cell,bseq,found,kept⟩
        · omega
        · have same : k = d := by omega
          exact kept (free cell (same ▸ found))
      faithful := by
        intro before d' after split
        rcases lastDelivery split with ⟨rest,old⟩ | ⟨_,new⟩
        · exact t.ok.faithful before d' rest old
        · simp at new }

theorem Tracks.deliver {f : Frame} {n : Nat} (t : Tracks frameSize (.frame f n :: cells) origin log)
    (seq : d.out.seq = some origin) (bytes : d.out.bytes = f.bytes.take (d.maxSize.getD n))
    (size : d.out.size = min (d.maxSize.getD n) n) (bitInfo : d.out.bitInfo = some f.bitInfo)
    (ts : d.out.ts = some f.ts) : Tracks frameSize cells (origin + 1) (log ++ [.delivered d]) := by
  have moved : Tracks frameSize cells (origin + 1) log := t.drop 1
  obtain ⟨a,member,aseq,rfl,rfl⟩ := t.stored 0 f n rfl
  exact
    { stored := fun k f n found => by
        obtain ⟨b,old,rest⟩ := moved.stored k f n found
        exact ⟨b,List.mem_append_left _ old,rest⟩
      seen := fun b inside => by
        rcases List.mem_append.mp inside with old | new
        · exact moved.seen b old
        · simp at new
      past := fun q inside => by
        rw [deliveredSeqsAppend seq] at inside
        rcases List.mem_append.mp inside with old | new
        · exact moved.past q old
        · rw [List.mem_singleton.mp new]
          omega
      ok :=
        { increasing := by
            rw [deliveredSeqsAppend seq]
            refine List.pairwise_append.mpr ⟨t.ok.increasing,List.pairwise_singleton _ _,?_⟩
            intro q old q' new
            rw [List.mem_singleton.mp new]
            exact t.past q old
          once := by
            rw [acceptedSeqsDelivered]
            exact t.ok.once
          faithful := by
            intro before d' after split
            rcases lastDelivery split with ⟨rest,old⟩ | ⟨rfl,new⟩
            · exact t.ok.faithful before d' rest old
            · cases Event.delivered.inj new
              refine ⟨a,member,?_,bytes,?_,bitInfo,ts⟩
              · rw [seq,aseq]
                simp
              · exact size.trans List.length_take.symm } }

end Tracks

/- A call on the frame list that accepts and delivers nothing. -/
structure Keeps (fl next : FrameList) : Prop where
  sound : Sound next
  maxCount : next.maxCount = fl.maxCount
  frameSize : next.frameSize = fl.frameSize
  tracks : ∀ n log, Tracks n fl.window fl.origin log → Tracks n next.window next.origin log

theorem Keeps.refl (s : Sound fl) : Keeps fl fl := ⟨s,rfl,rfl,fun _ _ t => t⟩

theorem Keeps.trans {a b c : FrameList} (ab : Keeps a b) (bc : Keeps b c) : Keeps a c :=
  ⟨bc.sound,bc.maxCount.trans ab.maxCount,bc.frameSize.trans ab.frameSize,
    fun n log t => bc.tracks n log (ab.tracks n log t)⟩

theorem removeHeadKeeps (s : Sound fl) (count : Nat) : Keeps fl (fl.removeHead count).2 := by
  have spec := removeHeadSpec s count
  refine ⟨spec.sound,spec.maxCount,spec.frameSize,fun n log t => ?_⟩
  rw [spec.window,spec.origin]
  exact t.drop _

theorem skipKeeps {prev : Bool} {out : Bool × FrameList} (spec : SkipSpec fl prev out) : Keeps fl out.2 := by
  obtain ⟨k,_,window,origin,_⟩ := spec.skipped
  refine ⟨spec.sound,spec.maxCount,spec.frameSize,fun n log t => ?_⟩
  rw [window,origin]
  exact t.drop _

theorem popHeadKeeps (s : Sound fl) (pos : 0 < fl.size) : Keeps fl fl.popHead := by
  refine ⟨popHeadSound s,rfl,rfl,fun n log t => ?_⟩
  rw [popHeadWindow s pos,← List.drop_one]
  exact t.drop 1

theorem adoptKeeps (s : Sound fl) {index : Int} (ahead : fl.origin ≤ index) (distance : Int) :
    Keeps fl (fl.adopt index distance).1 := by
  unfold FrameList.adopt
  split
  · next empty =>
    refine ⟨soundOrigin s index,rfl,rfl,fun n log t => ?_⟩
    have none : FrameList.window { fl with origin := index } = [] := windowNil empty
    rw [windowNil empty] at t
    rw [none]
    exact t.raise ahead
  · exact .refl s

theorem discardKeeps (s : Sound fl) (index : Int) : Keeps fl (fl.discard index).2 := by
  by_cases inside : index ≥ fl.origin ∧ index < fl.origin + fl.size
  · obtain ⟨d,distance⟩ := Int.eq_ofNat_of_zero_le (show 0 ≤ index - fl.origin by omega)
    have here : index = fl.origin + d := by omega
    have spec := discardSpec s (show d < fl.size by omega)
    rw [here]
    refine ⟨spec.sound,spec.maxCount,spec.frameSize,fun n log t => ?_⟩
    rw [spec.window,spec.origin]
    exact t.mark d
  · unfold FrameList.discard
    rw [if_neg inside]
    exact .refl s

/- The settings the delivery of frames depends on do not change. -/
structure Follows (jb next : Jbuf) : Prop where
  list : Keeps jb.framelist next.framelist
  maxCount : next.maxCount = jb.maxCount
  frameSize : next.frameSize = jb.frameSize

theorem Follows.refl (s : Sound jb.framelist) : Follows jb jb := ⟨.refl s,rfl,rfl⟩

theorem Follows.trans {a b c : Jbuf} (ab : Follows a b) (bc : Follows b c) : Follows a c :=
  ⟨ab.list.trans bc.list,bc.maxCount.trans ab.maxCount,bc.frameSize.trans ab.frameSize⟩

theorem SameList.follows (same : SameList jb next) (s : Sound jb.framelist) : Follows jb next := by
  refine ⟨?_,same.maxCount,same.frameSize⟩
  rw [same.framelist]
  exact .refl s

/- What a discard does to the slots: it takes the first one off, or marks one. -/
theorem runDiscardCases (jb : Jbuf) : jb.runDiscard.maxCount = jb.maxCount ∧ jb.runDiscard.frameSize = jb.frameSize ∧
    (jb.runDiscard.framelist = jb.framelist ∨ jb.runDiscard.framelist = (jb.framelist.removeHead 1).2 ∨
      ∃ index, jb.runDiscard.framelist = (jb.framelist.discard index).2) := by
  unfold Jbuf.runDiscard
  split
  · split
    · exact ⟨rfl,rfl,.inl rfl⟩
    · unfold Jbuf.discardStatic
      dsimp only
      split
      · generalize (if jb.framelist.origin < jb.discardRef then jb.framelist.origin else jb.discardRef) = ref
        split
        · exact ⟨rfl,rfl,.inr (.inl rfl)⟩
        · exact ⟨rfl,rfl,.inl rfl⟩
      · exact ⟨rfl,rfl,.inl rfl⟩
    · unfold Jbuf.discardProgressive
      split
      · exact ⟨rfl,rfl,.inl rfl⟩
      · dsimp only
        split
        · exact ⟨rfl,rfl,.inl rfl⟩
        · unfold Jbuf.performDiscard
          dsimp only
          split
          · exact ⟨rfl,rfl,.inr (.inr ⟨_,rfl⟩)⟩
          · exact ⟨rfl,rfl,.inl rfl⟩
  · exact ⟨rfl,rfl,.inl rfl⟩

theorem runDiscardFollows (s : Sound jb.framelist) : Follows jb jb.runDiscard := by
  obtain ⟨maxCount,frameSize,same | removed | ⟨index,discarded⟩⟩ := runDiscardCases jb
  · exact ⟨same.symm ▸ .refl s,maxCount,frameSize⟩
  · exact ⟨removed.symm ▸ removeHeadKeeps s 1,maxCount,frameSize⟩
  · exact ⟨discarded.symm ▸ discardKeeps s index,maxCount,frameSize⟩

theorem updateFollows (s : Sound jb.framelist) (oper : LastOp) : Follows jb (jb.update oper) := by
  obtain ⟨next,same,plain | discarded⟩ := updateCases jb oper
  · rw [plain]
    exact same.follows s
  · rw [discarded]
    have first := same.follows s
    exact first.trans (runDiscardFollows first.list.sound)

/- A put without a jump: late, or into the list as it is numbered, an empty one renumbered. -/
inductive SteadyPut (fl : FrameList) (index : Int) (frame : Frame) : PutStatus × FrameList → Prop where
  | late : SteadyPut fl index frame (.tooSmall, fl)
  | full (base : FrameList) (kept : Keeps fl base) (ahead : base.origin ≤ index)
      (far : toInt32 fl.maxCount ≤ index - base.origin) (near : index - base.origin ≤ maxDropout) :
      SteadyPut fl index frame (.tooMany, base)
  | store (base : FrameList) (kept : Keeps fl base) (ahead : base.origin ≤ index)
      (inside : index - base.origin < toInt32 fl.maxCount) :
      SteadyPut fl index frame (base.store index (index - base.origin) frame)

theorem adoptDistance (fl : FrameList) (index : Int) :
    (fl.adopt index (index - fl.origin)).2 = index - (fl.adopt index (index - fl.origin)).1.origin := by
  unfold FrameList.adopt
  split <;> simp

theorem steadyPut (s : Sound fl) {index : Int} {frame : Frame}
    (fits : frame.bytes.length ≤ fl.frameSize) (steady : ¬fl.farJump index) :
    SteadyPut fl index frame (fl.putAt index frame) := by
  by_cases before : index < fl.origin
  · have close : fl.origin - index < maxMisorder := by
      by_contra far
      exact steady (.inl ⟨before,by omega⟩)
    have late : fl.putAt index frame = (.tooSmall, fl) := by
      unfold FrameList.putAt FrameList.rebase
      dsimp only
      rw [if_neg (by omega),if_pos (by omega),if_pos close]
    rw [late]
    exact .late
  · have kept := adoptKeeps s (Int.not_lt.mp before) (index - fl.origin)
    have near : index - (fl.adopt index (index - fl.origin)).1.origin ≤ maxDropout ∨
        index - (fl.adopt index (index - fl.origin)).1.origin < toInt32 fl.maxCount := by
      unfold FrameList.adopt
      split
      · exact .inl (by simp [maxDropout])
      · next occupied =>
        dsimp only
        by_contra both
        exact steady (.inr ⟨occupied,by omega,by omega⟩)
    have ahead : (fl.adopt index (index - fl.origin)).1.origin ≤ index := by
      unfold FrameList.adopt
      split
      · exact le_refl _
      · exact Int.not_lt.mp before
    rw [putAtAhead fits (Int.not_lt.mp before),adoptDistance]
    generalize (fl.adopt index (index - fl.origin)).1 = base at kept near ahead
    unfold FrameList.accept
    rw [kept.maxCount]
    by_cases far : toInt32 fl.maxCount ≤ index - base.origin
    · rw [if_pos far,if_neg (by omega)]
      exact .full base kept ahead far (by omega)
    · rw [if_neg far]
      exact .store base kept ahead (by omega)

/- The state of a put between two rounds of its loop. -/
structure Round (n : Nat) (log : List Event) (a : Accepted) (status : PutStatus) (fl : FrameList) : Prop where
  sound : Sound fl
  frameSize : fl.frameSize = n
  settled : status ≠ .tooMany →
    Tracks n fl.window fl.origin (if status = .success then log ++ [.accepted a] else log)
  pending : status = .tooMany →
    Tracks n fl.window fl.origin log ∧ toInt32 fl.maxCount ≤ a.seq - fl.origin ∧
      a.seq - fl.origin ≤ maxDropout

def Accepted.kept (a : Accepted) (n : Nat) : Frame := ⟨a.frame.take n,a.bitInfo,a.ts⟩

theorem steadyRound (s : Sound fl) (size : fl.frameSize = n)
    (t : Tracks n fl.window fl.origin log) (steady : ¬fl.farJump a.seq) :
    Round n log a (fl.putAt a.seq (a.kept n)).1 (fl.putAt a.seq (a.kept n)).2 ∧
      (fl.putAt a.seq (a.kept n)).2.maxCount = fl.maxCount := by
  have fits : (a.kept n).bytes.length ≤ fl.frameSize := by
    rw [size]
    exact List.length_take_le _ _
  have outcome := steadyPut s fits steady
  revert outcome
  generalize fl.putAt a.seq (a.kept n) = out
  intro outcome
  cases outcome with
  | late => exact ⟨⟨s,size,fun _ => t,fun bad => by simp at bad⟩,rfl⟩
  | full base kept ahead far near =>
    refine ⟨⟨kept.sound,kept.frameSize.trans size,fun bad => absurd rfl bad,fun _ => ?_⟩,kept.maxCount⟩
    rw [kept.maxCount]
    exact ⟨kept.tracks n log t,far,near⟩
  | store base kept ahead =>
    have bound := toInt32Le fl.maxCount
    have tracked := kept.tracks n log t
    rcases storeCases kept.sound ahead (by rw [kept.maxCount]; omega) (a.kept n) with taken | ⟨d,seq,spec⟩
    · rw [taken]
      exact ⟨⟨kept.sound,kept.frameSize.trans size,fun _ => tracked,fun bad => by simp at bad⟩,
        kept.maxCount⟩
    · refine ⟨⟨spec.sound,(spec.frameSize.trans kept.frameSize).trans size,fun _ => ?_,fun bad => ?_⟩,
        spec.maxCount.trans kept.maxCount⟩
      · rw [if_pos spec.status,spec.window,spec.origin]
        exact tracked.accept seq spec.free
      · rw [spec.status] at bad
        simp at bad

theorem roundRoom (cap : 0 < toInt32 fl.maxCount) (r : Round n log a .tooMany fl) :
    ¬(fl.removeHead (toUInt32 ((a.seq - fl.origin) - toInt32 fl.maxCount + 1))).2.farJump a.seq := by
  obtain ⟨_,far,near⟩ := r.pending rfl
  have dropout : maxDropout = 3000 := rfl
  generalize excess : toUInt32 ((a.seq - fl.origin) - toInt32 fl.maxCount + 1) = k
  have amount : (k : Int) = (a.seq - fl.origin) - toInt32 fl.maxCount + 1 := by
    rw [← excess]
    exact toUInt32Small (by omega) (by omega)
  have spec := removeHeadSpec r.sound k
  have size : (fl.removeHead k).2.size = fl.size - min k fl.size := by
    rw [← windowLength,spec.window,List.length_drop,windowLength]
  have origin := spec.origin
  unfold FrameList.farJump
  rw [spec.maxCount]
  omega

theorem makeRoomOnward (seq : Int) (frame : Frame) (fuel : Nat) (jb : Jbuf) :
    Jbuf.makeRoom seq frame (fuel + 1) jb .tooMany =
      let room := jb.framelist.removeHead (toUInt32 ((seq - jb.framelist.origin) - toInt32 jb.maxCount + 1))
      Jbuf.makeRoom seq frame fuel
        { jb with framelist := (room.2.putAt seq frame).2, discard := jb.discard + room.1 }
        (room.2.putAt seq frame).1 := rfl

theorem makeRoomRound {status : PutStatus}
    {out : PutStatus × Jbuf} (cap : 0 < toInt32 jb.framelist.maxCount)
    (same : jb.framelist.maxCount = jb.maxCount) (r : Round n log a status jb.framelist)
    (done : Jbuf.makeRoom a.seq (a.kept n) fuel jb status = some out) :
    out.1 ≠ .tooMany ∧ Round n log a out.1 out.2.framelist ∧
      out.2.framelist.maxCount = jb.framelist.maxCount ∧ out.2.maxCount = jb.maxCount ∧
      out.2.frameSize = jb.frameSize := by
  induction fuel generalizing jb status with
  | zero => simp [Jbuf.makeRoom] at done
  | succ fuel ih =>
    by_cases full : status = .tooMany
    · subst full
      rw [makeRoomOnward] at done
      dsimp only at done
      have steady := roundRoom cap r
      rw [same] at steady
      obtain ⟨tracked,_,_⟩ := r.pending rfl
      generalize toUInt32 ((a.seq - jb.framelist.origin) - toInt32 jb.maxCount + 1) = k at done steady
      have removed := removeHeadKeeps r.sound k
      obtain ⟨next,kept⟩ := steadyRound removed.sound (removed.frameSize.trans r.frameSize)
        (removed.tracks n log tracked) steady
      have listCap := kept.trans removed.maxCount
      have positive : 0 < toInt32 ((jb.framelist.removeHead k).2.putAt a.seq (a.kept n)).2.maxCount := by
        rw [listCap]
        exact cap
      obtain ⟨settled,round,maxCount,rest⟩ := @ih
        { jb with
          framelist := ((jb.framelist.removeHead k).2.putAt a.seq (a.kept n)).2
          discard := jb.discard + (jb.framelist.removeHead k).1 } _ positive (listCap.trans same) next done
      exact ⟨settled,round,maxCount.trans listCap,rest⟩
    · rw [makeRoomStops _ _ _ full] at done
      rw [← Option.some.inj done]
      exact ⟨full,r,rfl,rfl,rfl⟩

structure Live (cap n : Nat) (jb : Jbuf) (log : List Event) : Prop where
  sound : Sound jb.framelist
  positive : 0 < toInt32 cap
  capacity : jb.maxCount = cap
  listCap : jb.framelist.maxCount = cap
  frameSize : jb.frameSize = n
  listSize : jb.framelist.frameSize = n
  tracks : Tracks n jb.framelist.window jb.framelist.origin log

theorem Follows.live (f : Follows jb next)
    (l : Live cap n jb log) : Live cap n next log where
  sound := f.list.sound
  positive := l.positive
  capacity := f.maxCount.trans l.capacity
  listCap := f.list.maxCount.trans l.listCap
  frameSize := f.frameSize.trans l.frameSize
  listSize := f.list.frameSize.trans l.listSize
  tracks := f.list.tracks n log l.tracks

theorem putLive (l : Live cap n jb log) (steady : ¬jb.framelist.farJump a.seq)
    (done : jb.transfer fuel (.put a) = some (next, events)) : Live cap n next (log ++ events) := by
  obtain rfl := l.frameSize
  obtain ⟨first,kept⟩ := steadyRound l.sound l.listSize l.tracks steady
  have positive : 0 < toInt32 (jb.framelist.putAt a.seq (a.kept jb.frameSize)).2.maxCount := by
    rw [kept,l.listCap]
    exact l.positive
  have same : (jb.framelist.putAt a.seq (a.kept jb.frameSize)).2.maxCount = jb.maxCount := by
    rw [kept,l.listCap,l.capacity]
  unfold Jbuf.transfer at done
  dsimp only at done
  split at done
  · simp at done
  · next status last put =>
    obtain ⟨rfl,rfl⟩ := Prod.mk.inj (Option.some.inj done)
    obtain ⟨mid,room,ready,unchanged,outcome⟩ := putFrame3Inv put
    obtain ⟨settled,round,listCap,capacity,size⟩ := @makeRoomRound fuel jb.frameSize
      { jb with framelist := (jb.framelist.putAt a.seq (a.kept jb.frameSize)).2 } a log _ _ positive same first room
    have live : Live cap jb.frameSize mid (log ++ if status = .success then [.accepted a] else []) :=
      { sound := round.sound
        positive := l.positive
        capacity := capacity.trans l.capacity
        listCap := (listCap.trans kept).trans l.listCap
        frameSize := size.trans l.frameSize
        listSize := round.frameSize
        tracks := by
          have tracked := round.settled settled
          cases accepted : decide (status = .success) with
          | true =>
            rw [if_pos (of_decide_eq_true accepted)] at tracked ⊢
            exact tracked
          | false =>
            rw [if_neg (of_decide_eq_false accepted)] at tracked ⊢
            rw [List.append_nil]
            exact tracked }
    have steady := unchanged.follows live.sound
    rcases outcome with plain | updated
    · rw [show last = ready from plain]
      exact steady.live live
    · rw [show last = ready.update .put from updated]
      exact (steady.trans (updateFollows steady.list.sound .put)).live live

theorem headOutputDelivers (s : Sound fl) (pos : 0 < fl.size)
    (t : Tracks n fl.window fl.origin log) {prev : Bool} (normal : (fl.headOutput maxSize prev).type = .normal) :
    Tracks n fl.popHead.window fl.popHead.origin (log ++ [.delivered ⟨maxSize,fl.headOutput maxSize prev⟩]) := by
  cases prev with
  | true => simp [FrameList.headOutput] at normal
  | false =>
    have stored : fl.frameType fl.head = .normal := by
      by_contra other
      simp [FrameList.headOutput,other] at normal
    have cell : fl.cell fl.head = .frame ⟨(fl.content fl.head).take (fl.contentLen fl.head),
        fl.bitInfo fl.head,fl.ts fl.head⟩ (fl.contentLen fl.head) := by
      unfold FrameList.cell
      rw [stored]
    rw [windowHead s pos,cell,← popHeadWindow s pos] at t
    refine t.deliver rfl ?_ rfl rfl rfl
    simp [FrameList.headOutput,List.take_take]

theorem getCases {next : FrameList} (s : Sound fl)
    (enough : fl.size < fuel) {res : Option Output} (found : fl.get maxSize fuel = some (res, next)) :
    (res = none ∧ Keeps fl next) ∨
      ∃ prev mid, Keeps fl mid ∧ 0 < mid.size ∧ res = some (mid.headOutput maxSize prev) ∧ next = mid.popHead := by
  unfold FrameList.get at found
  split at found
  · obtain ⟨rfl,rfl⟩ := Prod.mk.inj (Option.some.inj found)
    exact .inl ⟨rfl,.refl s⟩
  · obtain ⟨⟨prev,mid⟩,skipped,spec⟩ := skipDiscardedSpec s enough false
    rw [skipped] at found
    dsimp only at found
    split at found
    · obtain ⟨rfl,rfl⟩ := Prod.mk.inj (Option.some.inj found)
      exact .inl ⟨rfl,skipKeeps spec⟩
    · next occupied =>
      obtain ⟨rfl,rfl⟩ := Prod.mk.inj (Option.some.inj found)
      exact .inr ⟨prev,mid,skipKeeps spec,Nat.pos_of_ne_zero occupied,rfl,rfl⟩

theorem Live.withList (l : Live cap n jb log)
    {framelist : FrameList} (k : Keeps jb.framelist framelist) : Live cap n { jb with framelist } log :=
  Follows.live ⟨k,rfl,rfl⟩ l

theorem getLive (l : Live cap n jb log) (enough : cap < fuel)
    (done : jb.transfer fuel (.get maxSize) = some (next, events)) : Live cap n next (log ++ events) := by
  have bound : jb.framelist.size < fuel := by
    have := l.sound.sizeLe
    rw [l.listCap] at this
    omega
  unfold Jbuf.transfer at done
  dsimp only at done
  split at done
  · simp at done
  · next out last read =>
    obtain ⟨rfl,rfl⟩ := Prod.mk.inj (Option.some.inj done)
    obtain ⟨framelist,ready,same,rfl,outcome⟩ := getFrame3Inv read
    have listed : Live cap n { jb with framelist }
        (log ++ if out.type = .normal then [.delivered ⟨maxSize,out⟩] else []) := by
      rcases outcome with ⟨rfl,other⟩ | ⟨found,other⟩ | found
      · rw [if_neg other,List.append_nil]
        exact l
      · rw [if_neg other,List.append_nil]
        rcases getCases l.sound bound found with ⟨_,kept⟩ | ⟨_,_,_,_,bad,_⟩
        · exact l.withList kept
        · simp at bad
      · rcases getCases l.sound bound found with ⟨bad,_⟩ | ⟨prev,mid,kept,occupied,res,rfl⟩
        · simp at bad
        · obtain rfl := Option.some.inj res
          have skipped := l.withList kept
          have popped := skipped.withList (popHeadKeeps kept.sound occupied)
          by_cases normal : (mid.headOutput maxSize prev).type = .normal
          · rw [if_pos normal]
            exact { popped with tracks := headOutputDelivers kept.sound occupied skipped.tracks normal }
          · rw [if_neg normal,List.append_nil]
            exact popped
    have first := same.follows listed.sound
    exact (first.trans (updateFollows first.list.sound .get)).live listed

/- A capacity of zero, or one that is no positive int, lets nothing in. -/
structure Shut (fl : FrameList) : Prop where
  empty : fl.size = 0
  cap : toInt32 fl.maxCount ≤ 0

theorem Shut.removeHead (h : Shut fl) (count : Nat) : fl.removeHead count = (0, fl) := by
  have none : (if count > fl.size then fl.size else count) = 0 := by
    rw [h.empty]
    split <;> omega
  unfold FrameList.removeHead
  simp [none]

theorem Shut.discard (h : Shut fl) (index : Int) : (fl.discard index).2 = fl := by
  unfold FrameList.discard
  rw [h.empty,if_neg (by omega)]

theorem Shut.putAt (h : Shut fl) (index : Int) (frame : Frame) :
    (fl.putAt index frame).1 ≠ .success ∧ Shut (fl.putAt index frame).2 := by
  have adopted : ∀ (base : FrameList) (distance : Int), Shut base →
      base.adopt index distance = ({ base with origin := index }, 0) :=
    fun base distance shut => if_pos shut.empty
  have full : ∀ base : FrameList, Shut base → base.accept index 0 = none := by
    intro base shut
    unfold FrameList.accept
    rw [if_pos shut.cap,if_neg (by simp [maxDropout])]
  unfold FrameList.putAt
  split
  · exact ⟨by simp,h⟩
  · cases based : fl.rebase index with
    | none => exact ⟨by simp,h⟩
    | some pair =>
      obtain ⟨base,distance⟩ := pair
      have shut : Shut base := by
        unfold FrameList.rebase at based
        dsimp only at based
        split at based
        · split at based
          · simp at based
          · split at based
            · obtain ⟨rfl,_⟩ := Prod.mk.inj (Option.some.inj based)
              exact ⟨h.empty,h.cap⟩
            · obtain ⟨rfl,_⟩ := Prod.mk.inj (Option.some.inj based)
              exact ⟨rfl,h.cap⟩
        · obtain ⟨rfl,_⟩ := Prod.mk.inj (Option.some.inj based)
          exact h
      have moved : Shut { base with origin := index } := ⟨shut.empty,shut.cap⟩
      simp only [adopted base distance shut,full _ moved]
      exact ⟨by simp,moved⟩

theorem Shut.makeRoom (h : Shut jb.framelist) {seq : Int} {frame : Frame}
    {status : PutStatus} (refused : status ≠ .success) {out : PutStatus × Jbuf}
    (done : Jbuf.makeRoom seq frame fuel jb status = some out) : out.1 ≠ .success ∧ Shut out.2.framelist := by
  induction fuel generalizing jb status with
  | zero => simp [Jbuf.makeRoom] at done
  | succ fuel ih =>
    by_cases full : status = .tooMany
    · subst full
      simp only [makeRoomOnward,h.removeHead] at done
      have again := h.putAt seq frame
      exact @ih { jb with framelist := (jb.framelist.putAt seq frame).2 } again.2 _ again.1 done
    · rw [makeRoomStops _ _ _ full] at done
      rw [← Option.some.inj done]
      exact ⟨refused,h⟩

theorem Shut.update (h : Shut jb.framelist) (oper : LastOp) : Shut (jb.update oper).framelist := by
  obtain ⟨next,same,plain | discarded⟩ := updateCases jb oper
  · rw [plain,same.framelist]
    exact h
  · rw [discarded]
    have shut : Shut next.framelist := by
      rw [same.framelist]
      exact h
    obtain ⟨_,_,same | removed | ⟨index,marked⟩⟩ := runDiscardCases next
    · exact same.symm ▸ shut
    · rw [removed,shut.removeHead]
      exact shut
    · rw [marked,shut.discard]
      exact shut

theorem Shut.transfer (h : Shut jb.framelist) {t : Transfer}
    (done : jb.transfer fuel t = some (next, events)) : Shut next.framelist ∧ events = [] := by
  cases t with
  | put a =>
    unfold Jbuf.transfer at done
    dsimp only at done
    split at done
    · simp at done
    · next status last put =>
      obtain ⟨rfl,rfl⟩ := Prod.mk.inj (Option.some.inj done)
      obtain ⟨mid,room,ready,same,outcome⟩ := putFrame3Inv put
      have first := h.putAt a.seq ⟨a.frame.take jb.frameSize,a.bitInfo,a.ts⟩
      obtain ⟨refused,shut⟩ := @Shut.makeRoom _
        { jb with framelist := (jb.framelist.putAt a.seq ⟨a.frame.take jb.frameSize,a.bitInfo,a.ts⟩).2 }
        first.2 _ _ _ first.1 _ room
      have steady : Shut ready.framelist := by
        rw [same.framelist]
        exact shut
      refine ⟨?_,if_neg refused⟩
      rcases outcome with plain | updated
      · rw [show last = ready from plain]
        exact steady
      · rw [show last = ready.update .put from updated]
        exact steady.update .put
  | get maxSize =>
    unfold Jbuf.transfer at done
    dsimp only at done
    split at done
    · simp at done
    · next out last read =>
      obtain ⟨rfl,rfl⟩ := Prod.mk.inj (Option.some.inj done)
      obtain ⟨framelist,ready,same,rfl,outcome⟩ := getFrame3Inv read
      have nothing : jb.framelist.get maxSize fuel = some (none, jb.framelist) := if_pos h.empty
      have listed : framelist = jb.framelist ∧ out.type ≠ .normal := by
        rcases outcome with idle | ⟨found,other⟩ | found
        · exact idle
        · rw [nothing] at found
          exact ⟨(Prod.mk.inj (Option.some.inj found)).2.symm,other⟩
        · rw [nothing] at found
          simp at found
      refine ⟨Shut.update ?_ .get,if_neg listed.2⟩
      rw [same.framelist,listed.1]
      exact h

theorem shutTransfers {last : Jbuf} {log out : List Event}
    (h : Shut jb.framelist) (done : Jbuf.transfers fuel jb log calls = some (last, out)) : out = log := by
  induction calls generalizing jb log with
  | nil => exact (Prod.mk.inj (Option.some.inj done)).2.symm
  | cons t rest ih =>
    unfold Jbuf.transfers at done
    split at done
    · simp at done
    · next next events step =>
      obtain ⟨shut,rfl⟩ := h.transfer step
      rw [List.append_nil] at done
      exact ih shut done

theorem liveTransfers {last : Jbuf} {log out : List Event}
    (l : Live cap n jb log) (enough : cap < fuel) (steady : Jbuf.steady fuel jb calls = true)
    (done : Jbuf.transfers fuel jb log calls = some (last, out)) : Live cap n last out := by
  induction calls generalizing jb log with
  | nil =>
    obtain ⟨rfl,rfl⟩ := Prod.mk.inj (Option.some.inj done)
    exact l
  | cons t rest ih =>
    obtain ⟨calm,later⟩ := steadyCons steady
    unfold Jbuf.transfers at done
    split at done
    · simp at done
    · next next events step =>
      have live : Live cap n next (log ++ events) := by
        cases t with
        | put a => exact putLive l (calm a rfl) step
        | get => exact getLive l enough step
      exact ih live (later next events step) done

theorem emptyLogOk (bytesOf : Option Nat → Accepted → List UInt8) : DeliveryOk bytesOf [] :=
  ⟨List.Pairwise.nil,List.nodup_nil,fun before d after split => by simp at split⟩

theorem configuredList (frameSize ptime maxCount : UInt32) (settings : List Setting) :
    (configured frameSize ptime maxCount settings).framelist = FrameList.init frameSize.toNat maxCount.toNat ∧
      (configured frameSize ptime maxCount settings).maxCount = maxCount.toNat ∧
      (configured frameSize ptime maxCount settings).frameSize = frameSize.toNat := by
  have start : (create frameSize ptime maxCount).framelist = FrameList.init frameSize.toNat maxCount.toNat ∧
      (create frameSize ptime maxCount).maxCount = maxCount.toNat ∧
      (create frameSize ptime maxCount).frameSize = frameSize.toNat := ⟨rfl,rfl,rfl⟩
  unfold configured
  generalize create frameSize ptime maxCount = jb at start
  induction settings generalizing jb with
  | nil => exact start
  | cons setting rest ih =>
    refine ih _ ?_
    cases setting with
    | fixed =>
      unfold Jbuf.apply Jbuf.setFixed
      dsimp only
      split <;> exact start
    | adaptive =>
      unfold Jbuf.apply Jbuf.setAdaptive
      dsimp only
      split <;> exact start
    | discard => exact start

theorem liveReturns (l : Live cap n jb log) (small : cap < 2147483648) (enough : cap + 2 ≤ fuel)
    (steady : Jbuf.steady fuel jb calls = true) : ∃ out, Jbuf.transfers fuel jb log calls = some out := by
  induction calls generalizing jb log with
  | nil => exact ⟨_,rfl⟩
  | cons t rest ih =>
    obtain ⟨calm,later⟩ := steadyCons steady
    have step : ∃ next events, jb.transfer fuel t = some (next, events) := by
      cases t with
      | put a =>
        obtain ⟨out,found⟩ := putFrame3Returns l.sound (l.listCap.trans l.capacity.symm)
          (l.listSize.trans l.frameSize.symm) (by rw [l.capacity]; exact small) a.frame a.bitInfo a.seq a.ts
          (show 2 ≤ fuel by omega)
        unfold Jbuf.transfer
        dsimp only
        rw [found]
        exact ⟨_,_,rfl⟩
      | get maxSize =>
        have bound : jb.framelist.size < fuel := by
          have := l.sound.sizeLe
          rw [l.listCap] at this
          omega
        obtain ⟨res,found,_⟩ := getPreserved l.sound maxSize bound
        obtain ⟨out,read⟩ := getFrame3Returns found
        unfold Jbuf.transfer
        dsimp only
        rw [read]
        exact ⟨_,_,rfl⟩
    obtain ⟨next,events,found⟩ := step
    have live : Live cap n next (log ++ events) := by
      cases t with
      | put a => exact putLive l (calm a rfl) found
      | get => exact getLive l (by omega) found
    unfold Jbuf.transfers
    rw [found]
    exact ih live (later next events found)

theorem configuredLive {frameSize ptime maxCount : UInt32} (settings : List Setting)
    (positive : 0 < toInt32 maxCount.toNat) :
    Live maxCount.toNat frameSize.toNat (configured frameSize ptime maxCount settings) [] := by
  obtain ⟨list,capacity,size⟩ := configuredList frameSize ptime maxCount settings
  have bound := toInt32Le maxCount.toNat
  have room : 0 < (FrameList.init frameSize.toNat maxCount.toNat).maxCount := by
    change 0 < maxCount.toNat
    omega
  refine ⟨?_,positive,capacity,?_,size,?_,?_⟩
  · rw [list]
    exact soundReset room _
  · rw [list]
    rfl
  · rw [list]
    rfl
  · rw [list]
    exact
      { stored := fun k f n found => by simp [FrameList.window,FrameList.init,FrameList.reset] at found
        seen := fun a member => by simp at member
        past := fun q member => by simp [deliveredSeqs] at member
        ok := emptyLogOk _ }

theorem deliveryInOrder (frameSize ptime maxCount : UInt32) (settings : List Setting) (calls : List Transfer)
    (fuel : Nat) (enough : maxCount.toNat + 2 ≤ fuel)
    (steady : Jbuf.steady fuel (configured frameSize ptime maxCount settings) calls = true) :
    (∀ last log,
      Jbuf.transfers fuel (configured frameSize ptime maxCount settings) [] calls = some (last, log) →
        DeliveryOk (cutBytes frameSize.toNat) log) ∧
    (1 ≤ maxCount.toNat → maxCount.toNat < 2 ^ 31 → ∃ last log,
      Jbuf.transfers fuel (configured frameSize ptime maxCount settings) [] calls = some (last, log)) := by
  constructor
  · intro last log done
    by_cases positive : 0 < toInt32 maxCount.toNat
    · exact (liveTransfers (configuredLive settings positive) (by omega) steady done).tracks.ok
    · have shut : Shut (configured frameSize ptime maxCount settings).framelist := by
        rw [(configuredList frameSize ptime maxCount settings).1]
        exact ⟨rfl,Int.not_lt.mp positive⟩
      rw [shutTransfers shut done]
      exact emptyLogOk _
  · intro low small
    have positive : 0 < toInt32 maxCount.toNat := by
      rw [toInt32Small small]
      omega
    obtain ⟨⟨last,log⟩,done⟩ := liveReturns (configuredLive settings positive) small enough steady
    exact ⟨last,log,done⟩

/- Frame 7 overtakes frame 6, and frame 5 comes twice. -/
def reordered : List Transfer :=
  [.put ⟨5,[1,2],3,40⟩,.put ⟨7,[4],0,60⟩,.put ⟨6,[3],0,50⟩,.put ⟨5,[9],0,40⟩,
    .get none,.get (some 8),.get none]

theorem reorderedDelivered :
    (∀ last log, Jbuf.transfers 6 (configured 2 20 4 [.adaptive 0 0 2]) [] reordered = some (last, log) →
      DeliveryOk (cutBytes 2) log) ∧
    (1 ≤ (4 : UInt32).toNat → (4 : UInt32).toNat < 2 ^ 31 → ∃ last log,
      Jbuf.transfers 6 (configured 2 20 4 [.adaptive 0 0 2]) [] reordered = some (last, log)) :=
  deliveryInOrder 2 20 4 [.adaptive 0 0 2] reordered 6 (by decide) (by decide)

/- A frame longer than the buffer's frame size is cut when it is put. -/
def oversized : Accepted := ⟨5,[1,2],0,40⟩

def oversizedLog : List Event :=
  [.accepted oversized,
    .delivered ⟨none,{ type := .normal, bytes := [1], size := 1, bitInfo := some 0, ts := some 40, seq := some 5 }⟩]

theorem oversizedTruncated :
    Jbuf.steady 6 (configured 1 20 4 [.adaptive 0 0 2]) [.put oversized,.get none] = true ∧
    (Jbuf.transfers 6 (configured 1 20 4 [.adaptive 0 0 2]) [] [.put oversized,.get none]).map (·.2) =
      some oversizedLog ∧ ¬DeliveryOk (fun _ a => a.frame) oversizedLog := by
  refine ⟨by decide,by decide,fun ok => ?_⟩
  obtain ⟨a,member,_,bytes,_⟩ := ok.faithful [.accepted oversized] _ [] rfl
  rw [Event.accepted.inj (List.mem_singleton.mp member)] at bytes
  simp [oversized] at bytes

end Pjproject.Media
