import Pjproject.JbufRoom

/-! The burst level and the adaptive prefetch: the effective level stays under the levels that were observed, and the
prefetch between its bounds. -/
namespace Pjproject.Media

structure Gauge where
  level : Int
  maxHistLevel : Int
  stableHist : Nat
  effLevel : Int
  maxBurst : Int
  maxCount : Nat
  initPrefetch : Int
  minPrefetch : Int
  maxPrefetch : Int
  prefetch : Int
  lastOp : LastOp
  status : Status
  initCycleCnt : Nat
  deriving DecidableEq

def Jbuf.gauge (jb : Jbuf) : Gauge :=
  ⟨jb.level,jb.maxHistLevel,jb.stableHist,jb.effLevel,jb.maxBurst,jb.maxCount,jb.initPrefetch,jb.minPrefetch,
    jb.maxPrefetch,jb.prefetch,jb.lastOp,jb.status,jb.initCycleCnt⟩

/- The buffer in which a get computes the jitter, when it does. -/
def Jbuf.atGet (jb : Jbuf) : Jbuf := (Jbuf.switchOp { jb with level := jb.level + 1 } .get).1

def Jbuf.observed (jb : Jbuf) : Option Int :=
  if jb.lastOp ≠ .get ∧ (Jbuf.switchOp { jb with level := jb.level + 1 } .get).2 ∧
      jb.atGet.level ≤ jb.atGet.maxBurst then
    some jb.atGet.level
  else none

def Jbuf.ceiling (jb : Jbuf) : Int := toInt32 (jb.maxCount * 4 / 5 % 4294967296)

def Jbuf.sees (jb : Jbuf) : Act → List Int
  | .call (.get _) => (jb.observed.map (min · jb.ceiling)).toList
  | _ => []

def Jbuf.watched (fuel : Nat) : Jbuf → List Int → List Act → Option (Jbuf × List Int)
  | jb, seen, [] => some (jb, seen)
  | jb, seen, a :: rest => (jb.act fuel a).bind fun next => Jbuf.watched fuel next (jb.sees a ++ seen) rest

/- The highest level of the run, zero before the first. -/
def highest (seen : List Int) : Int := seen.foldr max 0

def FitsInt (x : Int) : Prop := -2147483648 ≤ x ∧ x < 2147483648

/- The values jbuf_calculate_jitter computes are ints; its divisors are three and five. -/
structure JitterExact (jb : Jbuf) : Prop where
  hist : FitsInt (max jb.maxHistLevel jb.level)
  stable : FitsInt (jb.stableHist + 1)
  ceiling : jb.ceiling = jb.maxCount * 4 / 5
  fall : jb.level < jb.effLevel →
    FitsInt (jb.effLevel - max jb.maxHistLevel jb.level) ∧
      FitsInt ((jb.effLevel - max jb.maxHistLevel jb.level).tdiv 3) ∧
      0 ≤ jb.effLevel - max 1 ((jb.effLevel - max jb.maxHistLevel jb.level).tdiv 3)

section Invariant

theorem thirdBetween (x : Int) : x.tdiv 3 ≤ max 0 x ∧ min 0 x ≤ x.tdiv 3 := by
  rcases Int.le_total 0 x with low | high
  · rw [Int.tdiv_eq_ediv_of_nonneg low]
    omega
  · obtain ⟨y,rfl⟩ : ∃ y, x = -y := ⟨-x,by omega⟩
    rw [Int.neg_tdiv,Int.tdiv_eq_ediv_of_nonneg (by omega)]
    omega

structure Steady (g : Gauge) (seen : List Int) : Prop where
  capacity : g.maxCount < 2147483648
  burst : 0 ≤ g.maxBurst ∧ g.maxBurst < 2147483648
  level : 0 ≤ g.level
  hist : 0 ≤ g.maxHistLevel ∧ g.maxHistLevel < 2147483648
  histSeen : min g.maxHistLevel (g.maxCount * 4 / 5 : Nat) ≤ highest seen
  eff : 0 ≤ g.effLevel ∧ g.effLevel ≤ (g.maxCount * 4 / 5 : Nat)
  effSeen : g.effLevel ≤ highest seen
  stable : g.stableHist ≤ stableHistoryLimit

theorem highestNonneg (seen : List Int) : 0 ≤ highest seen := by
  induction seen with
  | nil => exact le_refl 0
  | cons l seen ih => exact le_trans ih (le_max_right _ _)

theorem ceilingEq {jb : Jbuf} (small : jb.maxCount < 2147483648) : jb.ceiling = (jb.maxCount * 4 / 5 : Nat) := by
  unfold Jbuf.ceiling
  rw [Nat.mod_eq_of_lt (by omega)]
  exact toInt32Small (by omega)

variable {jb : Jbuf} {seen : List Int}

theorem jitterExact (h : Steady jb.gauge seen) (small : jb.level ≤ jb.maxBurst) : JitterExact jb := by
  obtain ⟨capacity,burst,level,hist,histSeen,eff,effSeen,stable⟩ := h
  simp only [Jbuf.gauge,stableHistoryLimit] at *
  have bound : max jb.maxHistLevel jb.level < 2147483648 := by omega
  have low : 0 ≤ max jb.maxHistLevel jb.level := by omega
  refine ⟨⟨by omega,bound⟩,⟨by omega,by omega⟩,?_,fun fall => ?_⟩
  · rw [ceilingEq capacity]
    push_cast
    rfl
  · generalize max jb.maxHistLevel jb.level = top at bound low
    have third := thirdBetween (jb.effLevel - top)
    exact ⟨⟨by omega,by omega⟩,⟨by omega,by omega⟩,by omega⟩

theorem Steady.noted (h : Steady jb.gauge seen) (small : jb.level ≤ jb.maxBurst) :
    Steady { jb.gauge with maxHistLevel := max jb.maxHistLevel jb.level } (min jb.level jb.ceiling :: seen) := by
  have ceiling := ceilingEq h.capacity
  obtain ⟨capacity,burst,level,hist,histSeen,eff,effSeen,stable⟩ := h
  simp only [Jbuf.gauge] at *
  have here : min jb.level jb.ceiling ≤ highest (min jb.level jb.ceiling :: seen) := le_max_left _ _
  have before : highest seen ≤ highest (min jb.level jb.ceiling :: seen) := le_max_right _ _
  rw [ceiling] at here before ⊢
  have bounds : 0 ≤ max jb.maxHistLevel jb.level ∧ max jb.maxHistLevel jb.level < 2147483648 := by omega
  have seen : min (max jb.maxHistLevel jb.level) (jb.maxCount * 4 / 5 : Nat) ≤
      highest (min jb.level (jb.maxCount * 4 / 5 : Nat) :: seen) := by omega
  exact ⟨capacity,burst,level,bounds,seen,eff,le_trans effSeen before,stable⟩

variable {g : Gauge} {seq : Int} {fuel : Nat} {out : PutStatus × Jbuf} {next : Jbuf}

theorem Steady.fallen (h : Steady g seen) {eff prefetch : Int} (low : 0 ≤ eff) (less : eff ≤ g.effLevel) :
    Steady { g with effLevel := eff, prefetch := prefetch, maxHistLevel := 0, stableHist := 0 } seen :=
  { h with
    hist := by simp
    histSeen := by
      have none := highestNonneg seen
      simp only
      omega
    eff := ⟨low,le_trans less h.eff.2⟩
    effSeen := le_trans less h.effSeen
    stable := Nat.zero_le _ }

theorem Steady.followed (h : Steady g seen) {prefetch : Int} : Steady { g with
      effLevel := min g.maxHistLevel (g.maxCount * 4 / 5 : Nat), prefetch := prefetch, stableHist := 0 } seen :=
  { h with
    eff := ⟨le_min h.hist.1 (Int.natCast_nonneg _),min_le_right _ _⟩
    effSeen := h.histSeen
    stable := Nat.zero_le _ }

theorem Steady.settled (h : Steady g seen) {n : Nat} (few : n ≤ stableHistoryLimit) :
    Steady { g with stableHist := n } seen :=
  { h with stable := few }

theorem Steady.calculateJitter (h : Steady jb.gauge seen) (small : jb.level ≤ jb.maxBurst) :
    Steady jb.calculateJitter.gauge (min jb.level jb.ceiling :: seen) := by
  have noted := h.noted small
  have level : 0 ≤ jb.level := h.level
  have hist : 0 ≤ jb.maxHistLevel := h.hist.1
  have stable : jb.stableHist ≤ stableHistoryLimit := h.stable
  have ceiling := ceilingEq h.capacity
  unfold Jbuf.calculateJitter
  dsimp only
  split
  · next falls =>
    unfold Jbuf.decreaseLevel
    dsimp only
    split
    · have bounds := thirdBetween (jb.effLevel - max jb.maxHistLevel jb.level)
      generalize (jb.effLevel - max jb.maxHistLevel jb.level).tdiv 3 = third at bounds
      have less : 0 ≤ jb.effLevel - (if third < 1 then 1 else third) ∧
          jb.effLevel - (if third < 1 then 1 else third) ≤ jb.effLevel := by
        split <;> omega
      exact noted.fallen less.1 less.2
    · next few => exact noted.settled (Nat.le_of_not_gt few)
  · split
    · have followed := fun prefetch => @Steady.followed _ _ noted prefetch
      unfold Jbuf.increaseLevel
      rw [show toInt32 (jb.maxCount * 4 / 5 % 4294967296) = (jb.maxCount * 4 / 5 : Nat) from ceiling]
      exact followed _
    · exact noted.settled (Nat.zero_le _)

theorem runDiscardGauge (jb : Jbuf) : jb.runDiscard.gauge = jb.gauge := by
  unfold Jbuf.runDiscard
  split
  · split
    · rfl
    · unfold Jbuf.discardStatic
      dsimp only
      split
      · generalize (if jb.framelist.origin < jb.discardRef then jb.framelist.origin else jb.discardRef) = ref
        split <;> rfl
      · rfl
    · unfold Jbuf.discardProgressive
      split
      · rfl
      · dsimp only
        split
        · rfl
        · unfold Jbuf.performDiscard
          dsimp only
          split <;> rfl
  · rfl

theorem Steady.switchOp (h : Steady jb.gauge seen) (oper : LastOp) : Steady (jb.switchOp oper).1.gauge seen := by
  have level : 0 ≤ min jb.level jb.maxBurst := le_min h.level h.burst.1
  unfold Jbuf.switchOp
  dsimp only
  split
  · split
    · exact { h with level := level }
    · exact { h with level := le_refl 0 }
  · exact { h with }

inductive PutUpdate (g last : Gauge) : Prop where
  | mk (level : Int) (op : LastOp) (cycles : Nat) (low : 0 ≤ g.level → 0 ≤ level)
      (same : last = { g with level := level, lastOp := op, initCycleCnt := cycles })

theorem updatePut (jb : Jbuf) : PutUpdate jb.gauge (jb.update .put).gauge := by
  unfold Jbuf.update
  split
  · unfold Jbuf.switchOp
    dsimp only
    cases waits : jb.status with
    | initializing =>
      simp only [reduceCtorEq,and_false,if_false,Bool.false_eq_true]
      exact .mk 0 .put (jb.initCycleCnt + 1) (fun _ => le_refl 0) (by simp [Jbuf.gauge,waits])
    | processing =>
      simp only [reduceCtorEq,false_and,if_false,if_true]
      rw [runDiscardGauge]
      exact .mk 0 .put jb.initCycleCnt (fun _ => le_refl 0) (by simp [Jbuf.gauge,waits])
  · rw [runDiscardGauge]
    exact .mk jb.level jb.lastOp jb.initCycleCnt id rfl

theorem PutUpdate.raised {last : Gauge} {more : Int} (low : 0 ≤ more)
    (update : PutUpdate { g with level := g.level + more } last) : PutUpdate g last := by
  cases update with
  | mk level op cycles kept same => exact .mk level op cycles (fun here => kept (Int.add_nonneg here low)) same

/- What an update at a get does to the levels, by the level it observes. -/
inductive GetUpdate (jb : Jbuf) : Option Int → Gauge → Prop where
  | again : GetUpdate jb none { jb.gauge with level := jb.level + 1 }
  | waits : GetUpdate jb none jb.atGet.gauge
  | skips : GetUpdate jb none { jb.atGet.gauge with level := 0 }
  | computes (bounded : jb.atGet.level ≤ jb.atGet.maxBurst) :
      GetUpdate jb (some jb.atGet.level) { jb.atGet.calculateJitter.gauge with level := 0 }

theorem getUpdate (jb : Jbuf) :
    GetUpdate jb jb.observed (Jbuf.update { jb with level := jb.level + 1 } .get).gauge := by
  by_cases same : jb.lastOp = .get
  · have observed : jb.observed = none := if_neg fun facts => facts.1 same
    have update : Jbuf.update { jb with level := jb.level + 1 } .get =
        Jbuf.runDiscard { jb with level := jb.level + 1 } := if_neg (not_not_intro same)
    rw [observed,update,runDiscardGauge]
    exact .again
  · cases goOn : (Jbuf.switchOp { jb with level := jb.level + 1 } .get).2 with
    | false =>
      have observed : jb.observed = none := if_neg fun facts => by simp [goOn] at facts
      have update : Jbuf.update { jb with level := jb.level + 1 } .get = jb.atGet := by
        unfold Jbuf.update
        rw [if_pos same]
        simp only [goOn]
        rfl
      rw [observed,update]
      exact .waits
    | true =>
      have update : Jbuf.update { jb with level := jb.level + 1 } .get =
          Jbuf.runDiscard { (if jb.atGet.level ≤ jb.atGet.maxBurst then jb.atGet.calculateJitter else jb.atGet) with
            level := 0 } := by
        unfold Jbuf.update
        rw [if_pos same]
        simp only [goOn,if_true,true_and]
        rfl
      rw [update,runDiscardGauge]
      by_cases bounded : jb.atGet.level ≤ jb.atGet.maxBurst
      · have observed : jb.observed = some jb.atGet.level := if_pos ⟨same,goOn,bounded⟩
        rw [observed,if_pos bounded]
        exact .computes bounded
      · have observed : jb.observed = none := if_neg fun facts => bounded facts.2.2
        rw [observed,if_neg bounded]
        exact .skips

theorem Steady.atGet (h : Steady jb.gauge seen) : Steady jb.atGet.gauge seen := by
  have level : 0 ≤ jb.level := h.level
  exact @Steady.switchOp { jb with level := jb.level + 1 } _ { h with level := Int.le_add_one level } .get

theorem GetUpdate.steady (h : Steady jb.gauge seen) {level : Option Int} (update : GetUpdate jb level g) :
    Steady g ((level.map (min · jb.atGet.ceiling)).toList ++ seen) := by
  cases update with
  | again =>
    have level : 0 ≤ jb.level := h.level
    exact { h with level := Int.le_add_one level }
  | waits => exact h.atGet
  | skips => exact { h.atGet with level := le_refl 0 }
  | computes bounded => exact { h.atGet.calculateJitter bounded with level := le_refl 0 }

theorem observedCongr {a b : Jbuf} (same : a.gauge = b.gauge) : a.observed = b.observed ∧ a.ceiling = b.ceiling := by
  obtain ⟨level,hist,stable,eff,burst,count,init,low,high,prefetch,op,status,cycle⟩ := Gauge.mk.inj same
  refine ⟨?_,by unfold Jbuf.ceiling; rw [count]⟩
  unfold Jbuf.observed Jbuf.atGet Jbuf.switchOp
  simp only [op,status,level,burst,cycle]
  cases b.status with
  | initializing => simp only; split <;> simp_all
  | processing => simp_all

theorem ceilingAtGet (jb : Jbuf) : jb.atGet.ceiling = jb.ceiling := by
  unfold Jbuf.atGet Jbuf.switchOp
  dsimp only
  split
  · split <;> rfl
  · rfl

theorem makeRoomGauge {frame : Frame} {status : PutStatus}
    (done : Jbuf.makeRoom seq frame fuel jb status = some out) : out.2.gauge = jb.gauge := by
  induction fuel generalizing jb status with
  | zero => simp [Jbuf.makeRoom] at done
  | succ fuel ih =>
    by_cases full : status = .tooMany
    · rw [full,makeRoomOnward] at done
      exact (ih done).trans rfl
    · have here : Jbuf.makeRoom seq frame (fuel + 1) jb status = some (status, jb) := if_neg full
      rw [← Option.some.inj (here.symm.trans done)]

theorem putUpdate {frame : List UInt8} {bitInfo : UInt32} {ts : UInt32}
    (done : jb.putFrame3 frame bitInfo seq ts fuel = some out) : PutUpdate jb.gauge out.2.gauge := by
  unfold Jbuf.putFrame3 at done
  dsimp only at done
  split at done
  · simp at done
  · next status mid room =>
    have same : mid.gauge = jb.gauge := (makeRoomGauge room).trans rfl
    rw [← same]
    split at done
    · rw [← Option.some.inj done]
      have more : 0 ≤ if toInt32 mid.framelist.effSize > toInt32 jb.framelist.effSize then
          toInt32 mid.framelist.effSize - toInt32 jb.framelist.effSize else 1 := by
        split <;> omega
      have updated := updatePut { mid with
        prefetching := if toInt32 mid.framelist.effSize ≥ mid.prefetch then false else mid.prefetching
        level := mid.level + if toInt32 mid.framelist.effSize > toInt32 jb.framelist.effSize then
          toInt32 mid.framelist.effSize - toInt32 jb.framelist.effSize else 1 }
      exact PutUpdate.raised more updated
    · rw [← Option.some.inj done]
      exact .mk mid.level mid.lastOp mid.initCycleCnt id rfl

theorem PutUpdate.steady {last : Gauge} (h : Steady g seen) (update : PutUpdate g last) : Steady last seen := by
  cases update with
  | mk level op cycles low same =>
    rw [same]
    exact { h with level := low h.level }

theorem getFrame3Gauge {maxSize : Option Nat} {out : Output}
    (done : jb.getFrame3 maxSize fuel = some (out, next)) :
    ∃ ready : Jbuf, ready.gauge = jb.gauge ∧ next = Jbuf.update { ready with level := ready.level + 1 } .get := by
  unfold Jbuf.getFrame3 at done
  dsimp only at done
  split at done
  · obtain ⟨_,rfl⟩ := Prod.mk.inj (Option.some.inj done)
    exact ⟨{ jb with empty := jb.empty + 1 },rfl,rfl⟩
  · split at done
    · simp at done
    · next framelist found =>
      obtain ⟨_,rfl⟩ := Prod.mk.inj (Option.some.inj done)
      refine ⟨_,?_,rfl⟩
      split <;> rfl
    · next framelist found =>
      obtain ⟨_,rfl⟩ := Prod.mk.inj (Option.some.inj done)
      exact ⟨{ jb with
          framelist
          prefetching := if jb.prefetch ≠ 0 then true else jb.prefetching
          empty := jb.empty + 1 },rfl,rfl⟩

theorem removeFrameGauge {frameCnt : Nat} {out : Nat × Jbuf} (done : jb.removeFrame frameCnt fuel = some out) :
    out.2.gauge = jb.gauge := by
  unfold Jbuf.removeFrame at done
  dsimp only at done
  split at done
  · simp at done
  · rw [← Option.some.inj done]
    rfl

theorem applyGauge (jb : Jbuf) (s : Setting) : (jb.apply s).gauge = { jb.gauge with
    initPrefetch := (jb.apply s).initPrefetch, minPrefetch := (jb.apply s).minPrefetch,
    maxPrefetch := (jb.apply s).maxPrefetch, prefetch := (jb.apply s).prefetch } := by
  cases s with
  | fixed =>
    unfold Jbuf.apply Jbuf.setFixed
    dsimp only
    split <;> rfl
  | adaptive =>
    unfold Jbuf.apply Jbuf.setAdaptive
    dsimp only
    split <;> rfl
  | discard => rfl

theorem setPtimeDone {ptime : UInt32} (done : jb.act fuel (.ptime ptime) = some next) :
    ptime ≠ 0 ∧ jb.setPtime ptime.toNat = next := by
  change (if ptime = 0 then none else some (jb.setPtime ptime.toNat)) = some next at done
  split at done
  · simp at done
  · next divisor => exact ⟨divisor,Option.some.inj done⟩

theorem Steady.act (h : Steady jb.gauge seen) {a : Act} (done : jb.act fuel a = some next) :
    Steady next.gauge (jb.sees a ++ seen) := by
  cases a with
  | call c =>
    cases c with
    | put =>
      obtain ⟨out,found,rfl⟩ := Option.map_eq_some_iff.mp done
      exact (putUpdate found).steady h
    | get =>
      obtain ⟨⟨out,last⟩,found,rfl⟩ := Option.map_eq_some_iff.mp done
      obtain ⟨ready,same,rfl⟩ := getFrame3Gauge found
      have updated := (getUpdate ready).steady (same ▸ h)
      rw [(observedCongr same).1,ceilingAtGet,(observedCongr same).2] at updated
      exact updated
    | peek =>
      obtain ⟨out,_,rfl⟩ := Option.map_eq_some_iff.mp done
      exact h
    | remove =>
      obtain ⟨out,found,rfl⟩ := Option.map_eq_some_iff.mp done
      exact removeFrameGauge found ▸ h
    | reset =>
      rw [← Option.some.inj done]
      exact
        { h with
          level := le_refl 0
          hist := by simp [Jbuf.gauge,Jbuf.reset]
          histSeen := le_trans (min_le_left _ _) (highestNonneg seen)
          stable := Nat.zero_le _ }
  | setting =>
    rw [← Option.some.inj done,applyGauge]
    exact { h with }
  | ptime ptime =>
    obtain ⟨_,rfl⟩ := setPtimeDone done
    have capacity : jb.maxCount < 2147483648 := h.capacity
    have msec : maxBurstMsec / ptime.toNat ≤ 1000 := Nat.div_le_self _ _
    have small : max (maxBurstMsec / ptime.toNat) (jb.maxCount * 3 / 4) < 2147483648 := by omega
    have burst : (jb.setPtime ptime.toNat).maxBurst =
        (max (maxBurstMsec / ptime.toNat) (jb.maxCount * 3 / 4) : Nat) := by
      unfold Jbuf.setPtime
      dsimp only
      rw [Nat.mod_eq_of_lt (by omega)]
      exact toInt32Small small
    have bounds : 0 ≤ (jb.setPtime ptime.toNat).maxBurst ∧ (jb.setPtime ptime.toNat).maxBurst < 2147483648 := by
      rw [burst]
      omega
    exact { h with burst := bounds }

/- A list that lets nothing in: no put counts, and at most the first get changes the operation. -/
structure Calm (g : Gauge) : Prop where
  eff : g.effLevel = 0
  status : g.status = .initializing
  op : g.lastOp = .init ∧ g.initCycleCnt = 0 ∨ g.lastOp = .get

theorem Calm.update (h : Calm jb.gauge) :
    jb.observed = none ∧ Calm (Jbuf.update { jb with level := jb.level + 1 } .get).gauge := by
  obtain ⟨eff,status,op⟩ := h
  simp only [Jbuf.gauge] at eff status op
  rcases op with ⟨op,cycles⟩ | op
  · have switched : Jbuf.switchOp { jb with level := jb.level + 1 } .get =
        ({ jb with lastOp := .get, initCycleCnt := 1, level := 0 }, false) := by
      unfold Jbuf.switchOp
      simp [status,cycles,initCycle]
    have observed : jb.observed = none := by
      unfold Jbuf.observed
      rw [switched]
      simp
    have update : Jbuf.update { jb with level := jb.level + 1 } .get =
        { jb with lastOp := .get, initCycleCnt := 1, level := 0 } := by
      unfold Jbuf.update
      rw [switched]
      simp [op]
    rw [update]
    exact ⟨observed,eff,status,.inr rfl⟩
  · have update : Jbuf.update { jb with level := jb.level + 1 } .get =
        Jbuf.runDiscard { jb with level := jb.level + 1 } := if_neg (not_not_intro op)
    rw [update,runDiscardGauge]
    exact ⟨if_neg fun facts => facts.1 op,eff,status,.inr op⟩

theorem Calm.put (h : Calm jb.gauge) (shut : Shut jb.framelist) {frame : List UInt8} {bitInfo : UInt32}
    {ts : UInt32} (done : jb.putFrame3 frame bitInfo seq ts fuel = some out) : Calm out.2.gauge := by
  have first := shut.putAt seq ⟨frame.take jb.frameSize,bitInfo,ts⟩
  unfold Jbuf.putFrame3 at done
  dsimp only at done
  split at done
  · simp at done
  · next status mid room =>
    have refused : status ≠ .success := (@Shut.makeRoom _
      { jb with framelist := (jb.framelist.putAt seq ⟨frame.take jb.frameSize,bitInfo,ts⟩).2 }
      first.2 _ _ _ first.1 _ room).1
    have same : mid.gauge = jb.gauge := (makeRoomGauge room).trans rfl
    rw [if_neg refused] at done
    rw [← Option.some.inj done]
    rw [← same] at h
    exact h

theorem Calm.act (h : Calm jb.gauge) (shut : Shut jb.framelist) {a : Act}
    (done : jb.act fuel a = some next) : Calm next.gauge ∧ jb.sees a = [] := by
  cases a with
  | call c =>
    cases c with
    | put =>
      obtain ⟨out,found,rfl⟩ := Option.map_eq_some_iff.mp done
      exact ⟨h.put shut found,rfl⟩
    | get =>
      obtain ⟨⟨out,last⟩,found,rfl⟩ := Option.map_eq_some_iff.mp done
      obtain ⟨ready,same,rfl⟩ := getFrame3Gauge found
      have updated := @Calm.update ready (same ▸ h)
      have observed : jb.observed = none := (observedCongr same).1.symm.trans updated.1
      exact ⟨updated.2,by simp [Jbuf.sees,observed]⟩
    | peek =>
      obtain ⟨out,_,rfl⟩ := Option.map_eq_some_iff.mp done
      exact ⟨h,rfl⟩
    | remove =>
      obtain ⟨out,found,rfl⟩ := Option.map_eq_some_iff.mp done
      exact ⟨removeFrameGauge found ▸ h,rfl⟩
    | reset =>
      rw [← Option.some.inj done]
      exact ⟨⟨h.eff,rfl,.inl ⟨rfl,rfl⟩⟩,rfl⟩
  | setting =>
    rw [← Option.some.inj done,applyGauge]
    exact ⟨⟨h.eff,h.status,h.op⟩,rfl⟩
  | ptime =>
    obtain ⟨_,rfl⟩ := setPtimeDone done
    exact ⟨⟨h.eff,h.status,h.op⟩,rfl⟩

theorem maxCast (a b : Nat) : max (a : Int) (b : Int) = (max a b : Nat) := by omega

theorem createLevels (frameSize ptime maxCount : UInt32) : Steady (create frameSize ptime maxCount).gauge [] ∨
      Calm (create frameSize ptime maxCount).gauge ∧ Shut (create frameSize ptime maxCount).framelist := by
  by_cases cap : toInt32 maxCount.toNat ≤ 0
  · exact .inr ⟨⟨rfl,rfl,.inl ⟨rfl,rfl⟩⟩,rfl,cap⟩
  · have capacity : maxCount.toNat < 2147483648 := by
      have word := maxCount.toNat_lt
      unfold toInt32 at cap
      split at cap <;> omega
    have msec : maxBurstMsec / ptime.toNat ≤ 1000 := Nat.div_le_self _ _
    have burst : (create frameSize ptime maxCount).maxBurst =
        (max (maxBurstMsec / ptime.toNat) (maxCount.toNat * 3 % 4294967296 / 4) : Nat) := maxCast _ _
    have bounds : 0 ≤ (create frameSize ptime maxCount).maxBurst ∧
        (create frameSize ptime maxCount).maxBurst < 2147483648 := by
      rw [burst]
      omega
    exact .inl
      { capacity := capacity
        burst := bounds
        level := le_refl 0
        hist := ⟨le_refl 0,show (0 : Int) < 2147483648 by decide⟩
        histSeen := min_le_left _ _
        eff := ⟨le_refl 0,Int.natCast_nonneg _⟩
        effSeen := le_refl 0
        stable := Nat.zero_le _ }

theorem Steady.watched {acts : List Act} {last : Jbuf} {later : List Int} (h : Steady jb.gauge seen)
    (done : jb.watched fuel seen acts = some (last, later)) : Steady last.gauge later := by
  induction acts generalizing jb seen with
  | nil =>
    obtain ⟨rfl,rfl⟩ := Prod.mk.inj (Option.some.inj done)
    exact h
  | cons a rest ih =>
    obtain ⟨next,first,onward⟩ := Option.bind_eq_some_iff.mp done
    exact ih (h.act first) onward

theorem Calm.watched {acts : List Act} {last : Jbuf} {later : List Int} (h : Calm jb.gauge)
    (shut : Shut jb.framelist) (done : jb.watched fuel seen acts = some (last, later)) :
    Calm last.gauge ∧ Shut last.framelist ∧ later = seen := by
  induction acts generalizing jb with
  | nil =>
    obtain ⟨rfl,rfl⟩ := Prod.mk.inj (Option.some.inj done)
    exact ⟨h,shut,rfl⟩
  | cons a rest ih =>
    obtain ⟨next,first,onward⟩ := Option.bind_eq_some_iff.mp done
    obtain ⟨calm,unseen⟩ := h.act shut first
    rw [unseen] at onward
    exact ih calm (shut.act first) onward

end Invariant

section Adaptive

structure Between (low high : Int) (g : Gauge) : Prop where
  least : g.minPrefetch = low
  most : g.maxPrefetch = high
  prefetch : low ≤ g.prefetch ∧ g.prefetch ≤ high

variable {jb : Jbuf} {low high : Int}

theorem Between.calculateJitter (h : Between low high jb.gauge) : Between low high jb.calculateJitter.gauge := by
  obtain ⟨rfl,rfl,bounds⟩ := h
  simp only [Jbuf.gauge] at bounds ⊢
  unfold Jbuf.calculateJitter
  dsimp only
  split
  · unfold Jbuf.decreaseLevel
    dsimp only
    split
    · refine ⟨rfl,rfl,?_⟩
      simp only
      generalize jb.effLevel - _ = eff
      split
      · split <;> split <;> omega
      · exact bounds
    · exact ⟨rfl,rfl,bounds⟩
  · split
    · unfold Jbuf.increaseLevel
      refine ⟨rfl,rfl,?_⟩
      simp only
      generalize min _ (toInt32 _) = eff
      split
      · split <;> split <;> omega
      · exact bounds
    · exact ⟨rfl,rfl,bounds⟩

theorem Between.atGet (h : Between low high jb.gauge) : Between low high jb.atGet.gauge := by
  unfold Jbuf.atGet Jbuf.switchOp
  dsimp only
  split
  · split <;> exact ⟨h.least,h.most,h.prefetch⟩
  · exact ⟨h.least,h.most,h.prefetch⟩

theorem GetUpdate.between (h : Between low high jb.gauge) {level : Option Int} {g : Gauge}
    (update : GetUpdate jb level g) : Between low high g := by
  cases update with
  | again => exact ⟨h.least,h.most,h.prefetch⟩
  | waits => exact h.atGet
  | skips => exact { h.atGet with }
  | computes => exact { h.atGet.calculateJitter with }

theorem PutUpdate.between {g last : Gauge} (h : Between low high g) (update : PutUpdate g last) :
    Between low high last := by
  cases update with
  | mk level op cycles kept same =>
    rw [same]
    exact ⟨h.least,h.most,h.prefetch⟩

def Act.putOrGet : Act → Bool
  | .call (.put ..) => true
  | .call (.get _) => true
  | _ => false

theorem Between.act (h : Between low high jb.gauge) {next : Jbuf} {fuel : Nat} {a : Act} (kind : a.putOrGet)
    (done : jb.act fuel a = some next) : Between low high next.gauge := by
  cases a with
  | call c =>
    cases c with
    | put =>
      obtain ⟨out,found,rfl⟩ := Option.map_eq_some_iff.mp done
      exact (putUpdate found).between h
    | get =>
      obtain ⟨⟨out,last⟩,found,rfl⟩ := Option.map_eq_some_iff.mp done
      obtain ⟨ready,same,rfl⟩ := getFrame3Gauge found
      exact (getUpdate ready).between (same ▸ h)
    | peek => simp [Act.putOrGet] at kind
    | remove => simp [Act.putOrGet] at kind
    | reset => simp [Act.putOrGet] at kind
  | setting => simp [Act.putOrGet] at kind
  | ptime => simp [Act.putOrGet] at kind

theorem Between.watched {fuel : Nat} {acts : List Act} {seen later : List Int} {last : Jbuf}
    (h : Between low high jb.gauge) (kinds : ∀ a ∈ acts, a.putOrGet)
    (done : jb.watched fuel seen acts = some (last, later)) : Between low high last.gauge := by
  induction acts generalizing jb seen with
  | nil =>
    obtain ⟨rfl,rfl⟩ := Prod.mk.inj (Option.some.inj done)
    exact h
  | cons a rest ih =>
    obtain ⟨next,first,onward⟩ := Option.bind_eq_some_iff.mp done
    obtain ⟨kind,others⟩ := List.forall_mem_cons.mp kinds
    exact ih (h.act kind first) others onward

theorem setAdaptiveBetween {init least most : Nat} (capacity : jb.maxCount < 2147483648)
    (ordered : least ≤ init ∧ init ≤ most) (room : most ≤ jb.maxCount * 4 / 5) :
    Between least most (jb.setAdaptive init least most).gauge := by
  have valid : least ≤ most ∧ init ≤ most ∧ most ≤ jb.maxCount := by omega
  unfold Jbuf.setAdaptive
  rw [if_pos valid]
  have smallInit : toInt32 init = init := toInt32Small (by omega)
  have smallLeast : toInt32 least = least := toInt32Small (by omega)
  have smallMost : toInt32 most = most := toInt32Small (by omega)
  refine ⟨smallLeast,smallMost,?_⟩
  simp only [Jbuf.gauge,smallInit]
  omega

/- Any buffer, set adaptive after any acts, and any puts and gets: once a level was seen the prefetch is between its
bounds, and the next level that is seen is computed without overflow. -/
theorem adaptiveBounds {frameSize ptime maxCount : UInt32} {fuel : Nat} {before : List Act} {start : Jbuf}
    {early : List Int}
    (prepared : (create frameSize ptime maxCount).watched fuel [] before = some (start, early))
    {init least most : Nat} (ordered : least ≤ init ∧ init ≤ most) (room : most ≤ start.maxCount * 4 / 5)
    {calls : List Act} (kinds : ∀ a ∈ calls, a.putOrGet) {last : Jbuf} {seen : List Int}
    (done : (start.setAdaptive init least most).watched fuel early calls = some (last, seen)) :
    (0 ≤ last.effLevel ∧ last.effLevel ≤ highest seen) ∧
      (early.length < seen.length → least ≤ last.prefetch ∧ last.prefetch ≤ most) ∧
      (last.observed ≠ none → JitterExact last.atGet) := by
  have set : start.act fuel (.setting (.adaptive init least most)) = some (start.setAdaptive init least most) := rfl
  rcases createLevels frameSize ptime maxCount with fresh | ⟨fresh,closed⟩
  · have steady := fresh.watched prepared
    have levels := (steady.act set).watched done
    have between := (setAdaptiveBetween steady.capacity ordered room).watched kinds done
    have eff : 0 ≤ last.effLevel := levels.eff.1
    refine ⟨⟨eff,levels.effSeen⟩,fun _ => between.prefetch,fun sees => ?_⟩
    have bounded : last.atGet.level ≤ last.atGet.maxBurst := by
      by_contra exceeds
      exact sees (if_neg fun facts => exceeds facts.2.2)
    exact jitterExact levels.atGet bounded
  · obtain ⟨calm,shut,_⟩ := fresh.watched closed prepared
    obtain ⟨settled,_,unseen⟩ := (calm.act shut set).1.watched (shut.act set) done
    have level : last.effLevel = 0 := settled.eff
    refine ⟨⟨Int.le_of_eq level.symm,level ▸ highestNonneg seen⟩,fun more => ?_,fun sees => ?_⟩
    · rw [unseen] at more
      exact absurd more (Nat.lt_irrefl _)
    · exact absurd settled.update.1 sees

/- Rounds of two puts and two gets: after five of them the buffer measures bursts. -/
def bursts : Nat → List Act
  | 0 => []
  | n + 1 =>
    bursts n ++
      [.call (.put [1] 0 (2 * n) 0),.call (.put [1] 0 (2 * n + 1) 0),.call (.get none),.call (.get none)]

theorem burstsBounded : ∃ last seen,
    ((create 1 20 10).setAdaptive 1 1 4).watched 20 [] (bursts 6) = some (last, seen) ∧ 0 < seen.length ∧
      last.effLevel ≤ highest seen ∧ 1 ≤ last.prefetch ∧ last.prefetch ≤ 4 := by
  have kinds : ∀ a ∈ bursts 6, a.putOrGet := by decide
  have returns : (((create 1 20 10).setAdaptive 1 1 4).watched 20 [] (bursts 6)).isSome := by decide +kernel
  obtain ⟨⟨last,seen⟩,done⟩ := Option.isSome_iff_exists.mp returns
  have more : (((create 1 20 10).setAdaptive 1 1 4).watched 20 [] (bursts 6)).map (·.2) = some [2,2] := by
    decide +kernel
  rw [done] at more
  have sees : seen = [2,2] := Option.some.inj more
  have longer : 0 < seen.length := by simp [sees]
  have bounds := @adaptiveBounds 1 20 10 20 [] _ _ rfl 1 1 4 (by decide) (by decide) _ kinds _ _ done
  exact ⟨last,seen,done,longer,bounds.1.2,bounds.2.1 longer⟩

end Adaptive

end Pjproject.Media
