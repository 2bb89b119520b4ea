import Pjproject.SessionTimer

/-! Two sessions agree on the interval and on the refresher from the first success on, and stay agreed through every
transaction after it. -/
namespace Pjproject.SessTimer

section Settings

variable {s : Setting}

theorem leMax (a b : UInt32) : a ≤ max a b ∧ b ≤ max a b := by
  rw [UInt32.max_def]
  split
  · rename_i le
    exact ⟨le,UInt32.le_refl b⟩
  · rename_i gt
    exact ⟨UInt32.le_refl a,UInt32.le_of_lt (UInt32.not_le.mp gt)⟩

theorem Setting.Valid.long (valid : s.Valid) : absMinSe ≤ s.sessExpires := UInt32.le_trans valid.low valid.interval

theorem Setting.Valid.raise (valid : s.Valid) (minSe : UInt32) : (s.raise minSe).Valid := by
  have low := (leMax minSe s.minSe).2
  unfold Setting.raise
  dsimp only
  split
  · exact ⟨UInt32.le_trans valid.low low,UInt32.le_refl _⟩
  · rename_i enough
    exact ⟨UInt32.le_trans valid.low low,UInt32.not_lt.mp enough⟩

theorem Setting.Valid.acceptOwn (valid : s.Valid) : s.accept s.sessExpires = s := by
  have notSmall : ¬ (s.sessExpires < s.minSe ∧ absMinSe ≤ s.sessExpires) :=
    fun small => absurd small.1 (UInt32.not_lt.mpr valid.interval)
  unfold Setting.accept
  dsimp only
  rw [if_neg notSmall,if_pos ⟨UInt32.le_refl _,valid.interval⟩]

theorem refreshBeforeGiveUp {t u : Timer} (long : absMinSe ≤ t.setting.sessExpires)
    (same : u.setting.sessExpires = t.setting.sessExpires) : t.refreshDelay < u.giveUpDelay := by
  unfold Timer.refreshDelay Timer.giveUpDelay
  rw [same]
  generalize t.setting.sessExpires = se at long
  have bound : 90 ≤ se.toNat := UInt32.le_iff_toNat_le.mp long
  have third : (se - se / 3).toNat = se.toNat - se.toNat / 3 := by
    have part : (se / 3).toNat = se.toNat / 3 := UInt32.toNat_div se 3
    rw [UInt32.toNat_sub_of_le,part]
    rw [UInt32.le_iff_toNat_le,part]
    exact Nat.div_le_self _ _
  have half : (se / 2).toNat = se.toNat / 2 := by
    rw [UInt32.toNat_div]
    rfl
  rw [third,half]
  refine lt_of_lt_of_le ?_ (le_max_right _ _)
  omega

end Settings

section Refreshers

variable {t u : Timer}

def Timer.Started (t : Timer) : Prop := t.timer = some t.nextDelay

theorem startStarted (t : Timer) : t.start.Started := rfl

theorem asRefresherUac {r : Role} (named : t.refresher = some r) (role : t.role = .uac) :
    t.asRefresher = decide (r = .uac) := by
  unfold Timer.asRefresher
  rw [named,role]
  cases r with
  | uac => rfl
  | uas => rfl

theorem asRefresherUas {r : Role} (named : t.refresher = some r) (role : t.role = .uas) :
    t.asRefresher = !decide (r = .uac) := by
  unfold Timer.asRefresher
  rw [named,role]
  cases r with
  | uac => rfl
  | uas => rfl

/- Both know who refreshes, and it is one of them; the timers run. -/
structure Settled (t u : Timer) : Prop where
  knows : t.refresher ≠ none
  knows' : u.refresher ≠ none
  interval : t.setting.sessExpires = u.setting.sessExpires
  refresher : t.asRefresher ≠ u.asRefresher
  started : t.Started
  started' : u.Started

theorem Settled.symm (settled : Settled t u) : Settled u t :=
  ⟨settled.knows',settled.knows,settled.interval.symm,settled.refresher.symm,settled.started',settled.started⟩

theorem becomeUacKeeps (t : Timer) : t.becomeUac.asRefresher = t.asRefresher ∧ t.becomeUac.setting = t.setting ∧
    t.becomeUac.timer = t.timer ∧ (t.becomeUac.refresher = none ↔ t.refresher = none) ∧
      (t.becomeUac.refresher ≠ none → t.becomeUac.role = .uac) := by
  unfold Timer.becomeUac
  cases known : t.refresher with
  | none => exact ⟨rfl,rfl,rfl,by rw [known],fun some => absurd known some⟩
  | some =>
    dsimp only
    refine ⟨?_,rfl,rfl,⟨nofun,nofun⟩,fun _ => rfl⟩
    unfold Timer.asRefresher
    by_cases same : t.refresher = some t.role
    · simp [same]
    · simp [same]

/- The request of a UAC. -/
structure Asked (t : Timer) (req : Request) : Prop where
  sessExpires : req.sessExpires = some t.sessExpiresHdr
  minSe : req.minSe = some t.setting.minSe
  role : t.refresher ≠ none → t.role = .uac

/- What both sessions know: before the first success nothing, and everything after it. -/
def Shared : Bool → Timer → Timer → Prop
  | true, t, u => Settled t u
  | false, t, u => t.refresher = none ∧ u.refresher = none

theorem Shared.symm {answered : Bool} (shared : Shared answered t u) : Shared answered u t := by
  cases answered with
  | true => exact Settled.symm shared
  | false => exact ⟨shared.2,shared.1⟩

theorem Shared.becomeUac {answered : Bool} (shared : Shared answered t u) : Shared answered t.becomeUac u := by
  obtain ⟨refresher,setting,timer,unknown,_⟩ := becomeUacKeeps t
  cases answered with
  | true =>
    have settled : Settled t u := shared
    have delay : t.becomeUac.nextDelay = t.nextDelay := by
      unfold Timer.nextDelay Timer.refreshDelay Timer.giveUpDelay
      rw [refresher,setting]
    refine ⟨fun none => settled.knows (unknown.mp none),settled.knows',by rw [setting]; exact settled.interval,
      by rw [refresher]; exact settled.refresher,?_,settled.started'⟩
    rw [Timer.Started,timer,delay]
    exact settled.started
  | false => exact ⟨unknown.mpr shared.1,shared.2⟩

/- A success that the UAS has sent: it holds the interval that was asked for, and it says who refreshes. -/
structure Accepted (t u : Timer) (resp : Response) : Prop where
  sessExpires : resp.sessExpires = some u.sessExpiresHdr
  interval : u.setting.sessExpires = t.setting.sessExpires
  knows : u.refresher ≠ none
  role : u.role = .uas
  started : u.Started

theorem refresherForNamed (v : Timer) {req : Request} {se : SessExpires} {r : Role} (here : req.sessExpires = some se)
    (named : se.refresher = some r) : v.refresherFor req = r := by
  unfold Timer.refresherFor
  rw [here,Option.bind_some,named]

theorem processReqCases (inv : Inv) {req : Request} (support : inv.options.supportTimer = true)
    (asked : Asked t req) (valid : t.setting.Valid) (own : inv.timerOf.setting.Valid) :
    (inv.processReq req = (false, { inv with timer := some inv.timerOf }) ∧
        t.setting.sessExpires < inv.timerOf.setting.minSe) ∨
      ∃ u : Timer, inv.processReq req = (true, { inv with timer := some u }) ∧ u.setting.Valid ∧
        u.setting.sessExpires = t.setting.sessExpires ∧ u.setting.minSe = inv.timerOf.setting.minSe ∧ u.role = .uas ∧
          u.active = true ∧ u.timer = inv.timerOf.timer ∧ u.refresher ≠ none ∧
            (t.refresher ≠ none → u.asRefresher = !t.asRefresher) := by
  unfold Inv.processReq
  rw [if_pos support,asked.minSe,asked.sessExpires]
  dsimp only
  rw [Option.any_some]
  split
  · rename_i small
    have small : t.setting.sessExpires < max t.setting.minSe inv.timerOf.setting.minSe := of_decide_eq_true small
    refine .inl ⟨rfl,?_⟩
    rw [UInt32.max_def] at small
    split at small
    · exact small
    · exact absurd small (UInt32.not_lt.mpr valid.interval)
  · rename_i enough
    have enough : max t.setting.minSe inv.timerOf.setting.minSe ≤ t.setting.sessExpires :=
      UInt32.not_lt.mp (fun small => enough (decide_eq_true small))
    rw [if_neg (by simp)]
    refine .inr ⟨_,rfl,⟨own.low,UInt32.le_trans (leMax _ _).2 enough⟩,rfl,rfl,rfl,rfl,rfl,nofun,fun known => ?_⟩
    obtain ⟨r,named⟩ := Option.ne_none_iff_exists'.mp known
    have role := asked.role known
    have ours := refresherForNamed { inv.timerOf with
      setting := { inv.timerOf.setting with sessExpires := t.setting.sessExpires } } asked.sessExpires named
    rw [asRefresherUac named role]
    exact asRefresherUas (congrArg some ours) rfl

end Refreshers

section Responses

variable {inv : Inv} {t u : Timer}

theorem timerOfSome (inv : Inv) (t : Timer) : ({ inv with timer := some t } : Inv).timerOf = t := rfl

theorem updateRespSuccess (support : inv.options.supportTimer = true) (active : u.active = true) :
    ({ inv with timer := some u } : Inv).updateResp { code := 200 } =
      ({ code := 200, sessExpires := some u.sessExpiresHdr }, { inv with timer := some u.start }) := by
  unfold Inv.updateResp
  rw [if_pos support]
  dsimp only
  rw [if_pos (by decide),if_pos active]

theorem updateRespTooSmall (support : inv.options.supportTimer = true) :
    ({ inv with timer := some u } : Inv).updateResp { code := 422 } =
      ({ code := 422, minSe := some u.setting.minSe }, { inv with timer := some u }) := by
  unfold Inv.updateResp
  rw [if_pos support]
  dsimp only
  rw [if_neg (by decide),if_pos rfl]

theorem processTooSmallCases (support : inv.options.supportTimer = true) (req : Request) (low next : UInt32)
    (unknown : inv.timerOf.refresher = none) :
    (∃ outcome, inv.processResp req { code := 422, minSe := some low } next = (outcome, inv) ∧
        (outcome = .success ∨ outcome = .error)) ∨
      ∃ t again, inv.processResp req { code := 422, minSe := some low } next = (.retry again, { inv with timer := some t }) ∧
        t.setting = inv.timerOf.setting.raise low ∧ t.refresher = none ∧ Asked t again := by
  unfold Inv.processResp Inv.processTooSmall
  rw [if_pos support]
  dsimp only
  rw [if_pos rfl]
  split
  · refine .inl ⟨_,rfl,?_⟩
    split
    · exact .inl rfl
    · exact .inr rfl
  · refine .inr ⟨_,_,rfl,rfl,unknown,rfl,rfl,fun known => absurd unknown known⟩

theorem processSuccessSettled (support : inv.options.supportTimer = true) (valid : inv.timerOf.setting.Valid)
    {req : Request} {resp : Response} (code : resp.code = 200) (accepted : Accepted inv.timerOf u resp) (next : UInt32) :
    ∃ t, inv.processResp req resp next = (.success, { inv with timer := some t }) ∧
      t.setting = inv.timerOf.setting ∧ Settled t u := by
  have notSmall : ¬ resp.code = 422 := by
    rw [code]
    decide
  have success : resp.code / 100 = 2 := by rw [code]
  obtain ⟨r,named⟩ := Option.ne_none_iff_exists'.mp accepted.knows
  unfold Inv.processResp Inv.processSuccess
  rw [if_pos support,if_neg notSmall,if_pos success,accepted.sessExpires,if_neg (by simp),if_neg (by simp)]
  dsimp only [Option.bind_some,Timer.sessExpiresHdr]
  rw [accepted.interval,valid.acceptOwn,named,Option.getD_some]
  refine ⟨_,rfl,rfl,nofun,accepted.knows,accepted.interval.symm,?_,startStarted _,accepted.started⟩
  rw [asRefresherUas named accepted.role]
  have ours : ({ inv.timerOf with
      refresher := some r, role := .uac, active := true } : Timer).start.asRefresher = decide (r = .uac) :=
    asRefresherUac rfl rfl
  rw [ours]
  exact (Bool.not_ne_self _).symm

end Responses

structure Pair.Good (s : Pair) : Prop where
  support : ∀ side, (s.inv side).options.supportTimer = true
  valid : ∀ side, (s.inv side).timerOf.setting.Valid
  pending : match s.pending with
    | none => ∀ side, Shared s.answered (s.inv side).timerOf (s.inv side.other).timerOf
    | some (.request uac req) =>
      Shared s.answered (s.inv uac).timerOf (s.inv uac.other).timerOf ∧ Asked (s.inv uac).timerOf req
    | some (.response uac _ resp) =>
      (s.answered = false ∧ Shared false (s.inv uac).timerOf (s.inv uac.other).timerOf ∧
        ∃ low, resp = { code := 422, minSe := some low }) ∨
      (resp.code = 200 ∧ Accepted (s.inv uac).timerOf (s.inv uac.other).timerOf resp ∧
        (s.answered = true → Settled (s.inv uac).timerOf (s.inv uac.other).timerOf))

section Pairs

variable {s : Pair}

theorem otherOther (side : Side) : side.other.other = side := by
  cases side with
  | caller => rfl
  | callee => rfl

theorem otherNe (side : Side) : side.other ≠ side := by
  cases side with
  | caller => exact nofun
  | callee => exact nofun

theorem setSame (s : Pair) (side : Side) (inv : Inv) : (s.set side inv).inv side = inv := by
  unfold Pair.set
  exact Function.update_self ..

theorem setOther (s : Pair) {side other : Side} (differ : other ≠ side) (inv : Inv) :
    (s.set side inv).inv other = s.inv other := by
  unfold Pair.set
  exact Function.update_of_ne differ ..

theorem setAll {P : Inv → Prop} (all : ∀ side, P (s.inv side)) {inv : Inv} (new : P inv) (side other : Side) :
    P ((s.set side inv).inv other) := by
  by_cases same : other = side
  · subst same
    rw [setSame]
    exact new
  · rw [setOther s same]
    exact all other

theorem setSupport (all : ∀ side, (s.inv side).options.supportTimer = true) {inv : Inv}
    (new : inv.options.supportTimer = true) (side other : Side) :
    ((s.set side inv).inv other).options.supportTimer = true := setAll (P := fun i => i.options.supportTimer = true) all new side other

theorem setValid (all : ∀ side, (s.inv side).timerOf.setting.Valid) {inv : Inv} (new : inv.timerOf.setting.Valid)
    (side other : Side) : ((s.set side inv).inv other).timerOf.setting.Valid :=
  setAll (P := fun i => i.timerOf.setting.Valid) all new side other

theorem sharedBoth {answered : Bool} {side : Side}
    (shared : Shared answered (s.inv side).timerOf (s.inv side.other).timerOf) (other : Side) :
    Shared answered (s.inv other).timerOf (s.inv other.other).timerOf := by
  by_cases same : other = side
  · rw [same]
    exact shared
  · have swapped : other = side.other := by
      cases side with
      | caller =>
        cases other with
        | caller => exact absurd rfl same
        | callee => rfl
      | callee =>
        cases other with
        | caller => rfl
        | callee => exact absurd rfl same
    rw [swapped,otherOther]
    exact shared.symm

theorem Pair.Good.refresh (good : s.Good) (none : s.pending = none) (uac : Side) (cseq : UInt32) (supported : Bool) :
    (s.step (.refresh uac cseq supported)).Good := by
  have shared : ∀ side, Shared s.answered (s.inv side).timerOf (s.inv side.other).timerOf := by
    have all := good.pending
    rw [none] at all
    exact all
  obtain ⟨_,setting,_,_,role⟩ := becomeUacKeeps (s.inv uac).timerOf
  unfold Pair.step Inv.updateReq
  dsimp only
  rw [none,if_neg (by simp),if_pos (good.support uac)]
  generalize made : ({ s.inv uac with timer := some (s.inv uac).timerOf.becomeUac } : Inv) = inv
  have timer : inv.timerOf = (s.inv uac).timerOf.becomeUac := by rw [← made,timerOfSome]
  have options : inv.options = (s.inv uac).options := by rw [← made]
  refine ⟨setSupport good.support (by rw [options]; exact good.support uac) uac,
    setValid good.valid (by rw [timer,setting]; exact good.valid uac) uac,?_⟩
  dsimp only
  rw [setSame,setOther s (otherNe uac),timer]
  exact ⟨(shared uac).becomeUac,rfl,rfl,role⟩

theorem Pair.Good.receive (good : s.Good) {uac : Side} {req : Request} (asked : s.pending = some (.request uac req))
    (again : Bool) : (s.step (.receive again)).Good := by
  obtain ⟨shared,asks⟩ : Shared s.answered (s.inv uac).timerOf (s.inv uac.other).timerOf ∧ Asked (s.inv uac).timerOf req := by
    have all := good.pending
    rw [asked] at all
    exact all
  have support := good.support uac.other
  have valid := good.valid uac
  unfold Pair.step
  dsimp only
  rw [asked]
  dsimp only
  rcases processReqCases (s.inv uac.other) support asks valid (good.valid uac.other) with ⟨result,small⟩ | ⟨u,result,valid',same,low,role,
    active,timer,knows,kept⟩
  · rw [result]
    dsimp only
    rw [Bool.false_and,if_neg Bool.false_ne_true]
    dsimp only
    rw [if_neg Bool.false_ne_true,updateRespTooSmall support]
    dsimp only
    have fresh : s.answered = false := by
      cases answered : s.answered with
      | false => rfl
      | true =>
        rw [answered] at shared
        have settled : Settled _ _ := shared
        rw [settled.interval] at small
        exact absurd small (UInt32.not_lt.mpr (good.valid uac.other).interval)
    rw [fresh] at shared
    refine ⟨setSupport good.support ?_ uac.other,setValid good.valid ?_ uac.other,?_⟩
    · exact support
    · exact good.valid uac.other
    dsimp only
    rw [setSame,setOther s (otherNe uac).symm,timerOfSome]
    exact .inl ⟨fresh,shared,_,rfl⟩
  · -- the second look at the request finds what the first one left
    have twice : ∃ v : Timer, (if true && again then ({ s.inv uac.other with timer := some u } : Inv).processReq req
        else (true, { s.inv uac.other with timer := some u })) = (true, { s.inv uac.other with timer := some v }) ∧
        v.setting.Valid ∧ v.setting.sessExpires = (s.inv uac).timerOf.setting.sessExpires ∧ v.role = .uas ∧
        v.active = true ∧ v.timer = (s.inv uac.other).timerOf.timer ∧ v.refresher ≠ none ∧
        ((s.inv uac).timerOf.refresher ≠ none → v.asRefresher = !(s.inv uac).timerOf.asRefresher) := by
      rw [Bool.true_and]
      split
      · have own : ({ s.inv uac.other with timer := some u } : Inv).timerOf.setting.Valid := valid'
        rcases processReqCases { s.inv uac.other with timer := some u } support asks valid own with ⟨_,small⟩ | ⟨v,result',valid'',same',_,role',active',timer',
          knows',kept'⟩
        · have enough := valid'.interval
          rw [same] at enough
          exact absurd small (UInt32.not_lt.mpr enough)
        · exact ⟨v,result',valid'',same',role',active',timer'.trans timer,knows',kept'⟩
      · exact ⟨u,rfl,valid',same,role,active,timer,knows,kept⟩
    obtain ⟨v,result',valid'',same',role',active',timer',knows',kept'⟩ := twice
    rw [result]
    dsimp only
    rw [result']
    dsimp only
    rw [if_pos rfl,updateRespSuccess support active']
    dsimp only
    refine ⟨setSupport good.support ?_ uac.other,setValid good.valid ?_ uac.other,?_⟩
    · exact support
    · exact valid''
    dsimp only
    rw [setSame,setOther s (otherNe uac).symm,timerOfSome]
    refine .inr ⟨rfl,⟨rfl,same',knows',role',startStarted v⟩,fun answered => ?_⟩
    have answered : s.answered = true := answered
    rw [answered] at shared
    have settled : Settled _ _ := shared
    refine ⟨settled.knows,knows',same'.symm,?_,settled.started,startStarted v⟩
    have opposite : v.start.asRefresher = !(s.inv uac).timerOf.asRefresher := kept' settled.knows
    rw [opposite]
    exact (Bool.not_ne_self _).symm

theorem Pair.Good.complete (good : s.Good) {uac : Side} {req : Request} {resp : Response}
    (sent : s.pending = some (.response uac req resp)) (next : UInt32) : (s.step (.complete next)).Good := by
  have cases' := good.pending
  rw [sent] at cases'
  have support := good.support uac
  unfold Pair.step
  dsimp only
  rw [sent]
  dsimp only
  rcases cases' with ⟨fresh,shared,low,rfl⟩ | ⟨code,accepted,_⟩
  · rcases processTooSmallCases support req low next shared.1 with ⟨outcome,result,over'⟩ | ⟨t,again,result,setting,
      unknown,asks⟩
    · rw [result]
      have quiet : ({ s.set uac (s.inv uac) with
          pending := none, answered := s.answered || decide (422 / 100 = 2) } : Pair).Good := by
        refine ⟨setSupport good.support support uac,setValid good.valid (good.valid uac) uac,?_⟩
        dsimp only
        rw [fresh]
        have one : Shared false ((s.set uac (s.inv uac)).inv uac).timerOf ((s.set uac (s.inv uac)).inv uac.other).timerOf := by
          rw [setSame,setOther s (otherNe uac)]
          exact shared
        exact sharedBoth one
      rcases over' with rfl | rfl
      · exact quiet
      · exact quiet
    · rw [result]
      dsimp only
      refine ⟨setSupport good.support ?_ uac,setValid good.valid ?_ uac,?_⟩
      · exact support
      · rw [timerOfSome,setting]
        exact (good.valid uac).raise low
      · dsimp only
        rw [setSame,setOther s (otherNe uac),timerOfSome]
        refine ⟨?_,asks⟩
        have answered : (s.set uac { s.inv uac with timer := some t }).answered = false := fresh
        rw [answered]
        exact ⟨unknown,shared.2⟩
  · obtain ⟨t,result,setting,settled⟩ := processSuccessSettled support (good.valid uac) code accepted next
    rw [result]
    dsimp only
    refine ⟨setSupport good.support ?_ uac,setValid good.valid ?_ uac,?_⟩
    · exact support
    · rw [timerOfSome,setting]
      exact good.valid uac
    dsimp only
    rw [code]
    have answered : (s.answered || decide (200 / 100 = 2)) = true := Bool.or_true _
    rw [answered]
    have one : Shared true ((s.set uac { s.inv uac with timer := some t }).inv uac).timerOf
        ((s.set uac { s.inv uac with timer := some t }).inv uac.other).timerOf := by
      rw [setSame,setOther s (otherNe uac),timerOfSome]
      exact settled
    exact sharedBoth one

theorem Pair.Good.confirmed (good : s.Good) (side : Side) : (s.step (.confirmed side)).Good := by
  have same : ∀ other, ((s.step (.confirmed side)).inv other).timerOf = (s.inv other).timerOf ∧
      ((s.step (.confirmed side)).inv other).options = (s.inv other).options := by
    intro other
    unfold Pair.step
    dsimp only
    by_cases this : other = side
    · subst this
      rw [setSame]
      exact ⟨rfl,rfl⟩
    · rw [setOther s this]
      exact ⟨rfl,rfl⟩
  refine ⟨fun other => ?_,fun other => ?_,?_⟩
  · rw [(same other).2]
    exact good.support other
  · rw [(same other).1]
    exact good.valid other
  · have pending := good.pending
    have kept : (s.step (.confirmed side)).pending = s.pending := rfl
    have answered : (s.step (.confirmed side)).answered = s.answered := rfl
    simp only [kept,answered,same]
    exact pending

theorem Pair.Good.step (good : s.Good) (event : Event) : (s.step event).Good := by
  cases event with
  | refresh uac cseq supported =>
    cases pending : s.pending with
    | none => exact good.refresh pending uac cseq supported
    | some =>
      unfold Pair.step
      dsimp only
      rw [pending,Option.isSome_some,if_pos rfl]
      exact good
  | receive again =>
    cases pending : s.pending with
    | none =>
      unfold Pair.step
      rw [pending]
      exact good
    | some p =>
      cases p with
      | request => exact good.receive pending again
      | response =>
        unfold Pair.step
        rw [pending]
        exact good
  | complete next =>
    cases pending : s.pending with
    | none =>
      unfold Pair.step
      rw [pending]
      exact good
    | some p =>
      cases p with
      | request =>
        unfold Pair.step
        rw [pending]
        exact good
      | response => exact good.complete pending next
  | confirmed side => exact good.confirmed side

theorem goodRun (events : List Event) : ∀ {s : Pair}, s.Good → (s.run events).Good := by
  induction events with
  | nil => exact fun good => good
  | cons event rest ih => exact fun good => ih (good.step event)

theorem Pair.Fresh.good (fresh : s.Fresh) : s.Good := by
  refine ⟨fresh.support,fresh.valid,?_⟩
  rw [fresh.pending,fresh.answered]
  exact fun side => ⟨fresh.refresher side,fresh.refresher side.other⟩

end Pairs

/- One interval, one refresher, and its refresh is due before the other side gives up. -/
structure Pair.Agreed (s : Pair) : Prop where
  interval : ∀ side, (s.inv side).timerOf.setting.sessExpires = (s.inv side.other).timerOf.setting.sessExpires
  refresher : ∃ side, (s.inv side).timerOf.asRefresher = true ∧ (s.inv side.other).timerOf.asRefresher = false
  delays : ∀ side, (s.inv side).timerOf.asRefresher = true → ∃ refresh giveUp, (s.inv side).timerOf.timer = some refresh ∧
    (s.inv side.other).timerOf.timer = some giveUp ∧ refresh < giveUp

theorem settledAgreed {s : Pair} (valid : ∀ side, (s.inv side).timerOf.setting.Valid)
    (settled : ∀ side, Settled (s.inv side).timerOf (s.inv side.other).timerOf) : s.Agreed := by
  have opposite : ∀ side, (s.inv side).timerOf.asRefresher = true → (s.inv side.other).timerOf.asRefresher = false := by
    intro side ours
    have differ := (settled side).refresher
    rw [ours] at differ
    exact Bool.eq_false_iff.mpr differ.symm
  refine ⟨fun side => (settled side).interval,?_,fun side ours => ?_⟩
  · cases ours : (s.inv .caller).timerOf.asRefresher with
    | true => exact ⟨.caller,ours,opposite .caller ours⟩
    | false =>
      have differ := (settled .caller).refresher
      rw [ours] at differ
      have theirs : (s.inv .callee).timerOf.asRefresher = true := Bool.eq_true_of_not_eq_false differ.symm
      exact ⟨.callee,theirs,opposite .callee theirs⟩
  · have started := (settled side).started
    have started' := (settled side).started'
    rw [Timer.Started,Timer.nextDelay,if_pos ours] at started
    rw [Timer.Started,Timer.nextDelay,opposite side ours,if_neg Bool.false_ne_true] at started'
    exact ⟨_,_,started,started',refreshBeforeGiveUp (valid side).long (settled side).interval.symm⟩

theorem sessionTimersAgree {s : Pair} (fresh : s.Fresh) (events : List Event) :
    (∀ side, ((s.run events).inv side).timerOf.setting.Valid) ∧
      ((s.run events).answered = true → (s.run events).Agreed) := by
  have good := goodRun events fresh.good
  generalize s.run events = t at good
  refine ⟨good.valid,fun answered => settledAgreed good.valid (fun side => ?_)⟩
  have pending := good.pending
  rw [answered] at pending
  split at pending
  · exact pending side
  · exact sharedBoth pending.1 side
  · rcases pending with ⟨fresh,_⟩ | ⟨_,_,settled⟩
    · contradiction
    · have shared : Shared true _ _ := settled rfl
      exact sharedBoth shared side

/- The callee asks for a longer interval, and refreshes later. -/
def shortInterval : Pair :=
  { inv := fun side => match side with
      | .caller => { options := ⟨true,false,false⟩, timer := some { setting := ⟨90,100⟩ } }
      | .callee => { options := ⟨true,false,false⟩, timer := some { setting := ⟨120,1800⟩ } } }

def longerInterval : List Event :=
  [.refresh .caller 7 true,.receive false,.complete 8,.receive true,.complete 0,.confirmed .caller,
    .refresh .callee 3 true,.receive false,.complete 0]

theorem longerIntervalAgreed :
    (shortInterval.run longerInterval).Agreed ∧
      ((shortInterval.run longerInterval).inv .caller).timerOf.setting.sessExpires = 120 := by
  have fresh : shortInterval.Fresh := by
    refine ⟨fun side => ?_,fun side => ?_,fun side => ?_,rfl,rfl⟩
    · cases side with
      | caller => rfl
      | callee => rfl
    · cases side with
      | caller => exact ⟨by decide,by decide⟩
      | callee => exact ⟨by decide,by decide⟩
    · cases side with
      | caller => rfl
      | callee => rfl
  exact ⟨(sessionTimersAgree fresh longerInterval).2 (by decide +kernel),by decide +kernel⟩

end Pjproject.SessTimer
