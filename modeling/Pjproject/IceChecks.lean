import Pjproject.IceNomination

/-! The checks in progress and the outstanding requests belong to each other: a check in progress waits for one
request, and that one carries the index of the check. -/
namespace Pjproject.Ice

def Check.pending (c : Check) : Option (Option Nat) := if c.state = .inProgress then some c.tdata else none

def Session.pending (ice : Session) : List (Option (Option Nat)) := ice.clist.map Check.pending

theorem pendingAt (ice : Session) (i : Nat) : ice.pending[i]? = (ice.clist[i]?).map Check.pending :=
  List.getElem?_map

theorem pendingProgress (c : Check) (progress : c.state = .inProgress) : c.pending = some c.tdata := if_pos progress

theorem pendingIdle (c : Check) (idle : c.state ≠ .inProgress) : c.pending = none := if_neg idle

/- One check is busy while its completed request is handled. -/
structure Corresponds (busy : Option Nat) (ice : Session) : Prop where
  distinct : ice.requests.Pairwise (fun a b => a.tdata ≠ b.tdata)
  bounded : ∀ r ∈ ice.requests, r.tdata < ice.created
  outstanding : ∀ r ∈ ice.requests, busy ≠ some r.ckid ∧ ice.pending[r.ckid]? = some (some (some r.tdata))
  progress : ∀ (i : Nat) (t : Option Nat), busy ≠ some i → ice.pending[i]? = some (some t) →
    ∃ r ∈ ice.requests, r.ckid = i ∧ t = some r.tdata
  working : ∀ i, busy = some i → ∃ t, ice.pending[i]? = some (some t)
  unbroken : ice.misused = false

section Corresponding

variable {busy : Option Nat} {ice : Session}

theorem Corresponds.unique (corr : Corresponds busy ice) {a b : Request} (left : a ∈ ice.requests)
    (right : b ∈ ice.requests) (same : a.tdata = b.tdata) : a = b := by
  by_contra differ
  have symmetric : Std.Symm (fun a b : Request => a.tdata ≠ b.tdata) := ⟨fun _ _ h => Ne.symm h⟩
  exact corr.distinct.forall left right differ same

theorem Corresponds.same (corr : Corresponds busy ice) {out : Session} (pending : out.pending = ice.pending)
    (requests : out.requests = ice.requests) (created : out.created = ice.created)
    (misused : out.misused = ice.misused) : Corresponds busy out := by
  refine ⟨?_,?_,?_,?_,?_,misused.trans corr.unbroken⟩
  · rw [requests]
    exact corr.distinct
  · rw [requests,created]
    exact corr.bounded
  · rw [requests,pending]
    exact corr.outstanding
  · rw [requests,pending]
    exact corr.progress
  · rw [pending]
    exact corr.working

theorem Corresponds.modify (corr : Corresponds busy ice) (i : Nat) (f : Check → Check)
    (same : ∀ c, ice.clist[i]? = some c → (f c).pending = c.pending) : Corresponds busy (ice.modifyCheck i f) :=
  corr.same (mapModify ice.clist i f Check.pending same) rfl rfl rfl

theorem openState (ice : Session) (i : Nat) (c : Check) (here : ice.clist[i]? = some c)
    (unfinished : c.state.num < CheckState.succeeded.num) :
    (ice.clist[i]?).any (fun c => CheckState.succeeded.num ≤ c.state.num) = false := by
  rw [here]
  simpa using unfinished

theorem pendingModified (ice : Session) (i j : Nat) (f : Check → Check) :
    (ice.modifyCheck i f).pending[j]? = (ice.clist[j]?).map (fun c => if i = j then (f c).pending else c.pending) := by
  rw [pendingAt]
  simp only [Session.modifyCheck,List.getElem?_modify]
  cases ice.clist[j]? with
  | none => rfl
  | some =>
    by_cases place : i = j
    · simp [place]
    · simp [place]

theorem Corresponds.setBusy {i : Nat} (corr : Corresponds (some i) ice) (state : CheckState) (errCode : Nat)
    (after : state ≠ .inProgress) : Corresponds none (ice.checkSetState i state errCode) := by
  obtain ⟨t,work⟩ := corr.working i rfl
  rw [pendingAt] at work
  obtain ⟨c,here,waits⟩ := Option.map_eq_some_iff.mp work
  have progress : c.state = .inProgress := by
    by_contra idle
    rw [pendingIdle c idle] at waits
    contradiction
  have at_ : ∀ j : Nat, (ice.checkSetState i state errCode).pending[j]? =
      (ice.clist[j]?).map (fun c => if i = j then none else c.pending) := by
    intro j
    refine (pendingModified ice i j _).trans ?_
    congr 1
    funext d
    rw [pendingIdle { d with state := state, errCode := errCode } after]
  refine ⟨corr.distinct,corr.bounded,?_,?_,nofun,?_⟩
  · intro r member
    obtain ⟨other,pending⟩ := corr.outstanding r member
    have differ : i ≠ r.ckid := fun same => other (congrArg some same)
    refine ⟨nofun,?_⟩
    rw [at_,← pending,pendingAt]
    simp [differ]
  · intro j t _ pending
    rw [at_] at pending
    obtain ⟨d,there,waiting⟩ := Option.map_eq_some_iff.mp pending
    split at waiting
    · contradiction
    · rename_i differ
      refine corr.progress j t (fun same => differ (Option.some.inj same)) ?_
      rw [pendingAt,there]
      exact congrArg some waiting
  · change (ice.misused || _) = false
    rw [corr.unbroken,openState ice i c here (by rw [progress]; decide)]
    rfl

theorem Corresponds.performCheck (corr : Corresponds none ice) (i : Nat) (c : Check) (nominate : Bool)
    (here : ice.clist[i]? = some c) (before : c.state.num < CheckState.inProgress.num) :
    Corresponds none (ice.performCheck (fun _ => .sent) i nominate).2 := by
  have idle : c.state ≠ .inProgress := by
    intro progress
    rw [progress] at before
    exact absurd before (Nat.lt_irrefl _)
  have nothing : ice.pending[i]? = some none := by
    rw [pendingAt,here]
    exact congrArg some (pendingIdle c idle)
  unfold Session.performCheck
  simp only [here]
  generalize requestIs : ice.request i c nominate = req
  have number : req.tdata = ice.created := by
    rw [← requestIs]
    rfl
  have index : req.ckid = i := by
    rw [← requestIs]
    rfl
  generalize outIs : Session.checkSetState _ i .inProgress 0 = out
  have requests : out.requests = ice.requests ++ [req] := by rw [← outIs]; rfl
  have created : out.created = ice.created + 1 := by rw [← outIs]; rfl
  have pending : ∀ j : Nat, out.pending[j]? = if i = j then some (some (some req.tdata)) else ice.pending[j]? := by
    intro j
    rw [← outIs,pendingAt,pendingAt]
    simp only [Session.checkSetState,Session.modifyCheck,List.getElem?_modify]
    by_cases place : i = j
    · subst place
      simp [here,Check.pending]
    · simp [place]
  have misused : out.misused = ice.misused := by
    rw [← outIs]
    simp only [Session.checkSetState,Session.modifyCheck]
    have unfinished : c.state.num < CheckState.succeeded.num := Nat.lt_trans before (by decide)
    simp [List.getElem?_modify_eq,here,Nat.not_le.mpr unfinished]
  refine ⟨?_,?_,?_,?_,(by simp),misused.trans corr.unbroken⟩
  · rw [requests]
    refine List.pairwise_append.mpr ⟨corr.distinct,List.pairwise_singleton _ _,?_⟩
    intro a member b new
    obtain rfl := List.mem_singleton.mp new
    have below := corr.bounded a member
    omega
  · rw [requests,created]
    intro r member
    rcases List.mem_append.mp member with old | new
    · exact Nat.lt_succ_of_lt (corr.bounded r old)
    · obtain rfl := List.mem_singleton.mp new
      omega
  · rw [requests]
    intro r member
    refine ⟨by simp,?_⟩
    rw [pending]
    rcases List.mem_append.mp member with old | new
    · have was := (corr.outstanding r old).2
      rw [if_neg,was]
      intro same
      rw [← same,nothing] at was
      cases Option.some.inj was
    · obtain rfl := List.mem_singleton.mp new
      rw [if_pos index.symm]
  · rw [requests]
    intro j t _ waits
    rw [pending] at waits
    split at waits
    · rename_i place
      have waits := Option.some.inj (Option.some.inj waits)
      exact ⟨req,List.mem_append_right _ (List.mem_singleton.mpr rfl),index.trans place,waits.symm⟩
    · obtain ⟨r,member,rest⟩ := corr.progress j t (by simp) waits
      exact ⟨r,List.mem_append_left _ member,rest⟩

theorem Corresponds.completed (corr : Corresponds none ice) (req : Request) (member : req ∈ ice.requests) :
    Corresponds (some req.ckid) { ice.modifyCheck req.ckid (fun c => { c with tdata := none }) with
      requests := ice.requests.filter (fun r => r.tdata ≠ req.tdata) } := by
  obtain ⟨_,waits⟩ := corr.outstanding req member
  have waits' := waits
  rw [pendingAt] at waits'
  obtain ⟨c,here,value⟩ := Option.map_eq_some_iff.mp waits'
  have progress : c.state = .inProgress := by
    by_contra idle
    rw [pendingIdle c idle] at value
    contradiction
  have pending : ∀ j : Nat, req.ckid ≠ j →
      (ice.modifyCheck req.ckid (fun c => { c with tdata := none })).pending[j]? = ice.pending[j]? := by
    intro j differ
    rw [pendingModified,pendingAt]
    simp only [if_neg differ]
  refine ⟨corr.distinct.filter _,?_,?_,?_,?_,corr.unbroken⟩
  · exact fun r h => corr.bounded r (List.mem_of_mem_filter h)
  · intro r inside
    obtain ⟨old,other⟩ := List.mem_filter.mp inside
    have was := (corr.outstanding r old).2
    have differ : req.ckid ≠ r.ckid := by
      intro same
      rw [← same,waits] at was
      have equal := Option.some.inj (Option.some.inj (Option.some.inj was))
      simp [equal] at other
    exact ⟨fun same => differ (Option.some.inj same),(pending r.ckid differ).trans was⟩
  · intro j t other waiting
    have differ : req.ckid ≠ j := fun same => other (congrArg some same)
    obtain ⟨r,old,place,value⟩ := corr.progress j t nofun ((pending j differ).symm.trans waiting)
    refine ⟨r,List.mem_filter.mpr ⟨old,?_⟩,place,value⟩
    have unlike : r.tdata ≠ req.tdata := by
      intro same
      obtain rfl := corr.unique old member same
      exact differ place
    simpa using unlike
  · intro i same
    obtain rfl := Option.some.inj same
    refine ⟨none,?_⟩
    change (ice.modifyCheck req.ckid (fun c => { c with tdata := none })).pending[req.ckid]? = _
    rw [pendingModified,here]
    simp [Check.pending,progress]

theorem unfreezePending (foundation : List Char) (c : Check) : (unfreeze foundation c).pending = c.pending := by
  unfold unfreeze
  split
  · rename_i frozen
    rw [pendingIdle c (by rw [frozen.2]; decide)]
    rfl
  · rfl

/- A check is failed unless it waits for a request of another component, or for none that could be cancelled. -/
theorem failPendingPending (compId : Nat) (c : Check) :
    (failPending compId c).pending = if cancels compId c then none else c.pending := by
  unfold failPending
  split
  · rename_i early
    have idle : c.state ≠ .inProgress := by
      intro progress
      rw [progress] at early
      exact absurd early.2 (Nat.lt_irrefl _)
    rw [pendingIdle c idle]
    simp [Check.pending]
  · split
    · rfl
    · rfl

theorem Corresponds.dropPending (corr : Corresponds none ice) (compId : Nat) :
    Corresponds none (ice.dropPending compId) := by
  have pending : ∀ j : Nat, (ice.dropPending compId).pending[j]? =
      (ice.clist[j]?).map (fun c => if cancels compId c then none else c.pending) := by
    intro j
    rw [pendingAt]
    simp only [Session.dropPending,List.getElem?_map,Option.map_map]
    congr 1
    funext c
    exact failPendingPending compId c
  have gone : ∀ t, t ∈ (ice.clist.filter (cancels compId)).filterMap Check.tdata ↔
      ∃ c ∈ ice.clist, cancels compId c = true ∧ c.tdata = some t := by
    intro t
    simp only [List.mem_filterMap,List.mem_filter]
    constructor
    · rintro ⟨c,⟨member,cancelled⟩,value⟩
      exact ⟨c,member,cancelled,value⟩
    · rintro ⟨c,member,cancelled,value⟩
      exact ⟨c,⟨member,cancelled⟩,value⟩
  -- the check that a cancelled request belongs to is the one it was sent for
  have owner : ∀ (j : Nat) (c d : Check) (r : Request), r ∈ ice.requests → r.ckid = j → ice.clist[j]? = some d →
      c ∈ ice.clist → cancels compId c = true → c.tdata = some r.tdata → d = c := by
    intro j c d r member place here inside cancelled value
    obtain ⟨k,there⟩ := List.mem_iff_getElem?.mp inside
    have progress : c.state = .inProgress := by
      simp only [cancels,Bool.and_eq_true,decide_eq_true_eq] at cancelled
      exact cancelled.1.2
    have waits : ice.pending[k]? = some (some (some r.tdata)) := by
      rw [pendingAt,there,Option.map_some,pendingProgress c progress,value]
    obtain ⟨s,other,sPlace,sValue⟩ := corr.progress k _ nofun waits
    obtain rfl := corr.unique other member (Option.some.inj sValue).symm
    have same : k = j := sPlace.symm.trans place
    subst same
    exact Option.some.inj (here.symm.trans there)
  refine ⟨corr.distinct.filter _,?_,?_,?_,nofun,corr.unbroken⟩
  · exact fun r h => corr.bounded r (List.mem_of_mem_filter h)
  · intro r inside
    obtain ⟨old,stays⟩ := List.mem_filter.mp inside
    refine ⟨nofun,?_⟩
    have was := (corr.outstanding r old).2
    rw [pendingAt] at was
    obtain ⟨c,here,waits⟩ := Option.map_eq_some_iff.mp was
    have kept : cancels compId c ≠ true := by
      intro cancelled
      have progress : c.state = .inProgress := by
        simp only [cancels,Bool.and_eq_true,decide_eq_true_eq] at cancelled
        exact cancelled.1.2
      rw [pendingProgress c progress] at waits
      have inGone := (gone r.tdata).mpr ⟨c,List.mem_of_getElem? here,cancelled,Option.some.inj waits⟩
      simp [inGone] at stays
    rw [pending,here,Option.map_some,if_neg kept,waits]
  · intro j t _ waiting
    rw [pending] at waiting
    obtain ⟨d,here,value⟩ := Option.map_eq_some_iff.mp waiting
    split at value
    · contradiction
    · rename_i kept
      have waits : ice.pending[j]? = some (some t) := by
        rw [pendingAt,here]
        exact congrArg some value
      obtain ⟨r,member,place,tdata⟩ := corr.progress j t nofun waits
      refine ⟨r,List.mem_filter.mpr ⟨member,?_⟩,place,tdata⟩
      have stays : r.tdata ∉ (ice.clist.filter (cancels compId)).filterMap Check.tdata := by
        intro inGone
        obtain ⟨c,inside,cancelled,cValue⟩ := (gone r.tdata).mp inGone
        obtain rfl := owner j c d r member place here inside cancelled cValue
        exact kept cancelled
      simpa using stays

end Corresponding

/- start_nominated_check resets the first check with the transport and the remote candidate of a valid one; it
waits for nothing. -/
def Session.resetsIdle (ice : Session) (valid : Check) : Bool :=
  ((ice.goesWith valid).bind (fun j => ice.clist[j]?)).all (fun c => c.state ≠ .inProgress)

def Check.key (c : Check) : Nat × Nat := (c.lcand.transportId, c.rcand.place)

theorem goesWithKeys (ice : Session) (valid : Check) :
    ice.goesWith valid = (ice.clist.map Check.key).findIdx? (fun k => k = valid.key) := by
  rw [List.findIdx?_map]
  unfold Session.goesWith
  congr 1
  funext c
  simp [Check.key]

theorem resetsIdleIff (ice : Session) (valid : Check) :
    ice.resetsIdle valid = true ↔ ∀ j t, ice.goesWith valid = some j → ice.pending[j]? ≠ some (some t) := by
  unfold Session.resetsIdle
  cases found : ice.goesWith valid with
  | none => simp
  | some j =>
    simp only [Option.bind_some,Option.some.injEq]
    cases here : ice.clist[j]? with
    | none =>
      have out : ∀ j' t, j = j' → ice.pending[j']? ≠ some (some t) := by
        rintro _ t rfl
        simp [pendingAt,here]
      exact iff_of_true rfl out
    | some c =>
      by_cases progress : c.state = .inProgress
      · have waits : ice.pending[j]? = some (some c.tdata) := by
          rw [pendingAt,here,Option.map_some,pendingProgress c progress]
        refine iff_of_false (by simp [progress]) ?_
        exact fun idle => idle j c.tdata rfl waits
      · have none : ∀ j' t, j = j' → ice.pending[j']? ≠ some (some t) := by
          rintro _ t rfl
          rw [pendingAt,here,Option.map_some,pendingIdle c progress]
          exact nofun
        exact iff_of_true (by simp [progress]) none

theorem resetsIdleSame {ice out : Session} (pending : out.pending = ice.pending)
    (keys : out.clist.map Check.key = ice.clist.map Check.key) (valid : Check) (idle : ice.resetsIdle valid = true) :
    out.resetsIdle valid = true := by
  rw [resetsIdleIff] at idle ⊢
  intro j t found
  rw [pending]
  refine idle j t ?_
  rw [goesWithKeys,keys,← goesWithKeys] at found
  exact found

section Corresponding

variable {ice : Session}

theorem Corresponds.resetCheck (corr : Corresponds none ice) (valid : Check) (idle : ice.resetsIdle valid = true) :
    Corresponds none (ice.resetCheck valid) ∧ (ice.resetCheck valid).pending = ice.pending ∧
    (ice.resetCheck valid).clist.map Check.key = ice.clist.map Check.key := by
  unfold Session.resetCheck
  split
  · exact ⟨corr,rfl,rfl⟩
  · rename_i j found
    have still : ∀ c, ice.clist[j]? = some c → c.state ≠ .inProgress := by
      intro c here progress
      refine (resetsIdleIff ice valid).mp idle j c.tdata found ?_
      rw [pendingAt,here,Option.map_some,pendingProgress c progress]
    have frozen : (ice.modifyCheck j (fun c => { c with state := .frozen })).pending = ice.pending := by
      refine mapModify ice.clist j _ Check.pending ?_
      intro c here
      rw [pendingIdle c (still c here)]
      rfl
    have mid : Corresponds none (ice.modifyCheck j (fun c => { c with state := .frozen })) :=
      corr.same frozen rfl rfl rfl
    have keys : (ice.modifyCheck j (fun c => { c with state := .frozen })).clist.map Check.key =
        ice.clist.map Check.key := mapModify ice.clist j _ Check.key (fun _ _ => rfl)
    generalize midIs : ice.modifyCheck j (fun c => { c with state := .frozen }) = start at frozen mid keys ⊢
    have pending : (start.checkSetState j .waiting 0).pending = start.pending := by
      refine mapModify start.clist j _ Check.pending ?_
      intro c here
      rw [← midIs] at here
      simp only [Session.modifyCheck,List.getElem?_modify_eq] at here
      obtain ⟨d,_,rfl⟩ := Option.map_eq_some_iff.mp here
      rfl
    have misused : (start.checkSetState j .waiting 0).misused = start.misused := by
      change (start.misused || _) = start.misused
      rw [← midIs]
      simp only [Session.modifyCheck,List.getElem?_modify_eq]
      cases ice.clist[j]? with
      | none => simp
      | some => simp [CheckState.num]
    have same : (start.checkSetState j .waiting 0).clist.map Check.key = start.clist.map Check.key :=
      mapModify start.clist j (fun c => { c with state := .waiting, errCode := 0 }) Check.key (fun _ _ => rfl)
    exact ⟨mid.same pending rfl rfl misused,pending.trans frozen,same.trans keys⟩

theorem resetAll (valids : List Check) (ice : Session) (corr : Corresponds none ice)
    (idle : ∀ v ∈ valids, ice.resetsIdle v = true) : Corresponds none (valids.foldl Session.resetCheck ice) := by
  induction valids generalizing ice with
  | nil => exact corr
  | cons v rest ih =>
    obtain ⟨next,pending,keys⟩ := corr.resetCheck v (idle v List.mem_cons_self)
    refine ih (ice.resetCheck v) next ?_
    intro w member
    exact resetsIdleSame pending keys w (idle w (List.mem_cons_of_mem _ member))

theorem Corresponds.startNominatedCheck (corr : Corresponds none ice)
    (idle : ∀ v ∈ ice.validChecks, ice.resetsIdle v = true) : Corresponds none ice.startNominatedCheck := by
  unfold Session.startNominatedCheck
  dsimp only
  split
  · have stopped : Corresponds none { ice with timer := .none } := corr.same rfl rfl rfl rfl
    exact (resetAll ice.validChecks { ice with timer := .none } stopped idle).same rfl rfl rfl rfl
  · exact (resetAll ice.validChecks ice corr idle).same rfl rfl rfl rfl

theorem Corresponds.onIceComplete (corr : Corresponds none ice) (status : Nat) :
    Corresponds none (ice.onIceComplete status) := by
  unfold Session.onIceComplete
  split
  · exact corr
  · exact corr.same rfl rfl rfl rfl

theorem completedIdle (completed : ice.allCompleted = true) (valid : Check) : ice.resetsIdle valid = true := by
  rw [resetsIdleIff]
  intro j t _ waits
  rw [pendingAt] at waits
  obtain ⟨c,here,value⟩ := Option.map_eq_some_iff.mp waits
  have finished := List.all_eq_true.mp completed c (List.mem_of_getElem? here)
  have idle : c.state ≠ .inProgress := by
    intro progress
    rw [progress] at finished
    contradiction
  rw [pendingIdle c idle] at value
  contradiction

theorem Corresponds.checksExhausted (corr : Corresponds none ice) (completed : ice.allCompleted = true) :
    Corresponds none ice.checksExhausted.2 := by
  unfold Session.checksExhausted
  split
  · split
    · exact corr.onIceComplete _
    · split
      · exact corr.same rfl rfl rfl rfl
      · exact corr
  · split
    · exact corr.onIceComplete _
    · split
      · exact corr.onIceComplete _
      · exact corr.startNominatedCheck (fun v _ => completedIdle completed v)

theorem Corresponds.onCheckComplete (corr : Corresponds none ice) (check : Check) :
    Corresponds none (ice.onCheckComplete check).2 := by
  unfold Session.onCheckComplete
  dsimp only
  have thawed : Corresponds none (if check.errCode = 0 then
      { ice with clist := ice.clist.map (unfreeze check.lcand.foundation), validPairFound := true } else ice) := by
    split
    · refine corr.same ?_ rfl rfl rfl
      simp only [Session.pending,List.map_map]
      exact List.map_congr_left (fun c _ => unfreezePending _ c)
    · exact corr
  generalize (if check.errCode = 0 then
      { ice with clist := ice.clist.map (unfreeze check.lcand.foundation), validPairFound := true } else ice) = start
    at thawed ⊢
  have dropped : Corresponds none
      (if check.errCode = 0 ∧ check.nominated then start.dropPending check.lcand.compId else start) := by
    split
    · exact thawed.dropPending _
    · exact thawed
  generalize (if check.errCode = 0 ∧ check.nominated then start.dropPending check.lcand.compId else start) = mid
    at dropped ⊢
  split
  · exact dropped.onIceComplete _
  · split
    · exact dropped.checksExhausted (by assumption)
    · split
      · exact dropped.same rfl rfl rfl rfl
      · exact dropped

theorem Corresponds.finishCheck {ckid : Nat} (corr : Corresponds (some ckid) ice) (state : CheckState) (errCode : Nat)
    (after : state ≠ .inProgress) : Corresponds none (ice.finishCheck ckid state errCode) := by
  unfold Session.finishCheck
  dsimp only
  have set := corr.setBusy state errCode after
  split
  · exact set
  · exact set.onCheckComplete _

theorem Corresponds.onSuccess (req : Request) (corr : Corresponds (some req.ckid) ice) (check : Check) (srcAddr : Addr)
    (mapped : Option Addr) : Corresponds none (ice.onSuccess req check srcAddr mapped) := by
  unfold Session.onSuccess
  split
  · exact corr.finishCheck _ _ (by decide)
  · split
    · exact corr.finishCheck _ _ (by decide)
    · split
      · exact corr.finishCheck _ _ (by decide)
      · rename_i lcand out known
        have seen : Corresponds (some req.ckid) out := by
          unfold Session.mappedCand at known
          split at known
          · obtain ⟨_,rfl⟩ := Prod.mk.inj (Option.some.inj known)
            exact corr
          · split at known
            · contradiction
            · obtain ⟨_,rfl⟩ := Prod.mk.inj (Option.some.inj known)
              exact corr.same rfl rfl rfl rfl
        obtain ⟨validList,comp,added,_⟩ := addValidOnly out check lcand
        rw [added]
        have listed : Corresponds (some req.ckid) { out with validList := validList, comp := comp } :=
          seen.same rfl rfl rfl rfl
        exact listed.finishCheck _ _ (by decide)

theorem Corresponds.onStunRequestComplete (corr : Corresponds none ice) (req : Request) (result : Completion)
    (member : req ∈ ice.requests) : Corresponds none (ice.onStunRequestComplete (fun _ => .sent) req result) := by
  have marked := corr.completed req member
  unfold Session.onStunRequestComplete
  dsimp only
  split
  · rename_i missing
    obtain ⟨t,work⟩ := marked.working req.ckid rfl
    rw [pendingAt] at work
    rw [missing] at work
    contradiction
  · rename_i check here
    cases result with
    | roleConflict =>
      dsimp only
      obtain ⟨changes,changed⟩ := changeRoleOnly { ice.modifyCheck req.ckid (fun c => { c with tdata := none }) with
          requests := ice.requests.filter (fun r => r.tdata ≠ req.tdata) }
        (if req.roleAttr = .controlling then .controlled else .controlling)
      rw [changed]
      have turned : Corresponds (some req.ckid) { ice.modifyCheck req.ckid (fun c => { c with tdata := none }) with
          requests := ice.requests.filter (fun r => r.tdata ≠ req.tdata)
          role := if req.roleAttr = .controlling then .controlled else .controlling
          roleChanges := changes } := marked.same rfl rfl rfl rfl
      have waiting := turned.setBusy .waiting 0 (by decide)
      refine waiting.performCheck req.ckid { check with state := .waiting, errCode := 0 } _ ?_ (by decide : 1 < 2)
      simp only [Session.checkSetState,Session.modifyCheck,List.getElem?_modify_eq] at here ⊢
      rw [here]
      rfl
    | failure => exact marked.finishCheck _ _ (by decide)
    | success srcAddr mapped => exact Corresponds.onSuccess req marked check srcAddr mapped

theorem performCheckSent (ice : Session) (i : Nat) (nominate : Bool) :
    (ice.performCheck (fun _ => .sent) i nominate).1 = none := by
  unfold Session.performCheck
  split <;> rfl

theorem Corresponds.startPeriodicCheck (corr : Corresponds none ice) :
    Corresponds none (ice.startPeriodicCheck (fun _ => .sent)) := by
  unfold Session.startPeriodicCheck
  dsimp only
  have stopped : Corresponds none { ice with clistTimer := false } := corr.same rfl rfl rfl rfl
  split
  · exact stopped
  · rename_i i found
    have waits : ∃ c, ice.clist[i]? = some c ∧ c.state.num < CheckState.inProgress.num := by
      rcases Option.or_eq_some_iff.mp found with waiting | ⟨_,frozen⟩
      · obtain ⟨within,state,_⟩ := List.findIdx?_eq_some_iff_getElem.mp waiting
        refine ⟨ice.clist[i],List.getElem?_eq_getElem within,?_⟩
        rw [of_decide_eq_true state]
        decide
      · obtain ⟨within,state,_⟩ := List.findIdx?_eq_some_iff_getElem.mp frozen
        refine ⟨ice.clist[i],List.getElem?_eq_getElem within,?_⟩
        rw [of_decide_eq_true state]
        decide
    obtain ⟨c,here,before⟩ := waits
    have performed := stopped.performCheck i c ice.isNominating here before
    have sent := performCheckSent { ice with clistTimer := false } i ice.isNominating
    generalize Session.performCheck _ _ i ice.isNominating = result at performed sent ⊢
    obtain ⟨err,next⟩ := result
    obtain rfl : err = none := sent
    exact performed.same rfl rfl rfl rfl

theorem Corresponds.nominateValid (corr : Corresponds none ice) (c : Check) : Corresponds none (ice.nominateValid c) := by
  unfold Session.nominateValid
  generalize List.range ice.validList.length = places
  induction places generalizing ice with
  | nil => exact corr
  | cons j rest ih =>
    rw [List.foldl_cons]
    refine ih ?_
    split
    · exact corr
    · split
      · exact corr.same rfl rfl rfl rfl
      · exact corr

theorem Corresponds.triggerCheck (corr : Corresponds none ice) (i : Nat) (c : Check) (useCandidate : Bool)
    (here : ice.clist[i]? = some c) : Corresponds none (ice.triggerCheck (fun _ => .sent) i c useCandidate) := by
  unfold Session.triggerCheck
  split
  · rename_i state
    exact corr.performCheck i c _ here (by rw [state]; decide)
  · rename_i state
    exact corr.performCheck i c _ here (by rw [state]; decide)
  · exact corr
  · dsimp only
    split
    · exact (corr.nominateValid c).onCheckComplete c
    · exact corr.onCheckComplete c
  · exact corr

theorem Corresponds.add (corr : Corresponds none ice) (c : Check) (idle : c.state ≠ .inProgress) :
    Corresponds none { ice with clist := ice.clist ++ [c] } := by
  have pending : ({ ice with clist := ice.clist ++ [c] } : Session).pending = ice.pending ++ [none] := by
    simp only [Session.pending,List.map_append,List.map_singleton,pendingIdle c idle]
  refine ⟨corr.distinct,corr.bounded,?_,?_,nofun,corr.unbroken⟩
  · intro r member
    have was := (corr.outstanding r member).2
    have within := (List.getElem?_eq_some_iff.mp was).1
    refine ⟨nofun,?_⟩
    rw [pending,List.getElem?_append_left within]
    exact was
  · intro j t _ waits
    rw [pending,List.getElem?_append] at waits
    split at waits
    · exact corr.progress j t nofun waits
    · have last := List.mem_singleton.mp (List.mem_of_getElem? waits)
      contradiction

theorem Corresponds.handleIncomingCheck (corr : Corresponds none ice) (rcheck : RxCheck) :
    Corresponds none (ice.handleIncomingCheck (fun _ => .sent) rcheck) := by
  unfold Session.handleIncomingCheck
  split
  · exact corr
  · rename_i rcand out found
    have seen : Corresponds none out := by
      unfold Session.remoteCand at found
      split at found
      · obtain ⟨_,rfl⟩ := Prod.mk.inj (Option.some.inj found)
        exact corr
      · split at found
        · contradiction
        · obtain ⟨_,rfl⟩ := Prod.mk.inj (Option.some.inj found)
          exact corr.same rfl rfl rfl rfl
    split
    · exact seen
    · rename_i first listed
      dsimp only
      split
      · rename_i i place
        have marked := seen.modify i (fun c => { c with nominated := rcheck.useCandidate || c.nominated })
          (fun _ _ => rfl)
        split
        · exact marked
        · rename_i c here
          exact marked.triggerCheck i c rcheck.useCandidate here
      · split
        · have added := seen.add
            { lcand := first.lcand, rcand := rcand, prio := calcCheckPrio out.role first.lcand rcand, state := .waiting
              nominated := rcheck.useCandidate } nofun
          exact added.performCheck out.clist.length _ _ List.getElem?_concat_length (by decide : 1 < 2)
        · exact seen

theorem thawPending (compId : Nat) (seen : List (List Char)) (list : List Check) :
    (thaw compId seen list).map Check.pending = list.map Check.pending := by
  induction list generalizing seen with
  | nil => rfl
  | cons c rest ih =>
    unfold thaw
    split
    · rw [List.map_cons,List.map_cons,ih]
      congr 1
      split
      · rename_i frozen
        rw [pendingIdle c (by rw [frozen]; decide)]
        rfl
      · rfl
    · rw [List.map_cons,List.map_cons,ih]

theorem Corresponds.startCheck (corr : Corresponds none ice) : Corresponds none (ice.startCheck (fun _ => .sent)) := by
  unfold Session.startCheck
  dsimp only
  have nominating : Corresponds none (if ice.aggressive then { ice with isNominating := true } else ice) := by
    split
    · exact corr.same rfl rfl rfl rfl
    · exact corr
  generalize (if ice.aggressive then { ice with isNominating := true } else ice) = start at nominating ⊢
  have handled : ∀ (early : List RxCheck) (start : Session), Corresponds none start →
      Corresponds none (early.foldl (Session.handleIncomingCheck (fun _ => .sent)) start) := by
    intro early
    induction early with
    | nil => exact fun _ h => h
    | cons e rest ih => exact fun start h => ih _ (h.handleIncomingCheck e)
  split
  · have thawed : Corresponds none { start with clist := thaw 1 [] start.clist } :=
      nominating.same (thawPending 1 [] start.clist) rfl rfl rfl
    exact (handled start.earlyCheck _ thawed).same rfl rfl rfl rfl
  · exact nominating

theorem Corresponds.createCheckList (corr : Corresponds none ice) (empty : ice.clist = []) (remote : List Cand) :
    Corresponds none (ice.createCheckList remote) := by
  rcases createCheckListOnly ice remote with refused | ⟨rcand,clist,comp,made,_,plain⟩
  · rw [refused]
    exact corr
  rw [made]
  have none : ∀ r, r ∉ ice.requests := by
    intro r member
    have was := (corr.outstanding r member).2
    rw [pendingAt,empty] at was
    contradiction
  refine ⟨corr.distinct,corr.bounded,?_,?_,nofun,corr.unbroken⟩
  · exact fun r member => absurd member (none r)
  · intro j t _ waits
    rw [pendingAt] at waits
    obtain ⟨c,here,value⟩ := Option.map_eq_some_iff.mp waits
    have frozen := (plain c (List.mem_of_getElem? here)).frozen
    rw [pendingIdle c (by rw [frozen]; decide)] at value
    contradiction

theorem Corresponds.onTimer (corr : Corresponds none ice)
    (idle : ice.timer = .startNominatedCheck → ∀ v ∈ ice.validChecks, ice.resetsIdle v = true) :
    Corresponds none ice.onTimer := by
  unfold Session.onTimer
  dsimp only
  have fired : Corresponds none { ice with timer := .none } := corr.same rfl rfl rfl rfl
  split
  · exact fired.onIceComplete _
  · split
    · exact corr.same rfl rfl rfl rfl
    · exact fired
  · exact fired.startNominatedCheck (idle (by assumption))
  · exact corr.same rfl rfl rfl rfl
  · exact fired

theorem Corresponds.onStunRxRequest (corr : Corresponds none ice) (req : RxRequest) (answered : Bool) :
    Corresponds none (ice.onStunRxRequest (fun _ => .sent) req answered).2 := by
  unfold Session.onStunRxRequest
  split
  · exact corr
  · rename_i some_
    have priority : req.hasPriority = true := by simpa using some_
    split
    · exact corr
    · rename_i repaired known
      have repair : Corresponds none repaired := by
        rcases repairCases req answered repaired priority known with rfl | rfl | ⟨rfl,_⟩
        · exact corr
        · obtain ⟨changes,changed⟩ := changeRoleOnly ice .controlling
          rw [changed]
          exact corr.same rfl rfl rfl rfl
        · obtain ⟨changes,changed⟩ := changeRoleOnly ice .controlled
          rw [changed]
          exact corr.same rfl rfl rfl rfl
      split
      · exact repair
      · dsimp only
        have noted : Corresponds none (if req.rcheck.useCandidate then
            { repaired with nominations := req.rcheck.srcAddr :: repaired.nominations } else repaired) := by
          split
          · exact repair.same rfl rfl rfl rfl
          · exact repair
        generalize (if req.rcheck.useCandidate then
            { repaired with nominations := req.rcheck.srcAddr :: repaired.nominations } else repaired) = start
          at noted ⊢
        split
        · exact noted.same rfl rfl rfl rfl
        · exact noted.handleIncomingCheck req.rcheck

end Corresponding

/- When the timer of the nominated check fires, no check is in progress that start_nominated_check resets. -/
def Session.nominatesIdle (ice : Session) (input : Input) : Prop :=
  match input with
  | .timer => ice.timer = .startNominatedCheck → ∀ v ∈ ice.validChecks, ice.resetsIdle v = true
  | _ => True

instance (ice : Session) (input : Input) : Decidable (ice.nominatesIdle input) :=
  match input with
  | .timer => inferInstanceAs
      (Decidable (ice.timer = .startNominatedCheck → ∀ v ∈ ice.validChecks, ice.resetsIdle v = true))
  | .createCheckList _ | .startCheck | .periodic | .complete _ _ | .request _ _ | .changeRole _ => .isTrue trivial

theorem stepCorresponds (ice : Session) (corr : Corresponds none ice) (input : Input)
    (idle : ice.nominatesIdle input) : Corresponds none (ice.step (fun _ => .sent) input) := by
  unfold Session.step
  cases input with
  | createCheckList remote =>
    dsimp only
    split
    · rename_i empty
      exact corr.createCheckList empty.2 remote
    · exact corr
  | startCheck =>
    dsimp only
    split
    · exact corr
    · exact corr.startCheck
  | periodic =>
    dsimp only
    split
    · exact corr.startPeriodicCheck
    · exact corr
  | timer => exact corr.onTimer idle
  | complete tdata result =>
    dsimp only
    split
    · exact corr
    · rename_i req known
      exact corr.onStunRequestComplete req result (List.mem_of_find?_eq_some known)
  | request req answered => exact corr.onStunRxRequest req answered
  | changeRole role =>
    dsimp only
    obtain ⟨changes,changed⟩ := changeRoleOnly ice role
    rw [changed]
    exact corr.same rfl rfl rfl rfl

theorem createdCorresponds (ice : Session) (created : Created ice) : Corresponds none ice := by
  refine ⟨?_,?_,?_,?_,nofun,created.misused⟩
  · rw [created.requests]
    exact List.Pairwise.nil
  · simp [created.requests]
  · simp [created.requests]
  · intro i t _ waits
    rw [pendingAt,created.clist] at waits
    contradiction

theorem runCorresponds (ice : Session) (inputs : List Input) (corr : Corresponds none ice)
    (idle : ice.everyStep (fun _ => .sent) Session.nominatesIdle inputs) :
    Corresponds none (ice.run (fun _ => .sent) inputs) := by
  induction inputs generalizing ice with
  | nil => exact corr
  | cons input rest ih => exact ih (ice.step (fun _ => .sent) input) (stepCorresponds ice corr input idle.1) idle.2

/- The requests that carry the index of a check. -/
def Session.carrying (ice : Session) (i : Nat) : List Request := ice.requests.filter (fun r => r.ckid = i)

theorem carryingSingle (ice : Session) (corr : Corresponds none ice) (i : Nat) (r : Request) (member : r ∈ ice.requests)
    (index : r.ckid = i) : ice.carrying i = [r] := by
  have only : ∀ s ∈ ice.carrying i, s = r := by
    intro s inside
    obtain ⟨other,place⟩ := List.mem_filter.mp inside
    have place : s.ckid = i := by simpa using place
    have left := (corr.outstanding s other).2
    have right := (corr.outstanding r member).2
    rw [place,← index,right] at left
    have same := Option.some.inj (Option.some.inj (Option.some.inj left))
    exact corr.unique other member same.symm
  have inside : r ∈ ice.carrying i := List.mem_filter.mpr ⟨member,by simpa using index⟩
  have distinct : (ice.carrying i).Pairwise (fun a b => a.tdata ≠ b.tdata) := corr.distinct.filter _
  generalize ice.carrying i = list at only inside distinct
  match list, distinct with
  | [], _ => contradiction
  | [a], _ => rw [only a List.mem_cons_self]
  | a :: b :: rest, distinct =>
    have first := only a List.mem_cons_self
    have second := only b (List.mem_cons_of_mem _ List.mem_cons_self)
    have differ := (List.pairwise_cons.mp distinct).1 b List.mem_cons_self
    rw [first,second] at differ
    contradiction

theorem carryingAtMostOne (ice : Session) (corr : Corresponds none ice) (i : Nat) : (ice.carrying i).length ≤ 1 := by
  cases listIs : ice.carrying i with
  | nil => exact Nat.zero_le 1
  | cons r =>
    have inside : r ∈ ice.carrying i := listIs ▸ List.mem_cons_self
    obtain ⟨member,index⟩ := List.mem_filter.mp inside
    rw [← listIs,carryingSingle ice corr i r member (by simpa using index)]
    exact Nat.le_refl 1

/- Checks and transactions over whole runs, all sends succeeding. -/
theorem checksCorrespond (ice : Session) (created : Created ice) (inputs : List Input)
    (idle : ice.everyStep (fun _ => .sent) Session.nominatesIdle inputs) :
    let out := ice.run (fun _ => .sent) inputs
    (∀ (i : Nat) (c : Check), out.clist[i]? = some c →
      (c.state = .inProgress ↔ ∃ r, out.carrying i = [r] ∧ c.tdata = some r.tdata)) ∧
    (∀ i, (out.carrying i).length ≤ 1) ∧ out.misused = false := by
  intro out
  have corr : Corresponds none out := runCorresponds ice inputs (createdCorresponds ice created) idle
  refine ⟨?_,carryingAtMostOne out corr,corr.unbroken⟩
  intro i c here
  constructor
  · intro progress
    have waits : out.pending[i]? = some (some c.tdata) := by
      rw [pendingAt,here,Option.map_some,pendingProgress c progress]
    obtain ⟨r,member,index,tdata⟩ := corr.progress i c.tdata nofun waits
    exact ⟨r,carryingSingle out corr i r member index,tdata⟩
  · rintro ⟨r,carried,tdata⟩
    by_contra other
    have inside : r ∈ out.carrying i := by
      rw [carried]
      exact List.mem_cons_self
    obtain ⟨member,index⟩ := List.mem_filter.mp inside
    have index : r.ckid = i := by simpa using index
    have waits := (corr.outstanding r member).2
    rw [index,pendingAt,here,Option.map_some,pendingIdle c other] at waits
    exact nomatch Option.some.inj waits

/- Two host candidates share a transport. The second pair succeeds first, and the nominated check takes the first
pair, which is still in progress. -/
def secondSucceeds : List Input :=
  [.createCheckList [hostCand 0 9],.startCheck,.periodic,.periodic,
    .complete 1 (.success ⟨false,9,4000⟩ (some ⟨false,8,4000⟩)),.timer]

theorem progressTakenBack :
    ¬ ∀ (ice : Session), Created ice → ∀ (inputs : List Input),
      let out := ice.run (fun _ => .sent) inputs
      (∀ (i : Nat) (c : Check), out.clist[i]? = some c →
        (c.state = .inProgress ↔ ∃ r, out.carrying i = [r] ∧ c.tdata = some r.tdata)) ∧
      (∀ i, (out.carrying i).length ≤ 1) ∧ out.misused = false := by
  intro claim
  have taken := (claim (newSession .controlling 10 false [hostCand 0 7,hostCand 1 8]) (newSessionCreated _ _ _ _)
    secondSucceeds).1
  revert taken
  generalize result : (newSession .controlling 10 false [hostCand 0 7,hostCand 1 8]).run (fun _ => .sent)
    secondSucceeds = out
  have first : (out.clist[0]?).any (fun c => c.state = .waiting ∧ c.tdata = some 0) = true ∧
      (out.carrying 0).map Request.tdata = [0] := by
    rw [← result]
    decide +kernel
  intro taken
  obtain ⟨waiting,carried⟩ := first
  cases here : out.clist[0]? with
  | none =>
    rw [here] at waiting
    contradiction
  | some c =>
    rw [here] at waiting
    have waiting : c.state = .waiting ∧ c.tdata = some 0 := by simpa using waiting
    obtain ⟨r,single,number⟩ := List.map_eq_singleton_iff.mp carried
    have progress := (taken 0 c here).mpr ⟨r,single,by rw [waiting.2,number]⟩
    rw [waiting.1] at progress
    contradiction

/- When both pairs have succeeded the nominated check starts from a completed one. -/
def bothSucceed : List Input :=
  [.createCheckList [hostCand 0 9],.startCheck,.periodic,.periodic,
    .complete 1 (.success ⟨false,9,4000⟩ (some ⟨false,8,4000⟩)),
    .complete 0 (.success ⟨false,9,4000⟩ (some ⟨false,7,4000⟩)),.timer,.periodic]

theorem bothSucceedCorrespond :
    let out := (newSession .controlling 10 false [hostCand 0 7,hostCand 1 8]).run (fun _ => .sent) bothSucceed
    out.clist.map Check.state = [.inProgress,.succeeded] ∧ ∀ i, (out.carrying i).length ≤ 1 := by
  intro out
  have states : out.clist.map Check.state = [.inProgress,.succeeded] := by decide +kernel
  have correspond := checksCorrespond (newSession .controlling 10 false [hostCand 0 7,hostCand 1 8])
    (newSessionCreated _ _ _ _) bothSucceed (by decide +kernel)
  exact ⟨states,correspond.2.1⟩

end Pjproject.Ice
