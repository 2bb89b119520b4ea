import Pjproject.IceModel

/-! What a session does by itself: it sends requests, learns candidates and moves checks, timers and flags. Only the controlling
agent nominates. -/
namespace Pjproject.Ice

/- What stays of a check while its state changes, and its flag. -/
def Check.body (c : Check) : Cand × Cand × Nat × Bool := (c.lcand, c.rcand, c.prio, c.nominated)

/- Without the timers, the flags and the components. -/
def Session.lasting (ice : Session) : Session :=
  { ice with
    isNominating := false, isComplete := false, iceStatus := 0, validPairFound := false, comp := [], timer := .none
    clistTimer := false, misused := false }

inductive Works : Session → Session → Prop where
  | rest {ice out : Session} (same : out.lasting = ice.lasting) : Works ice out
  | relist (ice : Session) {clist : List Check} (bodies : clist.map Check.body = ice.clist.map Check.body) :
      Works ice { ice with clist := clist }
  | nominate (ice : Session) (i : Nat) {flag : Bool} (controlling : flag = true → ice.role = .controlling) :
      Works ice (ice.modifyCheck i (fun c => { c with nominated := c.nominated || flag }))
  | drop (ice : Session) {requests : List Request} (old : ∀ r ∈ requests, r ∈ ice.requests) :
      Works ice { ice with requests := requests }
  | made (ice : Session) : Works ice { ice with created := ice.created + 1 }
  | sent (ice : Session) {req : Request} (number : req.tdata = ice.created) (attr : req.roleAttr = roleAttrOf ice.role)
      (tie : req.tieBreaker = ice.tieBreaker) :
      Works ice { ice with created := ice.created + 1, requests := ice.requests ++ [req], sent := ice.sent ++ [req] }
  | learnLocal (ice : Session) (c : Cand) (room : ice.lcand.length < maxCand) :
      Works ice { ice with lcand := ice.lcand ++ [c] }
  | trans {a b c : Session} (first : Works a b) (next : Works b c) : Works a c

theorem worksRefl (ice : Session) : Works ice ice := .rest rfl

theorem foldWorks {α : Type} (f : Session → α → Session) (each : ∀ ice x, Works ice (f ice x)) (xs : List α)
    (ice : Session) : Works ice (xs.foldl f ice) := by
  induction xs generalizing ice with
  | nil => exact worksRefl ice
  | cons x xs ih => exact (each ice x).trans (ih (f ice x))

theorem mapModify {α β : Type} (list : List α) (i : Nat) (f : α → α) (g : α → β)
    (same : ∀ x, list[i]? = some x → g (f x) = g x) : (list.modify i f).map g = list.map g := by
  apply List.ext_getElem?
  intro j
  rw [List.getElem?_map,List.getElem?_map,List.getElem?_modify]
  cases here : list[j]? with
  | none => rfl
  | some x =>
    split
    · rename_i place
      subst place
      exact congrArg some (same x here)
    · rfl

theorem mapSame {α β : Type} (list : List α) (f : α → α) (g : α → β) (same : ∀ x, g (f x) = g x) :
    (list.map f).map g = list.map g := by
  rw [List.map_map]
  exact List.map_congr_left (fun x _ => same x)

theorem failPendingBody (compId : Nat) (c : Check) : (failPending compId c).body = c.body := by
  unfold failPending
  split
  · rfl
  · split <;> rfl

theorem unfreezeBody (foundation : List Char) (c : Check) : (unfreeze foundation c).body = c.body := by
  unfold unfreeze
  split <;> rfl

theorem thawBody (compId : Nat) (seen : List (List Char)) (list : List Check) :
    (thaw compId seen list).map Check.body = list.map Check.body := by
  induction list generalizing seen with
  | nil => rfl
  | cons c rest ih =>
    unfold thaw
    split
    · rw [List.map_cons,List.map_cons,ih]
      congr 1
      split <;> rfl
    · rw [List.map_cons,List.map_cons,ih]

section Operations

variable (ice : Session)

theorem modifyCheckWorks (i : Nat) (f : Check → Check) (same : ∀ c, (f c).body = c.body) : Works ice (ice.modifyCheck i f) :=
  .relist ice (mapModify ice.clist i f Check.body (fun c _ => same c))

theorem checkSetStateWorks (i : Nat) (state : CheckState) (errCode : Nat) : Works ice (ice.checkSetState i state errCode) :=
  (modifyCheckWorks ice i (fun c => { c with state := state, errCode := errCode }) (fun _ => rfl)).trans (.rest rfl)

theorem performCheckWorks (net : Network) (i : Nat) (nominate : Bool) : Works ice (ice.performCheck net i nominate).2 := by
  unfold Session.performCheck
  split
  · exact worksRefl ice
  · rename_i check here
    dsimp only
    have controlling : (ice.request i check nominate).useCandidate = true → ice.role = .controlling := by
      intro flag
      simp only [Session.request,Bool.and_eq_true,decide_eq_true_eq] at flag
      exact flag.1
    split
    · exact .made ice
    · exact ((Works.made ice).trans (.nominate _ i controlling)).trans
        (modifyCheckWorks _ i (fun c => { c with tdata := none }) (fun _ => rfl))
    · have sent : Works ice _ := @Works.sent ice (ice.request i check nominate) rfl rfl rfl
      have stored := (sent.trans (.nominate _ i controlling)).trans
        (modifyCheckWorks _ i (fun c => { c with tdata := some (ice.request i check nominate).tdata }) (fun _ => rfl))
      exact stored.trans (checkSetStateWorks _ i .inProgress 0)

theorem onIceCompleteWorks (status : Nat) : Works ice (ice.onIceComplete status) := by
  unfold Session.onIceComplete
  split
  · exact worksRefl ice
  · exact .rest rfl

theorem resetCheckWorks (valid : Check) : Works ice (ice.resetCheck valid) := by
  unfold Session.resetCheck
  split
  · exact worksRefl ice
  · exact (modifyCheckWorks ice _ (fun c => { c with state := .frozen }) (fun _ => rfl)).trans
      (checkSetStateWorks _ _ .waiting 0)

theorem startNominatedCheckWorks : Works ice ice.startNominatedCheck := by
  unfold Session.startNominatedCheck
  dsimp only
  split
  · have stopped : Works ice { ice with timer := .none } := .rest rfl
    exact (stopped.trans (foldWorks Session.resetCheck resetCheckWorks ice.validChecks _)).trans (.rest rfl)
  · exact (foldWorks Session.resetCheck resetCheckWorks ice.validChecks ice).trans (.rest rfl)

theorem checksExhaustedWorks : Works ice ice.checksExhausted.2 := by
  unfold Session.checksExhausted
  split
  · split
    · exact onIceCompleteWorks ice _
    · split
      · exact .rest rfl
      · exact worksRefl ice
  · split
    · exact onIceCompleteWorks ice _
    · split
      · exact onIceCompleteWorks ice _
      · exact startNominatedCheckWorks ice

theorem dropPendingWorks (compId : Nat) : Works ice (ice.dropPending compId) :=
  (Works.relist ice (mapSame ice.clist _ Check.body (failPendingBody compId))).trans
    (.drop _ (fun _ h => List.mem_of_mem_filter h))

theorem onCheckCompleteWorks (check : Check) : Works ice (ice.onCheckComplete check).2 := by
  unfold Session.onCheckComplete
  dsimp only
  have thawed : Works ice (if check.errCode = 0 then
      { ice with clist := ice.clist.map (unfreeze check.lcand.foundation), validPairFound := true } else ice) := by
    split
    · exact (Works.relist ice (mapSame ice.clist _ Check.body (unfreezeBody _))).trans (.rest rfl)
    · exact worksRefl ice
  generalize (if check.errCode = 0 then
      { ice with clist := ice.clist.map (unfreeze check.lcand.foundation), validPairFound := true } else ice) = start
    at thawed ⊢
  have dropped : Works start
      (if check.errCode = 0 ∧ check.nominated then start.dropPending check.lcand.compId else start) := by
    split
    · exact dropPendingWorks start _
    · exact worksRefl start
  generalize (if check.errCode = 0 ∧ check.nominated then start.dropPending check.lcand.compId else start) = mid
    at dropped ⊢
  refine (thawed.trans dropped).trans ?_
  split
  · exact onIceCompleteWorks mid _
  · split
    · exact checksExhaustedWorks mid
    · split
      · exact .rest rfl
      · exact worksRefl mid

theorem finishCheckWorks (i : Nat) (state : CheckState) (errCode : Nat) : Works ice (ice.finishCheck i state errCode) := by
  unfold Session.finishCheck
  dsimp only
  have set := checkSetStateWorks ice i state errCode
  split
  · exact set
  · exact set.trans (onCheckCompleteWorks _ _)

theorem startPeriodicCheckWorks (net : Network) : Works ice (ice.startPeriodicCheck net) := by
  unfold Session.startPeriodicCheck
  dsimp only
  have stopped : Works ice { ice with clistTimer := false } := .rest rfl
  generalize { ice with clistTimer := false } = start at stopped ⊢
  split
  · exact stopped
  · rename_i i found
    have performed := stopped.trans (performCheckWorks start net i ice.isNominating)
    generalize start.performCheck net i ice.isNominating = result at performed ⊢
    obtain ⟨err,next⟩ := result
    cases err with
    | none => exact performed.trans (.rest rfl)
    | some err => exact (performed.trans (finishCheckWorks next i .failed err.code)).trans (.rest rfl)

theorem mappedCandWorks (check : Check) (transportId : Nat) (mapped : Addr) (lcand : Cand) (out : Session)
    (known : ice.mappedCand check transportId mapped = some (lcand, out)) : Works ice out := by
  unfold Session.mappedCand at known
  split at known
  · obtain ⟨_,rfl⟩ := Prod.mk.inj (Option.some.inj known)
    exact worksRefl ice
  · split at known
    · contradiction
    · rename_i room
      obtain ⟨_,rfl⟩ := Prod.mk.inj (Option.some.inj known)
      exact .learnLocal ice _ (Nat.lt_of_not_le room)

theorem releasedWorks (req : Request) : Works ice { ice.modifyCheck req.ckid (fun c => { c with tdata := none }) with
    requests := ice.requests.filter (fun r => r.tdata ≠ req.tdata) } :=
  (modifyCheckWorks ice req.ckid (fun c => { c with tdata := none }) (fun _ => rfl)).trans
    (.drop _ (fun _ h => List.mem_of_mem_filter h))

theorem onTimerWorks : Works ice ice.onTimer := by
  unfold Session.onTimer
  dsimp only
  have fired : Works ice { ice with timer := .none } := .rest rfl
  split
  · exact fired.trans (onIceCompleteWorks _ _)
  · split
    · exact .rest rfl
    · exact fired
  · exact fired.trans (startNominatedCheckWorks _)
  · exact .rest rfl
  · exact fired

end Operations

end Pjproject.Ice
