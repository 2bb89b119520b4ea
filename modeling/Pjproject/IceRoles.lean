import Pjproject.IceWorks

/-! Role conflicts between two sessions. Every request is sent with the role its sender has at that moment, and
only a conflict changes a role; a message may arrive late, often or never. -/
namespace Pjproject.Ice

/- Outstanding requests were sent, and every request has its own number. -/
structure Numbered (ice : Session) : Prop where
  outstanding : ∀ r ∈ ice.requests, r ∈ ice.sent
  bounded : ∀ r ∈ ice.sent, r.tdata < ice.created
  distinct : ice.sent.Pairwise (fun a b => a.tdata ≠ b.tdata)

/- What a session does while it keeps its role. -/
structure Sends (ice out : Session) : Prop where
  role : out.role = ice.role
  tieBreaker : out.tieBreaker = ice.tieBreaker
  roleChanges : out.roleChanges = ice.roleChanges
  kept : ∀ r ∈ ice.sent, r ∈ out.sent
  fresh : ∀ r ∈ out.sent, r ∈ ice.sent ∨ (r.roleAttr = roleAttrOf ice.role ∧ r.tieBreaker = ice.tieBreaker)
  numbered : Numbered ice → Numbered out

theorem sendsRefl (ice : Session) : Sends ice ice :=
  ⟨rfl,rfl,rfl,fun _ h => h,fun _ h => Or.inl h,id⟩

theorem Sends.trans {a b c : Session} (first : Sends a b) (next : Sends b c) : Sends a c where
  role := next.role.trans first.role
  tieBreaker := next.tieBreaker.trans first.tieBreaker
  roleChanges := next.roleChanges.trans first.roleChanges
  kept := fun r h => next.kept r (first.kept r h)
  fresh := by
    intro r member
    rcases next.fresh r member with old | ⟨attr,tie⟩
    · exact first.fresh r old
    · rw [first.role] at attr
      rw [first.tieBreaker] at tie
      exact Or.inr ⟨attr,tie⟩
  numbered := fun h => next.numbered (first.numbered h)

theorem quietSends {ice out : Session} (role : out.role = ice.role) (tieBreaker : out.tieBreaker = ice.tieBreaker)
    (roleChanges : out.roleChanges = ice.roleChanges) (created : out.created = ice.created)
    (sent : out.sent = ice.sent) (requests : ∀ r ∈ out.requests, r ∈ ice.requests) : Sends ice out where
  role := role
  tieBreaker := tieBreaker
  roleChanges := roleChanges
  kept := fun r h => sent ▸ h
  fresh := fun r h => Or.inl (sent ▸ h)
  numbered := by
    intro old
    refine ⟨?_,?_,?_⟩
    · intro r member
      rw [sent]
      exact old.outstanding r (requests r member)
    · rw [sent,created]
      exact old.bounded
    · rw [sent]
      exact old.distinct

theorem foldSends {α : Type} (f : Session → α → Session) (each : ∀ ice x, Sends ice (f ice x)) (xs : List α)
    (ice : Session) : Sends ice (xs.foldl f ice) := by
  induction xs generalizing ice with
  | nil => exact sendsRefl ice
  | cons x xs ih => exact (each ice x).trans (ih (f ice x))

theorem requestSends (ice : Session) (req : Request) (number : req.tdata = ice.created)
    (attr : req.roleAttr = roleAttrOf ice.role) (tie : req.tieBreaker = ice.tieBreaker) :
    Sends ice { ice with created := ice.created + 1, requests := ice.requests ++ [req], sent := ice.sent ++ [req] } where
  role := rfl
  tieBreaker := rfl
  roleChanges := rfl
  kept := fun r h => List.mem_append_left _ h
  fresh := by
    intro r member
    rcases List.mem_append.mp member with old | new
    · exact Or.inl old
    · obtain rfl := List.mem_singleton.mp new
      exact Or.inr ⟨attr,tie⟩
  numbered := by
    intro old
    refine ⟨?_,?_,?_⟩
    · intro r member
      rcases List.mem_append.mp member with was | new
      · exact List.mem_append_left _ (old.outstanding r was)
      · exact List.mem_append_right _ new
    · intro r member
      rcases List.mem_append.mp member with was | new
      · exact Nat.lt_succ_of_lt (old.bounded r was)
      · obtain rfl := List.mem_singleton.mp new
        exact number ▸ Nat.lt_succ_self _
    · refine List.pairwise_append.mpr ⟨old.distinct,List.pairwise_singleton _ _,?_⟩
      intro r member s new
      obtain rfl := List.mem_singleton.mp new
      have below := old.bounded r member
      omega

theorem createdSends (ice : Session) : Sends ice { ice with created := ice.created + 1 } where
  role := rfl
  tieBreaker := rfl
  roleChanges := rfl
  kept := fun _ h => h
  fresh := fun _ h => Or.inl h
  numbered := fun old => ⟨old.outstanding,fun r h => Nat.lt_succ_of_lt (old.bounded r h),old.distinct⟩

theorem Works.sends {ice out : Session} (works : Works ice out) : Sends ice out := by
  induction works with
  | @rest ice out same =>
    have requests : out.requests = ice.requests := (congrArg Session.requests same :)
    exact quietSends (congrArg Session.role same :) (congrArg Session.tieBreaker same :) (congrArg Session.roleChanges same :)
      (congrArg Session.created same :) (congrArg Session.sent same :) (fun _ h => requests ▸ h)
  | relist => exact quietSends rfl rfl rfl rfl rfl (fun _ h => h)
  | nominate => exact quietSends rfl rfl rfl rfl rfl (fun _ h => h)
  | drop ice old => exact quietSends rfl rfl rfl rfl rfl old
  | made ice => exact createdSends ice
  | sent ice number attr tie => exact requestSends ice _ number attr tie
  | learnLocal => exact quietSends rfl rfl rfl rfl rfl (fun _ h => h)
  | trans first next ihFirst ihNext => exact ihFirst.trans ihNext

theorem addValidSends (ice : Session) (check : Check) (lcand : Cand) : Sends ice (ice.addValid check lcand) :=
  quietSends rfl rfl rfl rfl rfl (fun _ h => h)

theorem onSuccessSends (ice : Session) (req : Request) (check : Check) (srcAddr : Addr) (mapped : Option Addr) :
    Sends ice (ice.onSuccess req check srcAddr mapped) := by
  unfold Session.onSuccess
  split
  · exact (finishCheckWorks ice _ _ _).sends
  · split
    · exact (finishCheckWorks ice _ _ _).sends
    · split
      · exact (finishCheckWorks ice _ _ _).sends
      · rename_i lcand out known
        have seen := (mappedCandWorks ice check req.transportId _ lcand out known).sends
        exact (seen.trans (addValidSends out check lcand)).trans (finishCheckWorks _ _ _ _).sends

variable (net : Network) (role : Role)

theorem onStunRequestCompleteSends (ice : Session) (req : Request) (result : Completion)
    (peaceful : result ≠ .roleConflict) : Sends ice (ice.onStunRequestComplete net req result) := by
  unfold Session.onStunRequestComplete
  dsimp only
  have marked : Sends ice { ice.modifyCheck req.ckid (fun c => { c with tdata := none }) with
      requests := ice.requests.filter (fun r => r.tdata ≠ req.tdata) } :=
    quietSends rfl rfl rfl rfl rfl (fun _ h => List.mem_of_mem_filter h)
  generalize { ice.modifyCheck req.ckid (fun c => { c with tdata := none }) with
      requests := ice.requests.filter (fun r => r.tdata ≠ req.tdata) } = start at marked ⊢
  split
  · exact marked
  · cases result with
    | roleConflict => contradiction
    | failure => exact marked.trans (finishCheckWorks start _ _ _).sends
    | success srcAddr mapped => exact marked.trans (onSuccessSends start req _ srcAddr mapped)

theorem remoteCandSends (ice : Session) (rcheck : RxCheck) (rcand : Cand) (out : Session)
    (known : ice.remoteCand rcheck = some (rcand, out)) : Sends ice out := by
  unfold Session.remoteCand at known
  split at known
  · obtain ⟨_,rfl⟩ := Prod.mk.inj (Option.some.inj known)
    exact sendsRefl ice
  · split at known
    · contradiction
    · obtain ⟨_,rfl⟩ := Prod.mk.inj (Option.some.inj known)
      exact quietSends rfl rfl rfl rfl rfl (fun _ h => h)

theorem nominateValidSends (ice : Session) (c : Check) : Sends ice (ice.nominateValid c) := by
  unfold Session.nominateValid
  refine foldSends _ ?_ _ ice
  intro ice j
  split
  · exact sendsRefl ice
  · split
    · exact quietSends rfl rfl rfl rfl rfl (fun _ h => h)
    · exact sendsRefl ice

theorem triggerCheckSends (ice : Session) (i : Nat) (c : Check) (useCandidate : Bool) :
    Sends ice (ice.triggerCheck net i c useCandidate) := by
  unfold Session.triggerCheck
  split
  · exact (performCheckWorks ice net i _).sends
  · exact (performCheckWorks ice net i _).sends
  · exact sendsRefl ice
  · have nominated : Sends ice (if useCandidate then ice.nominateValid c else ice) := by
      split
      · exact nominateValidSends ice c
      · exact sendsRefl ice
    exact nominated.trans (onCheckCompleteWorks _ c).sends
  · exact sendsRefl ice

theorem handleIncomingCheckSends (ice : Session) (rcheck : RxCheck) :
    Sends ice (ice.handleIncomingCheck net rcheck) := by
  unfold Session.handleIncomingCheck
  split
  · exact sendsRefl ice
  · rename_i rcand out known
    have seen := remoteCandSends ice rcheck rcand out known
    split
    · exact seen
    · dsimp only
      split
      · rename_i i place
        have marked := seen.trans (quietSends rfl rfl rfl rfl rfl (fun _ h => h) : Sends out (out.modifyCheck i (fun c =>
          { c with nominated := rcheck.useCandidate || c.nominated })))
        split
        · exact marked
        · exact marked.trans (triggerCheckSends net _ _ _ _)
      · split
        · refine seen.trans (Sends.trans ?_ (performCheckWorks _ net _ _).sends)
          exact quietSends rfl rfl rfl rfl rfl (fun _ h => h)
        · exact seen

theorem createCheckListSends (ice : Session) (remote : List Cand) : Sends ice (ice.createCheckList remote) := by
  unfold Session.createCheckList
  split
  · exact sendsRefl ice
  · dsimp only
    split
    · exact quietSends rfl rfl rfl rfl rfl (fun _ h => h)
    · split
      · exact quietSends rfl rfl rfl rfl rfl (fun _ h => h)
      · exact quietSends rfl rfl rfl rfl rfl (fun _ h => h)

theorem startCheckSends (ice : Session) : Sends ice (ice.startCheck net) := by
  unfold Session.startCheck
  dsimp only
  have nominating : Sends ice (if ice.aggressive then { ice with isNominating := true } else ice) := by
    split
    · exact quietSends rfl rfl rfl rfl rfl (fun _ h => h)
    · exact sendsRefl ice
  generalize (if ice.aggressive then { ice with isNominating := true } else ice) = start at nominating ⊢
  split
  · have thawed : Sends start { start with clist := thaw 1 [] start.clist } :=
      quietSends rfl rfl rfl rfl rfl (fun _ h => h)
    have early := foldSends _ (handleIncomingCheckSends net) start.earlyCheck { start with clist := thaw 1 [] start.clist }
    exact ((nominating.trans thawed).trans early).trans (quietSends rfl rfl rfl rfl rfl (fun _ h => h))
  · exact nominating

/- The steps of a session that neither take a request nor learn of a conflict. -/
def Input.isOwn : Input → Bool
  | .request _ _ => false
  | .complete _ .roleConflict => false
  | .changeRole _ => false
  | _ => true

theorem ownStepSends (ice : Session) (input : Input) (own : input.isOwn = true) :
    Sends ice (ice.step net input) := by
  unfold Session.step
  cases input with
  | createCheckList remote =>
    dsimp only
    split
    · exact createCheckListSends ice remote
    · exact sendsRefl ice
  | startCheck =>
    dsimp only
    split
    · exact sendsRefl ice
    · exact startCheckSends net ice
  | periodic =>
    dsimp only
    split
    · exact (startPeriodicCheckWorks ice net).sends
    · exact sendsRefl ice
  | timer => exact (onTimerWorks ice).sends
  | complete tdata result =>
    dsimp only
    split
    · exact sendsRefl ice
    · refine onStunRequestCompleteSends net ice _ result ?_
      intro conflict
      subst conflict
      contradiction
  | request => contradiction
  | changeRole => contradiction

theorem changeRoleNumbered (ice : Session) (role : Role) (old : Numbered ice) : Numbered (ice.changeRole role) := by
  unfold Session.changeRole
  split
  · exact ⟨old.outstanding,old.bounded,old.distinct⟩
  · exact old

theorem changeRoleSent (ice : Session) (role : Role) : (ice.changeRole role).sent = ice.sent := by
  unfold Session.changeRole
  split <;> rfl

theorem changeRoleTie (ice : Session) (role : Role) : (ice.changeRole role).tieBreaker = ice.tieBreaker := by
  unfold Session.changeRole
  split <;> rfl

theorem changeRoleRole (ice : Session) (role : Role) : (ice.changeRole role).role = role := by
  unfold Session.changeRole
  split
  · rfl
  · rename_i same
    exact (Decidable.not_not.mp same).symm

theorem rxRequestCases (ice : Session) (req : RxRequest) (answered : Bool) :
    (ice.onStunRxRequest net req answered).2 = ice ∨ ∃ repaired, ice.repairRole req.roleAttr = some repaired ∧
      Sends repaired (ice.onStunRxRequest net req answered).2 ∧
      (ice.onStunRxRequest net req answered).1 ≠ .roleConflict := by
  unfold Session.onStunRxRequest
  split
  · exact Or.inl rfl
  · split
    · exact Or.inl rfl
    · rename_i repaired known
      refine Or.inr ⟨repaired,known,?_⟩
      split
      · exact ⟨sendsRefl repaired,nofun⟩
      · dsimp only
        have noted : Sends repaired (if req.rcheck.useCandidate then
            { repaired with nominations := req.rcheck.srcAddr :: repaired.nominations } else repaired) := by
          split
          · exact quietSends rfl rfl rfl rfl rfl (fun _ h => h)
          · exact sendsRefl repaired
        generalize (if req.rcheck.useCandidate then
            { repaired with nominations := req.rcheck.srcAddr :: repaired.nominations } else repaired) = start
          at noted ⊢
        split
        · exact ⟨noted.trans (quietSends rfl rfl rfl rfl rfl (fun _ h => h)),nofun⟩
        · exact ⟨noted.trans (handleIncomingCheckSends net start req.rcheck),nofun⟩

theorem rxRequestConflict (ice : Session) (req : RxRequest) (answered : Bool)
    (conflict : (ice.onStunRxRequest net req answered).1 = .roleConflict) : ice.repairRole req.roleAttr = none := by
  unfold Session.onStunRxRequest at conflict
  split at conflict
  · contradiction
  · split at conflict
    · assumption
    · split at conflict
      · contradiction
      · dsimp only at conflict
        split at conflict <;> split at conflict <;> contradiction

/- Two sessions, the one with the larger tie-breaker and the one with the smaller; beside them stand the requests
of each that the other answered with 487. -/
structure Agents where
  large : Session
  small : Session
  refusedLarge : List Request := []
  refusedSmall : List Request := []

/- Where a request arrives, which its sender does not choose. -/
structure Path where
  compId : Nat
  transportId : Nat
  srcAddr : Addr

def Request.arrive (req : Request) (path : Path) : RxRequest where
  rcheck :=
    { compId := path.compId, transportId := path.transportId, srcAddr := path.srcAddr, useCandidate := req.useCandidate
      priority := req.priority }
  roleAttr := some (req.roleAttr, req.tieBreaker)

/- A request or a 487 response is named by its place in the log; it stays there, so it may come again or never. -/
inductive Event where
  | largeOwn (input : Input)
  | smallOwn (input : Input)
  | largeReceives (place : Nat) (path : Path) (answered : Bool)
  | smallReceives (place : Nat) (path : Path) (answered : Bool)
  | largeRefused (place : Nat)
  | smallRefused (place : Nat)

def refusal (reply : Reply) (req : Request) : List Request := if reply = .roleConflict then [req] else []

def Agents.step (netLarge netSmall : Network) (agents : Agents) : Event → Agents
  | .largeOwn input =>
    if input.isOwn then { agents with large := agents.large.step netLarge input } else agents
  | .smallOwn input =>
    if input.isOwn then { agents with small := agents.small.step netSmall input } else agents
  | .largeReceives place path answered =>
    match agents.small.sent[place]? with
    | none => agents
    | some req =>
      let (reply, large) := agents.large.onStunRxRequest netLarge (req.arrive path) answered
      { agents with large := large, refusedSmall := agents.refusedSmall ++ refusal reply req }
  | .smallReceives place path answered =>
    match agents.large.sent[place]? with
    | none => agents
    | some req =>
      let (reply, small) := agents.small.onStunRxRequest netSmall (req.arrive path) answered
      { agents with small := small, refusedLarge := agents.refusedLarge ++ refusal reply req }
  | .largeRefused place =>
    match agents.refusedLarge[place]? with
    | none => agents
    | some req => { agents with large := agents.large.step netLarge (.complete req.tdata .roleConflict) }
  | .smallRefused place =>
    match agents.refusedSmall[place]? with
    | none => agents
    | some req => { agents with small := agents.small.step netSmall (.complete req.tdata .roleConflict) }

def Agents.run (netLarge netSmall : Network) (agents : Agents) (events : List Event) : Agents :=
  events.foldl (Agents.step netLarge netSmall) agents

theorem numberedUnique (ice : Session) (old : Numbered ice) (a b : Request) (left : a ∈ ice.sent) (right : b ∈ ice.sent)
    (same : a.tdata = b.tdata) : a = b := by
  by_contra differ
  have symmetric : Std.Symm (fun a b : Request => a.tdata ≠ b.tdata) := ⟨fun _ _ h => Ne.symm h⟩
  exact old.distinct.forall left right differ same

theorem conflictCases (ice : Session) (req : Request) (old : Numbered ice) (member : req ∈ ice.sent) :
    Sends ice (ice.step net (.complete req.tdata .roleConflict)) ∨ ∃ start, Sends ice start ∧
      Sends (start.changeRole (if req.roleAttr = .controlling then .controlled else .controlling))
        (ice.step net (.complete req.tdata .roleConflict)) := by
  unfold Session.step
  dsimp only
  split
  · exact Or.inl (sendsRefl ice)
  · rename_i found known
    have same : found.tdata = req.tdata := by simpa using List.find?_some known
    have sent := old.outstanding found (List.mem_of_find?_eq_some known)
    obtain rfl := numberedUnique ice old found req sent member same
    unfold Session.onStunRequestComplete
    dsimp only
    have marked : Sends ice { ice.modifyCheck found.ckid (fun c => { c with tdata := none }) with
        requests := ice.requests.filter (fun r => r.tdata ≠ found.tdata) } :=
      quietSends rfl rfl rfl rfl rfl (fun _ h => List.mem_of_mem_filter h)
    generalize { ice.modifyCheck found.ckid (fun c => { c with tdata := none }) with
        requests := ice.requests.filter (fun r => r.tdata ≠ found.tdata) } = start at marked ⊢
    split
    · exact Or.inl marked
    · refine Or.inr ⟨start,marked,?_⟩
      exact (checkSetStateWorks _ found.ckid .waiting 0).sends.trans (performCheckWorks _ net _ _).sends

/- Where the agent with the larger tie-breaker can be, by the roles the two started with. -/
structure LargeState (largeRole smallRole : Role) (ice : Session) : Prop where
  numbered : Numbered ice
  role : (ice.roleChanges = [] ∧ ice.role = largeRole) ∨
    (ice.roleChanges = [.controlling] ∧ ice.role = .controlling ∧ largeRole ≠ .controlling ∧ smallRole ≠ .controlling)
  tieBreaker : ∀ r ∈ ice.sent, r.tieBreaker = ice.tieBreaker
  yielding : ∀ r ∈ ice.sent, r.roleAttr = .controlled → largeRole ≠ .controlling
  claiming : ∀ r ∈ ice.sent, r.roleAttr = .controlling → ice.role = .controlling

structure SmallState (largeRole smallRole : Role) (ice : Session) : Prop where
  numbered : Numbered ice
  role : (ice.roleChanges = [] ∧ ice.role = smallRole) ∨
    (ice.roleChanges = [.controlled] ∧ ice.role = .controlled ∧ largeRole = .controlling ∧ smallRole = .controlling)
  tieBreaker : ∀ r ∈ ice.sent, r.tieBreaker = ice.tieBreaker
  yielding : ∀ r ∈ ice.sent, r.roleAttr = .controlled → ice.role ≠ .controlling
  claiming : ∀ r ∈ ice.sent, r.roleAttr = .controlling → smallRole = .controlling

theorem attrControlled : roleAttrOf role = .controlled ↔ role ≠ .controlling := by
  cases role <;> decide

theorem attrControlling : roleAttrOf role = .controlling ↔ role = .controlling := by
  cases role <;> decide

section Moves

variable {largeRole smallRole : Role} {ice out : Session}

theorem LargeState.sends (state : LargeState largeRole smallRole ice) (moves : Sends ice out) :
    LargeState largeRole smallRole out where
  numbered := moves.numbered state.numbered
  role := by
    rw [moves.role,moves.roleChanges]
    exact state.role
  tieBreaker := by
    intro r member
    rw [moves.tieBreaker]
    rcases moves.fresh r member with old | ⟨_,tie⟩
    · exact state.tieBreaker r old
    · exact tie
  yielding := by
    intro r member attr
    rcases moves.fresh r member with old | ⟨new,_⟩
    · exact state.yielding r old attr
    · have now := (attrControlled ice.role).mp (new.symm.trans attr)
      rcases state.role with ⟨_,same⟩ | ⟨_,controlling,_⟩
      · exact same ▸ now
      · exact absurd controlling now
  claiming := by
    intro r member attr
    rw [moves.role]
    rcases moves.fresh r member with old | ⟨new,_⟩
    · exact state.claiming r old attr
    · exact (attrControlling ice.role).mp (new.symm.trans attr)

theorem LargeState.changes (state : LargeState largeRole smallRole ice) (large : largeRole ≠ .controlling)
    (small : smallRole ≠ .controlling) : LargeState largeRole smallRole (ice.changeRole .controlling) where
  numbered := changeRoleNumbered ice _ state.numbered
  role := by
    rcases state.role with ⟨none,same⟩ | ⟨one,controlling,_⟩
    · refine Or.inr ⟨?_,changeRoleRole ice _,large,small⟩
      have differ : Role.controlling ≠ ice.role := same ▸ Ne.symm large
      simp only [Session.changeRole,if_pos differ,none]
    · refine Or.inr ⟨?_,changeRoleRole ice _,large,small⟩
      simp only [Session.changeRole,controlling,ne_eq,not_true_eq_false,if_false,one]
  tieBreaker := by
    rw [changeRoleSent,changeRoleTie]
    exact state.tieBreaker
  yielding := by
    rw [changeRoleSent]
    exact state.yielding
  claiming := fun _ _ _ => changeRoleRole ice _

theorem SmallState.sends (state : SmallState largeRole smallRole ice) (moves : Sends ice out) :
    SmallState largeRole smallRole out where
  numbered := moves.numbered state.numbered
  role := by
    rw [moves.role,moves.roleChanges]
    exact state.role
  tieBreaker := by
    intro r member
    rw [moves.tieBreaker]
    rcases moves.fresh r member with old | ⟨_,tie⟩
    · exact state.tieBreaker r old
    · exact tie
  yielding := by
    intro r member attr
    rw [moves.role]
    rcases moves.fresh r member with old | ⟨new,_⟩
    · exact state.yielding r old attr
    · exact (attrControlled ice.role).mp (new.symm.trans attr)
  claiming := by
    intro r member attr
    rcases moves.fresh r member with old | ⟨new,_⟩
    · exact state.claiming r old attr
    · have now := (attrControlling ice.role).mp (new.symm.trans attr)
      rcases state.role with ⟨_,same⟩ | ⟨_,_,_,small⟩
      · exact same.symm.trans now
      · exact small

theorem SmallState.changes (state : SmallState largeRole smallRole ice) (large : largeRole = .controlling)
    (small : smallRole = .controlling) : SmallState largeRole smallRole (ice.changeRole .controlled) where
  numbered := changeRoleNumbered ice _ state.numbered
  role := by
    rcases state.role with ⟨none,same⟩ | ⟨one,controlled,_⟩
    · refine Or.inr ⟨?_,changeRoleRole ice _,large,small⟩
      have differ : Role.controlled ≠ ice.role := by
        rw [same,small]
        decide
      simp only [Session.changeRole,if_pos differ,none]
    · refine Or.inr ⟨?_,changeRoleRole ice _,large,small⟩
      simp only [Session.changeRole,controlled,ne_eq,not_true_eq_false,if_false,one]
  tieBreaker := by
    rw [changeRoleSent,changeRoleTie]
    exact state.tieBreaker
  yielding := by
    intro _ _ _
    rw [changeRoleRole]
    decide
  claiming := by
    rw [changeRoleSent]
    exact state.claiming

end Moves

theorem repairLarge (ice repaired : Session) (attr : RoleAttr) (tie : Nat) (order : tie < ice.tieBreaker)
    (known : ice.repairRole (some (attr, tie)) = some repaired) :
    repaired = ice ∨ (attr = .controlled ∧ ice.role = .controlled ∧ repaired = ice.changeRole .controlling) := by
  have smaller : ¬ ice.tieBreaker < tie := by omega
  cases attr <;> simp only [Session.repairRole,smaller,if_false] at known
  · split at known
    · contradiction
    · exact Or.inl (Option.some.inj known).symm
  · split at known
    · exact Or.inr ⟨rfl,by assumption,(Option.some.inj known).symm⟩
    · exact Or.inl (Option.some.inj known).symm

theorem repairSmall (ice repaired : Session) (attr : RoleAttr) (tie : Nat) (order : ice.tieBreaker < tie)
    (known : ice.repairRole (some (attr, tie)) = some repaired) :
    repaired = ice ∨ (attr = .controlling ∧ ice.role = .controlling ∧ repaired = ice.changeRole .controlled) := by
  cases attr <;> simp only [Session.repairRole,order,if_true] at known
  · split at known
    · exact Or.inr ⟨rfl,by assumption,(Option.some.inj known).symm⟩
    · exact Or.inl (Option.some.inj known).symm
  · split at known
    · contradiction
    · exact Or.inl (Option.some.inj known).symm

theorem refusedByLarge (ice : Session) (attr : RoleAttr) (tie : Nat) (order : tie < ice.tieBreaker)
    (known : ice.repairRole (some (attr, tie)) = none) : attr = .controlling ∧ ice.role = .controlling := by
  have smaller : ¬ ice.tieBreaker < tie := by omega
  cases attr <;> simp only [Session.repairRole,smaller,if_false] at known
  · split at known
    · exact ⟨rfl,by assumption⟩
    · contradiction
  · split at known <;> contradiction

theorem refusedBySmall (ice : Session) (attr : RoleAttr) (tie : Nat) (order : ice.tieBreaker < tie)
    (known : ice.repairRole (some (attr, tie)) = none) : attr = .controlled ∧ ice.role = .controlled := by
  cases attr <;> simp only [Session.repairRole,order,if_true] at known
  · split at known <;> contradiction
  · split at known
    · exact ⟨rfl,by assumption⟩
    · contradiction

/- The invariant of the two agents; a refusal tells the roles they started with. -/
structure Settled (largeRole smallRole : Role) (agents : Agents) : Prop where
  order : agents.small.tieBreaker < agents.large.tieBreaker
  large : LargeState largeRole smallRole agents.large
  small : SmallState largeRole smallRole agents.small
  refusedLarge : ∀ r ∈ agents.refusedLarge, r ∈ agents.large.sent ∧ r.roleAttr = .controlled ∧
    largeRole ≠ .controlling ∧ smallRole ≠ .controlling
  refusedSmall : ∀ r ∈ agents.refusedSmall, r ∈ agents.small.sent ∧ r.roleAttr = .controlling ∧
    largeRole = .controlling ∧ smallRole = .controlling

/- What a step of one agent has to leave alone for the other one. -/
structure Continues (ice out : Session) : Prop where
  tieBreaker : out.tieBreaker = ice.tieBreaker
  kept : ∀ r ∈ ice.sent, r ∈ out.sent

theorem sendsContinues {ice out : Session} (moves : Sends ice out) : Continues ice out :=
  ⟨moves.tieBreaker,moves.kept⟩

theorem changeContinues {ice out : Session} (moves : Sends (ice.changeRole role) out) : Continues ice out := by
  refine ⟨moves.tieBreaker.trans (changeRoleTie ice role),?_⟩
  intro r member
  exact moves.kept r (by rwa [changeRoleSent])

section Settling

variable {largeRole smallRole : Role} {agents : Agents}

theorem settledLarge (settled : Settled largeRole smallRole agents) (out : Session)
    (state : LargeState largeRole smallRole out) (continues : Continues agents.large out) :
    Settled largeRole smallRole { agents with large := out } where
  order := continues.tieBreaker ▸ settled.order
  large := state
  small := settled.small
  refusedLarge := fun r h =>
    ⟨continues.kept r (settled.refusedLarge r h).1,(settled.refusedLarge r h).2⟩
  refusedSmall := settled.refusedSmall

theorem settledSmall (settled : Settled largeRole smallRole agents) (out : Session)
    (state : SmallState largeRole smallRole out) (continues : Continues agents.small out) :
    Settled largeRole smallRole { agents with small := out } where
  order := continues.tieBreaker ▸ settled.order
  large := settled.large
  small := state
  refusedLarge := settled.refusedLarge
  refusedSmall := fun r h =>
    ⟨continues.kept r (settled.refusedSmall r h).1,(settled.refusedSmall r h).2⟩

theorem largeReceives (net : Network) (settled : Settled largeRole smallRole agents) (req : Request)
    (member : req ∈ agents.small.sent) (path : Path) (answered : Bool) :
    let out := (agents.large.onStunRxRequest net (req.arrive path) answered).2
    LargeState largeRole smallRole out ∧ Continues agents.large out := by
  have lower : req.tieBreaker < agents.large.tieBreaker := by
    rw [settled.small.tieBreaker req member]
    exact settled.order
  intro out
  rcases rxRequestCases net agents.large (req.arrive path) answered with same | ⟨repaired,known,moves,_⟩
  · have same : out = agents.large := same
    rw [same]
    exact ⟨settled.large,sendsContinues (sendsRefl _)⟩
  · rcases repairLarge agents.large repaired req.roleAttr req.tieBreaker lower known with rfl | ⟨attr,role,rfl⟩
    · exact ⟨settled.large.sends moves,sendsContinues moves⟩
    · have started : largeRole = .controlled := by
        rcases settled.large.role with ⟨_,same⟩ | ⟨_,controlling,_⟩
        · exact same.symm.trans role
        · exact absurd (role.symm.trans controlling) (by decide)
      have large : largeRole ≠ .controlling := by
        rw [started]
        decide
      have small : smallRole ≠ .controlling := by
        rcases settled.small.role with ⟨_,same⟩ | ⟨_,_,controlling,_⟩
        · exact same ▸ settled.small.yielding req member attr
        · exact absurd controlling large
      exact ⟨(settled.large.changes large small).sends moves,changeContinues .controlling moves⟩

theorem smallReceives (net : Network) (settled : Settled largeRole smallRole agents) (req : Request)
    (member : req ∈ agents.large.sent) (path : Path) (answered : Bool) :
    let out := (agents.small.onStunRxRequest net (req.arrive path) answered).2
    SmallState largeRole smallRole out ∧ Continues agents.small out := by
  have higher : agents.small.tieBreaker < req.tieBreaker := by
    rw [settled.large.tieBreaker req member]
    exact settled.order
  intro out
  rcases rxRequestCases net agents.small (req.arrive path) answered with same | ⟨repaired,known,moves,_⟩
  · have same : out = agents.small := same
    rw [same]
    exact ⟨settled.small,sendsContinues (sendsRefl _)⟩
  · rcases repairSmall agents.small repaired req.roleAttr req.tieBreaker higher known with rfl | ⟨attr,role,rfl⟩
    · exact ⟨settled.small.sends moves,sendsContinues moves⟩
    · have small : smallRole = .controlling := by
        rcases settled.small.role with ⟨_,same⟩ | ⟨_,controlled,_⟩
        · exact same.symm.trans role
        · exact absurd (role.symm.trans controlled) (by decide)
      have large : largeRole = .controlling := by
        rcases settled.large.role with ⟨_,same⟩ | ⟨_,_,_,other⟩
        · exact same ▸ settled.large.claiming req member attr
        · exact absurd small other
      exact ⟨(settled.small.changes large small).sends moves,changeContinues .controlled moves⟩

theorem refusalMember {reply : Reply} {req r : Request} (member : r ∈ refusal reply req) :
    r = req ∧ reply = .roleConflict := by
  unfold refusal at member
  split at member
  · exact ⟨List.mem_singleton.mp member,by assumption⟩
  · contradiction

theorem largeRefuses (net : Network) (settled : Settled largeRole smallRole agents) (req : Request)
    (member : req ∈ agents.small.sent) (path : Path) (answered : Bool)
    (conflict : (agents.large.onStunRxRequest net (req.arrive path) answered).1 = .roleConflict) :
    req.roleAttr = .controlling ∧ largeRole = .controlling ∧ smallRole = .controlling := by
  have lower : req.tieBreaker < agents.large.tieBreaker := by
    rw [settled.small.tieBreaker req member]
    exact settled.order
  have known := rxRequestConflict net agents.large (req.arrive path) answered conflict
  obtain ⟨attr,role⟩ := refusedByLarge agents.large req.roleAttr req.tieBreaker lower known
  have small := settled.small.claiming req member attr
  rcases settled.large.role with ⟨_,same⟩ | ⟨_,_,_,other⟩
  · exact ⟨attr,same.symm.trans role,small⟩
  · exact absurd small other

theorem smallRefuses (net : Network) (settled : Settled largeRole smallRole agents) (req : Request)
    (member : req ∈ agents.large.sent) (path : Path) (answered : Bool)
    (conflict : (agents.small.onStunRxRequest net (req.arrive path) answered).1 = .roleConflict) :
    req.roleAttr = .controlled ∧ largeRole ≠ .controlling ∧ smallRole ≠ .controlling := by
  have higher : agents.small.tieBreaker < req.tieBreaker := by
    rw [settled.large.tieBreaker req member]
    exact settled.order
  have known := rxRequestConflict net agents.small (req.arrive path) answered conflict
  obtain ⟨attr,role⟩ := refusedBySmall agents.small req.roleAttr req.tieBreaker higher known
  have large := settled.large.yielding req member attr
  rcases settled.small.role with ⟨_,same⟩ | ⟨_,_,other,_⟩
  · have differ : agents.small.role ≠ .controlling := by
      rw [role]
      decide
    exact ⟨attr,large,same ▸ differ⟩
  · exact absurd other large

theorem largeRefused (net : Network) (settled : Settled largeRole smallRole agents) (req : Request)
    (member : req ∈ agents.refusedLarge) :
    let out := agents.large.step net (.complete req.tdata .roleConflict)
    LargeState largeRole smallRole out ∧ Continues agents.large out := by
  obtain ⟨sent,attr,large,small⟩ := settled.refusedLarge req member
  intro out
  rcases conflictCases net agents.large req settled.large.numbered sent with moves | ⟨start,first,moves⟩
  · exact ⟨settled.large.sends moves,sendsContinues moves⟩
  · rw [attr] at moves
    have next := changeContinues .controlling moves
    refine ⟨((settled.large.sends first).changes large small).sends moves,?_⟩
    exact ⟨next.tieBreaker.trans first.tieBreaker,fun r h => next.kept r (first.kept r h)⟩

theorem smallRefused (net : Network) (settled : Settled largeRole smallRole agents) (req : Request)
    (member : req ∈ agents.refusedSmall) :
    let out := agents.small.step net (.complete req.tdata .roleConflict)
    SmallState largeRole smallRole out ∧ Continues agents.small out := by
  obtain ⟨sent,attr,large,small⟩ := settled.refusedSmall req member
  intro out
  rcases conflictCases net agents.small req settled.small.numbered sent with moves | ⟨start,first,moves⟩
  · exact ⟨settled.small.sends moves,sendsContinues moves⟩
  · rw [attr] at moves
    have next := changeContinues .controlled moves
    refine ⟨((settled.small.sends first).changes large small).sends moves,?_⟩
    exact ⟨next.tieBreaker.trans first.tieBreaker,fun r h => next.kept r (first.kept r h)⟩

theorem stepSettled (netLarge netSmall : Network) (settled : Settled largeRole smallRole agents) (event : Event) :
    Settled largeRole smallRole (agents.step netLarge netSmall event) := by
  cases event with
  | largeOwn input =>
    simp only [Agents.step]
    split
    · rename_i own
      have moves := ownStepSends netLarge agents.large input own
      exact settledLarge settled _ (settled.large.sends moves) (sendsContinues moves)
    · exact settled
  | smallOwn input =>
    simp only [Agents.step]
    split
    · rename_i own
      have moves := ownStepSends netSmall agents.small input own
      exact settledSmall settled _ (settled.small.sends moves) (sendsContinues moves)
    · exact settled
  | largeReceives place path answered =>
    simp only [Agents.step]
    split
    · exact settled
    · rename_i req known
      have member := List.mem_of_getElem? known
      obtain ⟨state,continues⟩ := largeReceives netLarge settled req member path answered
      have moved := settledLarge settled _ state continues
      refine { moved with refusedSmall := ?_ }
      intro r refused
      rcases List.mem_append.mp refused with old | new
      · exact settled.refusedSmall r old
      · obtain ⟨rfl,conflict⟩ := refusalMember new
        exact ⟨member,largeRefuses netLarge settled r member path answered conflict⟩
  | smallReceives place path answered =>
    simp only [Agents.step]
    split
    · exact settled
    · rename_i req known
      have member := List.mem_of_getElem? known
      obtain ⟨state,continues⟩ := smallReceives netSmall settled req member path answered
      have moved := settledSmall settled _ state continues
      refine { moved with refusedLarge := ?_ }
      intro r refused
      rcases List.mem_append.mp refused with old | new
      · exact settled.refusedLarge r old
      · obtain ⟨rfl,conflict⟩ := refusalMember new
        exact ⟨member,smallRefuses netSmall settled r member path answered conflict⟩
  | largeRefused place =>
    simp only [Agents.step]
    split
    · exact settled
    · rename_i req known
      obtain ⟨state,continues⟩ := largeRefused netLarge settled req (List.mem_of_getElem? known)
      exact settledLarge settled _ state continues
  | smallRefused place =>
    simp only [Agents.step]
    split
    · exact settled
    · rename_i req known
      obtain ⟨state,continues⟩ := smallRefused netSmall settled req (List.mem_of_getElem? known)
      exact settledSmall settled _ state continues

end Settling

theorem createdNumbered (ice : Session) (created : Created ice) : Numbered ice := by
  refine ⟨?_,?_,?_⟩
  · rw [created.requests]
    exact nofun
  · rw [created.sent]
    exact nofun
  · rw [created.sent]
    exact List.Pairwise.nil

theorem createdSettled (large small : Session) (largeNew : Created large) (smallNew : Created small)
    (order : small.tieBreaker < large.tieBreaker) :
    Settled large.role small.role { large := large, small := small } where
  order := order
  large := by
    refine ⟨createdNumbered large largeNew,Or.inl ⟨largeNew.roleChanges,rfl⟩,?_,?_,?_⟩
    all_goals
      rw [largeNew.sent]
      exact nofun
  small := by
    refine ⟨createdNumbered small smallNew,Or.inl ⟨smallNew.roleChanges,rfl⟩,?_,?_,?_⟩
    all_goals
      rw [smallNew.sent]
      exact nofun
  refusedLarge := nofun
  refusedSmall := nofun

theorem runSettled (netLarge netSmall : Network) {largeRole smallRole : Role} (agents : Agents) (events : List Event)
    (settled : Settled largeRole smallRole agents) :
    Settled largeRole smallRole (agents.run netLarge netSmall events) := by
  induction events generalizing agents with
  | nil => exact settled
  | cons event events ih => exact ih (agents.step netLarge netSmall event) (stepSettled netLarge netSmall settled event)

/- Whatever the initial roles, each agent changes at most once and only the way its tie-breaker decides, and as
soon as one of them has changed the roles are different. -/
theorem conflictResolved (netLarge netSmall : Network) (large small : Session) (largeNew : Created large)
    (smallNew : Created small) (order : small.tieBreaker < large.tieBreaker) (events : List Event) :
    let agents := Agents.run netLarge netSmall { large := large, small := small } events
    agents.large.roleChanges.length ≤ 1 ∧ agents.small.roleChanges.length ≤ 1 ∧
    (∀ role ∈ agents.large.roleChanges, role = .controlling) ∧
    (∀ role ∈ agents.small.roleChanges, role = .controlled) ∧
    (agents.large.roleChanges ≠ [] ∨ agents.small.roleChanges ≠ [] → agents.large.role ≠ agents.small.role) := by
  intro agents
  have settled := runSettled netLarge netSmall _ events (createdSettled large small largeNew smallNew order)
  change Settled large.role small.role agents at settled
  rcases settled.large.role with ⟨none,largeRole⟩ | ⟨one,controlling,_,smallStart⟩
  · rcases settled.small.role with ⟨other,smallRole⟩ | ⟨one,controlled,largeStart,_⟩
    · rw [none,other]
      simp
    · rw [none,one,largeRole,controlled,largeStart]
      simp
  · rcases settled.small.role with ⟨none,smallRole⟩ | ⟨_,_,_,smallOther⟩
    · rw [none,one,controlling,smallRole]
      refine ⟨by simp,by simp,by simp,by simp,fun _ => Ne.symm smallStart⟩
    · exact absurd smallOther smallStart

/- A session with one component and the given host candidates. -/
def hostCand (place ip : Nat) : Cand where
  place := place
  compId := 1
  transportId := 0
  type := .host
  foundation := ['H']
  prio := calcCandPrio .host 65535 1
  addr := ⟨false,ip,4000⟩
  baseAddr := ⟨false,ip,4000⟩

def newSession (role : Role) (tieBreaker : Nat) (aggressive : Bool) (lcand : List Cand) : Session where
  role := role
  tieBreaker := tieBreaker
  aggressive := aggressive
  lcand := lcand
  comp := [{}]

theorem newSessionCreated (tieBreaker : Nat) (aggressive : Bool) (lcand : List Cand) :
    Created (newSession role tieBreaker aggressive lcand) := by
  constructor <;> first | rfl | simp [newSession]

/- Both start controlling and send; the larger one refuses, and the smaller one yields on the 487 response. -/
def bothControlling : List Event :=
  [.smallOwn (.createCheckList [hostCand 0 9]),.smallOwn .startCheck,.smallOwn .periodic,
    .largeReceives 0 ⟨1,0,⟨false,7,4000⟩⟩ true,.smallRefused 0]

theorem bothControllingResolved :
    let agents := Agents.run (fun _ => .sent) (fun _ => .sent)
      { large := newSession .controlling 20 true [hostCand 0 9]
        small := newSession .controlling 10 true [hostCand 0 7] } bothControlling
    agents.small.roleChanges = [.controlled] ∧ agents.large.role ≠ agents.small.role := by
  intro agents
  have changed : agents.small.roleChanges = [.controlled] := by decide +kernel
  refine ⟨changed,?_⟩
  have resolved := conflictResolved (fun _ => .sent) (fun _ => .sent)
    (newSession .controlling 20 true [hostCand 0 9]) (newSession .controlling 10 true [hostCand 0 7])
    (newSessionCreated _ _ _ _) (newSessionCreated _ _ _ _) (by decide) bothControlling
  refine resolved.2.2.2.2 (Or.inr ?_)
  change agents.small.roleChanges ≠ []
  rw [changed]
  decide

end Pjproject.Ice
