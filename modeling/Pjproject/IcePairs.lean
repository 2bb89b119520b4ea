import Pjproject.IceChecks

/-! The pairs of a session: what is added to its arrays, and the priority a pair keeps. Apart from a new list, a
success and a change of role, a session only learns candidates and adds single checks. -/
namespace Pjproject.Ice

/- What stays of a check while its state changes. -/
def Check.pair (c : Check) : Cand × Cand × Nat := (c.lcand, c.rcand, c.prio)

inductive Moves : Session → Session → Prop where
  | keep {ice out : Session} (role : out.role = ice.role) (lcand : out.lcand = ice.lcand)
      (rcand : out.rcand = ice.rcand) (clist : out.clist.map Check.pair = ice.clist.map Check.pair)
      (validList : out.validList.map Check.pair = ice.validList.map Check.pair) : Moves ice out
  | learnLocal (ice : Session) (c : Cand) (room : ice.lcand.length < maxCand) :
      Moves ice { ice with lcand := ice.lcand ++ [c] }
  | learnRemote (ice : Session) (c : Cand) (room : ice.rcand.length < maxCand) :
      Moves ice { ice with rcand := ice.rcand ++ [c] }
  | addCheck (ice : Session) (c : Check) (room : ice.clist.length < maxChecks)
      (prio : c.prio = calcCheckPrio ice.role c.lcand c.rcand) : Moves ice { ice with clist := ice.clist ++ [c] }
  | trans {a b c : Session} (first : Moves a b) (next : Moves b c) : Moves a c

variable (ice : Session) (net : Network)

theorem movesRefl : Moves ice ice := .keep rfl rfl rfl rfl rfl

theorem foldMoves {α : Type} (f : Session → α → Session) (each : ∀ ice x, Moves ice (f ice x)) (xs : List α)
    (ice : Session) : Moves ice (xs.foldl f ice) := by
  induction xs generalizing ice with
  | nil => exact movesRefl ice
  | cons x xs ih => exact (each ice x).trans (ih (f ice x))

theorem pairsOfBodies {old new : List Check} (bodies : new.map Check.body = old.map Check.body) :
    new.map Check.pair = old.map Check.pair := by
  have pairs := congrArg (List.map fun b : Cand × Cand × Nat × Bool => (b.1, b.2.1, b.2.2.1)) bodies
  rwa [List.map_map,List.map_map] at pairs

theorem Works.moves {ice out : Session} (works : Works ice out) : Moves ice out := by
  induction works with
  | @rest ice out same =>
    have clist : out.clist = ice.clist := (congrArg Session.clist same :)
    have validList : out.validList = ice.validList := (congrArg Session.validList same :)
    exact .keep (congrArg Session.role same :) (congrArg Session.lcand same :) (congrArg Session.rcand same :)
      (congrArg _ clist) (congrArg _ validList)
  | relist ice bodies => exact .keep rfl rfl rfl (pairsOfBodies bodies) rfl
  | nominate ice i => exact .keep rfl rfl rfl (mapModify ice.clist i _ Check.pair (fun _ _ => rfl)) rfl
  | drop => exact .keep rfl rfl rfl rfl rfl
  | made => exact .keep rfl rfl rfl rfl rfl
  | sent => exact .keep rfl rfl rfl rfl rfl
  | learnLocal ice c room => exact .learnLocal ice c room
  | trans first next ihFirst ihNext => exact ihFirst.trans ihNext

theorem remoteCandMoves (rcheck : RxCheck) (rcand : Cand) (out : Session)
    (known : ice.remoteCand rcheck = some (rcand, out)) : Moves ice out := by
  unfold Session.remoteCand at known
  split at known
  · obtain ⟨_,rfl⟩ := Prod.mk.inj (Option.some.inj known)
    exact movesRefl ice
  · split at known
    · contradiction
    · rename_i room
      obtain ⟨_,rfl⟩ := Prod.mk.inj (Option.some.inj known)
      exact .learnRemote ice _ (Nat.lt_of_not_le room)

theorem nominateValidMoves (c : Check) : Moves ice (ice.nominateValid c) := by
  unfold Session.nominateValid
  refine foldMoves _ ?_ _ ice
  intro ice j
  split
  · exact movesRefl ice
  · split
    · exact .keep rfl rfl rfl rfl
        (mapModify ice.validList j (fun v => { v with nominated := true }) Check.pair (fun _ _ => rfl))
    · exact movesRefl ice

theorem triggerCheckMoves (ice : Session) (i : Nat) (c : Check) (useCandidate : Bool) :
    Moves ice (ice.triggerCheck net i c useCandidate) := by
  unfold Session.triggerCheck
  split
  · exact (performCheckWorks ice net i _).moves
  · exact (performCheckWorks ice net i _).moves
  · exact movesRefl ice
  · dsimp only
    split
    · exact (nominateValidMoves ice c).trans (onCheckCompleteWorks _ c).moves
    · exact (onCheckCompleteWorks ice c).moves
  · exact movesRefl ice

theorem handleIncomingCheckMoves (ice : Session) (rcheck : RxCheck) :
    Moves ice (ice.handleIncomingCheck net rcheck) := by
  unfold Session.handleIncomingCheck
  split
  · exact movesRefl ice
  · rename_i rcand out found
    have seen := remoteCandMoves ice rcheck rcand out found
    split
    · exact seen
    · rename_i first listed
      dsimp only
      split
      · rename_i i place
        have marked : Moves ice (out.modifyCheck i (fun c => { c with nominated := rcheck.useCandidate || c.nominated })) :=
          seen.trans (.keep rfl rfl rfl (mapModify out.clist i _ Check.pair (fun _ _ => rfl)) rfl)
        split
        · exact marked
        · exact marked.trans (triggerCheckMoves net _ _ _ _)
      · split
        · rename_i room
          exact (seen.trans (.addCheck out _ room rfl)).trans (performCheckWorks _ net _ _).moves
        · exact seen

theorem startCheckMoves (ice : Session) : Moves ice (ice.startCheck net) := by
  unfold Session.startCheck
  dsimp only
  have nominating : Moves ice (if ice.aggressive then { ice with isNominating := true } else ice) := by
    split
    · exact .keep rfl rfl rfl rfl rfl
    · exact movesRefl ice
  generalize (if ice.aggressive then { ice with isNominating := true } else ice) = start at nominating ⊢
  split
  · have thawed : Moves start { start with clist := thaw 1 [] start.clist } :=
      Works.moves (.relist start (thawBody 1 [] start.clist))
    have early := foldMoves _ (handleIncomingCheckMoves net) start.earlyCheck
      { start with clist := thaw 1 [] start.clist }
    exact ((nominating.trans thawed).trans early).trans (.keep rfl rfl rfl rfl rfl)
  · exact nominating

theorem Moves.validPairs {ice out : Session} (moves : Moves ice out) :
    out.validList.map Check.pair = ice.validList.map Check.pair := by
  induction moves with
  | keep role lcand rcand clist validList => exact validList
  | learnLocal => rfl
  | learnRemote => rfl
  | addCheck => rfl
  | trans first next ihFirst ihNext => exact ihNext.trans ihFirst

structure Fits (ice : Session) : Prop where
  lcand : ice.lcand.length ≤ maxCand
  rcand : ice.rcand.length ≤ maxCand
  clist : ice.clist.length ≤ maxChecks

theorem lengthAdded {α : Type} {list : List α} {x : α} {n : Nat} (room : list.length < n) :
    (list ++ [x]).length ≤ n := by
  rw [List.length_append,List.length_singleton]
  exact room

theorem Moves.fits {ice out : Session} (moves : Moves ice out) (fits : Fits ice) : Fits out := by
  induction moves with
  | keep role lcand rcand clist =>
    have checks := congrArg List.length clist
    simp only [List.length_map] at checks
    refine ⟨?_,?_,?_⟩
    · exact lcand ▸ fits.lcand
    · exact rcand ▸ fits.rcand
    · exact checks ▸ fits.clist
  | learnLocal ice c room => exact { fits with lcand := lengthAdded room }
  | learnRemote ice c room => exact { fits with rcand := lengthAdded room }
  | addCheck ice c room => exact { fits with clist := lengthAdded room }
  | trans first next ihFirst ihNext => exact ihNext (ihFirst fits)

theorem changeRoleFits {ice : Session} (fits : Fits ice) (role : Role) : Fits (ice.changeRole role) := by
  obtain ⟨changes,changed⟩ := changeRoleOnly ice role
  rw [changed]
  exact ⟨fits.lcand,fits.rcand,fits.clist⟩

/- What a check keeps whatever mapped address its response shows: its base address and its remote candidate. -/
def Check.route (c : Check) : Addr × Nat := (c.lcand.baseAddr, c.rcand.place)

theorem routesOfPairs {old new : List Check} (pairs : new.map Check.pair = old.map Check.pair) :
    new.map Check.route = old.map Check.route := by
  have routes := congrArg (List.map fun p : Cand × Cand × Nat => (p.1.baseAddr, p.2.1.place)) pairs
  rwa [List.map_map,List.map_map] at routes

theorem Moves.routes {ice out : Session} (moves : Moves ice out) :
    ice.clist.map Check.route ⊆ out.clist.map Check.route := by
  induction moves with
  | keep role lcand rcand clist => exact (routesOfPairs clist).symm ▸ List.Subset.refl _
  | learnLocal => exact List.Subset.refl _
  | learnRemote => exact List.Subset.refl _
  | addCheck =>
    rw [List.map_append]
    exact List.subset_append_left _ _
  | trans first next ihFirst ihNext => exact List.Subset.trans ihFirst ihNext

/- Every valid pair is on the route of a check, and there is one for each route but for so many more. -/
structure Counted (more : Nat) (ice : Session) : Prop where
  routed : ice.validList.map Check.route ⊆ ice.clist.map Check.route
  few : ice.validList.length ≤ (ice.validList.map Check.route).toFinset.card + more

theorem Counted.bound {more : Nat} {ice : Session} (counted : Counted more ice) :
    ice.validList.length ≤ ice.clist.length + more := by
  have within : (ice.validList.map Check.route).toFinset ⊆ (ice.clist.map Check.route).toFinset :=
    fun r member => List.mem_toFinset.mpr (counted.routed (List.mem_toFinset.mp member))
  have fewer := (Finset.card_le_card within).trans (List.toFinset_card_le _)
  rw [List.length_map] at fewer
  exact counted.few.trans (Nat.add_le_add_right fewer more)

theorem Counted.same {more : Nat} {ice out : Session} (counted : Counted more ice)
    (validList : out.validList.map Check.pair = ice.validList.map Check.pair)
    (clist : ice.clist.map Check.route ⊆ out.clist.map Check.route) : Counted more out := by
  have routes := routesOfPairs validList
  have length := congrArg List.length validList
  simp only [List.length_map] at length
  refine ⟨?_,?_⟩
  · rw [routes]
    exact List.Subset.trans counted.routed clist
  · rw [routes,length]
    exact counted.few

theorem Moves.counted {more : Nat} {ice out : Session} (moves : Moves ice out) (counted : Counted more ice) :
    Counted more out := counted.same moves.validPairs moves.routes

def Session.listed (ice : Session) (lcand rcand : Cand) : Bool :=
  ice.validList.any (fun v => v.lcand.place = lcand.place ∧ v.rcand.place = rcand.place)

theorem addValidRoutes (check : Check) (lcand : Cand) :
    ((ice.addValid check lcand).validList.map Check.route).Perm
      (ice.validList.map Check.route ++
        if ice.listed lcand check.rcand then [] else [(lcand.baseAddr, check.rcand.place)]) := by
  refine ((sortChecklistPerm _ _).map Check.route).trans ?_
  dsimp only [Session.updateCompCheck]
  have known : ice.validList.findIdx (fun v => v.lcand.place = lcand.place ∧ v.rcand.place = check.rcand.place) <
      ice.validList.length ↔ ice.listed lcand check.rcand = true := by
    rw [List.findIdx_lt_length,Session.listed,List.any_eq_true]
  by_cases listed : ice.listed lcand check.rcand = true
  · rw [if_pos (known.mpr listed),if_pos listed,List.append_nil]
    exact .of_eq (mapModify _ _ _ Check.route (fun _ _ => rfl))
  · rw [if_neg (fun below => listed (known.mp below)),if_neg listed,List.map_append]
    rfl

/- The check has a valid pair on its route already, and this candidate would make one more. -/
def Session.another (ice : Session) (check : Check) (lcand : Cand) : Bool :=
  decide (check.route ∈ ice.validList.map Check.route) && !ice.listed lcand check.rcand

theorem Counted.addValid {more : Nat} {ice : Session} (counted : Counted more ice) (check : Check) (lcand : Cand)
    (known : check.route ∈ ice.clist.map Check.route) (base : lcand.baseAddr = check.lcand.baseAddr) :
    Counted (more + (ice.another check lcand).toNat) (ice.addValid check lcand) := by
  have routes := addValidRoutes ice check lcand
  have finset := List.toFinset_eq_of_perm _ _ routes
  have length := routes.length_eq
  obtain ⟨validList,comp,only,_⟩ := addValidOnly ice check lcand
  have clist : (ice.addValid check lcand).clist = ice.clist := by rw [only]
  have route : (lcand.baseAddr, check.rcand.place) = check.route := by rw [base]; rfl
  rw [route] at routes finset length
  rw [List.length_map] at length
  refine ⟨fun r member => ?_,?_⟩
  · rw [clist]
    rcases List.mem_append.mp (routes.subset member) with old | new
    · exact counted.routed old
    · split at new
      · exact absurd new List.not_mem_nil
      · exact List.mem_singleton.mp new ▸ known
  · rw [finset,length]
    have few := counted.few
    unfold Session.another
    split
    · rename_i listed
      simp only [List.append_nil,List.length_map]
      omega
    · rename_i unlisted
      simp only [List.length_append,List.length_map,List.length_singleton,List.toFinset_append]
      by_cases repeated : check.route ∈ ice.validList.map Check.route
      · have grows := Finset.card_le_card
          (@Finset.subset_union_left _ _ (ice.validList.map Check.route).toFinset [check.route].toFinset)
        simp only [repeated,unlisted,decide_true,Bool.not_false,Bool.and_self,Bool.toNat_true]
        omega
      · have fresh : Disjoint (ice.validList.map Check.route).toFinset [check.route].toFinset := by
          simpa using repeated
        rw [Finset.card_union_of_disjoint fresh]
        simp only [repeated,decide_false,Bool.false_and,Bool.toNat_false,List.toFinset_cons,List.toFinset_nil,
          insert_empty_eq,Finset.card_singleton]
        omega

/- A successful response to a check that has a valid pair already, with a mapped address that makes one more. -/
def Session.showsAnother (ice : Session) : Input → Bool
  | .complete tdata (.success srcAddr (some mapped)) =>
    match ice.requests.find? (fun r => r.tdata = tdata) with
    | none => false
    | some req =>
      match ice.clist[req.ckid]? with
      | none => false
      | some check =>
        match ice.mappedCand check req.transportId mapped with
        | none => false
        | some (lcand, _) => check.rcand.addr = srcAddr && ice.another check lcand
  | _ => false

/- What a step does to the pairs: the role may be changed in between; a new list, a success and nothing else. -/
inductive StepShape (net : Network) (ice : Session) (input : Input) : Prop where
  | moves (shape : Moves ice (ice.step net input))
  | turns (start : Session) (role : Role) (first : Moves ice start)
      (listed : start.clist.map Check.pair = ice.clist.map Check.pair)
      (next : Moves (start.changeRole role) (ice.step net input))
  | lists (remote : List Cand) (empty : ice.rcand = []) (none : ice.clist = [])
      (made : ice.step net input = ice.createCheckList remote)
  | succeeds (tdata : Nat) (srcAddr mapped : Addr) (req : Request) (check : Check) (lcand : Cand) (start : Session)
      (isInput : input = .complete tdata (.success srcAddr (some mapped)))
      (known : ice.requests.find? (fun r => r.tdata = tdata) = some req)
      (here : ice.clist[req.ckid]? = some check) (source : check.rcand.addr = srcAddr)
      (found : (ice.mappedCand check req.transportId mapped).map Prod.fst = some lcand)
      (first : Moves ice start)
      (next : Moves (start.addValid { check with tdata := none } lcand) (ice.step net input))

theorem requestShape (ice : Session) (req : RxRequest) (answered : Bool) :
    StepShape net ice (.request req answered) := by
  have stays : (ice.onStunRxRequest net req answered).2 = ice → StepShape net ice (.request req answered) := by
    intro same
    refine .moves ?_
    change Moves ice (ice.onStunRxRequest net req answered).2
    rw [same]
    exact movesRefl ice
  have goes : ∀ repaired, ice.repairRole req.roleAttr = some repaired → req.hasPriority = true →
      Moves repaired (ice.onStunRxRequest net req answered).2 → StepShape net ice (.request req answered) := by
    intro repaired known priority next
    rcases repairCases req answered repaired priority known with rfl | rfl | ⟨rfl,_⟩
    · exact .moves next
    · exact .turns ice .controlling (movesRefl ice) rfl next
    · exact .turns ice .controlled (movesRefl ice) rfl next
  by_cases priority : req.hasPriority = true
  · cases known : ice.repairRole req.roleAttr with
    | none =>
      refine stays ?_
      simp only [Session.onStunRxRequest,priority,not_true_eq_false,if_false,known]
    | some repaired =>
      refine goes repaired known priority ?_
      simp only [Session.onStunRxRequest,priority,not_true_eq_false,if_false,known]
      split
      · exact movesRefl repaired
      · have noted : Moves repaired (if req.rcheck.useCandidate then
            { repaired with nominations := req.rcheck.srcAddr :: repaired.nominations } else repaired) := by
          split
          · exact .keep rfl rfl rfl rfl rfl
          · exact movesRefl repaired
        generalize (if req.rcheck.useCandidate then
            { repaired with nominations := req.rcheck.srcAddr :: repaired.nominations } else repaired) = start
          at noted ⊢
        split
        · exact noted.trans (.keep rfl rfl rfl rfl rfl)
        · exact noted.trans (handleIncomingCheckMoves net start req.rcheck)
  · refine stays ?_
    rw [Session.onStunRxRequest,if_pos priority]

/- The session when the request of a check is done and the outcome is looked at. -/
def Session.released (ice : Session) (req : Request) : Session :=
  { ice.modifyCheck req.ckid (fun c => { c with tdata := none }) with
    requests := ice.requests.filter (fun r => r.tdata ≠ req.tdata) }

theorem releasedMoves (req : Request) : Moves ice (ice.released req) := (releasedWorks ice req).moves

theorem releasedPairs (req : Request) : (ice.released req).clist.map Check.pair = ice.clist.map Check.pair :=
  mapModify ice.clist req.ckid (fun c => { c with tdata := none }) Check.pair (fun _ _ => rfl)

theorem releasedCheck (req : Request) :
    (ice.released req).clist[req.ckid]? = (ice.clist[req.ckid]?).map (fun c => { c with tdata := none }) :=
  List.getElem?_modify_eq _ _ _

theorem mappedCandSame (ice out : Session) (check : Check) (transportId : Nat) (mapped : Addr)
    (lcand : out.lcand = ice.lcand) :
    (out.mappedCand { check with tdata := none } transportId mapped).map Prod.fst =
      (ice.mappedCand check transportId mapped).map Prod.fst := by
  unfold Session.mappedCand
  rw [lcand]
  cases ice.lcand.find? (fun c => c.addr = mapped ∧ c.baseAddr = check.lcand.baseAddr) with
  | some => rfl
  | none =>
    by_cases full : maxCand ≤ ice.lcand.length
    · simp only [if_pos full,Option.map_none]
    · simp only [if_neg full,Option.map_some,Session.reflexive,lcand]

theorem successShape (ice : Session) (tdata : Nat) (req : Request) (check : Check) (srcAddr : Addr)
    (mapped : Option Addr) (known : ice.requests.find? (fun r => r.tdata = tdata) = some req)
    (here : ice.clist[req.ckid]? = some check) : StepShape net ice (.complete tdata (.success srcAddr mapped)) := by
  have marked := releasedMoves ice req
  have stepIs : ice.step net (.complete tdata (.success srcAddr mapped)) =
      (ice.released req).onSuccess req { check with tdata := none } srcAddr mapped := by
    have there := releasedCheck ice req
    rw [here,Option.map_some] at there
    simp only [Session.step,known]
    change (match (ice.released req).clist[req.ckid]? with | none => _ | some check => _) = _
    rw [there]
    rfl
  have lcand : (ice.released req).lcand = ice.lcand := rfl
  generalize ice.released req = begun at marked stepIs lcand
  unfold Session.onSuccess at stepIs
  split at stepIs
  · refine .moves ?_
    rw [stepIs]
    exact marked.trans (finishCheckWorks begun _ _ _).moves
  · rename_i source
    cases mapped with
    | none =>
      refine .moves ?_
      rw [stepIs]
      exact marked.trans (finishCheckWorks begun _ _ _).moves
    | some mapped =>
      dsimp only at stepIs
      split at stepIs
      · refine .moves ?_
        rw [stepIs]
        exact marked.trans (finishCheckWorks begun _ _ _).moves
      · rename_i found next reached
        have learnt := (mappedCandWorks begun _ _ _ found next reached).moves
        have same := mappedCandSame ice begun check req.transportId mapped lcand
        rw [reached] at same
        refine .succeeds tdata srcAddr mapped req check found next rfl known here (not_not.mp source) same.symm
          (marked.trans learnt) ?_
        rw [stepIs]
        exact (finishCheckWorks _ _ _ _).moves

theorem completeShape (ice : Session) (tdata : Nat) (result : Completion) :
    StepShape net ice (.complete tdata result) := by
  cases known : ice.requests.find? (fun r => r.tdata = tdata) with
  | none =>
    refine .moves ?_
    simp only [Session.step,known]
    exact movesRefl ice
  | some req =>
    have marked := releasedMoves ice req
    have there := releasedCheck ice req
    cases here : ice.clist[req.ckid]? with
    | none =>
      refine .moves ?_
      rw [here,Option.map_none] at there
      simp only [Session.step,known]
      change Moves ice (match (ice.released req).clist[req.ckid]? with | none => _ | some check => _)
      rw [there]
      exact marked
    | some check =>
      rw [here,Option.map_some] at there
      cases result with
      | roleConflict =>
        refine .turns _ (if req.roleAttr = .controlling then .controlled else .controlling) marked
          (releasedPairs ice req) ?_
        simp only [Session.step,known]
        change Moves _ (match (ice.released req).clist[req.ckid]? with | none => _ | some check => _)
        rw [there]
        exact ((checkSetStateWorks _ req.ckid .waiting 0).trans (performCheckWorks _ net _ _)).moves
      | failure =>
        refine .moves ?_
        simp only [Session.step,known]
        change Moves ice (match (ice.released req).clist[req.ckid]? with | none => _ | some check => _)
        rw [there]
        exact marked.trans (finishCheckWorks _ _ _ _).moves
      | success srcAddr mapped => exact successShape net ice tdata req check srcAddr mapped known here

theorem stepShape (ice : Session) (input : Input) : StepShape net ice input := by
  cases input with
  | createCheckList remote =>
    by_cases empty : ice.rcand = [] ∧ ice.clist = []
    · exact .lists remote empty.1 empty.2 (if_pos empty)
    · refine .moves ?_
      rw [Session.step,if_neg empty]
      exact movesRefl ice
  | startCheck =>
    refine .moves ?_
    rw [Session.step]
    split
    · exact movesRefl ice
    · exact startCheckMoves net ice
  | periodic =>
    refine .moves ?_
    rw [Session.step]
    split
    · exact (startPeriodicCheckWorks ice net).moves
    · exact movesRefl ice
  | timer => exact .moves (onTimerWorks ice).moves
  | complete tdata result => exact completeShape net ice tdata result
  | request req answered => exact requestShape net ice req answered
  | changeRole role => exact .turns ice role (movesRefl ice) rfl (movesRefl _)

theorem pairUpLength (role : Role) (pairs : List (Cand × Cand)) (made : List Check) (room : made.length ≤ maxChecks) :
    (pairUp role pairs made).1.length ≤ maxChecks := by
  induction pairs generalizing made with
  | nil => exact room
  | cons p pairs ih =>
    obtain ⟨l,r⟩ := p
    unfold pairUp
    split
    · exact room
    · rename_i notFull
      split
      · exact ih made room
      · exact ih _ (lengthAdded (Nat.lt_of_not_le notFull))

theorem toBaseLength (lcand : List Cand) (list : List Check) : (toBase lcand list).1.length = list.length := by
  induction list with
  | nil => rfl
  | cons c rest ih =>
    unfold toBase
    split
    · split
      · rfl
      · exact congrArg (· + 1) ih
    · exact congrArg (· + 1) ih

theorem pruneLength (n : Nat) (list : List Check) : (prune n list).length ≤ list.length := by
  induction n generalizing list with
  | zero => exact Nat.le_refl _
  | succ n ih =>
    cases list with
    | nil => exact Nat.le_refl _
    | cons c rest =>
      have kept := ih (rest.filter (fun d => !redundant c d))
      exact Nat.succ_le_succ (Nat.le_trans kept (List.length_filter_le _ rest))

theorem createCheckListFits {ice : Session} (fits : Fits ice) (remote : List Cand) :
    Fits (ice.createCheckList remote) := by
  unfold Session.createCheckList
  split
  · exact fits
  rename_i room
  dsimp only
  have few : (remote.filter (fun c => c.compId ≠ 0 ∧ c.compId ≤ ice.comp.length)).length ≤ maxCand := by
    have kept := List.length_filter_le (fun c : Cand => decide (c.compId ≠ 0 ∧ c.compId ≤ ice.comp.length)) remote
    have refused := not_or.mp room
    have fewer := Nat.le_of_not_lt refused.2
    exact Nat.le_trans (Nat.le_trans kept (Nat.le_add_right _ _)) fewer
  generalize remote.filter (fun c => c.compId ≠ 0 ∧ c.compId ≤ ice.comp.length) = kept at few ⊢
  have rcands : (kept.zipIdx.map (fun p => { p.1 with place := p.2 })).length ≤ maxCand := by
    rw [List.length_map,List.length_zipIdx]
    exact few
  generalize kept.zipIdx.map (fun p => { p.1 with place := p.2 }) = rcand at rcands ⊢
  have made := pairUpLength ice.role (ice.lcand.flatMap (fun l => rcand.map (fun r => (l, r)))) [] (Nat.zero_le _)
  generalize pairUp ice.role (ice.lcand.flatMap (fun l => rcand.map (fun r => (l, r)))) [] = pairs at made ⊢
  have based : (toBase ice.lcand (sortChecklist pairs.1 ice.comp).1).1.length ≤ maxChecks := by
    rw [toBaseLength,(sortChecklistPerm _ _).length_eq]
    exact made
  generalize toBase ice.lcand (sortChecklist pairs.1 ice.comp).1 = bases at based ⊢
  split
  · exact ⟨fits.lcand,rcands,made⟩
  · split
    · exact ⟨fits.lcand,rcands,based⟩
    · exact ⟨fits.lcand,rcands,Nat.le_trans (pruneLength _ _) based⟩

theorem createCheckListValid (remote : List Cand) : (ice.createCheckList remote).validList = ice.validList := by
  unfold Session.createCheckList
  dsimp only
  split
  · rfl
  · split
    · rfl
    · split <;> rfl

theorem stepFits (ice : Session) (input : Input) (fits : Fits ice) : Fits (ice.step net input) := by
  cases stepShape net ice input with
  | moves shape => exact shape.fits fits
  | turns start role first listed next => exact next.fits (changeRoleFits (first.fits fits) role)
  | lists remote empty none made =>
    rw [made]
    exact createCheckListFits fits remote
  | succeeds tdata srcAddr mapped req check lcand start isInput known here source found first next =>
    refine next.fits ?_
    obtain ⟨validList,comp,only,_⟩ := addValidOnly start { check with tdata := none } lcand
    rw [only]
    exact ⟨(first.fits fits).lcand,(first.fits fits).rcand,(first.fits fits).clist⟩

theorem listedSame {ice out : Session} (pairs : out.validList.map Check.pair = ice.validList.map Check.pair)
    (lcand rcand : Cand) : out.listed lcand rcand = ice.listed lcand rcand := by
  have seen : ∀ ice : Session, ice.listed lcand rcand =
      (ice.validList.map Check.pair).any (fun p => p.1.place = lcand.place ∧ p.2.1.place = rcand.place) := by
    intro ice
    rw [List.any_map]
    rfl
  rw [seen,seen,pairs]

theorem mappedBase {check : Check} {transportId : Nat} {mapped : Addr} {lcand : Cand} {out : Session}
    (found : ice.mappedCand check transportId mapped = some (lcand, out)) : lcand.baseAddr = check.lcand.baseAddr := by
  unfold Session.mappedCand at found
  split at found
  · rename_i known
    cases found
    have both := List.find?_some known
    simp only [decide_eq_true_eq] at both
    exact both.2
  · split at found
    · contradiction
    · cases found
      rfl

theorem stepCounted (ice : Session) (input : Input) {more : Nat} (counted : Counted more ice) :
    Counted (more + (ice.showsAnother input).toNat) (ice.step net input) := by
  have quiet : ∀ {out : Session}, Counted more out → Counted (more + (ice.showsAnother input).toNat) out :=
    fun counted => ⟨counted.routed,counted.few.trans (Nat.add_le_add_left (Nat.le_add_right _ _) _)⟩
  cases stepShape net ice input with
  | moves shape => exact quiet (shape.counted counted)
  | turns start role first listed next =>
    obtain ⟨changes,changed⟩ := changeRoleOnly start role
    refine quiet (next.counted ((first.counted counted).same ?_ ?_))
    · rw [changed]
    · rw [changed]
      exact List.Subset.refl _
  | lists remote empty none made =>
    have nothing : ice.validList = [] := by
      have routed := counted.routed
      rw [none] at routed
      simpa using routed
    refine quiet ⟨?_,?_⟩
    · rw [made,createCheckListValid,nothing]
      exact List.nil_subset _
    · rw [made,createCheckListValid,nothing]
      exact Nat.zero_le _
  | succeeds tdata srcAddr mapped req check lcand start isInput known here source found first next =>
    obtain ⟨⟨cand,out⟩,reached,same⟩ := Option.map_eq_some_iff.mp found
    obtain rfl : cand = lcand := same
    have shown : (ice.showsAnother input).toNat = (start.another { check with tdata := none } cand).toNat := by
      rw [isInput]
      simp only [Session.showsAnother,known,here,reached,source,decide_true,Bool.true_and]
      unfold Session.another
      rw [routesOfPairs first.validPairs,listedSame first.validPairs]
      rfl
    rw [shown]
    refine next.counted ((first.counted counted).addValid _ cand ?_ (mappedBase ice reached))
    have route : check.route ∈ ice.clist.map Check.route := List.mem_map_of_mem (List.mem_of_getElem? here)
    exact first.routes route

/- pj_ice_sess_add_cand. -/
def Session.addCand (ice : Session) (compId transportId : Nat) (type : CandType) (localPref : Nat)
    (foundation : List Char) (addr baseAddr : Addr) : Session :=
  if compId = 0 ∨ ice.comp.length < compId ∨ maxCand ≤ ice.lcand.length then ice
  else
    { ice with lcand := ice.lcand ++
      [{ place := ice.lcand.length, compId := compId, transportId := transportId % 256, type := type
         foundation := foundation, prio := calcCandPrio type localPref compId, addr := addr, baseAddr := baseAddr }] }

/- The application adds local candidates whenever it likes. -/
inductive Action where
  | addCand (compId transportId : Nat) (type : CandType) (localPref : Nat) (foundation : List Char)
      (addr baseAddr : Addr)
  | input (input : Input)

def Session.act (net : Network) (ice : Session) : Action → Session
  | .addCand compId transportId type localPref foundation addr baseAddr =>
    ice.addCand compId transportId type localPref foundation addr baseAddr
  | .input input => ice.step net input

def Session.acts (net : Network) (ice : Session) (actions : List Action) : Session :=
  actions.foldl (Session.act net) ice

/- How many responses of a history show one more mapped address for a check that is run again. -/
def Session.anothers (net : Network) : Session → List Action → Nat
  | _, [] => 0
  | ice, .input input :: rest => (ice.showsAnother input).toNat + (ice.step net input).anothers net rest
  | ice, action :: rest => (ice.act net action).anothers net rest

theorem addCandMoves (compId transportId : Nat) (type : CandType) (localPref : Nat) (foundation : List Char)
    (addr baseAddr : Addr) : Moves ice (ice.addCand compId transportId type localPref foundation addr baseAddr) := by
  unfold Session.addCand
  split
  · exact movesRefl ice
  · rename_i refused
    exact .learnLocal ice _ (Nat.lt_of_not_le (not_or.mp (not_or.mp refused).2).2)

theorem actsFit (actions : List Action) (ice : Session) (fits : Fits ice) : Fits (ice.acts net actions) := by
  induction actions generalizing ice with
  | nil => exact fits
  | cons action rest ih =>
    cases action with
    | addCand =>
      exact ih _ ((addCandMoves ice _ _ _ _ _ _ _).fits fits)
    | input input => exact ih _ (stepFits net ice input fits)

theorem actsCounted (actions : List Action) (ice : Session) {more : Nat} (counted : Counted more ice) :
    Counted (more + ice.anothers net actions) (ice.acts net actions) := by
  induction actions generalizing ice more with
  | nil => exact counted
  | cons action rest ih =>
    cases action with
    | addCand =>
      exact ih _ ((addCandMoves ice _ _ _ _ _ _ _).counted counted)
    | input input =>
      have later := ih _ (stepCounted net ice input counted)
      rwa [Nat.add_assoc] at later

/- A check that is run again adds to the valid list only what its responses show beside its first mapped address. -/
theorem arraysNeverOverflow (net : Network) (ice : Session) (created : Created ice) (fresh : ice.lcand = [])
    (actions : List Action) (few : (ice.acts net actions).clist.length + ice.anothers net actions ≤ maxChecks) :
    let out := ice.acts net actions
    out.lcand.length ≤ maxCand ∧ out.rcand.length ≤ maxCand ∧ out.clist.length ≤ maxChecks ∧
      out.validList.length ≤ maxChecks := by
  have start : Fits ice := by
    refine ⟨?_,?_,?_⟩
    · rw [fresh]
      exact Nat.zero_le _
    · rw [created.rcand]
      exact Nat.zero_le _
    · rw [created.clist]
      exact Nat.zero_le _
  have none : Counted 0 ice := by
    refine ⟨?_,?_⟩
    · rw [created.validList]
      exact List.nil_subset _
    · rw [created.validList]
      exact Nat.zero_le _
  have fits := actsFit net actions ice start
  have counted := actsCounted net actions ice none
  rw [Nat.zero_add] at counted
  exact ⟨fits.lcand,fits.rcand,fits.clist,counted.bound.trans few⟩

/- Four local and eight remote host candidates make 32 pairs, which all succeed. -/
def localHost (i : Nat) : Action := .addCand 1 0 .host 65535 ['H'] ⟨false,i,4000⟩ ⟨false,i,4000⟩

def pairSucceeds (i : Nat) : List Action :=
  [.input .periodic,
    .input (.complete i (.success ⟨false,10 + i % 8,4000⟩ (some ⟨false,i / 8,4000⟩)))]

def allSucceed : List Action :=
  (List.range 4).map localHost ++
    [.input (.createCheckList ((List.range 8).map (fun i => hostCand i (10 + i)))),.input .startCheck] ++
    (List.range 32).flatMap pairSucceeds

/- The nominated check shows one more mapped address. -/
def oneMore : List Action :=
  [.input .periodic,.input (.complete 32 (.success ⟨false,10,4000⟩ (some ⟨false,99,4000⟩)))]

theorem validListOverflows :
    ¬ ∀ (net : Network) (ice : Session), Created ice → ice.lcand = [] → ∀ actions : List Action,
      let out := ice.acts net actions
      out.lcand.length ≤ maxCand ∧ out.rcand.length ≤ maxCand ∧ out.clist.length ≤ maxChecks ∧
        out.validList.length ≤ maxChecks := by
  intro claim
  have bound := (claim (fun _ => .sent) (newSession .controlling 10 false []) (newSessionCreated _ _ _ _) rfl
    (allSucceed ++ oneMore)).2.2.2
  have overflow : ((newSession .controlling 10 false []).acts (fun _ => .sent)
      (allSucceed ++ oneMore)).validList.length = maxChecks + 1 := by decide +kernel
  rw [overflow] at bound
  exact absurd bound (Nat.not_succ_le_self maxChecks)

theorem allSucceedFit :
    let out := (newSession .controlling 10 false []).acts (fun _ => .sent) allSucceed
    out.validList.length = maxChecks ∧ out.clist.length ≤ maxChecks := by
  intro out
  have full : out.validList.length = maxChecks := by decide +kernel
  have fits := arraysNeverOverflow (fun _ => .sent) (newSession .controlling 10 false []) (newSessionCreated _ _ _ _)
    rfl allSucceed (by decide +kernel)
  exact ⟨full,fits.2.2.1⟩

/- The candidate the priority of a pair was computed with: its own, or the server reflexive one of the agent for the same
component that was replaced by its base, a host candidate of the agent. -/
def MadeOf (lcand : List Cand) (l : Cand) (c : Check) : Prop :=
  l = c.lcand ∨ (l ∈ lcand ∧ l.compId = c.rcand.compId ∧ l.type = .srflx ∧ c.lcand ∈ lcand ∧ c.lcand.type = .host ∧
    c.lcand.addr = l.baseAddr)

/- With the priority of its own candidates, and with that of the candidates it was made of. -/
def Own (role : Role) (c : Check) : Prop := c.prio = calcCheckPrio role c.lcand c.rcand

def Priced (lcand : List Cand) (role : Role) (c : Check) : Prop :=
  ∃ l, MadeOf lcand l c ∧ c.prio = calcCheckPrio role l c.rcand

theorem Own.priced {lcand : List Cand} {role : Role} {c : Check} (own : Own role c) : Priced lcand role c :=
  ⟨c.lcand,.inl rfl,own⟩

theorem pairParts {c d : Check} (pair : c.pair = d.pair) : c.lcand = d.lcand ∧ c.rcand = d.rcand ∧ c.prio = d.prio := by
  simpa [Check.pair] using pair

theorem ownSame {role : Role} {c d : Check} (pair : c.pair = d.pair) (own : Own role d) : Own role c := by
  obtain ⟨lcand,rcand,prio⟩ := pairParts pair
  unfold Own
  rw [lcand,rcand,prio]
  exact own

theorem madeSame {lcand : List Cand} {l : Cand} {c d : Check} (pair : c.pair = d.pair) (made : MadeOf lcand l d) :
    MadeOf lcand l c := by
  obtain ⟨near,far,_⟩ := pairParts pair
  unfold MadeOf
  rw [near,far]
  exact made

theorem Moves.role {ice out : Session} (moves : Moves ice out) : out.role = ice.role := by
  induction moves with
  | keep role => exact role
  | learnLocal => rfl
  | learnRemote => rfl
  | addCheck => rfl
  | trans first next ihFirst ihNext => exact ihNext.trans ihFirst

theorem Moves.newChecks {ice out : Session} (moves : Moves ice out) :
    ∀ c ∈ out.clist, c.pair ∈ ice.clist.map Check.pair ∨ Own ice.role c := by
  induction moves with
  | keep role lcand rcand clist =>
    intro c member
    refine Or.inl ?_
    rw [← clist]
    exact List.mem_map_of_mem member
  | learnLocal ice c => exact fun c member => Or.inl (List.mem_map_of_mem member)
  | learnRemote ice c => exact fun c member => Or.inl (List.mem_map_of_mem member)
  | addCheck ice added room prio =>
    intro c member
    rcases List.mem_append.mp member with old | new
    · exact Or.inl (List.mem_map_of_mem old)
    · rw [List.mem_singleton.mp new]
      exact Or.inr prio
  | trans first next ihFirst ihNext =>
    intro c member
    rcases ihNext c member with old | new
    · obtain ⟨d,there,same⟩ := List.mem_map.mp old
      rcases ihFirst d there with older | own
      · exact Or.inl (same ▸ older)
      · exact Or.inr (ownSame same.symm own)
    · rw [first.role] at new
      exact Or.inr new

/- A check of a local candidate and a remote one of its component, with the priority of the two. -/
def Paired (lcand : List Cand) (role : Role) (c : Check) : Prop :=
  c.lcand ∈ lcand ∧ c.lcand.compId = c.rcand.compId ∧ Own role c

theorem pairUpPaired (role : Role) (lcand : List Cand) (pairs : List (Cand × Cand)) (near : ∀ p ∈ pairs, p.1 ∈ lcand)
    (made : List Check) (old : ∀ c ∈ made, Paired lcand role c) : ∀ c ∈ (pairUp role pairs made).1, Paired lcand role c := by
  induction pairs generalizing made with
  | nil => exact old
  | cons p pairs ih =>
    obtain ⟨l,r⟩ := p
    have later := ih (fun p member => near p (List.mem_cons_of_mem _ member))
    unfold pairUp
    split
    · exact old
    · split
      · exact later made old
      · rename_i alike
        refine later _ ?_
        intro c member
        rcases List.mem_append.mp member with known | new
        · exact old c known
        · rw [List.mem_singleton.mp new]
          exact ⟨near (l, r) List.mem_cons_self,not_not.mp (not_or.mp alike).1,rfl⟩

theorem toBasePriced (role : Role) (lcand : List Cand) (list : List Check)
    (old : ∀ c ∈ list, Paired lcand role c) : ∀ c ∈ (toBase lcand list).1, Priced lcand role c := by
  induction list with
  | nil => exact fun c member => absurd member List.not_mem_nil
  | cons c rest ih =>
    have later := ih (fun d member => old d (List.mem_cons_of_mem c member))
    obtain ⟨near,comp,own⟩ := old c List.mem_cons_self
    unfold toBase
    split
    · rename_i reflexive
      split
      · exact fun d member => (old d member).2.2.priced
      · rename_i h found
        intro d member
        rcases List.mem_cons.mp member with rfl | inside
        · have base := List.find?_some found
          have base : h.type = .host ∧ h.addr = c.lcand.baseAddr := by simpa using base
          exact ⟨c.lcand,.inr ⟨near,comp,reflexive,List.mem_of_find?_eq_some found,base.1,base.2⟩,own⟩
        · exact later d inside
    · intro d member
      rcases List.mem_cons.mp member with rfl | inside
      · exact own.priced
      · exact later d inside

theorem createCheckListPriced (remote : List Cand) (empty : ice.clist = []) :
    (ice.createCheckList remote).role = ice.role ∧ (ice.createCheckList remote).validList = ice.validList ∧
      ∀ c ∈ (ice.createCheckList remote).clist, Priced ice.lcand ice.role c := by
  unfold Session.createCheckList
  split
  · refine ⟨rfl,rfl,?_⟩
    rw [empty]
    exact fun c member => absurd member List.not_mem_nil
  dsimp only
  generalize remote.filter _ = kept
  generalize kept.zipIdx.map _ = rcand
  have near : ∀ p ∈ ice.lcand.flatMap (fun l => rcand.map (fun r => (l, r))), p.1 ∈ ice.lcand := by
    intro p member
    obtain ⟨l,known,inside⟩ := List.mem_flatMap.mp member
    obtain ⟨r,_,rfl⟩ := List.mem_map.mp inside
    exact known
  have made := pairUpPaired ice.role ice.lcand _ near [] (fun c member => absurd member List.not_mem_nil)
  generalize pairUp ice.role (ice.lcand.flatMap (fun l => rcand.map (fun r => (l, r)))) [] = pairs at made ⊢
  have based := toBasePriced ice.role ice.lcand (sortChecklist pairs.1 ice.comp).1
    (fun c member => made c ((sortChecklistPerm _ _).subset member))
  generalize toBase ice.lcand (sortChecklist pairs.1 ice.comp).1 = bases at based ⊢
  split
  · exact ⟨rfl,rfl,fun c member => (made c member).2.2.priced⟩
  · split
    · exact ⟨rfl,rfl,based⟩
    · exact ⟨rfl,rfl,fun c member => based c (pruneSubset _ _ c member)⟩

theorem changeRolePairs (role : Role) :
    (ice.changeRole role).clist = ice.clist ∧ (ice.changeRole role).validList = ice.validList := by
  obtain ⟨changes,changed⟩ := changeRoleOnly ice role
  rw [changed]
  exact ⟨rfl,rfl⟩

theorem addValidPriced (check : Check) (lcand : Cand) :
    (ice.addValid check lcand).role = ice.role ∧ (ice.addValid check lcand).clist = ice.clist ∧
      ∀ c ∈ (ice.addValid check lcand).validList, c.pair ∈ ice.validList.map Check.pair ∨ Own ice.role c := by
  obtain ⟨validList,comp,only,inside⟩ := addValidOnly ice check lcand
  rw [only]
  refine ⟨rfl,rfl,?_⟩
  intro c member
  have entry := inside c member
  split at entry
  · rcases memModify entry with old | ⟨d,old,rfl⟩
    · exact Or.inl (List.mem_map_of_mem old)
    · exact Or.inl (List.mem_map.mpr ⟨d,List.mem_of_getElem? old,rfl⟩)
  · rcases List.mem_append.mp entry with old | new
    · exact Or.inl (List.mem_map_of_mem old)
    · rw [List.mem_singleton.mp new]
      exact Or.inr rfl

inductive Part where
  | clist | validList

def Session.part (ice : Session) : Part → List Check
  | .clist => ice.clist
  | .validList => ice.validList

def Session.pairs (ice : Session) (part : Part) : List (Cand × Cand × Nat) := (ice.part part).map Check.pair

theorem Moves.newPairs {ice out : Session} (moves : Moves ice out) (part : Part) :
    ∀ c ∈ out.part part, c.pair ∈ ice.pairs part ∨ Own out.role c := by
  rw [moves.role]
  cases part with
  | clist => exact moves.newChecks
  | validList =>
    intro c member
    refine Or.inl ?_
    change c.pair ∈ ice.validList.map Check.pair
    rw [← moves.validPairs]
    exact List.mem_map_of_mem member

theorem stepPriced (ice : Session) (input : Input) (part : Part) :
    ∀ c ∈ (ice.step net input).part part, c.pair ∈ ice.pairs part ∨ Priced ice.lcand (ice.step net input).role c := by
  cases stepShape net ice input with
  | moves shape => exact fun c member => (shape.newPairs part c member).imp id Own.priced
  | turns start role first listed next =>
    intro c member
    rcases next.newPairs part c member with old | new
    · refine Or.inl ?_
      have kept := changeRolePairs start role
      cases part with
      | clist =>
        change c.pair ∈ (start.changeRole role).clist.map Check.pair at old
        rw [kept.1,listed] at old
        exact old
      | validList =>
        change c.pair ∈ (start.changeRole role).validList.map Check.pair at old
        rw [kept.2,first.validPairs] at old
        exact old
    · exact Or.inr new.priced
  | lists remote empty none made =>
    obtain ⟨role,valid,priced⟩ := createCheckListPriced ice remote none
    rw [made,role]
    intro c member
    cases part with
    | clist => exact Or.inr (priced c member)
    | validList =>
      change c ∈ (ice.createCheckList remote).validList at member
      rw [valid] at member
      exact Or.inl (List.mem_map_of_mem member)
  | succeeds tdata srcAddr mapped req check lcand start isInput known here source found first next =>
    obtain ⟨role,clist,valids⟩ := addValidPriced start { check with tdata := none } lcand
    intro c member
    rcases next.newPairs part c member with old | new
    · obtain ⟨d,there,same⟩ := List.mem_map.mp old
      cases part with
      | clist =>
        change d ∈ (start.addValid { check with tdata := none } lcand).clist at there
        rw [clist] at there
        rcases first.newPairs .clist d there with older | own
        · exact Or.inl (same ▸ older)
        · rw [next.role,role]
          exact Or.inr (ownSame same.symm own).priced
      | validList =>
        rcases valids d there with older | own
        · rw [first.validPairs] at older
          exact Or.inl (same ▸ older)
        · rw [next.role,role]
          exact Or.inr (ownSame same.symm own).priced
    · exact Or.inr new.priced

/- The pair of a check came onto a list with the priority it has now, made of l in the role of the agent then. -/
structure MadeAs (net : Network) (ice : Session) (inputs : List Input) (part : Part) (c : Check) (role : Role)
    (l : Cand) : Prop where
  entered : ∃ past input, past ++ [input] <+: inputs ∧ c.pair ∉ (ice.run net past).pairs part ∧
    c.pair ∈ (ice.run net (past ++ [input])).pairs part ∧ role = (ice.run net (past ++ [input])).role ∧
    MadeOf (ice.run net past).lcand l c
  prio : c.prio = calcCheckPrio role l c.rcand

theorem runSnoc (ice : Session) (inputs : List Input) (input : Input) :
    ice.run net (inputs ++ [input]) = (ice.run net inputs).step net input := by
  unfold Session.run
  rw [List.foldl_append]
  rfl

theorem runMade (ice : Session) (created : Created ice) (inputs : List Input) (part : Part) (c : Check)
    (member : c ∈ (ice.run net inputs).part part) : ∃ role l, MadeAs net ice inputs part c role l := by
  induction inputs using List.reverseRecOn generalizing c with
  | nil =>
    cases part with
    | clist =>
      change c ∈ ice.clist at member
      rw [created.clist] at member
      exact absurd member List.not_mem_nil
    | validList =>
      change c ∈ ice.validList at member
      rw [created.validList] at member
      exact absurd member List.not_mem_nil
  | append_singleton past input ih =>
    by_cases old : c.pair ∈ (ice.run net past).pairs part
    · obtain ⟨d,there,same⟩ := List.mem_map.mp old
      obtain ⟨role,l,entered,prio⟩ := ih d there
      obtain ⟨before,step,within,absent,present,isRole,made⟩ := entered
      have longer := within.trans (List.prefix_append past [input])
      obtain ⟨_,far,kept⟩ := pairParts same
      rw [same] at absent present
      rw [far,kept] at prio
      exact ⟨role,l,⟨before,step,longer,absent,present,isRole,madeSame same.symm made⟩,prio⟩
    · have now := stepPriced net (ice.run net past) input part
      rw [← runSnoc] at now
      obtain ⟨l,made,prio⟩ := (now c member).resolve_left old
      exact ⟨_,l,⟨past,input,List.prefix_rfl,old,List.mem_map_of_mem member,rfl,made⟩,prio⟩

def Cand.copyOf (r l : Cand) : Prop := r.compId = l.compId ∧ r.type = l.type ∧ r.prio = l.prio ∧ r.addr = l.addr

def Role.complementary : Role → Role → Prop
  | .controlling, .controlled => True
  | .controlled, .controlling => True
  | _, _ => False

theorem calcCheckPrioSymmetric (roleA roleB : Role) (complementary : roleA.complementary roleB) (l r l' r' : Cand)
    (near : r'.prio = l.prio) (far : r.prio = l'.prio) : calcCheckPrio roleA l r = calcCheckPrio roleB l' r' := by
  unfold calcCheckPrio
  cases roleA <;> cases roleB <;> first | exact absurd complementary id | simp [near,far]

theorem pairsKeepPriority (netA netB : Network) (a b : Session) (createdA : Created a) (createdB : Created b)
    (inputsA inputsB : List Input) :
    (∀ part, ∀ c ∈ (a.run netA inputsA).part part, ∃ role l, MadeAs netA a inputsA part c role l) ∧
    (∀ part, ∀ d ∈ (b.run netB inputsB).part part, ∃ role l, MadeAs netB b inputsB part d role l) ∧
    ∀ partA partB c d roleA roleB l l',
      MadeAs netA a inputsA partA c roleA l → MadeAs netB b inputsB partB d roleB l' →
      roleA.complementary roleB → d.rcand.copyOf l → c.rcand.copyOf l' → c.prio = d.prio := by
  refine ⟨?_,?_,?_⟩
  · exact fun part c member => runMade netA a createdA inputsA part c member
  · exact fun part d member => runMade netB b createdB inputsB part d member
  · intro partA partB c d roleA roleB l l' madeA madeB complementary near far
    rw [madeA.prio,madeB.prio]
    exact calcCheckPrioSymmetric roleA roleB complementary l c.rcand l' d.rcand near.2.2.1 far.2.2.1

/- Both agents control when they make their lists, of candidates with different priorities. The first one yields to a
request, and its pair keeps the priority of a controlling agent. -/
def lowCand : Cand := { hostCand 0 9 with prio := calcCandPrio .host 65534 1 }

def yieldsToPeer : List Input :=
  [.createCheckList [lowCand],.request ⟨⟨1,0,⟨false,9,4000⟩,false,0⟩,true,some (.controlling, 20)⟩ true]

theorem priorityOfOldRole :
    ¬ ∀ (netA netB : Network) (a b : Session), Created a → Created b → ∀ inputsA inputsB : List Input,
      let outA := a.run netA inputsA
      let outB := b.run netB inputsB
      outA.role.complementary outB.role → ∀ part, ∀ c ∈ outA.part part,
        c.prio = calcCheckPrio outA.role c.lcand c.rcand := by
  intro claim
  have stored := claim (fun _ => .sent) (fun _ => .sent) (newSession .controlling 10 true [hostCand 0 7])
    (newSession .controlling 20 true [lowCand]) (newSessionCreated _ _ _ _) (newSessionCreated _ _ _ _) yieldsToPeer
    [.createCheckList [hostCand 0 7]]
  dsimp only at stored
  generalize resultA : (newSession .controlling 10 true [hostCand 0 7]).run (fun _ => .sent) yieldsToPeer = outA
    at stored
  have roleA : outA.role = .controlled := by
    rw [← resultA]
    decide +kernel
  have roleB : ((newSession .controlling 20 true [lowCand]).run (fun _ => .sent)
      [.createCheckList [hostCand 0 7]]).role = .controlling := by decide +kernel
  rw [roleA,roleB] at stored
  have differs : outA.clist.all (fun c => c.prio = calcCheckPrio .controlled c.lcand c.rcand) = false := by
    rw [← resultA]
    decide +kernel
  have same := List.all_eq_true.mpr (fun c member => decide_eq_true (stored trivial .clist c member))
  change outA.clist.all (fun c => c.prio = calcCheckPrio .controlled c.lcand c.rcand) = true at same
  rw [differs] at same
  contradiction

theorem yieldsToPeerMade :
    ∃ c role l, MadeAs (fun _ => .sent) (newSession .controlling 10 true [hostCand 0 7]) yieldsToPeer .clist c role l := by
  have made := (pairsKeepPriority (fun _ => .sent) (fun _ => .sent) (newSession .controlling 10 true [hostCand 0 7])
    (newSession .controlling 20 true [lowCand]) (newSessionCreated _ _ _ _) (newSessionCreated _ _ _ _) yieldsToPeer
    [.createCheckList [hostCand 0 7]]).1 .clist
  cases listed : ((newSession .controlling 10 true [hostCand 0 7]).run (fun _ => .sent) yieldsToPeer).clist with
  | nil =>
    have one : ((newSession .controlling 10 true [hostCand 0 7]).run (fun _ => .sent) yieldsToPeer).clist.length = 1 := by
      decide +kernel
    rw [listed] at one
    contradiction
  | cons c =>
    obtain ⟨role,l,as⟩ := made c (by
      change c ∈ ((newSession .controlling 10 true [hostCand 0 7]).run (fun _ => .sent) yieldsToPeer).clist
      rw [listed]
      exact List.mem_cons_self)
    exact ⟨c,role,l,as⟩

end Pjproject.Ice
