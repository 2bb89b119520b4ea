import Mathlib

/-! ICE sessions of ice_session.c: candidates, the check list, the valid list and the role of an agent. Beside
the session stand the STUN requests it has outstanding and those it ever sent. Destruction, credentials, the
NAT64 addresses and the logging are left out. -/
namespace Pjproject.Ice

inductive Role where
  | unknown | controlled | controlling
  deriving DecidableEq, Repr

inductive CheckState where
  | frozen | waiting | inProgress | succeeded | failed
  deriving DecidableEq, Repr

/- The number of a state, which the code compares. -/
def CheckState.num : CheckState → Nat
  | .frozen => 0
  | .waiting => 1
  | .inProgress => 2
  | .succeeded => 3
  | .failed => 4

inductive CandType where
  | host | srflx | prflx | relayed
  deriving DecidableEq, Repr

/- A transport address, as pj_sockaddr_cmp compares it. -/
structure Addr where
  ipv6 : Bool := false
  ip : Nat
  port : Nat
  deriving DecidableEq, Repr

/- A candidate; the place it has in its array stands for its pointer. -/
structure Cand where
  place : Nat
  compId : Nat
  transportId : Nat
  type : CandType
  foundation : List Char
  prio : Nat
  addr : Addr
  baseAddr : Addr
  deriving DecidableEq, Repr

structure Check where
  lcand : Cand
  rcand : Cand
  prio : Nat
  state : CheckState
  nominated : Bool := false
  errCode : Nat := 0
  tdata : Option Nat := none
  deriving DecidableEq, Repr

inductive RoleAttr where
  | controlling | controlled
  deriving DecidableEq, Repr

/- A Binding request of perform_check with what msg_data remembers of it. -/
structure Request where
  tdata : Nat
  ckid : Nat
  transportId : Nat
  roleAttr : RoleAttr
  tieBreaker : Nat
  priority : Nat
  useCandidate : Bool
  deriving DecidableEq, Repr

/- pj_ice_rx_check. -/
structure RxCheck where
  compId : Nat
  transportId : Nat
  srcAddr : Addr
  useCandidate : Bool
  priority : Nat
  deriving DecidableEq, Repr

/- The valid and the nominated check of a component, as places in the valid list. -/
structure Comp where
  validCheck : Option Nat := none
  nominatedCheck : Option Nat := none
  deriving DecidableEq, Repr

inductive TimerId where
  | none | completionCallback | controlledWaitNom | startNominatedCheck | keepAlive
  deriving DecidableEq, Repr

/- The session; then the requests outstanding at the STUN sessions, all requests ever sent, the roles it changed
to, the addresses USE-CANDIDATE came from, and whether the assertion of check_set_state was broken. -/
structure Session where
  role : Role
  tieBreaker : Nat
  aggressive : Bool := true
  waitsForNomination : Bool := true
  isNominating : Bool := false
  isComplete : Bool := false
  iceStatus : Nat := 0
  validPairFound : Bool := false
  lcand : List Cand := []
  rcand : List Cand := []
  clist : List Check := []
  validList : List Check := []
  comp : List Comp := []
  timer : TimerId := .none
  clistTimer : Bool := false
  earlyCheck : List RxCheck := []
  created : Nat := 0
  requests : List Request := []
  sent : List Request := []
  roleChanges : List Role := []
  nominations : List Addr := []
  misused : Bool := false
  deriving DecidableEq, Repr

/- An error status: anything but PJ_SUCCESS. -/
structure Fault where
  code : Nat
  isError : code ≠ 0
  deriving DecidableEq, Repr

def maxCand : Nat := 16
def maxChecks : Nat := 32
def pjECancelled : Nat := 70014
def eTooMany : Nat := 70010
def eStunNoMappedAddr : Nat := 370040
def eIceFailed : Nat := 370082
def eIceInSrcAddr : Nat := 370088
def eIceNomTimeout : Nat := 370093

/- What becomes of a request: it is not created, not sent, or sent. -/
inductive Sending where
  | notCreated (err : Fault) | notSent (err : Fault) | sent
  deriving DecidableEq, Repr

/- The outcome for each request, numbered in the order of perform_check. -/
abbrev Network := Nat → Sending

def Session.changeRole (ice : Session) (newRole : Role) : Session :=
  if newRole ≠ ice.role then { ice with role := newRole, roleChanges := newRole :: ice.roleChanges } else ice

/- CALC_CAND_PRIO with the standard preferences. -/
def typePref : CandType → Nat
  | .host => 126
  | .srflx => 100
  | .prflx => 110
  | .relayed => 0

def calcCandPrio (type : CandType) (localPref compId : Nat) : Nat :=
  (typePref type * 2 ^ 24 + localPref % 2 ^ 16 * 2 ^ 8 + (256 - compId) % 256) % 2 ^ 32

/- CALC_CHECK_PRIO: two words of 32 bits, the lower one doubled and wrapped. -/
def calcCheckPrio (role : Role) (lcand rcand : Cand) : Nat :=
  let (o, a) := if role = .controlling then (lcand.prio, rcand.prio) else (rcand.prio, lcand.prio)
  min o a * 2 ^ 32 + (max o a * 2 + if a < o then 1 else 0) % 2 ^ 32

def Session.modifyCheck (ice : Session) (ckid : Nat) (f : Check → Check) : Session :=
  { ice with clist := ice.clist.modify ckid f }

/- check_set_state; the assertion is that the check is not completed. -/
def Session.checkSetState (ice : Session) (ckid : Nat) (state : CheckState) (errCode : Nat) : Session :=
  let completed := (ice.clist[ckid]?).any (fun c => CheckState.succeeded.num ≤ c.state.num)
  { ice.modifyCheck ckid (fun c => { c with state := state, errCode := errCode }) with
    misused := ice.misused || completed }

def roleAttrOf (role : Role) : RoleAttr := if role = .controlling then .controlling else .controlled

/- The request of perform_check for a check. -/
def Session.request (ice : Session) (ckid : Nat) (check : Check) (nominate : Bool) : Request where
  tdata := ice.created
  ckid := ckid
  transportId := check.lcand.transportId
  roleAttr := roleAttrOf ice.role
  tieBreaker := ice.tieBreaker
  priority := calcCandPrio .prflx 65535 check.lcand.compId
  useCandidate := ice.role = .controlling && nominate

/- perform_check; the result is the error if the request did not go out. -/
def Session.performCheck (net : Network) (ice : Session) (ckid : Nat) (nominate : Bool) : Option Fault × Session :=
  match ice.clist[ckid]? with
  | none => (none, ice)
  | some check =>
    let req := ice.request ckid check nominate
    let made := { ice with created := ice.created + 1 }
    let marked := made.modifyCheck ckid (fun c => { c with nominated := c.nominated || req.useCandidate })
    match net ice.created with
    | .notCreated err => (some err, made)
    | .notSent err => (some err, marked.modifyCheck ckid (fun c => { c with tdata := none }))
    | .sent =>
      let out := { marked.modifyCheck ckid (fun c => { c with tdata := some req.tdata }) with
        requests := ice.requests ++ [req], sent := ice.sent ++ [req] }
      (none, out.checkSetState ckid .inProgress 0)

def Session.onIceComplete (ice : Session) (status : Nat) : Session :=
  if ice.isComplete then ice
  else { ice with isComplete := true, iceStatus := status, timer := .completionCallback }

def prioAt (list : List Check) (place : Nat) : Nat := (list[place]?.map Check.prio).getD 0

/- update_comp_check for the check at a place of the valid list. -/
def better (list : List Check) (old : Option Nat) (place : Nat) : Option Nat :=
  match old with
  | none => some place
  | some p => if prioAt list p < prioAt list place then some place else some p

def Session.updateCompCheck (ice : Session) (compId place : Nat) : Session :=
  let nominated := (ice.validList[place]?).any Check.nominated
  { ice with comp := ice.comp.modify (compId - 1) (fun c =>
      { validCheck := better ice.validList c.validCheck place
        nominatedCheck := if nominated then better ice.validList c.nominatedCheck place else c.nominatedCheck }) }

/- sort_checklist: selection sort, which takes the pointers of the components along. -/
def highest (list : List Check) (start : Nat) : Nat :=
  (List.range list.length).foldl (fun best j =>
    if start < j ∧ prioAt list best < prioAt list j then j else best) start

def swapChecks (list : List Check) (i j : Nat) : List Check :=
  match list[i]?, list[j]? with
  | some a, some b => (list.set i b).set j a
  | _, _ => list

def swapPointer (i j : Nat) (p : Nat) : Nat := if p = j then i else if p = i then j else p

def sortChecklist (list : List Check) (comp : List Comp) : List Check × List Comp :=
  (List.range (list.length - 1)).foldl (fun (list, comp) i =>
    let j := highest list i
    if j ≠ i then
      (swapChecks list i j, comp.map (fun c =>
        { validCheck := c.validCheck.map (swapPointer i j)
          nominatedCheck := c.nominatedCheck.map (swapPointer i j) }))
    else (list, comp)) (list, comp)

/- start_nominated_check. Whatever its state, the check that goes with the valid one is set to waiting. -/
def Session.goesWith (ice : Session) (valid : Check) : Option Nat :=
  ice.clist.findIdx? (fun c => c.lcand.transportId = valid.lcand.transportId ∧ c.rcand.place = valid.rcand.place)

def Session.resetCheck (ice : Session) (valid : Check) : Session :=
  match ice.goesWith valid with
  | none => ice
  | some j => (ice.modifyCheck j (fun c => { c with state := .frozen })).checkSetState j .waiting 0

def Session.validChecks (ice : Session) : List Check :=
  ice.comp.filterMap (fun c => c.validCheck.bind (fun p => ice.validList[p]?))

def Session.startNominatedCheck (ice : Session) : Session :=
  let ice := if ice.timer = .startNominatedCheck then { ice with timer := .none } else ice
  { ice.validChecks.foldl Session.resetCheck ice with clistTimer := true, isNominating := true }

/- on_check_complete: the loops over the check list touch one check at a time. -/
def unfreeze (foundation : List Char) (c : Check) : Check :=
  if c.lcand.foundation = foundation ∧ c.state = .frozen then { c with state := .waiting, errCode := 0 } else c

def cancels (compId : Nat) (c : Check) : Bool :=
  c.lcand.compId = compId && c.state = .inProgress && c.tdata.isSome

def failPending (compId : Nat) (c : Check) : Check :=
  if c.lcand.compId = compId ∧ c.state.num < CheckState.inProgress.num then
    { c with state := .failed, errCode := pjECancelled }
  else if cancels compId c then { c with tdata := none, state := .failed, errCode := pjECancelled }
  else c

def Session.dropPending (ice : Session) (compId : Nat) : Session :=
  let gone := (ice.clist.filter (cancels compId)).filterMap Check.tdata
  { ice with
    clist := ice.clist.map (failPending compId)
    requests := ice.requests.filter (fun r => r.tdata ∉ gone) }

def Session.allNominated (ice : Session) : Bool := ice.comp.all (fun c => c.nominatedCheck.isSome)
def Session.allValid (ice : Session) : Bool := ice.comp.all (fun c => c.validCheck.isSome)
def Session.allCompleted (ice : Session) : Bool :=
  ice.clist.all (fun c => CheckState.succeeded.num ≤ c.state.num)

/- What follows when every check is completed and a nominated pair is missing. -/
def Session.checksExhausted (ice : Session) : Bool × Session :=
  if ice.role = .controlled then
    if ¬ ice.allValid then (true, ice.onIceComplete eIceFailed)
    else if ice.timer = .none ∧ ice.waitsForNomination then (false, { ice with timer := .controlledWaitNom })
    else (false, ice)
  else if ice.isNominating then (true, ice.onIceComplete eIceFailed)
  else if ¬ ice.allValid then (true, ice.onIceComplete eIceFailed)
  else (false, ice.startNominatedCheck)

def Session.onCheckComplete (ice : Session) (check : Check) : Bool × Session :=
  let ice := if check.errCode = 0 then
      { ice with clist := ice.clist.map (unfreeze check.lcand.foundation), validPairFound := true }
    else ice
  let ice := if check.errCode = 0 ∧ check.nominated then ice.dropPending check.lcand.compId else ice
  if ice.allNominated then (true, ice.onIceComplete 0)
  else if ice.allCompleted then ice.checksExhausted
  else if check.errCode = 0 ∧ ice.role = .controlling ∧ ¬ ice.isNominating ∧ ice.timer = .none ∧ ice.allValid then
    (false, { ice with timer := .startNominatedCheck })
  else (false, ice)

/- check_set_state followed by on_check_complete for the same check. -/
def Session.finishCheck (ice : Session) (ckid : Nat) (state : CheckState) (errCode : Nat) : Session :=
  let ice := ice.checkSetState ckid state errCode
  match ice.clist[ckid]? with
  | none => ice
  | some check => (ice.onCheckComplete check).2

/- start_periodic_check: the first waiting check, or else the first frozen one. -/
def Session.startPeriodicCheck (net : Network) (ice : Session) : Session :=
  let ice := { ice with clistTimer := false }
  match (ice.clist.findIdx? (·.state = .waiting)).or (ice.clist.findIdx? (·.state = .frozen)) with
  | none => ice
  | some i =>
    let (err, ice) := ice.performCheck net i ice.isNominating
    let ice := match err with
      | some err => ice.finishCheck i .failed err.code
      | none => ice
    { ice with clistTimer := true }

/- What a request ends with: error 487, another error or a timeout, or a response with the address it came from
and the mapped address it holds. -/
inductive Completion where
  | roleConflict
  | failure (err : Fault)
  | success (srcAddr : Addr) (mapped : Option Addr)
  deriving DecidableEq, Repr

/- pj_ice_sess_add_cand for the peer reflexive candidate a response shows. -/
def Session.reflexive (ice : Session) (check : Check) (transportId : Nat) (mapped : Addr) : Cand where
  place := ice.lcand.length
  compId := check.lcand.compId
  transportId := transportId
  type := .prflx
  foundation := 'P' :: Nat.toDigits 16 check.lcand.baseAddr.ip
  prio := calcCandPrio .prflx 65535 check.lcand.compId
  addr := mapped
  baseAddr := check.lcand.baseAddr

/- The local candidate of a response, known or new. -/
def Session.mappedCand (ice : Session) (check : Check) (transportId : Nat) (mapped : Addr) : Option (Cand × Session) :=
  match ice.lcand.find? (fun c => c.addr = mapped ∧ c.baseAddr = check.lcand.baseAddr) with
  | some lcand => some (lcand, ice)
  | none =>
    if maxCand ≤ ice.lcand.length then none
    else
      let lcand := ice.reflexive check transportId mapped
      some (lcand, { ice with lcand := ice.lcand ++ [lcand] })

/- The pair goes into the valid list, or its entry takes over the nominated flag. -/
def Session.addValid (ice : Session) (check : Check) (lcand : Cand) : Session :=
  let place := ice.validList.findIdx (fun v => v.lcand.place = lcand.place ∧ v.rcand.place = check.rcand.place)
  let newCheck : Check :=
    { lcand := lcand, rcand := check.rcand, prio := calcCheckPrio ice.role lcand check.rcand, state := .succeeded
      nominated := check.nominated }
  let ice := { ice with
    validList :=
      if place < ice.validList.length then
        ice.validList.modify place (fun v => { v with nominated := check.nominated })
      else ice.validList ++ [newCheck] }
  let ice := ice.updateCompCheck lcand.compId place
  let (validList, comp) := sortChecklist ice.validList ice.comp
  { ice with validList := validList, comp := comp }

/- on_stun_request_complete. -/
def Session.onSuccess (ice : Session) (req : Request) (check : Check) (srcAddr : Addr) (mapped : Option Addr) :
    Session :=
  if check.rcand.addr ≠ srcAddr then ice.finishCheck req.ckid .failed eIceInSrcAddr
  else match mapped with
    | none => ice.finishCheck req.ckid .failed eStunNoMappedAddr
    | some mapped =>
      match ice.mappedCand check req.transportId mapped with
      | none => ice.finishCheck req.ckid .failed eTooMany
      | some (lcand, ice) => (ice.addValid check lcand).finishCheck req.ckid .succeeded 0

def Session.onStunRequestComplete (net : Network) (ice : Session) (req : Request) (result : Completion) : Session :=
  let ice := { ice.modifyCheck req.ckid (fun c => { c with tdata := none }) with
    requests := ice.requests.filter (fun r => r.tdata ≠ req.tdata) }
  match ice.clist[req.ckid]? with
  | none => ice
  | some check =>
    match result with
    | .roleConflict =>
      let ice := ice.changeRole (if req.roleAttr = .controlling then .controlled else .controlling)
      let ice := ice.checkSetState req.ckid .waiting 0
      (ice.performCheck net req.ckid (check.nominated || ice.isNominating)).2
    | .failure err => ice.finishCheck req.ckid .failed err.code
    | .success srcAddr mapped => ice.onSuccess req check srcAddr mapped

/- The remote candidate a request came from: known, or a new peer reflexive one. -/
def Session.remoteCand (ice : Session) (rcheck : RxCheck) : Option (Cand × Session) :=
  match ice.rcand.find? (fun c => c.addr = rcheck.srcAddr) with
  | some rcand => some (rcand, ice)
  | none =>
    if maxCand ≤ ice.rcand.length then none
    else
      let rcand : Cand :=
        { place := ice.rcand.length, compId := rcheck.compId, transportId := 0, type := .prflx, foundation := 'f' :: Nat.toDigits 16 ice.rcand.length
          prio := rcheck.priority, addr := rcheck.srcAddr, baseAddr := ⟨false,0,0⟩ }
      some (rcand, { ice with rcand := ice.rcand ++ [rcand] })

/- The valid checks that go with a check nominated by the peer. -/
def Session.nominateValid (ice : Session) (c : Check) : Session :=
  (List.range ice.validList.length).foldl (fun ice j =>
    match ice.validList[j]? with
    | none => ice
    | some v =>
      if v.lcand.transportId = c.lcand.transportId ∧ v.rcand.place = c.rcand.place then
        Session.updateCompCheck { ice with validList := ice.validList.modify j (fun v => { v with nominated := true }) }
          v.lcand.compId j
      else ice) ice

/- A request for a pair that is on the check list. -/
def Session.triggerCheck (net : Network) (ice : Session) (i : Nat) (c : Check) (useCandidate : Bool) : Session :=
  match c.state with
  | .frozen => (ice.performCheck net i (c.nominated || ice.isNominating)).2
  | .waiting => (ice.performCheck net i (c.nominated || ice.isNominating)).2
  | .inProgress => ice
  | .succeeded =>
    let ice := if useCandidate then ice.nominateValid c else ice
    (ice.onCheckComplete c).2
  | .failed => ice

/- handle_incoming_check. -/
def Session.handleIncomingCheck (net : Network) (ice : Session) (rcheck : RxCheck) : Session :=
  match ice.remoteCand rcheck with
  | none => ice
  | some (rcand, ice) =>
    match ice.clist.find? (fun c => c.lcand.compId = rcheck.compId ∧ c.lcand.transportId = rcheck.transportId) with
    | none => ice
    | some first =>
      let lcand := first.lcand
      match ice.clist.findIdx? (fun c => c.lcand.place = lcand.place ∧ c.rcand.place = rcand.place) with
      | some i =>
        let ice := ice.modifyCheck i (fun c => { c with nominated := rcheck.useCandidate || c.nominated })
        match ice.clist[i]? with
        | none => ice
        | some c => ice.triggerCheck net i c rcheck.useCandidate
      | none =>
        if ice.clist.length < maxChecks then
          let c : Check :=
            { lcand := lcand, rcand := rcand, prio := calcCheckPrio ice.role lcand rcand, state := .waiting
              nominated := rcheck.useCandidate }
          let i := ice.clist.length
          (Session.performCheck net { ice with clist := ice.clist ++ [c] } i
            (c.nominated || ice.isNominating)).2
        else ice

/- A Binding request as it comes in; the role attribute carries the tie-breaker of the sender. -/
structure RxRequest where
  rcheck : RxCheck
  hasPriority : Bool := true
  roleAttr : Option (RoleAttr × Nat)
  deriving DecidableEq, Repr

inductive Reply where
  | silent | roleConflict | success
  deriving DecidableEq, Repr

/- Detecting and repairing role conflicts: the request is answered with 487, or the role is changed or kept. -/
def Session.repairRole (ice : Session) : Option (RoleAttr × Nat) → Option Session
  | some (.controlling, tie) =>
    if ice.role = .controlling then
      if ice.tieBreaker < tie then some (ice.changeRole .controlled) else none
    else some ice
  | some (.controlled, tie) =>
    if ice.role = .controlled then
      if ice.tieBreaker < tie then none else some (ice.changeRole .controlling)
    else some ice
  | none => some ice

/- on_stun_rx_request; answered says that the response could be created. -/
def Session.onStunRxRequest (net : Network) (ice : Session) (req : RxRequest) (answered : Bool) : Reply × Session :=
  if ¬ req.hasPriority then (.silent, ice)
  else match ice.repairRole req.roleAttr with
    | none => (.roleConflict, ice)
    | some ice =>
      if ¬ answered then (.silent, ice)
      else
        let ice := if req.rcheck.useCandidate then
            { ice with nominations := req.rcheck.srcAddr :: ice.nominations }
          else ice
        if ice.rcand = [] then (.success, { ice with earlyCheck := ice.earlyCheck ++ [req.rcheck] })
        else (.success, ice.handleIncomingCheck net req.rcheck)

/- pj_ice_sess_create_check_list: the pairs, until the list is full. -/
def pairUp (role : Role) : List (Cand × Cand) → List Check → List Check × Bool
  | [], made => (made, true)
  | (l, r) :: rest, made =>
    if maxChecks ≤ made.length then (made, false)
    else if l.compId ≠ r.compId ∨ l.addr.ipv6 ≠ r.addr.ipv6 then pairUp role rest made
    else pairUp role rest
      (made ++ [{ lcand := l, rcand := r, prio := calcCheckPrio role l r, state := .frozen }])

/- prune_checklist: a server reflexive candidate is replaced by its base, and without one the pruning is given
up; then the later one of two pairs with the same base goes. -/
def toBase (lcand : List Cand) : List Check → List Check × Bool
  | [] => ([], true)
  | c :: rest =>
    if c.lcand.type = .srflx then
      match lcand.find? (fun h => h.type = .host ∧ h.addr = c.lcand.baseAddr) with
      | none => (c :: rest, false)
      | some h => let (rest, ok) := toBase lcand rest; ({ c with lcand := h } :: rest, ok)
    else let (rest, ok) := toBase lcand rest; (c :: rest, ok)

def redundant (a b : Check) : Bool :=
  b.rcand.place = a.rcand.place && (a.lcand.place = b.lcand.place || b.lcand.baseAddr = a.lcand.baseAddr)

def prune : Nat → List Check → List Check
  | 0, list => list
  | _ + 1, [] => []
  | n + 1, c :: rest => c :: prune n (rest.filter (fun d => !redundant c d))

/- Too many candidates are refused; one for a component that does not exist is ignored. -/
def Session.createCheckList (ice : Session) (remote : List Cand) : Session :=
  if remote = [] ∨ maxCand < remote.length + ice.rcand.length then ice else
  let kept := remote.filter (fun c => c.compId ≠ 0 ∧ c.compId ≤ ice.comp.length)
  let rcand := kept.zipIdx.map (fun (c, i) => { c with place := i })
  let (made, complete) := pairUp ice.role (ice.lcand.flatMap (fun l => rcand.map (fun r => (l, r)))) []
  if ¬ complete ∨ made = [] then { ice with rcand := rcand, clist := made }
  else
    let (based, ok) := toBase ice.lcand (sortChecklist made ice.comp).1
    if ¬ ok then { ice with rcand := rcand, clist := based }
    else
      { ice with
        rcand := rcand
        clist := prune based.length based
        comp := ice.comp.take ((kept.map Cand.compId).foldl max 0) }

/- pj_ice_sess_start_check: the first pair of component 1 and those of other foundations wait, then the early
checks are handled. -/
def thaw (compId : Nat) : List (List Char) → List Check → List Check
  | _, [] => []
  | seen, c :: rest =>
    if c.lcand.compId = compId ∧ c.lcand.foundation ∉ seen then
      (if c.state = .frozen then { c with state := .waiting, errCode := 0 } else c) ::
        thaw compId (c.lcand.foundation :: seen) rest
    else c :: thaw compId seen rest

def Session.startCheck (net : Network) (ice : Session) : Session :=
  let ice := if ice.aggressive then { ice with isNominating := true } else ice
  if ice.clist.any (fun c => c.lcand.compId = 1) then
    let ice := { ice with clist := thaw 1 [] ice.clist }
    let ice := ice.earlyCheck.foldl (Session.handleIncomingCheck net) ice
    { ice with earlyCheck := [], clistTimer := true }
  else ice

/- on_timer. -/
def Session.onTimer (ice : Session) : Session :=
  let fired := ice.timer
  let ice := { ice with timer := .none }
  match fired with
  | .controlledWaitNom => ice.onIceComplete eIceNomTimeout
  | .completionCallback => if ice.iceStatus = 0 then { ice with timer := .keepAlive } else ice
  | .startNominatedCheck => ice.startNominatedCheck
  | .keepAlive => { ice with timer := .keepAlive }
  | .none => ice

/- What can happen to a session. -/
inductive Input where
  | createCheckList (remote : List Cand)
  | startCheck
  | periodic
  | timer
  | complete (tdata : Nat) (result : Completion)
  | request (req : RxRequest) (answered : Bool)
  | changeRole (role : Role)

/- The application makes the check list once; a completion is for a request that is outstanding. -/
def Session.step (net : Network) (ice : Session) : Input → Session
  | .createCheckList remote => if ice.rcand = [] ∧ ice.clist = [] then ice.createCheckList remote else ice
  | .startCheck => if ice.clist = [] then ice else ice.startCheck net
  | .periodic => if ice.clistTimer then ice.startPeriodicCheck net else ice
  | .timer => ice.onTimer
  | .complete tdata result =>
    match ice.requests.find? (fun r => r.tdata = tdata) with
    | none => ice
    | some req => ice.onStunRequestComplete net req result
  | .request req answered => (ice.onStunRxRequest net req answered).2
  | .changeRole role => ice.changeRole role

/- A session as pj_ice_sess_create leaves it, with the local candidates added. -/
structure Created (ice : Session) : Prop where
  rcand : ice.rcand = []
  clist : ice.clist = []
  validList : ice.validList = []
  comp : ∀ c ∈ ice.comp, c = {}
  isNominating : ice.isNominating = false
  timer : ice.timer = .none
  earlyCheck : ice.earlyCheck = []
  requests : ice.requests = []
  sent : ice.sent = []
  roleChanges : ice.roleChanges = []
  nominations : ice.nominations = []
  misused : ice.misused = false

end Pjproject.Ice
