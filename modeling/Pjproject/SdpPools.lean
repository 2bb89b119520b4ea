import Mathlib

/-! The SDP negotiator of sdp_neg.c and the two pools that an INVITE session allocates its SDPs from in turn. Of an SDP only
the pool and the generation it was allocated from are kept; whether a negotiation succeeds is an input. -/
namespace Pjproject.Sdp

/- inv->pool is never reset. The other two take turns as pool_prov and pool_active. -/
inductive Pool where
  | dialog
  | flip (second : Bool)
  deriving DecidableEq, Repr

/- Where an SDP was allocated. pj_pool_reset starts a new generation of its pool. -/
structure Tag where
  pool : Pool
  generation : Nat
  deriving DecidableEq, Repr

inductive NegState where
  | null
  | localOffer
  | remoteOffer
  | waitNego
  | done
  deriving DecidableEq, Repr

/- pjmedia_sdp_neg. The last field is not in the source: how many local answers were given to the remote offer. -/
structure Neg where
  state : NegState
  hasRemoteAnswer : Bool := false
  initialSdp : Option Tag := none
  initialSdpTmp : Option Tag := none
  activeLocalSdp : Option Tag := none
  activeRemoteSdp : Option Tag := none
  negLocalSdp : Option Tag := none
  negRemoteSdp : Option Tag := none
  answers : Nat := 0
  deriving DecidableEq, Repr

/- What a call returns instead of success: the state does not allow it, an SDP is missing, or it reads a NULL pointer. -/
inductive NegError where
  | inState
  | noSdp
  | nullPointer
  deriving DecidableEq, Repr

def createWLocalOffer (pool : Tag) : Neg :=
  { state := .localOffer, initialSdp := pool, negLocalSdp := pool }

def createWRemoteOffer (pool : Tag) (initial : Bool) : Neg :=
  if initial then { state := .waitNego, initialSdp := pool, negLocalSdp := pool, negRemoteSdp := pool }
  else { state := .remoteOffer, negRemoteSdp := pool }

/- The origin line of the offer is copied from the active SDP without a check that there is one. -/
def Neg.modifyLocalOffer2 (neg : Neg) (pool : Tag) : Except NegError Neg :=
  if neg.state ≠ .done then .error .inState
  else if neg.activeLocalSdp = none then .error .nullPointer
  else .ok { neg with state := .localOffer, initialSdpTmp := neg.initialSdp, initialSdp := pool, negLocalSdp := pool }

def Neg.sendLocalOffer (neg : Neg) (pool : Tag) : Except NegError Neg :=
  if neg.state = .done then
    if neg.activeLocalSdp = none then .error .noSdp
    else if neg.initialSdp = none then .ok { neg with state := .localOffer, negLocalSdp := pool }
    else .ok { neg with
      state := .localOffer, initialSdpTmp := neg.initialSdp, initialSdp := pool, negLocalSdp := pool }
  else if neg.state = .localOffer then .ok neg
  else .error .inState

def Neg.setRemoteAnswer (neg : Neg) (pool : Tag) : Except NegError Neg :=
  if neg.state ≠ .localOffer then .error .inState
  else .ok { neg with state := .waitNego, hasRemoteAnswer := true, negRemoteSdp := pool }

def Neg.setRemoteOffer (neg : Neg) (pool : Tag) : Except NegError Neg :=
  if neg.state ≠ .done then .error .inState
  else .ok { neg with state := .remoteOffer, negRemoteSdp := pool, answers := 0 }

/- No caller in an INVITE session passes a NULL SDP. -/
def Neg.setLocalAnswer (neg : Neg) (pool : Tag) : Except NegError Neg :=
  if neg.state ≠ .remoteOffer ∧ neg.state ≠ .waitNego then .error .inState
  else if neg.initialSdp = none then
    .ok { neg with state := .waitNego, negLocalSdp := pool, initialSdp := pool, answers := neg.answers + 1 }
  else
    .ok { neg with
      state := .waitNego, negLocalSdp := pool, initialSdpTmp := neg.initialSdp, initialSdp := pool
      answers := neg.answers + 1 }

def Neg.hasLocalAnswer (neg : Neg) : Bool := !neg.hasRemoteAnswer

def Neg.cancelOffer (neg : Neg) : Except NegError Neg :=
  if neg.state ≠ .localOffer ∧ neg.state ≠ .remoteOffer then .error .inState
  else .ok { neg with
    state := .done, initialSdp := if neg.state = .localOffer then neg.initialSdpTmp else neg.initialSdp
    initialSdpTmp := none, negLocalSdp := none, negRemoteSdp := none, hasRemoteAnswer := false }

/- `ok` says how the two SDPs compare. -/
def Neg.negotiate (neg : Neg) (pool : Tag) (ok : Bool) : Except NegError Neg :=
  if neg.state ≠ .waitNego then .error .inState
  else if neg.negRemoteSdp = none then .error .noSdp
  else .ok { neg with
    state := .done
    activeLocalSdp := if ok then some pool else neg.activeLocalSdp
    activeRemoteSdp := if ok then neg.negRemoteSdp else neg.activeRemoteSdp
    initialSdp := if ok then neg.initialSdp else neg.initialSdpTmp
    initialSdpTmp := none, negLocalSdp := none, negRemoteSdp := none, hasRemoteAnswer := false }

/- The SDPs that the negotiator points to. -/
def Neg.held (neg : Neg) : List Tag :=
  neg.initialSdp.toList ++ neg.initialSdpTmp.toList ++ neg.activeLocalSdp.toList ++ neg.activeRemoteSdp.toList ++
    neg.negLocalSdp.toList ++ neg.negRemoteSdp.toList

/- The negotiator of a session, which of the two pools is pool_prov, and the generations they are in. -/
structure Media where
  neg : Option Neg := none
  prov : Bool := false
  generation : Bool → Nat := fun _ => 0

def dialogTag : Tag := ⟨.dialog,0⟩
def Media.provTag (m : Media) : Tag := ⟨.flip m.prov,m.generation m.prov⟩
def Media.activeTag (m : Media) : Tag := ⟨.flip !m.prov,m.generation !m.prov⟩

def Media.state (m : Media) : NegState :=
  match m.neg with
  | none => .null
  | some neg => neg.state

/- The pools are never released while the session lives. -/
def Media.live (m : Media) (tag : Tag) : Bool :=
  match tag.pool with
  | .dialog => tag.generation = 0
  | .flip second => tag.generation = m.generation second

def Media.held (m : Media) : List Tag :=
  match m.neg with
  | none => []
  | some neg => neg.held

/- A call on the negotiator: refused, it changes nothing; with a NULL pointer, the process ends. -/
def Media.apply (m : Media) (call : Neg → Except NegError Neg) : Option Media :=
  match m.neg with
  | none => some m
  | some neg =>
    match call neg with
    | .ok next => some { m with neg := some next }
    | .error .nullPointer => none
    | .error _ => some m

/- The end of inv_negotiate_sdp: swap_pool after a success, then pj_pool_reset in either case. -/
def Media.swapPools (m : Media) (ok : Bool) : Media :=
  let prov := if ok then !m.prov else m.prov
  { m with prov := prov, generation := Function.update m.generation prov (m.generation prov + 1) }

/- What an application may do, in a callback or not, that reaches the negotiator: the three functions of the session that take
an SDP, and ending the session. A request that fails while it is being sent has its offer cancelled. -/
inductive Call where
  | setLocalSdp
  | setSdpAnswer
  | reinvite
  | update
  | cancelOffer
  | terminate
  deriving DecidableEq, Repr

/- A session as far as its SDPs go. The last field is not in the source: a negotiation has ended with the session DISCONNECTED,
so that the pools were left as they were. -/
structure Session where
  media : Media := {}
  disconnected : Bool := false
  unsettled : Bool := false

def Session.apply (s : Session) (call : Neg → Except NegError Neg) : Option Session :=
  (s.media.apply call).map fun media => { s with media := media }

def Session.setSdpAnswer (s : Session) : Option Session :=
  s.apply fun neg => neg.setLocalAnswer s.media.provTag

def Session.setLocalSdp (s : Session) : Option Session :=
  match s.media.neg with
  | none => some { s with media := { s.media with neg := some (createWLocalOffer dialogTag) } }
  | some neg =>
    if (neg.state = .remoteOffer ∨ neg.state = .waitNego) ∧ neg.negRemoteSdp.isSome then s.setSdpAnswer
    else if neg.state = .done then s.apply fun neg => neg.modifyLocalOffer2 dialogTag
    else some s

/- pjsip_inv_reinvite with a new offer. -/
def Session.reinvite (s : Session) : Option Session :=
  match s.media.neg with
  | none => some { s with media := { s.media with neg := some (createWLocalOffer dialogTag) } }
  | some neg =>
    match neg.state with
    | .remoteOffer => s.setSdpAnswer
    | .done => s.apply fun neg => neg.modifyLocalOffer2 s.media.provTag
    | _ => some s

def Session.update (s : Session) : Option Session :=
  if s.disconnected ∨ s.media.state ≠ .done then some s else s.apply fun neg => neg.modifyLocalOffer2 s.media.provTag

def Session.call (s : Session) : Call → Option Session
  | .setLocalSdp => s.setLocalSdp
  | .setSdpAnswer => s.setSdpAnswer
  | .reinvite => s.reinvite
  | .update => s.update
  | .cancelOffer => s.apply Neg.cancelOffer
  | .terminate => some { s with disconnected := true }

def Session.calls (s : Session) : List Call → Option Session
  | [] => some s
  | c :: rest => (s.call c).bind fun next => next.calls rest

/- How a negotiation comes out, and what the application does in on_media_update. -/
structure Nego where
  ok : Bool
  calls : List Call
  deriving DecidableEq, Repr

def Session.negotiateSdp (s : Session) (nego : Nego) : Option Session :=
  if s.media.state ≠ .waitNego then some s
  else do
    let negotiated ← s.apply fun neg => neg.negotiate s.media.provTag nego.ok
    let s ← negotiated.calls nego.calls
    if s.disconnected then some { s with unsettled := true }
    else some { s with media := s.media.swapPools nego.ok }

/- inv_check_sdp_in_incoming_msg for a message with a valid SDP. `reoffer`: a further response in the same transaction, before
which the offer of the request is fed to the negotiator again. `offered`: what the application does in on_rx_offer. -/
def Session.feedOffer (s : Session) (reoffer : Bool) : Option Session :=
  if reoffer then s.apply fun neg => neg.modifyLocalOffer2 s.media.provTag else some s

def Session.checkSdp (s : Session) (reoffer : Bool) (offered : List Call) (nego : Nego) : Option Session := do
  let s ← s.feedOffer reoffer
  if s.media.neg = none then
    ({ s with media := { s.media with neg := some (createWRemoteOffer dialogTag false) } } : Session).calls offered
  else if s.media.state = .done then
    (← s.apply fun neg => neg.setRemoteOffer s.media.provTag).calls offered
  else if s.media.state = .localOffer then
    (← s.apply fun neg => neg.setRemoteAnswer s.media.provTag).negotiateSdp nego
  else some s

/- A local answer that waits to be sent is negotiated first: process_answer, inv_has_pending_answer. -/
def Session.negotiateAnswer (s : Session) (nego : Nego) : Option Session :=
  match s.media.neg with
  | none => some s
  | some neg => if neg.state = .waitNego ∧ neg.hasLocalAnswer then s.negotiateSdp nego else some s

/- process_answer for a response that may carry SDP, with or without an SDP from the application. -/
def Session.takeLocalSdp (s : Session) (localSdp : Bool) : Option Session :=
  if localSdp then
    match s.media.neg with
    | none => some { s with media := { s.media with neg := some (createWLocalOffer dialogTag) } }
    | some neg => if neg.state = .remoteOffer then s.setSdpAnswer else some s
  else some s

def Session.processAnswer (s : Session) (localSdp : Bool) (nego : Nego) : Option Session := do
  (← s.takeLocalSdp localSdp).negotiateAnswer nego

/- inv_respond_incoming_update for an UPDATE with SDP, after inv_check_sdp_in_incoming_msg has taken the offer. -/
def Session.respondUpdate (s : Session) (nego : Nego) : Option Session := do
  let waiting := decide (s.media.state = .waitNego)
  let s ← s.negotiateSdp nego
  if (waiting = false ∨ nego.ok = false ∨ s.disconnected) ∧ s.media.state ≠ .done then s.apply Neg.cancelOffer else some s

/- The offer for a re-INVITE without SDP: from on_create_offer, or the active SDP again. -/
def Session.createOffer (s : Session) (created : Bool) : Option Session :=
  if created then s.apply fun neg => neg.modifyLocalOffer2 s.media.provTag
  else s.apply fun neg => neg.sendLocalOffer s.media.provTag

/- What happens to a session. An offer is cancelled by `call cancelOffer`, also where a state handler does it. `restart`: the
state leaves DISCONNECTED, as it does in some runs. -/
inductive Step where
  | call (c : Call)
  | checkSdp (reoffer : Bool) (offered : List Call) (nego : Nego)
  | processAnswer (localSdp : Bool) (nego : Nego)
  | pendingAnswer (nego : Nego)
  | respondUpdate (nego : Nego)
  | createOffer (created : Bool)
  | restart

def Session.step (s : Session) : Step → Option Session
  | .call c => s.call c
  | .checkSdp reoffer offered nego => s.checkSdp reoffer offered nego
  | .processAnswer localSdp nego => s.processAnswer localSdp nego
  | .pendingAnswer nego => s.negotiateAnswer nego
  | .respondUpdate nego => s.respondUpdate nego
  | .createOffer created => s.createOffer created
  | .restart => some { s with disconnected := false }

def Session.run (s : Session) : List Step → Option Session
  | [] => some s
  | step :: rest => (s.step step).bind fun next => next.run rest

/- pjsip_inv_create_uac and pjsip_inv_create_uas, with or without a local SDP and an offer from the peer. -/
def newSession (localSdp remoteSdp : Bool) : Session :=
  { media.neg :=
      if remoteSdp then some (createWRemoteOffer dialogTag localSdp)
      else if localSdp then some (createWLocalOffer dialogTag)
      else none }

end Pjproject.Sdp
