import Pjproject.StunTsx

/-! TURN client sessions of turn_session.c: the states from the resolution of the server to the destruction, with the
DNS resolution and the STUN requests that are outstanding. The tables of channels and permissions, the times, and calls
that the application makes inside a callback are left out. -/
namespace Pjproject.Turn
open Stun (Msg Attr SockAddr findAttr isSuccessResponse)

inductive State where
  | null | resolving | resolved | allocating | ready | deallocating | deallocated | destroying
  deriving DecidableEq

/- The number of a state, which the code compares. -/
def State.num : State → Nat
  | .null => 0
  | .resolving => 1
  | .resolved => 2
  | .allocating => 3
  | .ready => 4
  | .deallocating => 5
  | .deallocated => 6
  | .destroying => 7

inductive Method where
  | allocate | refresh | channelBind | createPerm | connectionBind
  deriving DecidableEq

structure Request where
  id : Nat
  method : Method
  deriving DecidableEq

inductive TimerId where
  | none | keepAlive | destroy
  deriving DecidableEq

inductive Family where
  | inet | inet6
  deriving DecidableEq

/- The session; then the resolution and the requests that are outstanding, the states reported to on_state, and whether
a null pointer was used. -/
structure Session where
  state : State := .null
  pendingDestroy : Bool := false
  isDestroying : Bool := false
  timer : TimerId := .none
  af : Family := .inet
  srvAddrCnt : Nat := 0
  srvAddr : Option Nat := none
  pendingAlloc : Bool := false
  allocAf : Option Family := none
  relayAddr : Option SockAddr := none
  dns : Bool := false
  requests : List Request := []
  created : Nat := 0
  notified : List State := []
  crashed : Bool := false

/- What becomes of a STUN request. -/
inductive Sending where
  | notCreated | notSent | sent
  deriving DecidableEq

def turnKeepAliveSec : Nat := 15
def attrLifetime : UInt16 := 0x000D
def attrXorRelayedAddr : UInt16 := 0x0016

def Session.setState (sess : Session) (state : State) : Session :=
  if state = sess.state then sess else { sess with state := state, notified := sess.notified ++ [state] }

/- pj_stun_session_create_req: a destroyed STUN session refuses. -/
def Session.refuses (sess : Session) (sending : Sending) : Bool := sess.isDestroying || sending = .notCreated

def Session.addRequest (sess : Session) (method : Method) : Session :=
  { sess with requests := sess.requests ++ [⟨sess.created,method⟩], created := sess.created + 1 }

/- A request that changes nothing when it fails. -/
def Session.send (sess : Session) (method : Method) (sending : Sending) : Session :=
  if sess.refuses sending ∨ sending = .notSent then sess else sess.addRequest method

/- sess_shutdown when nothing has to be waited for. -/
def Session.scheduleDestroy (sess : Session) : Session := { sess.setState .destroying with timer := .destroy }

/- send_refresh with lifetime zero. -/
def Session.deallocate (sess : Session) (sending : Sending) : Session :=
  if sess.refuses sending then (sess.setState .deallocated).scheduleDestroy
  else
    let sess := sess.setState .deallocating
    if sending = .notSent then (sess.setState .deallocated).scheduleDestroy
    else sess.addRequest .refresh

def Session.sessShutdown (sess : Session) (sending : Sending) : Session :=
  match sess.state with
  | .null => sess.scheduleDestroy
  | .resolving => { sess with pendingDestroy := true }
  | .resolved => sess.scheduleDestroy
  | .allocating => { sess with pendingDestroy := true }
  | .ready => sess.deallocate sending
  | .deallocating => sess
  | .deallocated => sess.scheduleDestroy
  | .destroying => sess.scheduleDestroy

/- pj_turn_session_destroy. -/
def Session.destroy (sess : Session) : Session := (sess.setState .deallocated).scheduleDestroy

/- What pj_turn_session_set_server meets: a transport without a service name, the resolver, which refuses or answers
later, or the addresses of pj_getaddrinfo. -/
inductive Resolution where
  | badTransport | refused | started
  | failed
  | found (count : Nat)
  deriving DecidableEq

def Session.setServer (sess : Session) (resolution : Resolution) : Session :=
  if sess.state ≠ .null then sess
  else match resolution with
    | .badTransport => sess
    | .refused => (sess.setState .resolving).setState .null
    | .started => { sess.setState .resolving with dns := true }
    | .failed => sess.setState .resolving
    | .found count =>
      { sess.setState .resolving with srvAddrCnt := count, srvAddr := some 0 }.setState .resolved

/- pj_turn_session_alloc; param is not null and names a transport to the peer. -/
def Session.alloc (sess : Session) (af : Option Family) (sending : Sending) : Session :=
  match sess.state with
  | .resolving => { sess with allocAf := af, pendingAlloc := true }
  | .resolved =>
    let sess := { sess with allocAf := af }
    if sess.refuses sending then sess
    else
      let sess := sess.setState .allocating
      if sending = .notSent then sess else sess.addRequest .allocate
  | _ => sess

/- pj_turn_session_set_perm uses the address of the server in every state. -/
def Session.setPerm (sess : Session) (sending : Sending) : Session :=
  if sess.refuses sending then sess
  else if sess.srvAddr = none then { sess with crashed := true }
  else sess.send .createPerm sending

/- pj_turn_session_bind_channel and pj_turn_session_connection_bind. -/
def Session.bind (sess : Session) (method : Method) (sending : Sending) : Session :=
  if sess.state = .ready then sess.send method sending else sess

/- on_session_fail: the next server for a failed allocation, or the end. -/
def Session.onSessionFail (sess : Session) (method : Method) : Session :=
  if method = .allocate ∧ sess.srvAddr.map (· + 1) ≠ some sess.srvAddrCnt then
    { sess with srvAddr := sess.srvAddr.map (· + 1) }.setState .resolved
  else (sess.setState .deallocated).scheduleDestroy

def Family.of : SockAddr → Option Family
  | .ipv4 _ _ => some .inet
  | .ipv6 _ _ => some .inet6
  | .other => none

/- pj_sockaddr_has_addr. -/
def hasAddr : SockAddr → Bool
  | .ipv4 _ addr => decide (addr ≠ fun _ => 0)
  | .ipv6 _ addr => decide (addr ≠ fun _ => 0)
  | .other => false

def Attr.sockaddr (a : Attr) : SockAddr :=
  match a.body with
  | .sockaddr _ addr => addr
  | _ => .other

def Attr.value (a : Attr) : Nat :=
  match a.body with
  | .uint value => value.toNat
  | _ => 0

/- The relayed address of a response passes the checks of on_allocate_success. -/
def Session.relayOk (sess : Session) (method : Method) : Option SockAddr → Bool
  | none => method ≠ .allocate
  | some addr =>
    Family.of addr = some (sess.allocAf.getD sess.af) && hasAddr addr &&
      (sess.relayAddr.all (fun old => !hasAddr old || old = addr))

/- The timer is scheduled once: the entry that waits to destroy the session stays. -/
def Session.startKeepAlive (sess : Session) : Session :=
  if sess.timer = .destroy then sess else { sess with timer := .keepAlive }

/- on_allocate_success. -/
def Session.onAllocateSuccess (sess : Session) (method : Method) (msg : Msg) : Session :=
  match findAttr msg attrLifetime with
  | none => sess.onSessionFail method
  | some lifetime =>
    if Attr.value lifetime = 0 then (sess.setState .deallocated).scheduleDestroy
    else if Attr.value lifetime < turnKeepAliveSec ∧ Attr.value lifetime ≤ 2 then sess.onSessionFail method
    else
      let relay := (findAttr msg attrXorRelayedAddr).map Attr.sockaddr
      if ¬ sess.relayOk method relay then sess.onSessionFail method
      else
        let sess := { sess with relayAddr := relay.or sess.relayAddr }
        let sess := if sess.timer = .keepAlive then { sess with timer := .none } else sess
        if sess.state.num < State.deallocating.num then sess.startKeepAlive.setState .ready else sess

/- What on_request_complete reports: whether the status is PJ_SUCCESS, and the response if there is one. -/
structure Completion where
  success : Bool
  response : Option Msg

/- A response that counts as a success. -/
def Completion.good (c : Completion) : Option Msg :=
  if c.success then c.response.filter (fun msg => isSuccessResponse msg.hdr.type) else none

/- The allocation does not exist any more: error 437. -/
def Completion.mismatch (c : Completion) : Bool :=
  c.response.any (fun msg => (findAttr msg Stun.attrErrorCode).any (fun a => a.errCode = 437))

/- stun_on_request_complete; the sending is that of a Refresh to deallocate. -/
def Session.onRequestComplete (sess : Session) (method : Method) (c : Completion) (sending : Sending) : Session :=
  match method with
  | .allocate =>
    if sess.pendingDestroy then
      { sess with state := if c.success then .ready else .deallocated }.sessShutdown sending
    else match c.good with
      | some msg => sess.onAllocateSuccess .allocate msg
      | none => sess.onSessionFail .allocate
  | .refresh =>
    match c.good with
    | some msg => sess.onAllocateSuccess .refresh msg
    | none => sess.onSessionFail .refresh
  | .channelBind => if c.good.isNone ∧ c.mismatch then sess.onSessionFail .channelBind else sess
  | .createPerm => if c.good.isNone ∧ c.mismatch then sess.onSessionFail .createPerm else sess
  | .connectionBind => sess

/- dns_srv_resolver_cb with the number of usable addresses. A pending allocation is started without its parameter. -/
def Session.dnsSrvResolverCb (sess : Session) (result : Option Nat) : Session :=
  match result with
  | none => (sess.setState .destroying).scheduleDestroy
  | some count =>
    if sess.pendingDestroy then (sess.setState .destroying).scheduleDestroy
    else
      let sess := { sess with srvAddrCnt := count, srvAddr := some 0 }.setState .resolved
      if sess.pendingAlloc then { sess with crashed := true } else sess

/- do_destroy: the STUN session and its requests go. -/
def Session.doDestroy (sess : Session) : Session :=
  if sess.isDestroying then sess else { sess with isDestroying := true, timer := .none, requests := [] }

/- on_timer_event. For the keep-alive timer it is known whether the allocation is to be refreshed, which channels are
bound again and whether permissions are renewed. -/
def Session.onTimerEvent (sess : Session) (due : Bool) (refresh : Sending) (channels : List Sending)
    (perms : Option Sending) : Session :=
  let fired := sess.timer
  let sess := { sess with timer := .none }
  match fired with
  | .none => sess
  | .destroy => sess.doDestroy
  | .keepAlive =>
    if State.deallocating.num ≤ sess.state.num then sess
    else
      let sess := if due ∧ sess.state = .ready then sess.send .refresh refresh else sess
      let sess := channels.foldl (fun sess sending => sess.bind .channelBind sending) sess
      let sess := match perms with
        | none => sess
        | some sending => sess.send .createPerm sending
      if due then sess else sess.startKeepAlive

/- What can happen to a session. Requests are named by their number; one can also be lost, when the STUN session removes
it without a report. -/
inductive Input where
  | setServer (resolution : Resolution)
  | alloc (af : Option Family) (sending : Sending)
  | setPerm (sending : Sending)
  | bindChannel (sending : Sending)
  | connectionBind (sending : Sending)
  | shutdown (sending : Sending)
  | destroy
  | dnsComplete (result : Option Nat)
  | complete (id : Nat) (c : Completion) (sending : Sending)
  | lost (id : Nat)
  | timer (due : Bool) (refresh : Sending) (channels : List Sending) (perms : Option Sending)

def Session.request (sess : Session) (id : Nat) : Option Request := sess.requests.find? (fun r => r.id = id)

def Session.dropRequest (sess : Session) (id : Nat) : Session :=
  { sess with requests := sess.requests.filter (fun r => r.id ≠ id) }

def Session.step (sess : Session) (input : Input) : Session :=
  if sess.crashed then sess
  else match input with
    | .setServer resolution => sess.setServer resolution
    | .alloc af sending => sess.alloc af sending
    | .setPerm sending => sess.setPerm sending
    | .bindChannel sending => sess.bind .channelBind sending
    | .connectionBind sending => sess.bind .connectionBind sending
    | .shutdown sending => sess.sessShutdown sending
    | .destroy => sess.destroy
    | .dnsComplete result => if sess.dns then { sess with dns := false }.dnsSrvResolverCb result else sess
    | .complete id c sending =>
      match sess.request id with
      | none => sess
      | some req => (sess.dropRequest id).onRequestComplete req.method c sending
    | .lost id => sess.dropRequest id
    | .timer due refresh channels perms => sess.onTimerEvent due refresh channels perms

def Session.run (sess : Session) (inputs : List Input) : Session := inputs.foldl Session.step sess

/- A session as pj_turn_session_create leaves it. -/
structure Session.Fresh (sess : Session) : Prop where
  state : sess.state = .null
  pendingDestroy : sess.pendingDestroy = false
  isDestroying : sess.isDestroying = false
  dns : sess.dns = false
  requests : sess.requests = []
  notified : sess.notified = []

end Pjproject.Turn
