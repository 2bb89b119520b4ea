import Mathlib

/-! SIP transactions of sip_transaction.c. One world holds the transaction, the sends it has under way and
the group-lock references taken for them. Locking is left out: every event runs with the group lock held. -/
namespace Pjproject.Tsx

inductive Role where
  | uac | uas
  deriving DecidableEq

inductive Method where
  | invite | cancel | ack | bye | register | options | other
  deriving DecidableEq

inductive State where
  | null | calling | trying | proceeding | completed | confirmed | terminated | destroyed
  deriving DecidableEq

/- The number of a state, which the code compares. -/
def State.num : State → Nat
  | .null => 0
  | .calling => 1
  | .trying => 2
  | .proceeding => 3
  | .completed => 4
  | .confirmed => 5
  | .terminated => 6
  | .destroyed => 7

/- A response carries its status code and the method of its CSeq header. -/
inductive Msg where
  | request (method : Method)
  | response (code : Nat) (cseq : Method)
  deriving DecidableEq

structure TxData where
  id : Nat
  msg : Msg
  deriving DecidableEq

structure Transport where
  id : Nat
  reliable : Bool
  isShutdown : Bool
  deriving DecidableEq

inductive Handler where
  | null | calling | trying | proceedingUas | proceedingUac | completedUas | completedUac
  | confirmed | terminated | destroyed
  deriving DecidableEq

/- tsx_state_handler_uac and tsx_state_handler_uas: a missing entry is a null function pointer. -/
def stateHandlers : Role → State → Option Handler
  | _, .null => some .null
  | .uac, .calling => some .calling
  | .uas, .calling => none
  | .uac, .trying => none
  | .uas, .trying => some .trying
  | .uac, .proceeding => some .proceedingUac
  | .uas, .proceeding => some .proceedingUas
  | .uac, .completed => some .completedUac
  | .uas, .completed => some .completedUas
  | _, .confirmed => some .confirmed
  | _, .terminated => some .terminated
  | _, .destroyed => some .destroyed

inductive TimerId where
  | inactive | retransmit | timeout | transportErr
  deriving DecidableEq

/- A timer entry: its id and whether the timer heap holds it, with the delay it was given. -/
structure TimerEntry where
  id : TimerId
  running : Bool
  delay : Nat
  deriving DecidableEq

/- The heap refuses to schedule an entry that is running, and the callers ignore that. -/
def TimerEntry.schedule (t : TimerEntry) (delay : Nat) (id : TimerId) : TimerEntry :=
  if t.running then t else ⟨id,true,delay⟩

def TimerEntry.cancel (t : TimerEntry) : TimerEntry :=
  if t.running then { t with id := .inactive, running := false } else t

/- What a change of state is reported with. -/
inductive Source where
  | rxMsg (msg : Msg) | txMsg | timer | transportError | user | unknown
  deriving DecidableEq

structure Transition where
  before : State
  after : State
  source : Source
  deriving DecidableEq

/- A send that has not completed: pjsip_transport_send answers through transport_callback, the stateless
send functions of the endpoint answer through send_msg_callback. -/
inductive Flight where
  | transport (tdata : TxData)
  | endpoint (tdata : TxData)
  deriving DecidableEq

/- The transaction, and beside it: the sends under way, the references the group lock holds for sends, the
transmit data whose mod_data slot points to this transaction, a clock that numbers the answers of the
environment, the changes of state so far (latest first), and whether a missing handler was called. -/
structure World where
  role : Role
  method : Method
  handle200resp : Bool := true
  state : State := .null
  stateHandler : Option Handler := some .null
  statusCode : Nat := 0
  lastTx : Option TxData := none
  pendingTx : Option TxData := none
  transport : Option Transport := none
  isReliable : Bool := false
  resAddrTransport : Option Transport := none
  pendingTransport : Bool := false
  pendingResched : Bool := false
  pendingSend : Bool := false
  pendingDestroy : Bool := false
  resolvedServer : Bool := false
  transportErr : Nat := 0
  retransmitCount : Nat := 0
  retransmitTimer : TimerEntry := ⟨.inactive,false,0⟩
  timeoutTimer : TimerEntry := ⟨.inactive,false,0⟩
  terminating : Bool := false
  tsxUser : Bool := true
  inFlight : List Flight := []
  refs : Int := 0
  modData : List Nat := []
  clock : Nat := 0
  trail : List Transition := []
  missing : Bool := false
  deriving DecidableEq

/- An error status: anything but PJ_SUCCESS. -/
@[ext]
structure Fault where
  code : Nat
  isError : code ≠ 0

instance : DecidableEq Fault := fun _ _ => decidable_of_iff _ Fault.ext_iff.symm

inductive TransportReply where
  | sent | pending | failed (err : Fault)
  deriving DecidableEq

/- A failed attempt of the endpoint, with the transport it had acquired if it came so far. -/
structure Failure where
  err : Fault
  curTransport : Option Transport
  deriving DecidableEq

inductive Outcome where
  | sent (tp : Transport)
  | failed (f : Failure)
  deriving DecidableEq

inductive Final where
  | pending
  | done (outcome : Outcome)
  deriving DecidableEq

/- The endpoint refuses a send before it starts, or goes through its attempts: those that fail with a next
server left, then the last one. -/
inductive EndpointReply where
  | refused (err : Fault)
  | accepted (attempts : List Failure) (final : Final)
  deriving DecidableEq

/- The public calls. pjsip_tsx_retransmit_no_state looks at no state, so its caller may look at tsx->state first. -/
inductive UserOp where
  | sendMsg (tdata : Option TxData)
  | retransmitNoState (tdata : Option TxData) (checked : Bool)
  | terminate (code : Nat)
  | stopRetransmit
  | setTimeout (millisec : Nat)
  | handle200resp (value : Bool)
  deriving DecidableEq

/- What the surroundings answer while one event is handled: whether a transmit data is still with a
transport, what a transport, the endpoint and pjsip_endpt_create_ack return (for an ACK, the identity of its
transmit data), and what the transaction user does in a callback. -/
structure Oracle where
  busy : Nat → Bool
  transport : Nat → TransportReply
  endpoint : Nat → EndpointReply
  ack : Nat → Except Fault Nat
  user : Nat → List UserOp

def World.tick (w : World) : World := { w with clock := w.clock + 1 }

/- Constants of sip_config.h, sip_msg.h and errno.h. -/
def t1 : Nat := 500
def t2 : Nat := 4000
def t4 : Nat := 5000
def td : Nat := 32000
def timeoutVal : Nat := 64 * t1
def retrans1xxDelay : Nat := 60
def scTimeout : Nat := 408
def scBadGateway : Nat := 502
def scTransportError : Nat := 503
def pjEUnknown : Nat := 70001
def pjEInval : Nat := 70004
def pjEBug : Nat := 70008
def pjEInvalidOp : Nat := 70013
def pjEExists : Nat := 70015
def pjEResolve : Nat := 70018
def pjEIgnored : Nat := 70020
def ednsNxdomain : Nat := 320053
def notRequestMsg : Nat := 171021
def notResponseMsg : Nat := 171022
def invalidMethod : Nat := 171055

/- PJSIP_IS_STATUS_IN_CLASS. -/
def inClass (code statusClass : Nat) : Bool := code / 100 == statusClass / 100

def World.scheduleTimeout (w : World) (delay : Nat) (id : TimerId) : World :=
  { w with timeoutTimer := w.timeoutTimer.schedule delay id }

def World.cancelTimeout (w : World) : World := { w with timeoutTimer := w.timeoutTimer.cancel }

def World.scheduleRetransmit (w : World) (delay : Nat) : World :=
  { w with retransmitTimer := w.retransmitTimer.schedule delay .retransmit }

def World.cancelRetransmit (w : World) : World := { w with retransmitTimer := w.retransmitTimer.cancel }

/- tsx_tp_state_callback for a transport that went down, and the tail of transport_callback: the error is
posted through the timeout timer unless the transaction is completed. -/
def postTransportError (w : World) (err : Nat) : World :=
  let w := { w with transportErr := err }
  if w.state.num < State.completed.num then (w.cancelTimeout).scheduleTimeout 0 .transportErr else w

def updateTransport (w : World) : Option Transport → World
  | none => { w with transport := none }
  | some tp =>
    let w := { w with transport := some tp }
    if tp.isShutdown then postTransportError w scTransportError else w

def shutdown (w : World) : World :=
  let w := updateTransport w none
  let w := { w with lastTx := none }
  let w := w.cancelTimeout.cancelRetransmit
  let w := { w with pendingResched := false, pendingSend := false }
  let w := if w.pendingTransport then { w with pendingDestroy := true, tsxUser := false } else w
  { w with terminating := true }

/- The reaction of the transaction user is a parameter; reaction below runs it. -/
def notify (tu : World → World) (w : World) : World := if w.tsxUser then tu w else w

def Source.isResponse : Source → Bool
  | .rxMsg (.response _ _) => true
  | _ => false

def detach (modData : List Nat) (tdata : TxData) : List Nat := modData.filter (· ≠ tdata.id)

def attach (modData : List Nat) (tdata : TxData) : List Nat := tdata.id :: detach modData tdata

/- The assignments tsx_set_state makes before it informs the transaction user. -/
def enter (w : World) (state : State) (source : Source) : World :=
  { w with
    state := state
    stateHandler := stateHandlers w.role state
    trail := ⟨w.state,state,source⟩ :: w.trail }

/- A transaction that terminates lets go of a send that is still under way. -/
def disassociate (w : World) : World :=
  if w.pendingTransport then
    match w.pendingTx with
    | some tdata =>
      { w with modData := detach w.modData tdata, pendingTx := none, pendingTransport := false }
    | none => { w with pendingTransport := false }
  else w

/- tsx_set_state: on_rx_response first when the source is a response, then on_tsx_state. -/
def setState (tu : World → World) (w : World) (state : State) (source : Source)
    (noNotify noSchedule : Bool) : World :=
  let w := enter w state source
  let w := if source.isResponse && !noNotify then notify tu w else w
  let w := if noNotify then w else notify tu w
  if state = .terminated then
    let w := (disassociate w).cancelTimeout
    if noSchedule then w else w.scheduleTimeout 0 .timeout
  else if state = .destroyed then shutdown w
  else w

/- The delay of tsx_resched_retransmission, in 32-bit arithmetic. -/
def reschedDelay (w : World) : Nat :=
  let msec := if w.role = .uac ∧ 100 ≤ w.statusCode then t2 else 2 ^ w.retransmitCount * t1 % 2 ^ 32
  if w.role = .uac then (if t2 < msec ∧ w.method ≠ .invite then t2 else msec)
  else if w.statusCode < 200 then retrans1xxDelay * 1000
  else if t2 < msec then t2 else msec

def reschedRetransmission (w : World) : World :=
  if reschedDelay w ≠ 0 then w.scheduleRetransmit (reschedDelay w) else w

section Sending

variable (tu : World → World) (o : Oracle)

/- The end of tsx_send_msg: with the server resolved before, the error is permanent; otherwise the message
goes to the endpoint. -/
def sendByEndpoint (endpoint : World → TxData → Nat × World) (w : World) (tdata : TxData)
    (status : Nat) : Nat × World :=
  if w.resolvedServer then
    let status := if status = 0 then pjEUnknown else status
    (status, setState tu { w with statusCode := scTransportError } .terminated .transportError false false)
  else endpoint w tdata

/- tsx_send_msg over what the endpoint does with a message. -/
def sendMsgWith (endpoint : World → TxData → Nat × World) (w : World) : Option TxData → Nat × World
  | none => (pjEInval, w)
  | some tdata =>
    if w.pendingTransport then (0, { w with pendingSend := true })
    else if o.busy w.clock then (0, w.tick)
    else
      let w := w.tick
      match w.transport with
      | none => sendByEndpoint tu endpoint w tdata 0
      | some _ =>
        let reply := o.transport w.clock
        let w := { w.tick with refs := w.refs + 1, pendingTransport := true }
        match reply with
        | .pending => (0, { w with inFlight := w.inFlight ++ [.transport tdata] })
        | .sent => (0, { w with pendingTransport := false, refs := w.refs - 1 })
        | .failed err =>
          let w := { w with pendingTransport := false, refs := w.refs - 1 }
          let w := { updateTransport w none with resAddrTransport := none }
          sendByEndpoint tu endpoint w tdata err.code

/- The send that send_msg_callback makes: the server is resolved by then, so the endpoint is not asked. -/
def resend : World → Option TxData → Nat × World := sendMsgWith tu o (fun w _ => (0, w))

def sameTransport (a b : Option Transport) : Bool := a.map Transport.id == b.map Transport.id

def takeTransport (w : World) (tp : Transport) : World :=
  let w := if sameTransport w.transport (some tp) then w
    else { updateTransport w (some tp) with isReliable := tp.reliable }
  { w with pendingTransport := false, resolvedServer := true }

def reschedPending (w : World) : World :=
  if w.pendingResched && !w.pendingTransport then
    let w := { w with pendingResched := false }
    if w.isReliable then w else reschedRetransmission w
  else w

/- The branches of send_msg_callback: the message went out; it failed for good; another server is left. -/
def callbackSent (w : World) (tp : Transport) : World :=
  let w := takeTransport w tp
  if w.pendingDestroy then setState tu w .destroyed .unknown false false
  else reschedPending (if w.pendingSend then (resend tu o { w with pendingSend := false } w.lastTx).2 else w)

def failureCode (err : Nat) : Nat :=
  if err = pjEResolve ∨ err = ednsNxdomain then scBadGateway else scTransportError

def callbackFailed (w : World) (err : Nat) : World :=
  let w := { w with transportErr := err, pendingTransport := false, resolvedServer := true,
                    statusCode := failureCode err }
  if w.state ≠ .terminated ∧ w.state ≠ .destroyed then
    setState tu w .terminated .transportError false false
  else if w.pendingDestroy then setState tu w .destroyed .transportError false false
  else w

def callbackRetry (w : World) (tdata : TxData) : World :=
  let w := { w with retransmitCount := 0 }
  let w := if w.timeoutTimer.id ≠ .inactive then w.cancelTimeout.scheduleTimeout timeoutVal .timeout else w
  { w with modData := attach w.modData tdata, pendingTx := some tdata, refs := w.refs + 1 }

/- send_msg_callback; cont says whether a next server is left and, in the result, whether to go on. -/
def sendMsgCallback (w : World) (tdata : TxData) (outcome : Outcome) (cont : Bool) : Bool × World :=
  if tdata.id ∉ w.modData then (false, { w with refs := w.refs - 1 })
  else
    let w := { w with refs := w.refs - 1, modData := detach w.modData tdata, pendingTx := none }
    match outcome with
    | .sent tp => (cont, callbackSent tu o w tp)
    | .failed f =>
      let w := if sameTransport f.curTransport w.transport then updateTransport w none else w
      if !cont || w.pendingDestroy then (cont, callbackFailed tu w f.err.code)
      else (cont, callbackRetry w tdata)

/- The attempts the endpoint makes within the call: stateless_send_transport_cb over the server addresses. -/
def deliver (w : World) (tdata : TxData) : List Failure → Final → World
  | f :: attempts, final =>
    let (cont, w) := sendMsgCallback tu o w tdata (.failed f) true
    if cont then deliver w tdata attempts final else w
  | [], .pending => { w with inFlight := w.inFlight ++ [.endpoint tdata] }
  | [], .done outcome => (sendMsgCallback tu o w tdata outcome false).2

def sendRequestStateless (w : World) (tdata : TxData) : Nat × World :=
  match o.endpoint w.clock with
  | .refused err => (err.code, w.tick)
  | .accepted attempts final => (0, deliver tu o w.tick tdata attempts final)

/- pjsip_endpt_send_response: with a transport in the response address its error is returned; else the name
is resolved, only the first address is tried and every failure goes to the callback. -/
def sendResponse (w : World) (tdata : TxData) : Nat × World :=
  match w.resAddrTransport with
  | some tp =>
    match o.transport w.clock with
    | .sent => (0, deliver tu o w.tick tdata [] (.done (.sent tp)))
    | .pending => (0, deliver tu o w.tick tdata [] .pending)
    | .failed err => (err.code, w.tick)
  | none =>
    match o.endpoint w.clock with
    | .refused err => (0, deliver tu o w.tick tdata [] (.done (.failed ⟨err,none⟩)))
    | .accepted _ final => (0, deliver tu o w.tick tdata [] final)

/- What tsx_send_msg does once it is left with the endpoint. A refused request gives its reference back; the
branch for responses does not. Neither clears the flag. -/
def endpointSend (w : World) (tdata : TxData) : Nat × World :=
  let w := { w with modData := attach w.modData tdata, pendingTx := some tdata, refs := w.refs + 1,
                    pendingTransport := true }
  let (status, w) := match tdata.msg with
    | .request _ =>
      let (status, w) := sendRequestStateless tu o w tdata
      (status, if status ≠ 0 then { w with refs := w.refs - 1 } else w)
    | .response _ _ => sendResponse tu o w tdata
  let w := if status ≠ 0 then { w with modData := detach w.modData tdata, pendingTx := none } else w
  (if status = 0 ∧ w.state = .terminated then w.transportErr else status, w)

def sendMsg : World → Option TxData → Nat × World := sendMsgWith tu o (endpointSend tu o)

def retransmit (w : World) (resched : Bool) : Nat × World :=
  if resched && w.retransmitTimer.running then (0, w)
  else match w.lastTx with
    | none => (pjEBug, w)
    | some tdata =>
      let w := { w with retransmitCount := w.retransmitCount + 1 }
      let w := if resched then
          (if w.pendingTransport then { w with pendingResched := true } else reschedRetransmission w)
        else w
      sendMsg tu o w (some tdata)

end Sending

end Pjproject.Tsx
