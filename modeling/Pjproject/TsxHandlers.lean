import Pjproject.TsxModel

/-! The state handlers of sip_transaction.c, the functions that call them, and runs of one transaction. The
pj_assert checks are compiled out; PJ_ASSERT_RETURN returns. -/
namespace Pjproject.Tsx

inductive Entry where
  | retransmit | timeout
  deriving DecidableEq

inductive Event where
  | txMsg (tdata : TxData)
  | rxMsg (msg : Msg)
  | timer (entry : Entry)
  deriving DecidableEq

/- Timers D and K of a client transaction. -/
def timerD (w : World) : Nat :=
  if w.isReliable then 0 else if w.method = .invite then td else t4

/- Timers H and J of a server transaction. -/
def timerH (w : World) : Nat :=
  if w.method = .invite then timeoutVal else if w.isReliable then 0 else timeoutVal

/- The retransmission timer is left for later while the transport is pending. -/
def startRetransmit (w : World) (delay : Nat) : World :=
  let w := { w with retransmitCount := 0 }
  if w.pendingTransport then { w with pendingResched := true } else w.scheduleRetransmit delay

section Handlers

variable (tu : World → World) (o : Oracle)

/- A server transaction takes any first event for the request; the assertion that it is one is compiled
out. -/
def onStateNull (w : World) (event : Event) : Nat × World :=
  if w.role = .uas then
    let source := match event with
      | .rxMsg msg => Source.rxMsg msg
      | _ => Source.rxMsg (.request w.method)
    (0, setState tu w .trying source false false)
  else match event with
    | .txMsg tdata =>
      let (status, w) := sendMsg tu o { w with lastTx := some tdata } (some tdata)
      if status ≠ 0 then (status, w)
      else
        let w := w.cancelTimeout.scheduleTimeout timeoutVal .timeout
        let w := if w.isReliable then w else startRetransmit w t1
        (0, setState tu w .calling .txMsg false false)
    | _ => (pjEBug, w)

/- The last lines of tsx_on_state_proceeding_uac for 3xx to 6xx. -/
def completeUac (w : World) (msg : Msg) (ack : Option TxData) : World :=
  let w := setState tu w .completed (.rxMsg msg) false false
  let w := match ack with
    | some tdata => { w with lastTx := some tdata }
    | none => w
  w.cancelTimeout.scheduleTimeout (timerD w) .timeout

def uacResponse (w : World) (msg : Msg) (code : Nat) : Nat × World :=
  let w := { w with statusCode := code }
  if inClass code 100 then (0, setState tu w .proceeding (.rxMsg msg) false false)
  else if inClass code 200 then
    let w := w.cancelTimeout
    if w.method = .invite then (0, setState tu w .terminated (.rxMsg msg) false false)
    else
      let w := (w.scheduleTimeout (timerD w) .timeout).cancelRetransmit
      (0, setState tu w .completed (.rxMsg msg) false false)
  else if 300 ≤ code ∧ code ≤ 699 then
    let w := w.cancelRetransmit.cancelTimeout
    if w.method = .invite then
      match o.ack w.clock with
      | .error err => (err.code, w.tick)
      | .ok id =>
        let ack : TxData := ⟨id,.request .ack⟩
        let (status, w) := sendMsg tu o w.tick (some ack)
        if status ≠ 0 then (status, w) else (0, completeUac tu w msg (some ack))
    else (0, completeUac tu w msg none)
  else (pjEBug, w)

/- The timeout falls through to its own branch: 408 is neither provisional nor a success. -/
def onStateProceedingUac (w : World) : Event → Nat × World
  | .txMsg _ => (pjEInvalidOp, w)
  | .rxMsg (.request _) => (notResponseMsg, w)
  | .rxMsg (.response code cseq) => uacResponse tu o w (.response code cseq) code
  | .timer .retransmit => retransmit tu o w true
  | .timer .timeout => (0, setState tu { w with statusCode := scTimeout } .terminated .timer false false)

def onStateCalling (w : World) : Event → Nat × World
  | .timer .retransmit => retransmit tu o w true
  | .timer .timeout =>
    let w := { w.cancelRetransmit with pendingResched := false, statusCode := scTimeout }
    (0, setState tu w .terminated .timer false false)
  | .rxMsg (.request _) => (notResponseMsg, w)
  | .rxMsg (.response code cseq) =>
    let w := w.cancelRetransmit
    let w := if 200 ≤ code then (if w.timeoutTimer.id ≠ .inactive then w.cancelTimeout else w)
      else if w.method = .invite then w.cancelTimeout
      else if w.isReliable then w else w.scheduleRetransmit t2
    let w := { w with pendingResched := false }
    (0, (onStateProceedingUac tu o w (.rxMsg (.response code cseq))).2)
  | .txMsg _ => (pjEBug, w)

/- The branches of tsx_on_state_proceeding_uas on the status code, once the response is sent. -/
def uasProvisional (w : World) (tdata : TxData) : World :=
  let w := { w with lastTx := some tdata }
  let w := setState tu w .proceeding .txMsg false false
  if w.method = .invite ∧ 100 < w.statusCode then
    startRetransmit w.cancelRetransmit (retrans1xxDelay * 1000)
  else w

def uasSuccess (w : World) (tdata : TxData) : World :=
  let w := w.cancelRetransmit
  if w.method = .invite ∧ w.handle200resp = false then setState tu w .terminated .txMsg false false
  else
    let w := if w.method = .invite then startRetransmit w t1 else w
    let w := { w with lastTx := some tdata }
    let w := w.cancelTimeout.scheduleTimeout (timerH w) .timeout
    setState tu w .completed .txMsg false false

def uasFailure (w : World) (tdata : TxData) (cseq : Method) : World :=
  let w := { w.cancelRetransmit with lastTx := some tdata }
  let w := w.cancelTimeout.scheduleTimeout (timerH w) .timeout
  let w := if !w.isReliable ∧ cseq = .invite then startRetransmit w t1 else w
  setState tu w .completed .txMsg false false

/- The branch is chosen by the status code stored in the transaction, not by the response. -/
def uasAnswered (w : World) (tdata : TxData) (cseq : Method) : World :=
  if inClass w.statusCode 100 then uasProvisional tu w tdata
  else if inClass w.statusCode 200 then uasSuccess tu w tdata
  else if 300 ≤ w.statusCode then uasFailure tu w tdata cseq
  else w

/- The saved response is dropped before another one is sent. -/
def dropLast (w : World) (tdata : TxData) : World :=
  match w.lastTx with
  | some old => if old.id ≠ tdata.id then { w with lastTx := none } else { w with lastTx := some tdata }
  | none => w

def onStateProceedingUas (w : World) : Event → Nat × World
  | .rxMsg _ =>
    match w.lastTx with
    | none => (pjEBug, w)
    | some tdata =>
      if w.pendingTransport then (0, { w with pendingSend := true }) else sendMsg tu o w (some tdata)
  | .txMsg tdata =>
    match tdata.msg with
    | .request _ => (notResponseMsg, w)
    | .response code cseq =>
      let w := dropLast { w with statusCode := code } tdata
      let (status, w) := sendMsg tu o w (some tdata)
      if status ≠ 0 then (status, w) else (0, uasAnswered tu w tdata cseq)
  | .timer .retransmit => retransmit tu o w true
  | .timer .timeout =>
    (pjEBug, setState tu { w with statusCode := scTimeout } .terminated .timer false false)

def onStateTrying (w : World) : Event → Nat × World
  | .txMsg tdata =>
    let (status, w) := onStateProceedingUas tu o w (.txMsg tdata)
    if status = 0 ∧ w.state = .trying then (status, setState tu w .proceeding .txMsg false false)
    else (status, w)
  | _ => (0, w)

def onStateCompletedUas (w : World) : Event → Nat × World
  | .rxMsg (.response _ _) => (notRequestMsg, w)
  | .rxMsg (.request method) =>
    if method ≠ .ack then retransmit tu o w false
    else if w.method ≠ .invite then (invalidMethod, w)
    else
      let w := { w.cancelRetransmit with pendingResched := false }
      let w := w.cancelTimeout.scheduleTimeout (if w.isReliable then 0 else t4) .timeout
      (0, setState tu w .confirmed (.rxMsg (.request method)) false false)
  | .timer .retransmit => retransmit tu o w true
  | .timer .timeout =>
    let w := if w.method = .invite then { w with statusCode := scTimeout } else w
    (0, setState tu w .terminated .timer false false)
  | .txMsg tdata => (if w.lastTx.map TxData.id = some tdata.id then 0 else pjEInvalidOp, w)

def onStateCompletedUac (w : World) : Event → Nat × World
  | .timer .retransmit => (0, w)
  | .timer .timeout => (0, setState tu w .terminated .timer false false)
  | .rxMsg (.response code _) =>
    if w.method = .invite ∧ 200 ≤ code then retransmit tu o w false else (0, w)
  | .rxMsg (.request _) => (0, w)
  | .txMsg _ => (pjEInvalidOp, w)

def onStateConfirmed (w : World) : Event → Nat × World
  | .rxMsg (.response _ _) => (notRequestMsg, w)
  | .rxMsg (.request _) => (0, w)
  | .timer .retransmit => (0, w)
  | .timer .timeout => (0, setState tu w .terminated .timer false false)
  | .txMsg _ => (pjEBug, w)

def onStateTerminated (w : World) : Event → Nat × World
  | .timer _ => (0, setState tu w .destroyed .timer false false)
  | _ => (pjEIgnored, w)

def callHandler (w : World) (event : Event) : Handler → Nat × World
  | .null => onStateNull tu o w event
  | .calling => onStateCalling tu o w event
  | .trying => onStateTrying tu o w event
  | .proceedingUas => onStateProceedingUas tu o w event
  | .proceedingUac => onStateProceedingUac tu o w event
  | .completedUas => onStateCompletedUas tu o w event
  | .completedUac => onStateCompletedUac tu o w event
  | .confirmed => onStateConfirmed tu w event
  | .terminated => onStateTerminated tu w event
  | .destroyed => (pjEIgnored, w)

/- The call through tsx->state_handler. -/
def dispatch (w : World) (event : Event) : Nat × World :=
  match w.stateHandler with
  | some handler => callHandler tu o w event handler
  | none => (pjEBug, { w with missing := true })

def pjsipTsxSendMsg (w : World) (tdata : Option TxData) : Nat × World :=
  match tdata.or w.lastTx with
  | none => (pjEInvalidOp, w)
  | some tdata => dispatch tu o w (.txMsg tdata)

def pjsipTsxRecvMsg (w : World) (msg : Msg) : World := (dispatch tu o w (.rxMsg msg)).2

def pjsipTsxTerminate (w : World) (code : Nat) : Nat × World :=
  if code < 200 then (pjEInval, w)
  else if w.state.num < State.terminated.num then
    (0, setState tu { w with statusCode := code } .terminated .user false false)
  else (0, w)

def pjsipTsxStopRetransmit (w : World) : Nat × World :=
  if w.role = .uac ∧ w.method = .invite then (0, w.cancelRetransmit) else (pjEInvalidOp, w)

def pjsipTsxSetTimeout (w : World) (millisec : Nat) : Nat × World :=
  if w.role = .uac ∧ w.method = .invite then
    if 200 ≤ w.statusCode ∧ w.timeoutTimer.id ≠ .inactive then (pjEExists, w)
    else (0, w.cancelTimeout.scheduleTimeout millisec .timeout)
  else (pjEInvalidOp, w)

/- Without a message and a last one there is nothing to send; the source takes a reference of NULL first. -/
def pjsipTsxRetransmitNoState (w : World) (tdata : Option TxData) : Nat × World := sendMsg tu o w (tdata.or w.lastTx)

def userOp (w : World) : UserOp → World
  | .sendMsg tdata => (pjsipTsxSendMsg tu o w tdata).2
  | .retransmitNoState tdata checked =>
    if checked = true ∧ State.terminated.num ≤ w.state.num then w else (pjsipTsxRetransmitNoState tu o w tdata).2
  | .terminate code => (pjsipTsxTerminate tu w code).2
  | .stopRetransmit => (pjsipTsxStopRetransmit w).2
  | .setTimeout millisec => (pjsipTsxSetTimeout w millisec).2
  | .handle200resp value => { w with handle200resp := value }

def World.entry (w : World) : Entry → TimerEntry
  | .retransmit => w.retransmitTimer
  | .timeout => w.timeoutTimer

def World.setEntry (w : World) : Entry → TimerEntry → World
  | .retransmit, t => { w with retransmitTimer := t }
  | .timeout, t => { w with timeoutTimer := t }

/- A posted transport error terminates the transaction and informs the user only afterwards. -/
def transportErrTimer (w : World) : World :=
  let w := updateTransport w none
  let w := if w.statusCode < 200 then { w with statusCode := scTransportError } else w
  let w := setState tu w .terminated .transportError true true
  (notify tu w).scheduleTimeout 0 .timeout

/- tsx_timer_callback; the heap has taken the entry out. -/
def timerCallback (w : World) (entry : Entry) : World :=
  let t := w.entry entry
  let w := w.setEntry entry { t with running := false }
  if State.destroyed.num ≤ w.state.num then w
  else
    let w := w.setEntry entry { t with id := .inactive, running := false }
    if t.id = .transportErr then
      if w.state.num < State.terminated.num then transportErrTimer tu w else w
    else (dispatch tu o w (.timer entry)).2

def transportCallback (w : World) (failed : Option Fault) : World :=
  let w := { w with pendingTransport := false }
  let w := match failed with
    | some err => postTransportError w err.code
    | none => w
  { w with refs := w.refs - 1 }

end Handlers

/- The user in a callback: a list of calls, whose own callbacks nest one level less. -/
def reaction (o : Oracle) : Nat → World → World
  | 0, w => w
  | depth + 1, w => (o.user w.clock).foldl (userOp (reaction o depth) o) w.tick

/- What can happen to a transaction: a call of the user, a message, a timer, the completion of a send (for
the endpoint's sends, moreServers says that a failed attempt has another server to try), a transport that
goes down. -/
inductive Input where
  | call (op : UserOp)
  | recv (msg : Msg)
  | expire (entry : Entry)
  | transportDone (index : Nat) (failed : Option Fault)
  | endpointDone (index : Nat) (outcome : Outcome) (moreServers : Bool)
  | transportDown (err : Nat)

/- No message is sent again once the transaction has terminated: a call of the user comes before, or looks first. -/
def UserOp.Timely (w : World) : UserOp → Prop
  | .retransmitNoState _ checked => checked = true ∨ w.state.num < State.terminated.num
  | _ => True

def TimelyUser (o : Oracle) : Prop := ∀ n, ∀ op ∈ o.user n, ∀ w, op.Timely w

def Timely (w : World) (o : Oracle) (input : Input) : Prop :=
  TimelyUser o ∧ ∀ op, input = .call op → op.Timely w

def Msg.isRequest : Msg → Bool
  | .request _ => true
  | .response _ _ => false

/- send_msg_callback for a send that was under way; it stays under way while there are servers to try. -/
def endpointDone (tu : World → World) (o : Oracle) (w : World) (index : Nat) (tdata : TxData)
    (outcome : Outcome) (moreServers : Bool) : World :=
  let cont := match outcome with
    | .sent _ => false
    | .failed _ => moreServers && tdata.msg.isRequest
  let r := sendMsgCallback tu o { w with inFlight := w.inFlight.eraseIdx index } tdata outcome cont
  if r.1 then { r.2 with inFlight := r.2.inFlight ++ [.endpoint tdata] } else r.2

def step (depth : Nat) (w : World) (o : Oracle) (input : Input) : World :=
  let w := { w with clock := 0 }
  let tu := reaction o depth
  match input with
  | .call op => userOp tu o w op
  | .recv msg => pjsipTsxRecvMsg tu o w msg
  | .expire entry => if (w.entry entry).running then timerCallback tu o w entry else w
  | .transportDone index failed =>
    match w.inFlight[index]? with
    | some (.transport _) => transportCallback { w with inFlight := w.inFlight.eraseIdx index } failed
    | _ => w
  | .endpointDone index outcome moreServers =>
    match w.inFlight[index]? with
    | some (.endpoint tdata) => endpointDone tu o w index tdata outcome moreServers
    | _ => w
  | .transportDown err => if w.transport.isSome then postTransportError w err else w

def run (depth : Nat) (w : World) (steps : List (Oracle × Input)) : World :=
  steps.foldl (fun w s => step depth w s.1 s.2) w

/- Every step of the run meets a condition on the state before it, what the surroundings answer and the
input. -/
def Meets (condition : World → Oracle → Input → Prop) (depth : Nat) : World → List (Oracle × Input) → Prop
  | _, [] => True
  | w, s :: steps => condition w s.1 s.2 ∧ Meets condition depth (step depth w s.1 s.2) steps

/- pjsip_tsx_create_uac2 and pjsip_tsx_create_uas2, up to registration: reliable is what the destination
says, tp the transport the response address decided for. -/
def createUac (tdata : TxData) (reliable user : Bool) : Except Nat World :=
  match tdata.msg with
  | .response _ _ => .error notRequestMsg
  | .request .ack => .error pjEInvalidOp
  | .request method =>
    .ok { role := .uac, method := method, lastTx := some tdata, isReliable := reliable, tsxUser := user }

def createUas (msg : Msg) (tp : Option Transport) (reliable user : Bool) : Except Nat World :=
  match msg with
  | .response _ _ => .error notRequestMsg
  | .request .ack => .error pjEInvalidOp
  | .request method =>
    let w : World := { role := .uas, method := method, resAddrTransport := tp, tsxUser := user }
    match tp with
    | some t => .ok { updateTransport w (some t) with isReliable := t.reliable }
    | none => .ok { w with isReliable := reliable }

/- The worlds a run starts from. -/
inductive Created : World → Prop where
  | uac {tdata : TxData} {reliable user : Bool} {w : World} (ok : createUac tdata reliable user = .ok w) :
      Created w
  | uas {msg : Msg} {tp : Option Transport} {reliable user : Bool} {w : World}
      (ok : createUas msg tp reliable user = .ok w) : Created w

end Pjproject.Tsx
