import Pjproject.TsxHandlers

/-! What tsx_set_state and tsx_send_msg can do, once for all: a transaction that has terminated does nothing
more than move its timers, and a send ends in one of eight ways. -/
namespace Pjproject.Tsx

/- A world that differs at most in its timers, its clock and handle_200resp. -/
def Idle (w w' : World) : Prop :=
  ∃ (clock : Nat) (retransmit timeout : TimerEntry) (handle : Bool),
    w' = { w with clock := clock, retransmitTimer := retransmit, timeoutTimer := timeout,
                  handle200resp := handle }

theorem Idle.refl (w : World) : Idle w w := ⟨_,_,_,_,rfl⟩

variable {a b c w w' v : World} {s : State} {tu : World → World} {tdata : TxData}

theorem Idle.trans (first : Idle a b) (second : Idle b c) : Idle a c := by
  obtain ⟨_,_,_,_,rfl⟩ := first
  obtain ⟨_,_,_,_,rfl⟩ := second
  exact ⟨_,_,_,_,rfl⟩

/- Terminated or destroyed, with the handler of that state. -/
def Dead (w : World) : Prop :=
  State.terminated.num ≤ w.state.num ∧ w.stateHandler = stateHandlers w.role w.state

theorem Dead.idle (dead : Dead w) (idle : Idle w w') : Dead w' := by
  obtain ⟨_,_,_,_,rfl⟩ := idle
  exact dead

/- Not at its end yet. -/
abbrev State.Live (s : State) : Prop := s.num < State.terminated.num

theorem numTerminated (h : State.terminated.num ≤ s.num) : s = .terminated ∨ s = .destroyed := by
  cases s <;> simp [State.num] at h ⊢

theorem terminatedDead (state : s = .terminated) : State.terminated.num ≤ s.num := by
  subst state
  exact Nat.le_refl _

theorem liveNotTerminated (live : s.Live) : s ≠ .terminated := by
  rintro rfl
  exact Nat.lt_irrefl _ live

theorem liveNotDestroyed (live : s.Live) : s ≠ .destroyed := by
  rintro rfl
  exact absurd live (by decide)

/- The state, and for most handlers the role, that a handler is entered in the tables for. -/
def Handler.state : Handler → State
  | .null => .null
  | .calling => .calling
  | .trying => .trying
  | .proceedingUas => .proceeding
  | .proceedingUac => .proceeding
  | .completedUas => .completed
  | .completedUac => .completed
  | .confirmed => .confirmed
  | .terminated => .terminated
  | .destroyed => .destroyed

def Handler.role : Handler → Option Role
  | .calling => some .uac
  | .proceedingUac => some .uac
  | .completedUac => some .uac
  | .trying => some .uas
  | .proceedingUas => some .uas
  | .completedUas => some .uas
  | _ => none

theorem handlerState {role : Role} {h : Handler} (paired : some h = stateHandlers role s) : s = h.state := by
  cases role <;> cases s <;> simp only [stateHandlers,Option.some.injEq,reduceCtorEq] at paired <;>
    subst paired <;> rfl

theorem handlerRole {role r : Role} {h : Handler} (paired : some h = stateHandlers role s)
    (named : h.role = some r) : role = r := by
  cases role <;> cases s <;> simp only [stateHandlers,Option.some.injEq,reduceCtorEq] at paired <;>
    subst paired <;> cases r <;> first | rfl | exact absurd named (by decide)

theorem dispatchNone (tu : World → World) (o : Oracle) (event : Event)
    (missing : w.stateHandler = none) : dispatch tu o w event = (pjEBug, { w with missing := true }) := by
  unfold dispatch
  split
  · rename_i found
    rw [missing] at found
    cases found
  · rfl

theorem dispatchSome (tu : World → World) (o : Oracle) (event : Event) {handler : Handler}
    (found : w.stateHandler = some handler) : dispatch tu o w event = callHandler tu o w event handler := by
  unfold dispatch
  rw [found]

/- The reaction of the user leaves a dead transaction alone. -/
def Quiet (tu : World → World) : Prop := ∀ w, Dead w → Idle w (tu w)

theorem deadDispatch (tu : World → World) (o : Oracle) (w : World) (tdata : TxData) (dead : Dead w) :
    dispatch tu o w (.txMsg tdata) = (pjEIgnored, w) := by
  unfold dispatch
  rw [dead.2]
  rcases numTerminated dead.1 with state | state <;>
    simp [state,stateHandlers,callHandler,onStateTerminated]

theorem deadSendMsg (tu : World → World) (o : Oracle) (w : World) (tdata : Option TxData) (dead : Dead w) :
    (pjsipTsxSendMsg tu o w tdata).2 = w := by
  unfold pjsipTsxSendMsg
  split
  · rfl
  · rw [deadDispatch tu o w _ dead]

theorem deadTerminate (tu : World → World) (w : World) (code : Nat) (dead : Dead w) :
    (pjsipTsxTerminate tu w code).2 = w := by
  unfold pjsipTsxTerminate
  rw [if_neg (Nat.not_lt.mpr dead.1)]
  split <;> rfl

theorem stopRetransmitIdle (w : World) : Idle w (pjsipTsxStopRetransmit w).2 := by
  unfold pjsipTsxStopRetransmit
  split
  · exact ⟨_,_,_,_,rfl⟩
  · exact Idle.refl w

theorem setTimeoutIdle (w : World) (millisec : Nat) : Idle w (pjsipTsxSetTimeout w millisec).2 := by
  unfold pjsipTsxSetTimeout
  split
  · split
    · exact Idle.refl w
    · exact ⟨_,_,_,_,rfl⟩
  · exact Idle.refl w

theorem resendTimely (tu : World → World) (o : Oracle) {given : Option TxData} {checked : Bool}
    (timely : (UserOp.retransmitNoState given checked).Timely w) :
    userOp tu o w (.retransmitNoState given checked) = w ∨ (w.state.Live ∧
      userOp tu o w (.retransmitNoState given checked) = (sendMsg tu o w (given.or w.lastTx)).2) := by
  rcases Nat.lt_or_ge w.state.num State.terminated.num with live | dead
  · exact .inr ⟨live,if_neg (fun both => absurd both.2 (Nat.not_le.mpr live))⟩
  · exact .inl (if_pos ⟨timely.resolve_right (Nat.not_lt.mpr dead),dead⟩)

theorem userOpQuiet (tu : World → World) (o : Oracle) (op : UserOp) (w : World) (dead : Dead w)
    (timely : op.Timely w) : Idle w (userOp tu o w op) := by
  cases op with
  | retransmitNoState =>
    rcases resendTimely tu o timely with same | ⟨live,-⟩
    · rw [same]
      exact Idle.refl w
    · exact absurd dead.1 (Nat.not_le.mpr live)
  | sendMsg tdata =>
    rw [userOp,deadSendMsg tu o w tdata dead]
    exact Idle.refl w
  | terminate code =>
    rw [userOp,deadTerminate tu w code dead]
    exact Idle.refl w
  | stopRetransmit => exact stopRetransmitIdle w
  | setTimeout millisec => exact setTimeoutIdle w millisec
  | handle200resp value => exact ⟨_,_,_,_,rfl⟩

theorem userOpsQuiet (tu : World → World) (o : Oracle) (ops : List UserOp) (w : World) (dead : Dead w)
    (timely : ∀ op ∈ ops, ∀ w, op.Timely w) : Idle w (ops.foldl (userOp tu o) w) := by
  induction ops generalizing w with
  | nil => exact Idle.refl w
  | cons op ops ih =>
    have first := userOpQuiet tu o op w dead (timely op List.mem_cons_self w)
    exact first.trans (ih _ (dead.idle first) (fun op' inside => timely op' (List.mem_cons_of_mem _ inside)))

variable {o : Oracle}

theorem reactionQuiet (timely : TimelyUser o) (depth : Nat) : Quiet (reaction o depth) := by
  intro w dead
  cases depth with
  | zero => exact Idle.refl w
  | succ depth =>
    have ticked : Idle w w.tick := ⟨_,_,_,_,rfl⟩
    exact ticked.trans (userOpsQuiet (reaction o depth) o _ _ (dead.idle ticked) (timely w.clock))

variable (o) (modData : List Nat)

theorem notifyQuiet (quiet : Quiet tu) (w : World) (dead : Dead w) : Idle w (notify tu w) := by
  unfold notify
  split
  · exact quiet w dead
  · exact Idle.refl w

theorem enterDead (w : World) (s : State) (source : Source) (h : State.terminated.num ≤ s.num) :
    Dead (enter w s source) := ⟨h,rfl⟩

/- The two callbacks of tsx_set_state. -/
def informed (tu : World → World) (w : World) (source : Source) (noNotify : Bool) : World :=
  let w := if source.isResponse && !noNotify then notify tu w else w
  if noNotify then w else notify tu w

theorem informedQuiet (quiet : Quiet tu) (w : World) (source : Source)
    (noNotify : Bool) (dead : Dead w) : Idle w (informed tu w source noNotify) := by
  have first : Idle w (if source.isResponse && !noNotify then notify tu w else w) := by
    split
    · exact notifyQuiet quiet w dead
    · exact Idle.refl w
  cases noNotify with
  | true => exact first
  | false => exact first.trans (notifyQuiet quiet _ (dead.idle first))

theorem disassociateOff (off : w.pendingTransport = false) : disassociate w = w := by
  unfold disassociate
  rw [off]
  rfl

theorem disassociateOn (on : w.pendingTransport = true) :
    disassociate w = { w with
      modData := (match w.pendingTx with | some tdata => detach w.modData tdata | none => w.modData)
      pendingTx := none
      pendingTransport := false } := by
  unfold disassociate
  rw [if_pos on]
  cases pending : w.pendingTx with
  | some => rfl
  | none => simp only [← pending]

theorem disassociateIdle (idle : Idle w w') : Idle (disassociate w) (disassociate w') := by
  obtain ⟨_,_,_,_,rfl⟩ := idle
  by_cases flag : w.pendingTransport = true
  · rw [disassociateOn flag,disassociateOn]
    · exact ⟨_,_,_,_,rfl⟩
    · exact flag
  · have off : w.pendingTransport = false := by simpa using flag
    rw [disassociateOff off,disassociateOff]
    · exact ⟨_,_,_,_,rfl⟩
    · exact off

theorem cancelledStarts (t : TimerEntry) (delay : Nat) (id : TimerId) :
    (t.cancel.schedule delay id).running = true := by
  unfold TimerEntry.cancel TimerEntry.schedule
  cases running : t.running <;> simp [running]

theorem setStateTerminated (quiet : Quiet tu) (w : World) (source : Source) (noNotify noSchedule : Bool) :
    Idle (disassociate (enter w .terminated source)) (setState tu w .terminated source noNotify noSchedule) := by
  have told := informedQuiet quiet (enter w .terminated source) source noNotify
    (enterDead w _ source (Nat.le_refl _))
  have gone := disassociateIdle told
  have cancelled : Idle (disassociate (enter w .terminated source))
      (disassociate (informed tu (enter w .terminated source) source noNotify)).cancelTimeout :=
    gone.trans ⟨_,_,_,_,rfl⟩
  cases noSchedule with
  | true => exact cancelled
  | false => exact cancelled.trans ⟨_,_,_,_,rfl⟩

structure Ended (w : World) (source : Source) (w' : World) : Prop where
  state : w'.state = .terminated
  stateHandler : w'.stateHandler = some .terminated
  trail : w'.trail = ⟨w.state,.terminated,source⟩ :: w.trail
  role : w'.role = w.role
  method : w'.method = w.method
  missing : w'.missing = w.missing
  statusCode : w'.statusCode = w.statusCode
  lastTx : w'.lastTx = w.lastTx
  transportErr : w'.transportErr = w.transportErr
  transport : w'.transport = w.transport
  resAddrTransport : w'.resAddrTransport = w.resAddrTransport
  resolvedServer : w'.resolvedServer = w.resolvedServer
  pendingTransport : w'.pendingTransport = false

theorem setStateEnded (quiet : Quiet tu) (w : World) (source : Source)
    (noNotify noSchedule : Bool) : Ended w source (setState tu w .terminated source noNotify noSchedule) := by
  obtain ⟨_,_,_,_,result⟩ := setStateTerminated quiet w source noNotify noSchedule
  rw [result]
  have handler : stateHandlers w.role .terminated = some .terminated := by cases w.role <;> rfl
  by_cases on : w.pendingTransport = true
  · rw [disassociateOn (w := enter w .terminated source) on]
    exact ⟨rfl,handler,rfl,rfl,rfl,rfl,rfl,rfl,rfl,rfl,rfl,rfl,rfl⟩
  · have off : w.pendingTransport = false := by simpa using on
    rw [disassociateOff (w := enter w .terminated source) off]
    exact ⟨rfl,handler,rfl,rfl,rfl,rfl,rfl,rfl,rfl,rfl,rfl,rfl,off⟩

theorem Ended.dead {source : Source} (ended : Ended w source w') :
    State.terminated.num ≤ w'.state.num := terminatedDead ended.state

theorem setStateDestroyed (quiet : Quiet tu) (w : World) (source : Source) :
    ∃ w', Idle (enter w .destroyed source) w' ∧ setState tu w .destroyed source false false = shutdown w' :=
  ⟨_,informedQuiet quiet _ source false (enterDead w _ source (by decide)),rfl⟩

structure Shut (w : World) (source : Source) (w' : World) : Prop where
  state : w'.state = .destroyed
  stateHandler : w'.stateHandler = some .destroyed
  trail : w'.trail = ⟨w.state,.destroyed,source⟩ :: w.trail
  role : w'.role = w.role
  method : w'.method = w.method
  missing : w'.missing = w.missing
  statusCode : w'.statusCode = w.statusCode
  lastTx : w'.lastTx = none
  pendingSend : w'.pendingSend = false

theorem setStateShut (quiet : Quiet tu) (w : World) (source : Source) :
    Shut w source (setState tu w .destroyed source false false) := by
  obtain ⟨w',idle,result⟩ := setStateDestroyed quiet w source
  have handler : stateHandlers w.role .destroyed = some .destroyed := by cases w.role <;> rfl
  rw [result]
  obtain ⟨_,_,_,_,rfl⟩ := idle
  by_cases on : w.pendingTransport = true
  · simp only [shutdown,updateTransport,enter,World.cancelTimeout,World.cancelRetransmit,on,if_true]
    exact ⟨rfl,handler,rfl,rfl,rfl,rfl,rfl,rfl,rfl⟩
  · simp only [shutdown,updateTransport,enter,World.cancelTimeout,World.cancelRetransmit,on]
    exact ⟨rfl,handler,rfl,rfl,rfl,rfl,rfl,rfl,rfl⟩

theorem setStateLive (tu : World → World) (w : World) (s : State) (source : Source)
    (live : s.Live) :
    setState tu w s source false false = informed tu (enter w s source) source false := by
  show (if s = .terminated then _ else if s = .destroyed then _ else _) = _
  rw [if_neg (liveNotTerminated live),if_neg (liveNotDestroyed live)]
  rfl

theorem detachAttach (tdata : TxData) : detach (attach modData tdata) tdata = detach modData tdata := by
  simp [attach,detach]

theorem attachDetach (tdata : TxData) : attach (detach modData tdata) tdata = attach modData tdata := by
  simp [attach,detach]

/- Short of a transport: the transaction has none, or the one it had failed and is out of the response
address too. -/
def Unrouted (w v : World) : Prop :=
  ∃ (clock : Nat) (addr : Option Transport),
    v = { w with clock := clock, transport := none, resAddrTransport := addr } ∧
      (addr = none ∨ (addr = w.resAddrTransport ∧ w.transport = none))

/- The transaction while the endpoint works on its message. -/
def engaged (v : World) (tdata : TxData) : World :=
  { v with modData := attach v.modData tdata, pendingTx := some tdata, refs := v.refs + 1,
           pendingTransport := true }

/- Attempts that fail with a server left only touch the retransmission count and the timeout timer. -/
def Retried (w w' : World) : Prop :=
  ∃ (count : Nat) (timeout : TimerEntry),
    w' = { w with retransmitCount := count, timeoutTimer := timeout } ∧
      (w.timeoutTimer.running = true → timeout.running = true)

theorem Retried.refl (w : World) : Retried w w := ⟨_,_,rfl,id⟩

theorem Retried.trans (first : Retried a b) (second : Retried b c) : Retried a c := by
  obtain ⟨_,_,rfl,keep⟩ := first
  obtain ⟨_,_,rfl,keep'⟩ := second
  exact ⟨_,_,rfl,fun h => keep' (keep h)⟩

/- The message is with the endpoint and the transaction has no transport of its own. -/
structure Engaged (w : World) (tdata : TxData) : Prop where
  modData : ∃ m, w.modData = attach m tdata
  pendingTx : w.pendingTx = some tdata
  transport : w.transport = none
  destroy : w.pendingDestroy = false

theorem Engaged.retried (engaged : Engaged w tdata) (retried : Retried w w') : Engaged w' tdata := by
  obtain ⟨_,_,rfl,-⟩ := retried
  exact ⟨engaged.modData,engaged.pendingTx,engaged.transport,engaged.destroy⟩

theorem attached (tdata : TxData) : ¬ tdata.id ∉ attach modData tdata := by
  simp [attach]

theorem releasedTransport (none : w.transport = none) (cur : Option Transport) :
    (if sameTransport cur w.transport then updateTransport w .none else w) = w := by
  split
  · show { w with transport := .none } = w
    rw [← none]
  · rfl

theorem callbackRetryTimer (w : World) (tdata : TxData) :
    ∃ timeout : TimerEntry, (w.timeoutTimer.running = true → timeout.running = true) ∧
      callbackRetry w tdata = { w with
        retransmitCount := 0, timeoutTimer := timeout, modData := attach w.modData tdata
        pendingTx := some tdata, refs := w.refs + 1 } := by
  by_cases active : w.timeoutTimer.id ≠ .inactive
  · refine ⟨w.timeoutTimer.cancel.schedule timeoutVal .timeout,fun _ => cancelledStarts _ _ _,?_⟩
    simp [callbackRetry,active,World.cancelTimeout,World.scheduleTimeout]
  · refine ⟨w.timeoutTimer,id,?_⟩
    simp only [callbackRetry,active,if_false]

theorem retryStep (tu : World → World) (o : Oracle) (engaged : Engaged w tdata) (f : Failure) :
    ∃ w', sendMsgCallback tu o w tdata (.failed f) true = (true, w') ∧ Retried w w' := by
  obtain ⟨⟨m,attachedTo⟩,pendingTx,transport,destroy⟩ := engaged
  have inside : ¬ tdata.id ∉ w.modData := attachedTo ▸ attached m tdata
  let u : World := { w with refs := w.refs - 1, modData := detach w.modData tdata, pendingTx := none }
  have unchanged : (if sameTransport f.curTransport u.transport then updateTransport u none else u) = u :=
    @releasedTransport u transport f.curTransport
  refine ⟨callbackRetry u tdata,?_,?_⟩
  · unfold sendMsgCallback
    rw [if_neg inside]
    show (if !true || (ite _ _ _ : World).pendingDestroy then _ else _) = _
    rw [unchanged]
    show (if !true || w.pendingDestroy then _ else _) = _
    rw [destroy]
    rfl
  · have same : attach (detach w.modData tdata) tdata = w.modData := by
      rw [attachDetach,attachedTo]
      simp [attach,detach]
    have back : w.refs - 1 + 1 = w.refs := by omega
    obtain ⟨timeout,keep,result⟩ := callbackRetryTimer u tdata
    refine ⟨0,timeout,?_,keep⟩
    rw [result]
    show { w with retransmitCount := 0, timeoutTimer := timeout, refs := w.refs - 1 + 1,
                  pendingTx := some tdata, modData := attach (detach w.modData tdata) tdata } = _
    rw [same,back,← pendingTx]

theorem deliverRetries (tu : World → World) (o : Oracle) (tdata : TxData) (attempts : List Failure)
    (final : Final) (w : World) (engaged : Engaged w tdata) :
    ∃ w', Retried w w' ∧ deliver tu o w tdata attempts final = deliver tu o w' tdata [] final := by
  induction attempts generalizing w with
  | nil => exact ⟨w,Retried.refl w,rfl⟩
  | cons f attempts ih =>
    obtain ⟨w',step,retried⟩ := retryStep tu o engaged f
    obtain ⟨w'',more,rest⟩ := ih w' (engaged.retried retried)
    refine ⟨w'',retried.trans more,?_⟩
    rw [deliver,step]
    exact rest

/- The transaction when the endpoint calls back for the last time. -/
def settled (v : World) (tdata : TxData) (count : Nat) (timeout : TimerEntry) : World :=
  { v with modData := detach v.modData tdata, pendingTx := none, pendingTransport := true,
           retransmitCount := count, timeoutTimer := timeout }

theorem lastCallback (tu : World → World) (o : Oracle) (w : World) (tdata : TxData)
    (inside : ¬ tdata.id ∉ w.modData) (transport : w.transport = none) (outcome : Outcome) :
    (sendMsgCallback tu o w tdata outcome false).2 =
      match outcome with
      | .sent tp => callbackSent tu o
          { w with refs := w.refs - 1, modData := detach w.modData tdata, pendingTx := none } tp
      | .failed f => callbackFailed tu
          { w with refs := w.refs - 1, modData := detach w.modData tdata, pendingTx := none } f.err.code := by
  let u : World := { w with refs := w.refs - 1, modData := detach w.modData tdata, pendingTx := none }
  unfold sendMsgCallback
  rw [if_neg inside]
  cases outcome with
  | sent => rfl
  | failed f =>
    have unchanged := @releasedTransport u transport f.curTransport
    exact congrArg (callbackFailed tu · f.err.code) unchanged

theorem engagedCallback (tu : World → World) (o : Oracle) (tdata : TxData)
    (transport : v.transport = none) (retried : Retried (engaged v tdata) w) (outcome : Outcome) :
    ∃ count timeout, (v.timeoutTimer.running = true → timeout.running = true) ∧
      (sendMsgCallback tu o w tdata outcome false).2 =
        match outcome with
        | .sent tp => callbackSent tu o (settled v tdata count timeout) tp
        | .failed f => callbackFailed tu (settled v tdata count timeout) f.err.code := by
  obtain ⟨count,timeout,rfl,keeps⟩ := retried
  have back : v.refs + 1 - 1 = v.refs := by omega
  refine ⟨count,timeout,keeps,?_⟩
  refine (lastCallback tu o { engaged v tdata with retransmitCount := count, timeoutTimer := timeout } tdata
    (attached v.modData tdata) transport outcome).trans ?_
  have same : ({ engaged v tdata with
      retransmitCount := count, timeoutTimer := timeout, refs := v.refs + 1 - 1
      modData := detach (attach v.modData tdata) tdata, pendingTx := none } : World) =
      settled v tdata count timeout := by
    rw [back,detachAttach]
    rfl
  cases outcome with
  | sent tp => exact congrArg (callbackSent tu o · tp) same
  | failed f => exact congrArg (callbackFailed tu · f.err.code) same

/- The end of a send the endpoint has accepted. -/
def Completes (o : Oracle) (v : World) : Outcome → Prop
  | .sent tp => (∃ n attempts, o.endpoint n = .accepted attempts (.done (.sent tp))) ∨
      v.resAddrTransport = some tp
  | .failed _ => True

/- The ways a send can end: put off behind another one; done or skipped; left with the transport; given up
because the server was resolved before; refused by the endpoint; left with the endpoint; answered by the
endpoint at once. -/
inductive Sent (tu : World → World) (o : Oracle) (w : World) (tdata : TxData) : Nat × World → Prop where
  | deferred (on : w.pendingTransport = true) : Sent tu o w tdata (0, { w with pendingSend := true })
  | quiet (off : w.pendingTransport = false) (clock : Nat) : Sent tu o w tdata (0, { w with clock := clock })
  | pending (off : w.pendingTransport = false) (clock : Nat) :
      Sent tu o w tdata (0, { w with clock := clock, refs := w.refs + 1, pendingTransport := true,
                                     inFlight := w.inFlight ++ [.transport tdata] })
  | retired (off : w.pendingTransport = false) {v : World} (unrouted : Unrouted w v)
      (resolved : w.resolvedServer = true) {status : Nat} (error : status ≠ 0) :
      Sent tu o w tdata (status,
        setState tu { v with statusCode := scTransportError } .terminated .transportError false false)
  | refused (off : w.pendingTransport = false) (fresh : w.resolvedServer = false)
      {v : World} (unrouted : Unrouted w v) {err : Fault} {n : Nat}
      (reply : o.endpoint n = .refused err) (request : tdata.msg.isRequest = true) :
      Sent tu o w tdata (err.code, { v with modData := detach v.modData tdata, pendingTx := none,
                                            pendingTransport := true })
  | refusedResponse (off : w.pendingTransport = false) (fresh : w.resolvedServer = false)
      {v : World} (unrouted : Unrouted w v) (err : Fault)
      {tp : Transport} (addr : v.resAddrTransport = some tp) :
      Sent tu o w tdata (err.code, { v with modData := detach v.modData tdata, pendingTx := none,
                                            refs := v.refs + 1, pendingTransport := true })
  | waiting (off : w.pendingTransport = false) (fresh : w.resolvedServer = false)
      {v v' : World} (unrouted : Unrouted w v)
      (retried : Retried (engaged v tdata) v') :
      Sent tu o w tdata (if w.state = .terminated then w.transportErr else 0,
        { v' with inFlight := v'.inFlight ++ [.endpoint tdata] })
  | answered (off : w.pendingTransport = false) (fresh : w.resolvedServer = false)
      {v : World} (unrouted : Unrouted w v) (count : Nat)
      (timeout : TimerEntry) (keeps : w.timeoutTimer.running = true → timeout.running = true)
      {tp : Transport} (reply : Completes o v (.sent tp)) {w' : World}
      (result : w' = callbackSent tu o (settled v tdata count timeout) tp) :
      Sent tu o w tdata (if w'.state = .terminated then w'.transportErr else 0, w')
  | failed (off : w.pendingTransport = false) (fresh : w.resolvedServer = false)
      {v : World} (unrouted : Unrouted w v) (count : Nat)
      (timeout : TimerEntry) (err : Fault) {w' : World}
      (result : w' = callbackFailed tu (settled v tdata count timeout) err.code) :
      Sent tu o w tdata (if w'.state = .terminated then w'.transportErr else 0, w')

theorem engagedStart (v : World) (tdata : TxData) (transport : v.transport = none)
    (destroy : v.pendingDestroy = false) (clock : Nat) : Engaged { engaged v tdata with clock := clock } tdata :=
  ⟨⟨_,rfl⟩,rfl,transport,destroy⟩

theorem Unrouted.clock (unrouted : Unrouted w v) (clock : Nat) : Unrouted w { v with clock := clock } := by
  obtain ⟨_,addr,rfl,from_⟩ := unrouted
  exact ⟨clock,addr,rfl,from_⟩

theorem deliverSent (tu : World → World) (o : Oracle) (tdata : TxData)
    (off : w.pendingTransport = false) (fresh : w.resolvedServer = false)
    (destroy : w.pendingDestroy = false) (unrouted : Unrouted w v) (attempts : List Failure) (final : Final) (u : World)
    (result : u = deliver tu o (engaged v tdata) tdata attempts final)
    (reply : ∀ outcome, final = .done outcome → Completes o v outcome) :
    Sent tu o w tdata (if u.state = .terminated then u.transportErr else 0, u) := by
  have facts : v.transport = none ∧ v.pendingDestroy = false ∧ v.timeoutTimer = w.timeoutTimer ∧
      v.state = w.state ∧ v.transportErr = w.transportErr := by
    obtain ⟨_,_,rfl,-⟩ := unrouted
    exact ⟨rfl,destroy,rfl,rfl,rfl⟩
  obtain ⟨transport,destroy',timer,state,err⟩ := facts
  obtain ⟨w',retried,rest⟩ := deliverRetries tu o tdata attempts final (engaged v tdata)
    (engagedStart v tdata transport destroy' v.clock)
  rw [result,rest]
  cases final with
  | pending =>
    have same : w'.state = w.state ∧ w'.transportErr = w.transportErr := by
      obtain ⟨_,_,rfl,-⟩ := retried
      exact ⟨state,err⟩
    have waiting := @Sent.waiting tu o w tdata off fresh v w' unrouted retried
    rw [← same.1,← same.2] at waiting
    exact waiting
  | done outcome =>
    obtain ⟨count,timeout,keeps,ends⟩ := engagedCallback tu o tdata transport retried outcome
    rw [timer] at keeps
    have done := reply outcome rfl
    cases outcome with
    | sent => exact Sent.answered off fresh unrouted count timeout keeps done ends
    | failed f => exact Sent.failed off fresh unrouted count timeout f.err ends

theorem endpointSendSent (tu : World → World) (o : Oracle) (tdata : TxData)
    (off : w.pendingTransport = false) (fresh : w.resolvedServer = false)
    (destroy : w.pendingDestroy = false) (unrouted : Unrouted w v) :
    Sent tu o w tdata (endpointSend tu o v tdata) := by
  have next := unrouted.clock (v.clock + 1)
  have back : v.refs + 1 - 1 = v.refs := by omega
  unfold endpointSend
  cases msg : tdata.msg with
  | request =>
    cases reply : o.endpoint v.clock with
    | refused err =>
      have refused := @Sent.refused tu o w tdata off fresh _ next err v.clock reply (by rw [msg]; rfl)
      simpa [sendRequestStateless,reply,err.isError,World.tick,back,detachAttach] using refused
    | accepted attempts final =>
      have sent := deliverSent tu o tdata off fresh destroy next attempts final _ rfl
        (fun outcome done => by
          subst done
          cases outcome with
          | sent => exact .inl ⟨_,_,reply⟩
          | failed => trivial)
      simp only [sendRequestStateless,reply,ne_eq,not_true_eq_false,if_false,true_and]
      exact sent
  | response =>
    cases addr : v.resAddrTransport with
    | some tp =>
      cases reply : o.transport v.clock with
      | sent =>
        have sent := deliverSent tu o tdata off fresh destroy next [] (.done (.sent tp)) _ rfl
          (fun outcome done => by
            cases done
            exact .inr addr)
        simpa [sendResponse,addr,reply,World.tick,engaged] using sent
      | pending =>
        have sent := deliverSent tu o tdata off fresh destroy next [] .pending _ rfl (fun _ done => by cases done)
        simpa [sendResponse,addr,reply,World.tick,engaged] using sent
      | failed err =>
        have refused := @Sent.refusedResponse tu o w tdata off fresh _ next err tp addr
        simpa [sendResponse,addr,reply,err.isError,World.tick,detachAttach] using refused
    | none =>
      cases reply : o.endpoint v.clock with
      | refused err =>
        have sent := deliverSent tu o tdata off fresh destroy next [] (.done (.failed ⟨err,none⟩)) _ rfl
          (fun outcome done => by
            cases done
            trivial)
        simpa [sendResponse,addr,reply,World.tick,engaged] using sent
      | accepted attempts final =>
        have sent := deliverSent tu o tdata off fresh destroy next [] final _ rfl
          (fun outcome done => by
            subst done
            cases outcome with
            | sent => exact .inl ⟨_,_,reply⟩
            | failed => trivial)
        simpa [sendResponse,addr,reply,World.tick,engaged] using sent

theorem sendByEndpointSent (tu : World → World) (o : Oracle) (tdata : TxData) (status : Nat)
    (off : w.pendingTransport = false) (destroy : w.pendingDestroy = false) (unrouted : Unrouted w v) :
    Sent tu o w tdata (sendByEndpoint tu (endpointSend tu o) v tdata status) := by
  have same : v.resolvedServer = w.resolvedServer := by
    obtain ⟨_,_,rfl,-⟩ := unrouted
    rfl
  unfold sendByEndpoint
  by_cases resolved : v.resolvedServer = true
  · rw [if_pos resolved]
    refine Sent.retired off unrouted (same ▸ resolved) ?_
    split
    · decide
    · assumption
  · rw [if_neg resolved]
    have fresh : w.resolvedServer = false := by simpa [same] using resolved
    exact endpointSendSent tu o tdata off fresh destroy unrouted

theorem sendMsgSent (tu : World → World) (o : Oracle) (w : World) (tdata : TxData)
    (destroy : w.pendingDestroy = false) : Sent tu o w tdata (sendMsg tu o w (some tdata)) := by
  simp only [sendMsg,sendMsgWith]
  by_cases on : w.pendingTransport = true
  · rw [if_pos on]
    exact Sent.deferred on
  · have off : w.pendingTransport = false := by simpa using on
    rw [if_neg on]
    split
    · exact Sent.quiet off _
    · have back : w.refs + 1 - 1 = w.refs := by omega
      cases tp : w.transport with
      | none =>
        have unrouted : Unrouted w w.tick := ⟨w.clock + 1,w.resAddrTransport,by
          rw [← tp]
          rfl,.inr ⟨rfl,tp⟩⟩
        have sent := sendByEndpointSent tu o tdata 0 off destroy unrouted
        simpa [World.tick,tp] using sent
      | some =>
        cases reply : o.transport w.tick.clock with
        | pending =>
          have pending := @Sent.pending tu o w tdata off (w.clock + 1 + 1)
          simpa [World.tick,tp,reply] using pending
        | sent =>
          have quiet := @Sent.quiet tu o w tdata off (w.clock + 1 + 1)
          simpa [World.tick,tp,reply,back,off] using quiet
        | failed err =>
          have unrouted : Unrouted w { w with clock := w.clock + 1 + 1, transport := none, resAddrTransport := none } :=
            ⟨_,_,rfl,.inl rfl⟩
          have sent := sendByEndpointSent tu o tdata err.code off destroy unrouted
          simpa [World.tick,tp,reply,back,off,updateTransport] using sent

theorem sendByEndpointResolved (tu : World → World) (f g : World → TxData → Nat × World) (w : World)
    (tdata : TxData) (status : Nat) (resolved : w.resolvedServer = true) :
    sendByEndpoint tu f w tdata status = sendByEndpoint tu g w tdata status := by
  unfold sendByEndpoint
  rw [if_pos resolved,if_pos resolved]

theorem resendEq (tu : World → World) (o : Oracle) (w : World) (tdata : Option TxData)
    (resolved : w.resolvedServer = true) : resend tu o w tdata = sendMsg tu o w tdata := by
  cases tdata with
  | none => rfl
  | some =>
    simp only [resend,sendMsg,sendMsgWith]
    split
    · rfl
    · split
      · rfl
      · split
        · exact sendByEndpointResolved tu _ _ _ _ _ resolved
        · split
          · rfl
          · rfl
          · exact sendByEndpointResolved tu _ _ _ _ _ resolved

/- The transaction takes over the transport a message went out by. -/
def Transported (u v : World) : Prop :=
  ∃ (tp : Transport) (reliable : Bool) (err : Nat) (timeout : TimerEntry),
    v = { u with transport := some tp, isReliable := reliable, transportErr := err, timeoutTimer := timeout,
                 pendingTransport := false, resolvedServer := true } ∧
      (u.timeoutTimer.running = true → timeout.running = true)

def Rescheduled (w w' : World) : Prop :=
  ∃ (resched : Bool) (retransmit : TimerEntry),
    w' = { w with pendingResched := resched, retransmitTimer := retransmit }

theorem Rescheduled.refl (w : World) : Rescheduled w w := ⟨_,_,rfl⟩

theorem updateTransportKeeps (u : World) (tp : Transport) :
    ∃ err timeout, updateTransport u (some tp) =
      { u with transport := some tp, transportErr := err, timeoutTimer := timeout } ∧
      (u.timeoutTimer.running = true → timeout.running = true) := by
  simp only [updateTransport,postTransportError]
  split
  · split
    · exact ⟨_,_,rfl,fun _ => cancelledStarts _ _ _⟩
    · exact ⟨_,_,rfl,id⟩
  · exact ⟨_,_,rfl,id⟩

theorem takeTransportKeeps (u : World) (tp : Transport) : Transported u (takeTransport u tp) := by
  unfold takeTransport
  by_cases same : sameTransport u.transport (some tp) = true
  · rw [if_pos same]
    cases transport : u.transport with
    | none => simp [sameTransport,transport] at same
    | some t => exact ⟨t,_,_,_,by rw [← transport],id⟩
  · rw [if_neg same]
    obtain ⟨err,timeout,result,keeps⟩ := updateTransportKeeps u tp
    exact ⟨tp,tp.reliable,err,timeout,by rw [result],keeps⟩

theorem reschedPendingKeeps (w : World) : Rescheduled w (reschedPending w) := by
  simp only [reschedPending]
  split
  · split
    · exact ⟨_,_,rfl⟩
    · unfold reschedRetransmission
      split <;> exact ⟨_,_,rfl⟩
  · exact Rescheduled.refl w

theorem callbackSentCases (tu : World → World) (o : Oracle) (u : World) (tp : Transport)
    (destroy : u.pendingDestroy = false) : ∃ v, Transported u v ∧
      ((u.pendingSend = false ∧ Rescheduled v (callbackSent tu o u tp)) ∨ (u.pendingSend = true ∧
        Rescheduled (sendMsg tu o { v with pendingSend := false } v.lastTx).2 (callbackSent tu o u tp))) := by
  have took := takeTransportKeeps u tp
  refine ⟨_,took,?_⟩
  unfold callbackSent
  obtain ⟨t,reliable,err,timeout,result,-⟩ := took
  rw [result,if_neg (by simp [destroy])]
  by_cases send : u.pendingSend = true
  · refine .inr ⟨send,?_⟩
    rw [if_pos send,← resendEq]
    · exact reschedPendingKeeps _
    · rfl
  · refine .inl ⟨by simpa using send,?_⟩
    rw [if_neg send]
    exact reschedPendingKeeps _

def SameKind (w w' : World) : Prop := w'.role = w.role ∧ w'.method = w.method

theorem SameKind.trans (first : SameKind a b) (second : SameKind b c) : SameKind a c :=
  ⟨second.1.trans first.1,second.2.trans first.2⟩

theorem Unrouted.kind (unrouted : Unrouted w v) : SameKind w v := by
  obtain ⟨_,_,rfl,-⟩ := unrouted
  exact ⟨rfl,rfl⟩

theorem plainSentKind {o : Oracle} (quiet : Quiet tu)
    {r : Nat × World} (resolved : w.resolvedServer = true) (sent : Sent tu o w tdata r) : SameKind w r.2 := by
  cases sent with
  | deferred => exact ⟨rfl,rfl⟩
  | quiet => exact ⟨rfl,rfl⟩
  | pending => exact ⟨rfl,rfl⟩
  | @retired off v unrouted =>
    have ended := setStateEnded quiet { v with statusCode := scTransportError } .transportError false false
    exact unrouted.kind.trans ⟨ended.role,ended.method⟩
  | refused off fresh | refusedResponse off fresh | waiting off fresh | answered off fresh | failed off fresh =>
    exact absurd resolved (by rw [fresh]; decide)

theorem callbackSentKind (quiet : Quiet tu) (u : World) (tp : Transport)
    (destroy : u.pendingDestroy = false) : SameKind u (callbackSent tu o u tp) := by
  obtain ⟨v,transported,result⟩ := callbackSentCases tu o u tp destroy
  have taken : SameKind u v ∧ v.resolvedServer = true ∧ v.pendingDestroy = false := by
    obtain ⟨_,_,_,_,rfl,-⟩ := transported
    exact ⟨⟨rfl,rfl⟩,rfl,destroy⟩
  have resched : ∀ {a b : World}, Rescheduled a b → SameKind a b := by
    rintro a b ⟨_,_,rfl⟩
    exact ⟨rfl,rfl⟩
  rcases result with ⟨-,later⟩ | ⟨-,later⟩
  · exact taken.1.trans (resched later)
  · have sent : ∀ tdata, SameKind v (sendMsg tu o { v with pendingSend := false } tdata).2 := by
      intro tdata
      cases tdata with
      | none => exact ⟨rfl,rfl⟩
      | some tdata =>
        have plain := plainSentKind (w := { v with pendingSend := false }) quiet taken.2.1
          (sendMsgSent tu o { v with pendingSend := false } tdata taken.2.2)
        exact plain
    exact taken.1.trans ((sent _).trans (resched later))

/- What a failure for good leaves of a transaction before its state is set. -/
def failedFor (u : World) (err : Nat) : World :=
  { u with transportErr := err, pendingTransport := false, resolvedServer := true, statusCode := failureCode err }

theorem callbackFailedLive (u : World) (err : Nat) (live : u.state.Live) :
    callbackFailed tu u err = setState tu (failedFor u err) .terminated .transportError false false := by
  simp only [callbackFailed]
  rw [if_pos ⟨liveNotTerminated live,liveNotDestroyed live⟩]
  rfl

theorem callbackFailedEnded (quiet : Quiet tu) (u : World) (err : Nat) (live : u.state.Live) :
    Ended (failedFor u err) .transportError (callbackFailed tu u err) := by
  rw [callbackFailedLive u err live]
  exact setStateEnded quiet _ _ _ _

theorem callbackFailedKind (quiet : Quiet tu) (u : World) (err : Nat)
    (live : u.state.Live) : SameKind u (callbackFailed tu u err) := by
  have ended := callbackFailedEnded quiet u err live
  exact ⟨ended.role,ended.method⟩

theorem sendMsgKind (quiet : Quiet tu) (w : World)
    (live : w.state.Live) (destroy : w.pendingDestroy = false) (tdata : TxData) :
    SameKind w (sendMsg tu o w (some tdata)).2 := by
  by_cases resolved : w.resolvedServer = true
  · exact plainSentKind quiet resolved (sendMsgSent tu o w tdata destroy)
  have sent := sendMsgSent tu o w tdata destroy
  generalize sendMsg tu o w (some tdata) = r at sent
  cases sent with
  | deferred => exact ⟨rfl,rfl⟩
  | quiet => exact ⟨rfl,rfl⟩
  | pending => exact ⟨rfl,rfl⟩
  | retired off unrouted resolved' => exact absurd resolved' resolved
  | refused off fresh unrouted => exact unrouted.kind
  | refusedResponse off fresh unrouted => exact unrouted.kind
  | waiting off fresh unrouted retried =>
    obtain ⟨_,_,rfl,-⟩ := retried
    exact unrouted.kind
  | @answered off fresh v unrouted count timeout keeps tp reply w' result =>
    have destroy' : v.pendingDestroy = false := by
      obtain ⟨_,_,rfl,-⟩ := unrouted
      exact destroy
    have start : SameKind w (settled v tdata count timeout) := unrouted.kind
    rw [result]
    exact start.trans (callbackSentKind o quiet (settled v tdata count timeout) tp destroy')
  | @failed off fresh v unrouted count timeout err w' result =>
    have live' : v.state.Live := by
      obtain ⟨_,_,rfl,-⟩ := unrouted
      exact live
    have start : SameKind w (settled v tdata count timeout) := unrouted.kind
    rw [result]
    exact start.trans (callbackFailedKind quiet (settled v tdata count timeout) err.code live')

/- The ways a send of the endpoint can be answered later. -/
inductive Answered (tu : World → World) (o : Oracle) (w : World) (tdata : TxData) : World → Prop where
  | detached (loose : tdata.id ∉ w.modData) : Answered tu o w tdata { w with refs := w.refs - 1 }
  | sent (tied : ¬ tdata.id ∉ w.modData) (tp : Transport) :
      Answered tu o w tdata (callbackSent tu o
        { w with refs := w.refs - 1, modData := detach w.modData tdata, pendingTx := none } tp)
  | failed (tied : ¬ tdata.id ∉ w.modData) (err : Fault) :
      Answered tu o w tdata (callbackFailed tu
        { w with refs := w.refs - 1, modData := detach w.modData tdata, pendingTx := none } err.code)
  | retried (tied : ¬ tdata.id ∉ w.modData) {w' : World} (retried : Retried w w') :
      Answered tu o w tdata { w' with inFlight := w'.inFlight ++ [.endpoint tdata] }

theorem endpointDoneAnswered (tu : World → World) (o : Oracle) (index : Nat) (tdata : TxData)
    (outcome : Outcome) (moreServers : Bool)
    (engaged : ¬ tdata.id ∉ w.modData → Engaged w tdata) :
    Answered tu o { w with inFlight := w.inFlight.eraseIdx index } tdata
      (endpointDone tu o w index tdata outcome moreServers) := by
  let v : World := { w with inFlight := w.inFlight.eraseIdx index }
  by_cases tied : ¬ tdata.id ∉ w.modData
  · have tied' := engaged tied
    have engaged' : Engaged v tdata := ⟨tied'.modData,tied'.pendingTx,tied'.transport,tied'.destroy⟩
    have last := lastCallback tu o v tdata tied tied'.transport
    cases outcome with
    | sent tp =>
      have result : endpointDone tu o w index tdata (.sent tp) moreServers =
          callbackSent tu o { v with refs := v.refs - 1, modData := detach v.modData tdata, pendingTx := none }
            tp := by
        refine Eq.trans ?_ (last (.sent tp))
        have stops : (sendMsgCallback tu o v tdata (.sent tp) false).1 = false := by
          unfold sendMsgCallback
          rw [if_neg tied]
        show (if (sendMsgCallback tu o v tdata (.sent tp) false).1 then _ else _) = _
        rw [stops]
        rfl
      rw [result]
      exact @Answered.sent tu o v tdata tied tp
    | failed f =>
      by_cases more : (moreServers && tdata.msg.isRequest) = true
      · obtain ⟨w',step,retried⟩ := retryStep tu o engaged' f
        have result : endpointDone tu o w index tdata (.failed f) moreServers =
            { w' with inFlight := w'.inFlight ++ [.endpoint tdata] } := by
          simp only [endpointDone,more]
          rw [step]
          rfl
        rw [result]
        exact @Answered.retried tu o v tdata tied w' retried
      · have stop : (moreServers && tdata.msg.isRequest) = false := by simpa using more
        have result : endpointDone tu o w index tdata (.failed f) moreServers =
            callbackFailed tu { v with refs := v.refs - 1, modData := detach v.modData tdata, pendingTx := none }
              f.err.code := by
          refine Eq.trans ?_ (last (.failed f))
          have stops : (sendMsgCallback tu o v tdata (.failed f) false).1 = false := by
            unfold sendMsgCallback
            rw [if_neg tied]
            rfl
          simp only [endpointDone,stop]
          show (if (sendMsgCallback tu o v tdata (.failed f) false).1 then _ else _) = _
          rw [stops]
          rfl
        rw [result]
        exact @Answered.failed tu o v tdata tied f.err
  · have loose : tdata.id ∉ w.modData := Classical.not_not.mp tied
    have result : endpointDone tu o w index tdata outcome moreServers = { v with refs := v.refs - 1 } := by
      have falls : ∀ cont, sendMsgCallback tu o v tdata outcome cont = (false, { v with refs := v.refs - 1 }) := by
        intro cont
        unfold sendMsgCallback
        rw [if_pos loose]
      simp only [endpointDone]
      rw [falls]
      rfl
    rw [result]
    exact @Answered.detached tu o v tdata loose

end Pjproject.Tsx
