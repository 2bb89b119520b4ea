import Pjproject.TsxPending

/-! The timeout timer of client transactions: what keeps a client from being stuck in a state that no timer
will ever end. -/
namespace Pjproject.Tsx

def clientKind (m : Method) : Kind := ⟨False,.uac,m⟩

variable {m : Method}

/- A client stays where it is with its timeout timer running, or it terminates. -/
structure Tended (w w' : World) : Prop where
  role : w'.role = w.role
  method : w'.method = w.method
  state : State.terminated.num ≤ w'.state.num ∨
    (w'.state = w.state ∧ (w.timeoutTimer.running = true → w'.timeoutTimer.running = true))

theorem Tended.refl (w : World) : Tended w w := ⟨rfl,rfl,.inr ⟨rfl,id⟩⟩

variable {tu : World → World} {o : Oracle} {w w' : World} {tdata : TxData}

theorem Tended.unmoved (role : w'.role = w.role) (method : w'.method = w.method)
    (state : w'.state = w.state) (timer : w'.timeoutTimer = w.timeoutTimer) : Tended w w' :=
  ⟨role,method,.inr ⟨state,fun running => by rw [timer]; exact running⟩⟩

theorem Tended.trans {a b c : World} (first : Tended a b) (second : Tended b c) : Tended a c := by
  refine ⟨second.role.trans first.role,second.method.trans first.method,?_⟩
  rcases second.state with dead | ⟨state,keeps⟩
  · exact .inl dead
  · rcases first.state with dead | ⟨state',keeps'⟩
    · rw [← state] at dead
      exact .inl dead
    · exact .inr ⟨state.trans state',fun running => keeps (keeps' running)⟩

theorem Ended.tended {v : World} {source : Source} (ended : Ended v source w') (role : v.role = w.role)
    (method : v.method = w.method) : Tended w w' :=
  ⟨ended.role.trans role,ended.method.trans method,.inl ended.dead⟩

theorem Rescheduled.tended (resched : Rescheduled w w') : Tended w w' := by
  obtain ⟨_,_,rfl⟩ := resched
  exact Tended.unmoved rfl rfl rfl rfl

theorem postTransportErrorTended (w : World) (err : Nat) : Tended w (postTransportError w err) := by
  simp only [postTransportError]
  split
  · exact ⟨rfl,rfl,.inr ⟨rfl,fun _ => cancelledStarts _ _ _⟩⟩
  · exact ⟨rfl,rfl,.inr ⟨rfl,id⟩⟩

theorem plainSentTended (quiet : Quiet tu)
    {r : Nat × World} (resolved : w.resolvedServer = true) (sent : Sent tu o w tdata r) : Tended w r.2 := by
  cases sent with
  | deferred => exact Tended.unmoved rfl rfl rfl rfl
  | quiet => exact Tended.unmoved rfl rfl rfl rfl
  | pending => exact Tended.unmoved rfl rfl rfl rfl
  | @retired off v unrouted =>
    have same : v.role = w.role ∧ v.method = w.method := by
      obtain ⟨_,_,rfl,-⟩ := unrouted
      exact ⟨rfl,rfl⟩
    have ended := setStateEnded quiet { v with statusCode := scTransportError } .transportError false false
    exact ended.tended same.1 same.2
  | refused off fresh | refusedResponse off fresh | waiting off fresh | answered off fresh | failed off fresh =>
    exact absurd resolved (by rw [fresh]; decide)

theorem callbackSentTended (o : Oracle) (quiet : Quiet tu) (u : World) (tp : Transport)
    (destroy : u.pendingDestroy = false) : Tended u (callbackSent tu o u tp) := by
  obtain ⟨v,transported,result⟩ := callbackSentCases tu o u tp destroy
  have taken : Tended u v ∧ v.resolvedServer = true ∧ v.pendingDestroy = false := by
    obtain ⟨_,_,_,_,rfl,keeps⟩ := transported
    exact ⟨⟨rfl,rfl,.inr ⟨rfl,keeps⟩⟩,rfl,destroy⟩
  rcases result with ⟨-,resched⟩ | ⟨-,resched⟩
  · exact taken.1.trans resched.tended
  · have again : Tended v { v with pendingSend := false } := Tended.unmoved rfl rfl rfl rfl
    have sent : ∀ tdata, Tended v (sendMsg tu o { v with pendingSend := false } tdata).2 := by
      intro tdata
      cases tdata with
      | none => exact again
      | some tdata =>
        exact again.trans (plainSentTended quiet taken.2.1 (sendMsgSent tu o _ tdata taken.2.2))
    exact taken.1.trans ((sent _).trans resched.tended)

theorem sentTended (quiet : Quiet tu)
    {r : Nat × World} (account : Account (clientKind m) w) (live : w.state.Live)
    (sent : Sent tu o w tdata r) :
    Tended w r.2 ∧ (r.1 ≠ 0 → NoRefusal o → State.terminated.num ≤ r.2.state.num) := by
  cases sent with
  | deferred => exact ⟨Tended.unmoved rfl rfl rfl rfl,fun error => absurd rfl error⟩
  | quiet => exact ⟨Tended.unmoved rfl rfl rfl rfl,fun error => absurd rfl error⟩
  | pending => exact ⟨Tended.unmoved rfl rfl rfl rfl,fun error => absurd rfl error⟩
  | @retired off v unrouted =>
    have same : v.role = w.role ∧ v.method = w.method := by
      obtain ⟨_,_,rfl,-⟩ := unrouted
      exact ⟨rfl,rfl⟩
    have ended := setStateEnded quiet { v with statusCode := scTransportError } .transportError false false
    exact ⟨ended.tended same.1 same.2,fun _ _ => ended.dead⟩
  | refused off fresh unrouted reply =>
    obtain ⟨_,_,rfl,-⟩ := unrouted
    exact ⟨Tended.unmoved rfl rfl rfl rfl,fun _ none => absurd reply (none _ _)⟩
  | refusedResponse off fresh unrouted err addr =>
    rw [unrouted.addr account live] at addr
    cases addr
  | waiting off fresh unrouted retried =>
    obtain ⟨_,_,rfl,-⟩ := unrouted
    obtain ⟨_,_,rfl,keeps⟩ := retried
    refine ⟨⟨rfl,rfl,.inr ⟨rfl,keeps⟩⟩,fun error => ?_⟩
    rw [if_neg (liveNotTerminated live)] at error
    exact absurd rfl error
  | @answered off fresh v unrouted count timeout keeps tp reply w' result =>
    have before : Tended w (settled v tdata count timeout) ∧ v.pendingDestroy = false := by
      obtain ⟨_,_,rfl,-⟩ := unrouted
      exact ⟨⟨rfl,rfl,.inr ⟨rfl,keeps⟩⟩,account.1.destroy⟩
    rw [result]
    refine ⟨before.1.trans (callbackSentTended o quiet _ tp before.2),fun error _ => ?_⟩
    by_cases dead : (callbackSent tu o (settled v tdata count timeout) tp).state = .terminated
    · exact terminatedDead dead
    · rw [if_neg dead] at error
      exact absurd rfl error
  | @failed off fresh v unrouted count timeout err w' result =>
    have same : v.state = w.state ∧ v.role = w.role ∧ v.method = w.method := by
      obtain ⟨_,_,rfl,-⟩ := unrouted
      exact ⟨rfl,rfl,rfl⟩
    have ended := callbackFailedEnded quiet (settled v tdata count timeout) err.code
      (show v.state.num < _ from same.1 ▸ live)
    rw [← result] at ended
    exact ⟨ended.tended same.2.1 same.2.2,fun _ _ => ended.dead⟩

theorem sendMsgTended (quiet : Quiet tu) (account : Account (clientKind m) w)
    (live : w.state.Live) (tdata : Option TxData) :
    Tended w (sendMsg tu o w tdata).2 ∧ (tdata.isSome → (sendMsg tu o w tdata).1 ≠ 0 → NoRefusal o →
      State.terminated.num ≤ (sendMsg tu o w tdata).2.state.num) := by
  cases tdata with
  | none => exact ⟨Tended.refl w,fun none => nomatch none⟩
  | some tdata =>
    have sent := sentTended quiet account live (sendMsgSent tu o w tdata account.1.destroy)
    exact ⟨sent.1,fun _ => sent.2⟩

/- The reaction of the user keeps a client tended once it has sent its request. -/
def Tends (m : Method) (tu : World → World) : Prop :=
  ∀ w, Account (clientKind m) w → w.role = .uac → w.state ≠ .null → Tended w (tu w)

theorem clientTransmit (tu : World → World) (o : Oracle) (account : Account (clientKind m) w)
    (client : w.role = .uac) (started : w.state ≠ .null) (tdata : TxData) :
    Tended w (dispatch tu o w (.txMsg tdata)).2 := by
  have paired : w.stateHandler = stateHandlers w.role w.state := account.1.paired
  cases found : w.stateHandler with
  | none =>
    rw [dispatchNone tu o _ found]
    exact Tended.unmoved rfl rfl rfl rfl
  | some handler =>
    rw [found] at paired
    have state := handlerState paired
    rw [dispatchSome tu o _ found]
    cases handler with
    | null => exact absurd state started
    | calling => exact Tended.refl w
    | trying => exact absurd (handlerRole paired rfl) (by rw [client]; decide)
    | proceedingUas => exact absurd (handlerRole paired rfl) (by rw [client]; decide)
    | proceedingUac => exact Tended.refl w
    | completedUas => exact absurd (handlerRole paired rfl) (by rw [client]; decide)
    | completedUac => exact Tended.refl w
    | confirmed => exact Tended.refl w
    | terminated => exact Tended.refl w
    | destroyed => exact Tended.refl w

theorem terminateTended (quiet : Quiet tu) (w : World) (code : Nat) :
    Tended w (pjsipTsxTerminate tu w code).2 := by
  unfold pjsipTsxTerminate
  split
  · exact Tended.refl w
  split
  · have ended := setStateEnded quiet { w with statusCode := code } .user false false
    exact ended.tended rfl rfl
  · exact Tended.refl w

theorem setTimeoutTended (w : World) (millisec : Nat) : Tended w (pjsipTsxSetTimeout w millisec).2 := by
  unfold pjsipTsxSetTimeout
  split
  · split
    · exact Tended.refl w
    · exact ⟨rfl,rfl,.inr ⟨rfl,fun _ => cancelledStarts _ _ _⟩⟩
  · exact Tended.refl w

theorem stopRetransmitTended (w : World) : Tended w (pjsipTsxStopRetransmit w).2 := by
  unfold pjsipTsxStopRetransmit
  split
  · exact Tended.unmoved rfl rfl rfl rfl
  · exact Tended.refl w

theorem userOpTended (o : Oracle) (quiet : Quiet tu)
    (account : Account (clientKind m) w) (client : w.role = .uac) (started : w.state ≠ .null) (op : UserOp)
    (timely : op.Timely w) : Tended w (userOp tu o w op) := by
  cases op with
  | retransmitNoState =>
    rcases resendTimely tu o timely with same | ⟨live,sends⟩
    · rw [same]
      exact Tended.refl w
    · rw [sends]
      exact (sendMsgTended quiet account live _).1
  | sendMsg =>
    simp only [userOp,pjsipTsxSendMsg]
    split
    · exact Tended.refl w
    · exact clientTransmit tu o account client started _
  | terminate code => exact terminateTended quiet w code
  | stopRetransmit => exact stopRetransmitTended w
  | setTimeout millisec => exact setTimeoutTended w millisec
  | handle200resp value => exact Tended.unmoved rfl rfl rfl rfl

theorem Tended.started (tended : Tended w w') (started : w.state ≠ .null) : w'.state ≠ .null := by
  intro null
  rcases tended.state with dead | ⟨state,-⟩
  · rw [null] at dead
    exact absurd dead (by decide)
  · exact started (state.symm.trans null)

theorem reactionTends (m : Method) (timely : TimelyUser o) (depth : Nat) : Tends m (reaction o depth) := by
  have granted : (clientKind m).strict → NoRefusal o := False.elim
  induction depth with
  | zero => exact fun w _ _ _ => Tended.refl w
  | succ depth =>
    intro w account client started
    have quiet := reactionQuiet timely depth
    have keeps := reactionKeeps granted timely depth
    have folded : ∀ (ops : List UserOp) (v : World), (∀ op ∈ ops, ∀ w, op.Timely w) → Account (clientKind m) v →
        v.role = .uac → v.state ≠ .null → Tended v (ops.foldl (userOp (reaction o depth) o) v) := by
      intro ops
      induction ops with
      | nil => exact fun v _ _ _ _ => Tended.refl v
      | cons op ops ihOps =>
        intro v looked account client started
        have here := looked op List.mem_cons_self v
        have first := userOpTended o quiet account client started op here
        have account' := userOpAccount granted quiet keeps account op here
        exact first.trans (ihOps _ (fun op' inside => looked op' (List.mem_cons_of_mem _ inside)) account'
          (first.role.trans client) (first.started started))
    have ticked : Tended w w.tick := Tended.unmoved rfl rfl rfl rfl
    exact ticked.trans (folded _ w.tick (timely w.clock) (account.same rfl) client started)

theorem informedTended (keeps : Keeps (clientKind m) tu) (tends : Tends m tu)
    (account : Account (clientKind m) w) (client : w.role = .uac) (started : w.state ≠ .null) (source : Source) :
    Tended w (informed tu w source false) := by
  have told : ∀ v, Account (clientKind m) v → v.role = .uac → v.state ≠ .null → Tended v (notify tu v) := by
    intro v account client started
    unfold notify
    split
    · exact tends v account client started
    · exact Tended.refl v
  unfold informed
  have first : Tended w (if source.isResponse && !false then notify tu w else w) ∧
      Account (clientKind m) (if source.isResponse && !false then notify tu w else w) := by
    split
    · exact ⟨told w account client started,notifyAccount keeps account⟩
    · exact ⟨Tended.refl w,account⟩
  exact first.1.trans (told _ first.2 (first.1.role.trans client) (first.1.started started))

/- A client that will not be left without a timer: it has terminated, it is an INVITE transaction that waits
for the final response, or its timeout timer runs. -/
def Armed (w : World) : Prop :=
  State.terminated.num ≤ w.state.num ∨ (w.method = .invite ∧ w.state = .proceeding) ∨
    w.timeoutTimer.running = true

def Held (w : World) : Prop := w.state ≠ .null ∧ Armed w

theorem Held.dead (dead : State.terminated.num ≤ w.state.num) : Held w := by
  refine ⟨fun null => ?_,.inl dead⟩
  rw [null] at dead
  exact absurd dead (by decide)

theorem Held.waiting (invite : w.method = .invite) (proceeding : w.state = .proceeding) : Held w :=
  ⟨by rw [proceeding]; decide,.inr (.inl ⟨invite,proceeding⟩)⟩

theorem Held.running (started : w.state ≠ .null) (running : w.timeoutTimer.running = true) : Held w :=
  ⟨started,.inr (.inr running)⟩

theorem Held.tended (held : Held w) (tended : Tended w w') : Held w' := by
  refine ⟨tended.started held.1,?_⟩
  rcases tended.state with dead | ⟨state,keeps⟩
  · exact .inl dead
  · rcases held.2 with dead | ⟨invite,proceeding⟩ | running
    · exact .inl (state ▸ dead)
    · exact .inr (.inl ⟨tended.method.trans invite,state.trans proceeding⟩)
    · exact .inr (.inr (keeps running))

theorem Ended.held {source : Source} (ended : Ended w source w') : Held w' := Held.dead ended.dead

section Handlers

variable (quiet : Quiet tu) (keeps : Keeps (clientKind m) tu) (tends : Tends m tu)

include keeps tends

variable {w : World}

theorem enteredHeld (account : Account (clientKind m) w) (ready : Ready w) (client : w.role = .uac)
    {s : State} (live : s.Live) (proper : s ≠ .null ∧ s ≠ .trying) (source : Source)
    (held : Held (enter w s source)) : Held (setState tu w s source false false) := by
  have legal : (stateHandlers w.role s).isSome = true := by
    rw [client]
    cases s <;> first | rfl | exact absurd rfl proper.2
  rw [setStateLive tu w s source live]
  have entered := enterAccount account ready s live legal source
  exact held.tended (informedTended keeps tends entered client proper.1 source)

theorem completeUacHeld (account : Account (clientKind m) w) (ready : Ready w) (client : w.role = .uac)
    (msg : Msg) (ack : Option TxData) : Held (completeUac tu w msg ack) := by
  have legal : (stateHandlers w.role .completed).isSome = true := shared w.role _ (by decide) (by decide)
  have entered := enterAccount account ready .completed (by decide) legal (.rxMsg msg)
  have told := informedTended keeps tends entered client (show State.completed ≠ .null by decide) (.rxMsg msg)
  rw [← setStateLive tu w .completed (.rxMsg msg) (by decide)] at told
  have started := told.started (show State.completed ≠ .null by decide)
  refine Held.running ?_ (cancelledStarts _ _ _)
  cases ack <;> exact started

omit keeps tends in
include quiet in
theorem retransmitTended (account : Account (clientKind m) w) (live : w.state.Live)
    (resched : Bool) : Tended w (retransmit tu o w resched).2 := by
  unfold retransmit
  split
  · exact Tended.refl w
  · split
    · exact Tended.refl w
    · rename_i tdata _
      have prepared : ∀ v : World, v.books = w.books → Tended w v →
          Tended w (sendMsg tu o v (some tdata)).2 := by
        intro v same moved
        have state : v.state = w.state := congrArg Books.state same
        exact moved.trans (sendMsgTended quiet (account.same same) (by rw [state]; exact live) _).1
      refine prepared _ ?_ ?_
      · split
        · split
          · rfl
          · exact reschedRetransmissionBooks _
        · rfl
      · split
        · split
          · exact Tended.unmoved rfl rfl rfl rfl
          · unfold reschedRetransmission
            split <;> exact Tended.unmoved rfl rfl rfl rfl
        · exact Tended.unmoved rfl rfl rfl rfl

include quiet

theorem onStateNullHeld (account : Account (clientKind m) w) (state : w.state = .null)
    (client : w.role = .uac) (tdata : TxData) (granted : NoRefusal o) :
    Held (onStateNull tu o w (.txMsg tdata)).2 := by
  have live : w.state.Live := by rw [state]; decide
  have saved : Account (clientKind m) { w with lastTx := some tdata } := account.same rfl
  have accounted := sendMsgAccount False.elim quiet saved live (o := o) (some tdata)
  have sent := sendMsgTended (o := o) quiet saved live (some tdata)
  unfold onStateNull
  rw [if_neg (by rw [client]; decide)]
  dsimp only
  split
  · rename_i error
    exact Held.dead (sent.2 rfl error granted)
  · rename_i ok
    have ready := accounted.2 (by simpa using ok)
    have calls : ∀ v : World, v.books = (sendMsg tu o { w with lastTx := some tdata } (some tdata)).2.books →
        v.timeoutTimer.running = true → Held (setState tu v .calling .txMsg false false) := by
      intro v same running
      have role : v.role = .uac := (congrArg Books.role same).trans (sent.1.role.trans client)
      exact enteredHeld keeps tends (accounted.1.same same) (ready.same same) role (by decide) (by decide) _
        (Held.running (show State.calling ≠ .null by decide) running)
    refine calls _ ?_ ?_
    · split
      · rfl
      · exact startRetransmitBooks _ _
    · split
      · exact cancelledStarts _ _ _
      · simp only [startRetransmit]
        split <;> exact cancelledStarts _ _ _

theorem uacResponseHeld (account : Account (clientKind m) w) (live : w.state.Live)
    (client : w.role = .uac) (cseq : Method) (code : Nat)
    (provisional : inClass code 100 = true → w.method ≠ .invite → w.timeoutTimer.running = true)
    (acked : w.method = .invite → 300 ≤ code → code ≤ 699 →
      w.state = .proceeding ∨ ((∀ n, ∃ id, o.ack n = .ok id) ∧ NoRefusal o))
    (odd : code < 100 ∨ 699 < code → Held w) : Held (uacResponse tu o w (.response code cseq) code).2 := by
  have coded : Account (clientKind m) { w with statusCode := code } := account.same rfl
  simp only [uacResponse]
  split
  · rename_i class1
    refine enteredHeld keeps tends coded (.inl live) client (by decide) (by decide) _ ?_
    by_cases invite : w.method = .invite
    · exact Held.waiting invite rfl
    · exact Held.running (show State.proceeding ≠ .null by decide) (provisional class1 invite)
  split
  · have stopped : Account (clientKind m) ({ w with statusCode := code } : World).cancelTimeout := coded.same rfl
    split
    · exact (setStateEnded quiet _ _ _ _).held
    · refine enteredHeld keeps tends ?_ (.inl ?_) ?_ (by decide) (by decide) _ ?_
      · exact stopped.same rfl
      · exact live
      · exact client
      · exact Held.running (show State.completed ≠ .null by decide) (cancelledStarts _ _ _)
  split
  · rename_i class3
    split
    · rename_i invite
      have cases := acked invite class3.1 class3.2
      have stopped : Account (clientKind m) ({ w with statusCode := code } : World).cancelRetransmit.cancelTimeout :=
        coded.same rfl
      split
      · rename_i refused
        rcases cases with proceeding | ⟨makes,-⟩
        · exact Held.waiting invite proceeding
        · obtain ⟨id,made⟩ := makes ({ w with statusCode := code } : World).cancelRetransmit.cancelTimeout.clock
          rw [made] at refused
          cases refused
      · rename_i id _
        have asked : Account (clientKind m) ({ w with statusCode := code } : World).cancelRetransmit.cancelTimeout.tick :=
          stopped.same rfl
        have sent := sendMsgTended (o := o) quiet asked live (some ⟨id,.request .ack⟩)
        have accounted := sendMsgAccount False.elim quiet asked live (o := o) (some ⟨id,.request .ack⟩)
        split
        · rename_i error
          rcases cases with proceeding | ⟨-,granted⟩
          · have before : Held ({ w with statusCode := code } : World).cancelRetransmit.cancelTimeout.tick :=
              Held.waiting invite proceeding
            exact before.tended sent.1
          · exact Held.dead (sent.2 rfl error granted)
        · rename_i ok
          exact completeUacHeld keeps tends accounted.1 (accounted.2 (by simpa using ok))
            (sent.1.role.trans client) _ _
    · have stopped : Account (clientKind m) ({ w with statusCode := code } : World).cancelRetransmit.cancelTimeout :=
        coded.same rfl
      exact completeUacHeld keeps tends stopped (.inl live) client _ none
  · rename_i not1 not2 not3
    have outside : code < 100 ∨ 699 < code := by
      simp only [inClass,beq_iff_eq] at not1 not2
      omega
    exact (odd outside).tended (Tended.unmoved rfl rfl rfl rfl)

theorem onStateProceedingUacHeld (account : Account (clientKind m) w) (state : w.state = .proceeding)
    (client : w.role = .uac) (event : Event) (held : event ≠ .timer .timeout → Held w) :
    Held (onStateProceedingUac tu o w event).2 := by
  have live : w.state.Live := by rw [state]; decide
  unfold onStateProceedingUac
  split
  · exact held (fun timer => nomatch timer)
  · exact held (fun timer => nomatch timer)
  · rename_i code cseq
    have before := held (fun timer => nomatch timer)
    refine uacResponseHeld quiet keeps tends account live client cseq code ?_ (fun _ _ _ => .inl state)
      (fun _ => before)
    intro _ notInvite
    rcases before.2 with dead | ⟨invite,-⟩ | running
    · exact absurd dead (Nat.not_le.mpr live)
    · exact absurd invite notInvite
    · exact running
  · exact (held (by decide)).tended (retransmitTended quiet account live true)
  · exact (setStateEnded quiet _ _ _ _).held

/- The response a calling client can take: no code outside 100 to 699 (under 100 only for INVITE), and for the
final response of an INVITE an ACK that is made and that the endpoint does not refuse. -/
def Orderly (w : World) (o : Oracle) (code : Nat) : Prop :=
  (w.method = .invite → 100 ≤ code) ∧ code ≤ 699 ∧
    (w.method = .invite → 300 ≤ code → (∀ n, ∃ id, o.ack n = .ok id) ∧ NoRefusal o)

/- The timers of a calling client when a response arrives. -/
def callingTimers (w : World) (code : Nat) : World :=
  let w := w.cancelRetransmit
  let w := if 200 ≤ code then (if w.timeoutTimer.id ≠ .inactive then w.cancelTimeout else w)
    else if w.method = .invite then w.cancelTimeout
    else if w.isReliable then w else w.scheduleRetransmit t2
  { w with pendingResched := false }

omit quiet keeps tends in
theorem callingTimersBooks (w : World) (code : Nat) :
    (callingTimers w code).books = w.books ∧ (callingTimers w code).method = w.method ∧
      (code < 200 → w.method ≠ .invite → (callingTimers w code).timeoutTimer = w.timeoutTimer) := by
  simp only [callingTimers]
  split
  · rename_i final
    refine ⟨?_,?_,fun early => absurd final (Nat.not_le.mpr early)⟩
    · split <;> rfl
    · split <;> rfl
  · split
    · rename_i invite
      exact ⟨rfl,rfl,fun _ notInvite => absurd invite notInvite⟩
    · split <;> exact ⟨rfl,rfl,fun _ _ => rfl⟩

theorem onStateCallingHeld (account : Account (clientKind m) w) (state : w.state = .calling)
    (client : w.role = .uac) (event : Event) (held : event ≠ .timer .timeout → Held w)
    (orderly : ∀ code cseq, event = .rxMsg (.response code cseq) → Orderly w o code) :
    Held (onStateCalling tu o w event).2 := by
  have live : w.state.Live := by rw [state]; decide
  unfold onStateCalling
  split
  · exact (held (by decide)).tended (retransmitTended quiet account live true)
  · exact (setStateEnded quiet _ _ _ _).held
  · exact held (fun timer => nomatch timer)
  · rename_i code cseq
    obtain ⟨least,most,acks⟩ := orderly code cseq rfl
    have running : w.timeoutTimer.running = true := by
      rcases (held (fun timer => nomatch timer)).2 with dead | ⟨-,proceeding⟩ | running
      · exact absurd dead (Nat.not_le.mpr live)
      · rw [state] at proceeding
        cases proceeding
      · exact running
    obtain ⟨books,method,timer⟩ := callingTimersBooks w code
    have same : (callingTimers w code).state = w.state := congrArg Books.state books
    show Held (onStateProceedingUac tu o (callingTimers w code) (.rxMsg (.response code cseq))).2
    refine uacResponseHeld quiet keeps tends (account.same books) (by rw [same]; exact live)
      ((congrArg Books.role books).trans client) cseq code ?_ ?_ ?_
    · intro class1 notInvite
      rw [method] at notInvite
      have early : code < 200 := by
        simp only [inClass,beq_iff_eq] at class1
        omega
      rw [timer early notInvite]
      exact running
    · intro invite final _
      rw [method] at invite
      exact .inr (acks invite final)
    · intro outside
      have early : code < 100 := by omega
      have notInvite : w.method ≠ .invite := fun invite => absurd (least invite) (Nat.not_le.mpr early)
      refine Held.running (by rw [same,state]; decide) ?_
      rw [timer (by omega) notInvite]
      exact running
  · exact held (fun timer => nomatch timer)

omit keeps tends in
theorem onStateCompletedUacHeld (account : Account (clientKind m) w) (state : w.state = .completed)
    (event : Event) (held : event ≠ .timer .timeout → Held w) : Held (onStateCompletedUac tu o w event).2 := by
  have live : w.state.Live := by rw [state]; decide
  unfold onStateCompletedUac
  split
  · exact held (fun timer => nomatch timer)
  · exact (setStateEnded quiet _ _ _ _).held
  · split
    · exact (held (fun timer => nomatch timer)).tended (retransmitTended quiet account live false)
    · exact held (fun timer => nomatch timer)
  · exact held (fun timer => nomatch timer)
  · exact held (fun timer => nomatch timer)

omit keeps tends in
theorem onStateConfirmedHeld (event : Event) (held : event ≠ .timer .timeout → Held w) :
    Held (onStateConfirmed tu w event).2 := by
  unfold onStateConfirmed
  split
  · exact held (fun timer => nomatch timer)
  · exact held (fun timer => nomatch timer)
  · exact held (fun timer => nomatch timer)
  · exact (setStateEnded quiet _ _ _ _).held
  · exact held (fun timer => nomatch timer)

omit keeps tends in
theorem onStateTerminatedHeld (state : w.state = .terminated) (event : Event) :
    Held (onStateTerminated tu w event).2 := by
  unfold onStateTerminated
  split
  · have shut := setStateShut quiet w .timer
    refine Held.dead ?_
    rw [show (0, setState tu w .destroyed .timer false false).2.state = .destroyed from shut.state]
    decide
  · exact Held.dead (terminatedDead state)

theorem clientDispatch (account : Account (clientKind m) w) (client : w.role = .uac)
    (started : w.state ≠ .null) (event : Event) (held : event ≠ .timer .timeout → Held w)
    (orderly : w.state = .calling → ∀ code cseq, event = .rxMsg (.response code cseq) → Orderly w o code) :
    Held (dispatch tu o w event).2 := by
  have paired : w.stateHandler = stateHandlers w.role w.state := account.1.paired
  cases found : w.stateHandler with
  | none =>
    have legal : (stateHandlers w.role w.state).isSome = true := account.1.legal
    rw [← paired,found] at legal
    cases legal
  | some handler =>
    rw [found] at paired
    have state := handlerState paired
    rw [dispatchSome tu o _ found]
    cases handler with
    | null => exact absurd state started
    | calling => exact onStateCallingHeld quiet keeps tends account state client event held (orderly state)
    | trying => exact absurd (handlerRole paired rfl) (by rw [client]; decide)
    | proceedingUas => exact absurd (handlerRole paired rfl) (by rw [client]; decide)
    | proceedingUac => exact onStateProceedingUacHeld quiet keeps tends account state client event held
    | completedUas => exact absurd (handlerRole paired rfl) (by rw [client]; decide)
    | completedUac => exact onStateCompletedUacHeld quiet account state event held
    | confirmed => exact onStateConfirmedHeld quiet event held
    | terminated => exact onStateTerminatedHeld quiet state event
    | destroyed =>
      refine Held.dead ?_
      show State.terminated.num ≤ w.state.num
      rw [state]
      decide

end Handlers

theorem transportErrTimerDead (quiet : Quiet tu) (w : World) :
    (transportErrTimer tu w).state = .terminated := by
  simp only [transportErrTimer]
  generalize (if (updateTransport w none).statusCode < 200 then
    { updateTransport w none with statusCode := scTransportError } else updateTransport w none) = v
  have ended := setStateEnded quiet v .transportError true true
  have dead : Dead (setState tu v .terminated .transportError true true) := by
    refine ⟨ended.dead,?_⟩
    rw [ended.stateHandler,ended.role,ended.state]
    cases v.role <;> rfl
  obtain ⟨_,_,_,_,told⟩ := notifyQuiet quiet _ dead
  rw [told]
  exact ended.state

theorem timerCallbackHeld (quiet : Quiet tu) (keeps : Keeps (clientKind m) tu)
    (tends : Tends m tu) (account : Account (clientKind m) w) (client : w.role = .uac) (held : Held w)
    (entry : Entry) : Held (timerCallback tu o w entry) := by
  have taken : ∀ t t', ((w.setEntry entry t).setEntry entry t').books = w.books ∧
      (entry = .retransmit → Tended w ((w.setEntry entry t).setEntry entry t')) := by
    intro t t'
    cases entry with
    | retransmit => exact ⟨rfl,fun _ => Tended.unmoved rfl rfl rfl rfl⟩
    | timeout => exact ⟨rfl,fun other => by cases other⟩
  have state : ∀ t t', ((w.setEntry entry t).setEntry entry t').state = w.state := fun t t' =>
    congrArg Books.state (taken t t').1
  have once : ∀ t, (w.setEntry entry t).state = w.state := by
    intro t
    cases entry <;> rfl
  simp only [timerCallback]
  split
  · rename_i destroyed
    exact Held.dead (Nat.le_trans (by decide) destroyed)
  split
  · split
    · exact Held.dead (terminatedDead (transportErrTimerDead quiet _))
    · rename_i dead
      exact Held.dead (Nat.not_lt.mp dead)
  · refine clientDispatch quiet keeps tends (account.same (taken _ _).1)
      ((congrArg Books.role (taken _ _).1).trans client) ?_ _ ?_ ?_
    · rw [state]
      exact held.1
    · intro retransmit
      refine held.tended ((taken _ _).2 ?_)
      cases entry with
      | retransmit => rfl
      | timeout => exact absurd rfl retransmit
    · exact fun _ code cseq other => by cases other

theorem endpointDoneTended (quiet : Quiet tu)
    (account : Account (clientKind m) w) {index : Nat}
    (found : w.inFlight[index]? = some (.endpoint tdata)) (outcome : Outcome) (moreServers : Bool) :
    Tended w (endpointDone tu o w index tdata outcome moreServers) := by
  have tiedFacts := attachedAlone account found
  have result := endpointDoneResult tu o account found outcome moreServers
  generalize endpointDone tu o w index tdata outcome moreServers = after at result
  cases result with
  | detached => exact Tended.unmoved rfl rfl rfl rfl
  | sent tied tp =>
    have before : Tended w { w with
        inFlight := w.inFlight.eraseIdx index, refs := w.refs - 1, modData := detach w.modData tdata
        pendingTx := none } := Tended.unmoved rfl rfl rfl rfl
    exact before.trans (callbackSentTended o quiet _ tp account.1.destroy)
  | failed tied err =>
    obtain ⟨-,-,on,-,-,-⟩ := tiedFacts tied
    have live : w.state.Live := account.1.live on
    exact (callbackFailedEnded quiet _ err.code (by exact live)).tended rfl rfl
  | retried tied retried =>
    obtain ⟨_,_,rfl,keeps⟩ := retried
    exact ⟨rfl,rfl,.inr ⟨rfl,keeps⟩⟩

theorem transportCallbackTended (w : World) (inFlight : List Flight) (failed : Option Fault) :
    Tended w (transportCallback { w with inFlight := inFlight } failed) := by
  unfold transportCallback
  cases failed with
  | none => exact Tended.unmoved rfl rfl rfl rfl
  | some err =>
    have before : Tended w { w with inFlight := inFlight, pendingTransport := false } :=
      Tended.unmoved rfl rfl rfl rfl
    have posted := before.trans (postTransportErrorTended { w with
      inFlight := inFlight, pendingTransport := false } err.code)
    exact ⟨posted.role,posted.method,posted.state⟩

/- A client before its request, with nothing under way, or past it and armed. -/
structure Served (m : Method) (w : World) : Prop where
  account : Account (clientKind m) w
  progress : (w.state = .null ∧ w.transport = none ∧ w.inFlight = []) ∨ Held w

/- What a step must not bring a client: before its request a message, a timer, a resend or a refusal of the endpoint;
while it is calling, a response it cannot take; after the end a resend. -/
def Attended (w : World) (o : Oracle) (input : Input) : Prop :=
  Timely w o input ∧
    (w.state = .null → (∀ msg, input ≠ .recv msg) ∧ (∀ entry, input ≠ .expire entry) ∧
      (∀ given checked, input ≠ .call (.retransmitNoState given checked)) ∧ NoRefusal o) ∧
    (w.state = .calling → ∀ code cseq, input = .recv (.response code cseq) → Orderly w o code)

/- An event handler or a callback of the transaction runs in this step. -/
def Handles (w : World) : Input → Prop
  | .call (.sendMsg tdata) => (tdata.or w.lastTx).isSome = true
  | .call _ => False
  | .recv _ => True
  | .expire entry => (w.entry entry).running = true
  | .transportDone index _ => ∃ tdata, w.inFlight[index]? = some (.transport tdata)
  | .endpointDone index _ _ => ∃ tdata, w.inFlight[index]? = some (.endpoint tdata)
  | .transportDown _ => w.transport.isSome = true

theorem nullUserOp (quiet : Quiet tu) (keeps : Keeps (clientKind m) tu)
    (tends : Tends m tu) (account : Account (clientKind m) w)
    (fresh : w.state = .null ∧ w.transport = none ∧ w.inFlight = []) (granted : NoRefusal o) (op : UserOp)
    (first : ∀ given checked, op ≠ .retransmitNoState given checked) :
    ((userOp tu o w op).state = .null ∧ (userOp tu o w op).transport = none ∧
      (userOp tu o w op).inFlight = [] ∧ ¬ Handles w (.call op)) ∨ Held (userOp tu o w op) := by
  have client : w.role = .uac := account.1.role
  cases op with
  | retransmitNoState given checked => exact absurd rfl (first given checked)
  | sendMsg tdata =>
    simp only [userOp,pjsipTsxSendMsg,Handles]
    split
    · rename_i none
      rw [none]
      exact .inl ⟨fresh.1,fresh.2.1,fresh.2.2,Bool.false_ne_true⟩
    · have handler : w.stateHandler = some .null := by
        rw [show w.stateHandler = _ from account.1.paired]
        show stateHandlers w.role w.state = _
        rw [fresh.1,client]
        rfl
      rw [dispatchSome tu o _ handler]
      exact .inr (onStateNullHeld quiet keeps tends account fresh.1 client _ granted)
  | terminate =>
    simp only [userOp,pjsipTsxTerminate]
    split
    · exact .inl ⟨fresh.1,fresh.2.1,fresh.2.2,id⟩
    split
    · exact .inr (setStateEnded quiet _ _ _ _).held
    · exact .inl ⟨fresh.1,fresh.2.1,fresh.2.2,id⟩
  | stopRetransmit =>
    obtain ⟨_,_,_,_,result⟩ := stopRetransmitIdle w
    simp only [userOp]
    rw [result]
    exact .inl ⟨fresh.1,fresh.2.1,fresh.2.2,id⟩
  | setTimeout millisec =>
    obtain ⟨_,_,_,_,result⟩ := setTimeoutIdle w millisec
    simp only [userOp]
    rw [result]
    exact .inl ⟨fresh.1,fresh.2.1,fresh.2.2,id⟩
  | handle200resp value => exact .inl ⟨fresh.1,fresh.2.1,fresh.2.2,id⟩

theorem nullStep (depth : Nat) {input : Input} (account : Account (clientKind m) w)
    (fresh : w.state = .null ∧ w.transport = none ∧ w.inFlight = []) (attended : Attended w o input) :
    ((step depth w o input).state = .null ∧ (step depth w o input).transport = none ∧
      (step depth w o input).inFlight = [] ∧ ¬ Handles w input) ∨ Held (step depth w o input) := by
  obtain ⟨timely,before,-⟩ := attended
  obtain ⟨noMessage,noTimer,noResend,granted⟩ := before fresh.1
  have none : ∀ index : Nat, w.inFlight[index]? = .none := by
    intro index
    rw [fresh.2.2]
    rfl
  cases input with
  | call op =>
    have reset : Account (clientKind m) { w with clock := 0 } := account.same rfl
    exact nullUserOp (w := { w with clock := 0 }) (reactionQuiet timely.1 depth)
      (reactionKeeps False.elim timely.1 depth) (reactionTends m timely.1 depth) reset fresh granted op
      (fun given checked same => noResend given checked (congrArg Input.call same))
  | recv msg => exact absurd rfl (noMessage msg)
  | expire entry => exact absurd rfl (noTimer entry)
  | transportDone =>
    refine .inl ?_
    simp only [step,none,Handles]
    exact ⟨fresh.1,fresh.2.1,fresh.2.2,by simp⟩
  | endpointDone =>
    refine .inl ?_
    simp only [step,none,Handles]
    exact ⟨fresh.1,fresh.2.1,fresh.2.2,by simp⟩
  | transportDown err =>
    have still : step depth w o (.transportDown err) = { w with clock := 0 } := by
      simp [step,fresh.2.1]
    rw [still]
    exact .inl ⟨fresh.1,fresh.2.1,fresh.2.2,by simp [Handles,fresh.2.1]⟩

theorem heldStep (depth : Nat) {input : Input} (account : Account (clientKind m) w)
    (held : Held w) (attended : Attended w o input) : Held (step depth w o input) := by
  obtain ⟨timely,-,orderly⟩ := attended
  have quiet := reactionQuiet timely.1 depth
  have keeps : Keeps (clientKind m) (reaction o depth) := reactionKeeps False.elim timely.1 depth
  have tends := reactionTends m timely.1 depth
  have client : w.role = .uac := account.1.role
  have reset : Account (clientKind m) { w with clock := 0 } := account.same rfl
  have held' : Held { w with clock := 0 } := held.tended (Tended.unmoved rfl rfl rfl rfl)
  simp only [step]
  cases input with
  | call op => exact held'.tended (userOpTended o quiet reset client held.1 op (timely.2 op rfl))
  | recv =>
    refine clientDispatch quiet keeps tends reset client held.1 _ (fun _ => held') ?_
    intro calling code cseq received
    cases received
    exact orderly calling code cseq rfl
  | expire entry =>
    dsimp only
    split
    · exact timerCallbackHeld quiet keeps tends reset client held' entry
    · exact held'
  | transportDone index failed =>
    dsimp only
    split
    · exact held'.tended (transportCallbackTended { w with clock := 0 } _ failed)
    · exact held'
  | endpointDone index outcome moreServers =>
    dsimp only
    split
    · rename_i found
      exact held'.tended (endpointDoneTended quiet reset found outcome moreServers)
    · exact held'
  | transportDown err =>
    dsimp only
    split
    · exact held'.tended (postTransportErrorTended _ err)
    · exact held'

theorem servedStep (depth : Nat) (w : World) (o : Oracle) (input : Input) (served : Served m w)
    (attended : Attended w o input) : Served m (step depth w o input) := by
  refine ⟨stepAccount False.elim depth served.account input attended.1,?_⟩
  rcases served.progress with fresh | held
  · rcases nullStep depth served.account fresh attended with ⟨null,transport,inFlight,-⟩ | held
    · exact .inl ⟨null,transport,inFlight⟩
    · exact .inr held
  · exact .inr (heldStep depth served.account held attended)

/- Whatever the order of events, a client that has handled one is terminated, waits as an INVITE transaction for
the final response, or has its timeout timer running. -/
theorem clientNeverStuck (depth : Nat) (w : World) (created : Created w) (client : w.role = .uac)
    (steps : List (Oracle × Input)) (o : Oracle) (input : Input)
    (attended : Meets Attended depth w (steps ++ [(o, input)]))
    (handles : Handles (run depth w steps) input) : Armed (run depth w (steps ++ [(o, input)])) := by
  have fresh := createdFresh created
  have start : Served w.method w := by
    have account := fresh.account False
    rw [client] at account
    exact ⟨account,.inl ⟨fresh.state,(fresh.client client).2,fresh.inFlight⟩⟩
  obtain ⟨before,last⟩ := meetsAppend attended
  have served := runInvariant depth (fun w o input => servedStep (m := _) depth w o input) steps w start before
  have result : run depth w (steps ++ [(o, input)]) = step depth (run depth w steps) o input := by
    simp [run]
  rw [result]
  rcases served.progress with null | held
  · rcases nullStep depth served.account null last with ⟨-,-,-,idle⟩ | held
    · exact absurd handles idle
    · exact held.2
  · exact (heldStep depth served.account held last).2

/- An INVITE that is answered with 486 and whose ACK waits behind the request. -/
theorem answeredClientArmed :
    Armed (run 1 (clientOf .invite)
      ([(pendingOracle, .call (.sendMsg none))] ++ [(pendingOracle, .recv (.response 486 .invite))])) := by
  refine clientNeverStuck 1 (clientOf .invite) (clientCreated .invite (by decide)) rfl
    [(pendingOracle, .call (.sendMsg none))] pendingOracle (.recv (.response 486 .invite)) ?_ trivial
  have sends : Timely (clientOf .invite) pendingOracle (.call (.sendMsg none)) :=
    ⟨pendingTimely,fun op same => by cases same; trivial⟩
  refine ⟨⟨sends,fun _ => ⟨by simp,by simp,by simp,pendingNoRefusal⟩,fun calling => by cases calling⟩,
    ⟨⟨pendingTimely,by simp⟩,fun null => absurd null (by decide),fun _ code cseq received => ?_⟩,trivial⟩
  cases received
  exact ⟨fun _ => by decide,by decide,fun _ _ => ⟨fun _ => ⟨0,rfl⟩,pendingNoRefusal⟩⟩

/- Surroundings in which the ACK cannot be made: pjsip_endpt_create_ack has no memory. -/
def ackOracle : Oracle := { pendingOracle with ack := fun _ => .error ⟨70007,by decide⟩ }

/- An INVITE that is answered with 486 and whose ACK cannot be made stays in the calling state for ever. -/
theorem unacknowledgedClientStuck :
    let w' := run 1 (clientOf .invite)
      [(pendingOracle, .call (.sendMsg none)),(ackOracle, .recv (.response 486 .invite))]
    w'.role = .uac ∧ w'.state = .calling ∧ w'.timeoutTimer.running = false ∧ w'.retransmitTimer.running = false ∧
      ¬ Armed w' := by
  unfold Armed
  decide

end Pjproject.Tsx
