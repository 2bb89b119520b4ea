import Pjproject.TsxPending
import Pjproject.TsxMachine

/-! The transaction of the source follows the abstract machine: every handler, callback and timer is a sequence
of moves, as long as a resend left over from an earlier send does not run inside a later one. -/
namespace Pjproject.Tsx

def World.core (w : World) : Core where
  role := w.role
  method := w.method
  state := w.state
  stateHandler := w.stateHandler
  statusCode := w.statusCode
  lastTx := w.lastTx
  trail := w.trail
  missing := w.missing

/- The endpoint sends the message before it returns. -/
def AtOnce (reply : EndpointReply) : Prop := ∃ attempts tp, reply = .accepted attempts (.done (.sent tp))

/- No resend is left over from a send that is finished, unless the endpoint sends nothing at once or is not
asked. -/
def Prompt (o : Oracle) (w : World) : Prop :=
  w.pendingSend = true → w.pendingTransport = false → w.resolvedServer = false →
    w.state.Live → ∀ n, ¬ AtOnce (o.endpoint n)

variable {w w' : World}

theorem Prompt.busy {o : Oracle} (on : w.pendingTransport = true) : Prompt o w :=
  fun _ off => by cases on.symm.trans off

theorem Prompt.spent {o : Oracle} (none : w.pendingSend = false) : Prompt o w :=
  fun left => by cases none.symm.trans left

theorem Prompt.dead {o : Oracle} (dead : State.terminated.num ≤ w.state.num) : Prompt o w :=
  fun _ _ _ live => absurd dead (Nat.not_le.mpr live)

theorem Prompt.same {o : Oracle} (prompt : Prompt o w) (send : w'.pendingSend = w.pendingSend)
    (flag : w'.pendingTransport = w.pendingTransport) (resolved : w'.resolvedServer = w.resolvedServer)
    (state : w'.state = w.state) : Prompt o w' := by
  unfold Prompt
  rw [send,flag,resolved,state]
  exact prompt

theorem terminatedHandler (role : Role) : stateHandlers role .terminated = some .terminated := by
  cases role <;> rfl

theorem Ended.core {source : Source} (ended : Ended w source w') : w'.core = w.core.enter .terminated source := by
  unfold World.core Core.enter
  rw [ended.state,ended.stateHandler,ended.trail,ended.role,ended.method,ended.missing,ended.statusCode,
    ended.lastTx]
  simp only [terminatedHandler]

theorem Shut.core {source : Source} (shut : Shut w source w') :
    w'.core = Core.enter { w.core with lastTx := none } .destroyed source := by
  have handler : stateHandlers w.role .destroyed = some .destroyed := by cases w.role <;> rfl
  unfold World.core Core.enter
  rw [shut.state,shut.stateHandler,shut.trail,shut.role,shut.method,shut.missing,shut.statusCode,shut.lastTx]
  simp only [handler]

theorem idleCore (idle : Idle w w') : w'.core = w.core := by
  obtain ⟨_,_,_,_,rfl⟩ := idle
  rfl

/- What a send does to the machine: nothing, or the transaction terminates with an error. -/
inductive Passed (w : World) (tdata : TxData) (r : Nat × World) : Prop where
  | kept (core : r.2.core = w.core) (status : r.1 = 0 ∨ tdata.msg.isRequest = true) : Passed w tdata r
  | ended (error : r.1 ≠ 0) (code : Nat)
      (core : r.2.core = Core.enter { w.core with statusCode := code } .terminated .transportError) :
      Passed w tdata r

theorem Unrouted.core {v : World} (unrouted : Unrouted w v) : v.core = w.core := by
  obtain ⟨_,_,rfl,-⟩ := unrouted
  rfl

theorem retiredPassed {tu : World → World} (quiet : Quiet tu) {v : World} (unrouted : Unrouted w v)
    (tdata : TxData) {status : Nat} (error : status ≠ 0) : Passed w tdata
      (status, setState tu { v with statusCode := scTransportError } .terminated .transportError false false) := by
  have ended := setStateEnded quiet { v with statusCode := scTransportError } .transportError false false
  refine .ended error scTransportError (ended.core.trans ?_)
  show Core.enter { v.core with statusCode := scTransportError } _ _ = _
  rw [unrouted.core]

theorem plainSentPassed {tu : World → World} {o : Oracle} (quiet : Quiet tu) {tdata : TxData}
    {r : Nat × World} (resolved : w.resolvedServer = true) (sent : Sent tu o w tdata r) : Passed w tdata r := by
  cases sent with
  | deferred => exact .kept rfl (.inl rfl)
  | quiet => exact .kept rfl (.inl rfl)
  | pending => exact .kept rfl (.inl rfl)
  | retired off unrouted resolved' error => exact retiredPassed quiet unrouted tdata error
  | refused off fresh | refusedResponse off fresh | waiting off fresh | answered off fresh | failed off fresh =>
    exact absurd resolved (by rw [fresh]; decide)

theorem answeredKept {tu : World → World} {o : Oracle} {u : World} (destroy : u.pendingDestroy = false)
    (none : u.pendingSend = false) (tp : Transport) :
    (callbackSent tu o u tp).core = u.core ∧ (callbackSent tu o u tp).pendingSend = false := by
  obtain ⟨v,transported,result⟩ := callbackSentCases tu o u tp destroy
  rcases result with ⟨-,later⟩ | ⟨left,-⟩
  · obtain ⟨_,_,_,_,rfl,-⟩ := transported
    obtain ⟨_,_,same⟩ := later
    rw [same]
    exact ⟨rfl,none⟩
  · cases none.symm.trans left

theorem sentPassed {k : Kind} {tu : World → World} {o : Oracle} (quiet : Quiet tu) {tdata : TxData}
    {r : Nat × World} (account : Account k w) (live : w.state.Live) (prompt : Prompt o w)
    (sent : Sent tu o w tdata r) : Passed w tdata r ∧ Prompt o r.2 := by
  cases sent with
  | deferred on => exact ⟨.kept rfl (.inl rfl),Prompt.busy on⟩
  | quiet => exact ⟨.kept rfl (.inl rfl),prompt.same rfl rfl rfl rfl⟩
  | pending => exact ⟨.kept rfl (.inl rfl),Prompt.busy rfl⟩
  | @retired off v unrouted resolved status error =>
    have ended := setStateEnded quiet { v with statusCode := scTransportError } .transportError false false
    exact ⟨retiredPassed quiet unrouted tdata error,Prompt.dead ended.dead⟩
  | refused off fresh unrouted reply request => exact ⟨.kept unrouted.core (.inr request),Prompt.busy rfl⟩
  | refusedResponse off fresh unrouted err addr =>
    rw [unrouted.addr account live] at addr
    cases addr
  | waiting off fresh unrouted retried =>
    obtain ⟨_,_,rfl,-⟩ := retried
    exact ⟨.kept unrouted.core (.inl (if_neg (liveNotTerminated live))),Prompt.busy rfl⟩
  | @answered off fresh v unrouted count timeout keeps tp reply w' result =>
    have none : w.pendingSend = false := by
      rcases reply with ⟨n,attempts,atOnce⟩ | addr
      · cases left : w.pendingSend with
        | false => rfl
        | true => exact absurd ⟨attempts,tp,atOnce⟩ (prompt left off fresh live n)
      · rw [unrouted.addr account live] at addr
        cases addr
    have before : v.pendingDestroy = false ∧ v.pendingSend = false := by
      obtain ⟨_,_,rfl,-⟩ := unrouted
      exact ⟨account.1.destroy,none⟩
    have kept := @answeredKept tu o (settled v tdata count timeout) before.1 before.2 tp
    rw [← result] at kept
    have core : w'.core = w.core := kept.1.trans unrouted.core
    have state : w'.state = w.state := congrArg Core.state core
    exact ⟨.kept core (.inl (if_neg (by rw [state]; exact liveNotTerminated live))),Prompt.spent kept.2⟩
  | @failed off fresh v unrouted count timeout err w' result =>
    have live' : v.state.Live := by
      rw [show v.state = w.state from congrArg Core.state unrouted.core]
      exact live
    have ended := callbackFailedEnded quiet (settled v tdata count timeout) err.code live'
    rw [← result] at ended
    refine ⟨.ended ?_ (failureCode err.code) (ended.core.trans ?_),Prompt.dead ended.dead⟩
    · show (if w'.state = .terminated then w'.transportErr else 0) ≠ 0
      rw [if_pos ended.state,ended.transportErr]
      exact err.isError
    · show Core.enter { v.core with statusCode := failureCode err.code } _ _ = _
      rw [unrouted.core]

/- A world that differs in its timers and what goes with them. -/
structure Alike (w w' : World) : Prop where
  books : w'.books = w.books
  core : w'.core = w.core
  send : w'.pendingSend = w.pendingSend

theorem Alike.state (alike : Alike w w') : w'.state = w.state := congrArg Core.state alike.core

theorem Alike.prompt {o : Oracle} (alike : Alike w w') (prompt : Prompt o w) : Prompt o w' :=
  prompt.same alike.send (congrArg Books.pendingTransport alike.books) (congrArg Books.resolvedServer alike.books)
    alike.state

theorem startRetransmitAlike (w : World) (delay : Nat) : Alike w (startRetransmit w delay) := by
  simp only [startRetransmit]
  split <;> exact ⟨rfl,rfl,rfl⟩

theorem reschedRetransmissionAlike (w : World) : Alike w (reschedRetransmission w) := by
  unfold reschedRetransmission
  split <;> exact ⟨rfl,rfl,rfl⟩

theorem postTransportErrorAlike (w : World) (err : Nat) : Alike w (postTransportError w err) := by
  simp only [postTransportError]
  split <;> exact ⟨rfl,rfl,rfl⟩

theorem dropLastCore (w : World) (tdata : TxData) :
    ∃ last, (dropLast w tdata).core = { w.core with lastTx := last } := by
  unfold dropLast
  split
  · split <;> exact ⟨_,rfl⟩
  · exact ⟨_,rfl⟩

theorem dropLastSend (w : World) (tdata : TxData) : (dropLast w tdata).pendingSend = w.pendingSend := by
  unfold dropLast
  split
  · split <;> rfl
  · rfl

structure Sound (irregular : Prop) (k : Kind) (o : Oracle) (w : World) : Prop where
  account : Account k w
  prompt : Prompt o w
  stored : Stored irregular w.core

/- A handler has brought the machine from c along its moves. -/
def Reaches (irregular : Prop) (o : Oracle) (c : Core) (w : World) : Prop :=
  Path irregular c w.core ∧ Prompt o w

/- The reaction of the user follows the machine. -/
def Follows (irregular : Prop) (k : Kind) (o : Oracle) (tu : World → World) : Prop :=
  ∀ w, Sound irregular k o w → Reaches irregular o w.core (tu w)

theorem Reaches.alike {irregular : Prop} {o : Oracle} {c : Core} (reaches : Reaches irregular o c w)
    (alike : Alike w w') : Reaches irregular o c w' := by
  refine ⟨?_,alike.prompt reaches.2⟩
  rw [alike.core]
  exact reaches.1

theorem Reaches.stay {irregular : Prop} {o : Oracle} (prompt : Prompt o w) :
    Reaches irregular o w.core w := ⟨.refl,prompt⟩

section Walk

variable {irregular : Prop} {k : Kind} {o : Oracle} {tu : World → World}

variable {c : Core} {w : World} {code : Nat} {last : Option TxData}

theorem notifyReaches (follows : Follows irregular k o tu)
    (stored : Stored irregular c) (account : Account k w) (reaches : Reaches irregular o c w) :
    Reaches irregular o c (notify tu w) := by
  unfold notify
  split
  · have sound : Sound irregular k o w := ⟨account,reaches.2,pathStored reaches.1 stored⟩
    have after := follows w sound
    exact ⟨reaches.1.trans after.1,after.2⟩
  · exact reaches

theorem setStateReaches (keeps : Keeps k tu) (follows : Follows irregular k o tu)
    (stored : Stored irregular c) (account : Account k w) (live : w.state.Live)
    (prompt : Prompt o w) (s : State) (source : Source) (below : s.Live)
    (legal : (stateHandlers w.role s).isSome = true) (path : Path irregular c (w.core.enter s source)) :
    Reaches irregular o c (setState tu w s source false false) := by
  have entered := enterAccount account (.inl live) s below legal source
  have start : Reaches irregular o c (enter w s source) := ⟨path,fun send flag resolved _ => prompt send flag resolved live⟩
  rw [setStateLive tu w s source below]
  unfold informed
  refine notifyReaches follows stored ?_ ?_
  · split
    · exact notifyAccount keeps entered
    · exact entered
  · split
    · exact notifyReaches follows stored entered start
    · exact start

theorem terminatedReaches (quiet : Quiet tu) (source : Source) (noNotify noSchedule : Bool)
    (path : Path irregular c (w.core.enter .terminated source)) :
    Reaches irregular o c (setState tu w .terminated source noNotify noSchedule) := by
  have ended := setStateEnded quiet w source noNotify noSchedule
  refine ⟨?_,Prompt.dead ended.dead⟩
  rw [ended.core]
  exact path

theorem retiredReaches (quiet : Quiet tu) (live : c.state.Live)
    (core : w.core = { c with statusCode := code, lastTx := last })
    (source : Source) (noNotify noSchedule : Bool) :
    Reaches irregular o c (setState tu w .terminated source noNotify noSchedule) := by
  refine terminatedReaches quiet source noNotify noSchedule (.single ?_)
  rw [core]
  exact Move.retire live code last source

variable (quiet : Quiet tu)

include quiet

theorem sendMsgPassed (account : Account k w) (live : w.state.Live)
    (prompt : Prompt o w) (tdata : TxData) :
    Passed w tdata (sendMsg tu o w (some tdata)) ∧ Prompt o (sendMsg tu o w (some tdata)).2 :=
  sentPassed quiet account live prompt (sendMsgSent tu o w tdata account.1.destroy)

theorem resentReaches (account : Account k w) (live : w.state.Live)
    (prompt : Prompt o w) (tdata : TxData) : Reaches irregular o w.core (sendMsg tu o w (some tdata)).2 := by
  obtain ⟨passed,prompt'⟩ := sendMsgPassed quiet account live prompt tdata
  refine ⟨?_,prompt'⟩
  cases passed with
  | kept core => exact core ▸ Relation.ReflTransGen.refl
  | ended _ code core =>
    rw [core]
    exact .single (Move.retire live code w.core.lastTx .transportError)

theorem retransmitReaches (account : Account k w) (live : w.state.Live)
    (prompt : Prompt o w) (resched : Bool) : Reaches irregular o w.core (retransmit tu o w resched).2 := by
  have later : ∀ v : World, Alike w v → ∀ tdata, Reaches irregular o w.core (sendMsg tu o v (some tdata)).2 := by
    intro v alike tdata
    rw [← alike.core]
    exact resentReaches quiet (account.same alike.books) (alike.state ▸ live) (alike.prompt prompt) tdata
  unfold retransmit
  split
  · exact Reaches.stay prompt
  · split
    · exact Reaches.stay prompt
    · refine later _ ?_ _
      split
      · split
        · exact ⟨rfl,rfl,rfl⟩
        · have alike := reschedRetransmissionAlike { w with retransmitCount := w.retransmitCount + 1 }
          exact ⟨alike.books,alike.core,alike.send⟩
      · exact ⟨rfl,rfl,rfl⟩

variable (granted : k.strict → NoRefusal o) (keeps : Keeps k tu) (follows : Follows irregular k o tu)

include granted keeps follows

theorem onStateNullReaches (sound : Sound irregular k o w) (state : w.state = .null) (event : Event) :
    Reaches irregular o w.core (onStateNull tu o w event).2 := by
  have live : w.state.Live := by rw [state]; decide
  unfold onStateNull
  split
  · rename_i server
    exact setStateReaches keeps follows sound.stored sound.account live sound.prompt .trying _ (by decide)
      (by rw [server]; rfl) (.single (Move.accept server state _))
  · rename_i notServer
    have client : w.role = .uac := by
      cases role : w.role with
      | uac => rfl
      | uas => exact absurd role notServer
    split
    · rename_i tdata
      let saved : World := { w with lastTx := some tdata }
      have account : Account k saved := sound.account.same rfl
      obtain ⟨passed,prompt⟩ := sendMsgPassed (w := saved) quiet account live (sound.prompt.same rfl rfl rfl rfl) tdata
      have accounted := (sendMsgAccount (w := saved) granted quiet account live (some tdata)).1
      generalize result : sendMsg tu o saved (some tdata) = r at passed prompt accounted
      obtain ⟨status,w'⟩ := r
      dsimp only
      cases passed with
      | ended error code core =>
        rw [if_pos error]
        refine ⟨?_,prompt⟩
        rw [core]
        exact .single (Move.retire live code (some tdata) .transportError)
      | kept core =>
        split
        · refine ⟨?_,prompt⟩
          rw [core]
          exact .single (Move.record client w.statusCode (some tdata))
        · -- the timers are armed before the calling state is entered
          have calls : ∀ armed : World, Alike w' armed →
              Reaches irregular o w.core (setState tu armed .calling .txMsg false false) := by
            intro armed alike
            have here : armed.state = w.state := congrArg Core.state (alike.core.trans core)
            have role : armed.role = w.role := congrArg Core.role (alike.core.trans core)
            refine setStateReaches keeps follows sound.stored (accounted.same alike.books) (here ▸ live)
              (alike.prompt prompt) .calling _ (by decide) (by rw [role,client]; rfl) ?_
            rw [alike.core,core]
            exact .single (Move.request client state tdata)
          refine calls _ ?_
          split
          · exact ⟨rfl,rfl,rfl⟩
          · have alike := startRetransmitAlike (w'.cancelTimeout.scheduleTimeout timeoutVal .timeout) t1
            exact ⟨alike.books,alike.core,alike.send⟩
    · exact Reaches.stay sound.prompt

omit quiet granted in
theorem completeUacReaches (stored : Stored irregular c) (account : Account k w)
    (live : w.state.Live) (prompt : Prompt o w) (client : w.role = .uac) (msg : Msg)
    (ack : Option TxData) (path : Path irregular c (w.core.enter .completed (.rxMsg msg))) :
    Reaches irregular o c (completeUac tu w msg ack) := by
  have entered := setStateReaches keeps follows stored account live prompt .completed _ (by decide)
    (shared w.role .completed (by decide) (by decide)) path
  have role : (setState tu w .completed (.rxMsg msg) false false).role = .uac :=
    ((pathUp entered.1).1.trans (pathUp path).1.symm).trans client
  unfold completeUac
  generalize setState tu w .completed (.rxMsg msg) false false = v at entered role
  cases ack with
  | none => exact entered.alike ⟨rfl,rfl,rfl⟩
  | some tdata => exact ⟨entered.1.tail (Move.record role _ (some tdata)),entered.2.same rfl rfl rfl rfl⟩

theorem uacResponseReaches (sound : Sound irregular k o w) (client : w.role = .uac)
    (open_ : w.state = .calling ∨ w.state = .proceeding) (msg : Msg) (code : Nat) :
    Reaches irregular o w.core (uacResponse tu o w msg code).2 := by
  have live : w.state.Live := by
    rcases open_ with state | state <;> rw [state] <;> decide
  have coded : Account k { w with statusCode := code } := sound.account.same rfl
  have prompt : Prompt o { w with statusCode := code } := sound.prompt.same rfl rfl rfl rfl
  have legal : ∀ s, s ≠ .calling → s ≠ .trying → (stateHandlers w.role s).isSome = true := shared w.role
  have record : Path irregular w.core ({ w with statusCode := code } : World).core :=
    .single (Move.record client code w.lastTx)
  have completes : Path irregular w.core
      (({ w with statusCode := code } : World).core.enter .completed (.rxMsg msg)) :=
    .single (Move.completed client open_ code _)
  simp only [uacResponse]
  split
  · exact setStateReaches (w := { w with statusCode := code }) keeps follows sound.stored coded live prompt .proceeding
      _ (by decide) (legal _ (by decide) (by decide)) (.single (Move.answered client open_ code _))
  split
  · split
    · exact retiredReaches quiet live rfl _ _ _
    · refine setStateReaches keeps follows sound.stored ?_ ?_ ?_ .completed _ (by decide) ?_ ?_
      · exact coded.same rfl
      · exact live
      · exact prompt.same rfl rfl rfl rfl
      · exact legal _ (by decide) (by decide)
      · exact completes
  split
  · have stopped : Account k ({ w with statusCode := code } : World).cancelRetransmit.cancelTimeout := coded.same rfl
    split
    · split
      · exact ⟨record,prompt.same rfl rfl rfl rfl⟩
      · rename_i id _
        let asked : World := (({ w with statusCode := code } : World).cancelRetransmit.cancelTimeout).tick
        have account : Account k asked := stopped.same rfl
        obtain ⟨passed,prompt'⟩ := sendMsgPassed (w := asked) quiet account live (prompt.same rfl rfl rfl rfl)
          ⟨id,.request .ack⟩
        have accounted := (sendMsgAccount (w := asked) granted quiet account live (some ⟨id,.request .ack⟩)).1
        generalize sendMsg tu o asked (some ⟨id,.request .ack⟩) = r at passed prompt' accounted
        cases passed with
        | ended error code' core =>
          rw [if_pos error]
          refine ⟨?_,prompt'⟩
          rw [core]
          exact .single (Move.retire live code' w.lastTx .transportError)
        | kept core =>
          have core' : r.2.core = ({ w with statusCode := code } : World).core := core
          have state : r.2.state = w.state := congrArg Core.state core
          split
          · exact ⟨by rw [core']; exact record,prompt'⟩
          · refine completeUacReaches keeps follows sound.stored accounted (state ▸ live) prompt'
              ((congrArg Core.role core).trans client) msg _ ?_
            rw [core']
            exact completes
    · exact completeUacReaches keeps follows sound.stored stopped live (prompt.same rfl rfl rfl rfl) client msg none
        completes
  · exact ⟨record,prompt⟩

theorem onStateProceedingUacReaches (sound : Sound irregular k o w) (client : w.role = .uac)
    (open_ : w.state = .calling ∨ w.state = .proceeding) (event : Event) :
    Reaches irregular o w.core (onStateProceedingUac tu o w event).2 := by
  have live : w.state.Live := by
    rcases open_ with state | state <;> rw [state] <;> decide
  unfold onStateProceedingUac
  split
  · exact Reaches.stay sound.prompt
  · exact Reaches.stay sound.prompt
  · exact uacResponseReaches quiet granted keeps follows sound client open_ _ _
  · exact retransmitReaches quiet sound.account live sound.prompt true
  · exact retiredReaches quiet live rfl _ _ _

theorem onStateCallingReaches (sound : Sound irregular k o w) (client : w.role = .uac)
    (state : w.state = .calling) (event : Event) : Reaches irregular o w.core (onStateCalling tu o w event).2 := by
  have live : w.state.Live := by rw [state]; decide
  unfold onStateCalling
  split
  · exact retransmitReaches quiet sound.account live sound.prompt true
  · exact retiredReaches quiet live rfl _ _ _
  · exact Reaches.stay sound.prompt
  · -- the timers move, then the response is taken as in the proceeding state
    have goes : ∀ v : World, Alike w v → ∀ event,
        Reaches irregular o w.core (onStateProceedingUac tu o v event).2 := by
      intro v alike event
      have sound' : Sound irregular k o v :=
        ⟨sound.account.same alike.books,alike.prompt sound.prompt,alike.core ▸ sound.stored⟩
      rw [← alike.core]
      exact onStateProceedingUacReaches quiet granted keeps follows sound'
        ((congrArg Core.role alike.core).trans client) (.inl (alike.state.trans state)) event
    refine goes _ ?_ _
    split
    · split <;> exact ⟨rfl,rfl,rfl⟩
    · split
      · exact ⟨rfl,rfl,rfl⟩
      · split <;> exact ⟨rfl,rfl,rfl⟩
  · exact Reaches.stay sound.prompt

/- A server that has sent a response has moved on, if the response is a regular one. -/
def Forward (irregular : Prop) (w : World) : Prop := irregular ∨ State.proceeding.num ≤ w.state.num

omit quiet granted keeps follows in
theorem Forward.after {d : Core} {s : State} {source : Source} (move : Move irregular c (d.enter s source))
    (above : State.proceeding.num ≤ s.num) (reaches : Reaches irregular o (d.enter s source) w) :
    Reaches irregular o c w ∧ Forward irregular w :=
  ⟨⟨reaches.1.head move,reaches.2⟩,.inr (Nat.le_trans above (pathUp reaches.1).2.2)⟩

omit quiet granted in
theorem uasProvisionalReaches (stored : Stored irregular c) (account : Account k w)
    (live : w.state.Live) (prompt : Prompt o w) (tdata : TxData)
    (path : Path irregular c (Core.enter { w.core with lastTx := some tdata } .proceeding .txMsg)) :
    Reaches irregular o c (uasProvisional tu w tdata) := by
  have entered := setStateReaches (w := { w with lastTx := some tdata }) keeps follows stored (account.same rfl)
    live (prompt.same rfl rfl rfl rfl) .proceeding _ (by decide) (shared w.role .proceeding (by decide) (by decide)) path
  simp only [uasProvisional]
  generalize setState tu { w with lastTx := some tdata } .proceeding .txMsg false false = v at entered
  split
  · have alike := startRetransmitAlike v.cancelRetransmit (retrans1xxDelay * 1000)
    exact entered.alike ⟨alike.books,alike.core,alike.send⟩
  · exact entered

omit granted in
theorem uasSuccessReaches (stored : Stored irregular c) (open_ : c.state.Live)
    (account : Account k w)
    (core : w.core = { c with statusCode := code, lastTx := last })
    (prompt : Prompt o w) (tdata : TxData)
    (move : Move irregular c (Core.enter { w.core with lastTx := some tdata } .completed .txMsg)) :
    Reaches irregular o c (uasSuccess tu w tdata) ∧ Forward irregular (uasSuccess tu w tdata) := by
  have live : w.state.Live := by
    rw [show w.state = c.state from congrArg Core.state core]
    exact open_
  simp only [uasSuccess]
  split
  · refine Forward.after (Move.retire open_ code last .txMsg) (by decide) ?_
    refine terminatedReaches quiet _ _ _ ?_
    rw [show w.cancelRetransmit.core = _ from core]
    exact Relation.ReflTransGen.refl
  · refine Forward.after move (by decide) ?_
    have completes : ∀ v : World, Alike w v →
        Reaches irregular o (Core.enter { w.core with lastTx := some tdata } .completed .txMsg)
          (setState tu ({ v with lastTx := some tdata }.cancelTimeout.scheduleTimeout
            (timerH { v with lastTx := some tdata }) .timeout) .completed .txMsg false false) := by
      intro v alike
      refine setStateReaches keeps follows (moveStored move stored) ?_ ?_ ?_ .completed _ (by decide) ?_ ?_
      · exact account.same alike.books
      · exact alike.state ▸ live
      · exact (alike.prompt prompt).same rfl rfl rfl rfl
      · exact shared v.role .completed (by decide) (by decide)
      · show Path irregular _ (Core.enter { v.core with lastTx := some tdata } .completed .txMsg)
        rw [alike.core]
        exact Relation.ReflTransGen.refl
    refine completes _ ?_
    split
    · have alike := startRetransmitAlike w.cancelRetransmit t1
      exact ⟨alike.books,alike.core,alike.send⟩
    · exact ⟨rfl,rfl,rfl⟩

omit quiet granted in
theorem uasFailureReaches (stored : Stored irregular c) (account : Account k w)
    (live : w.state.Live) (prompt : Prompt o w) (tdata : TxData) (cseq : Method)
    (path : Path irregular c (Core.enter { w.core with lastTx := some tdata } .completed .txMsg)) :
    Reaches irregular o c (uasFailure tu w tdata cseq) := by
  have completes : ∀ v : World, Alike { w with lastTx := some tdata } v →
      Reaches irregular o c (setState tu v .completed .txMsg false false) := by
    intro v alike
    refine setStateReaches keeps follows stored (account.same alike.books) (alike.state ▸ live)
      (alike.prompt (prompt.same rfl rfl rfl rfl)) .completed _ (by decide)
      (shared v.role .completed (by decide) (by decide)) ?_
    rw [alike.core]
    exact path
  simp only [uasFailure]
  refine completes _ ?_
  split
  · exact ⟨(startRetransmitAlike _ _).books,(startRetransmitAlike _ _).core,(startRetransmitAlike _ _).send⟩
  · exact ⟨rfl,rfl,rfl⟩

omit granted in
theorem uasAnsweredReaches (stored : Stored irregular c) (server : c.role = .uas)
    (open_ : c.state = .trying ∨ c.state = .proceeding) (account : Account k w) (prompt : Prompt o w)
    {tdata : TxData} {cseq : Method} (msg : tdata.msg = .response code cseq)
    (core : w.core = { c with statusCode := code, lastTx := last }) (regular : ¬ irregular → 100 ≤ code) :
    Reaches irregular o c (uasAnswered tu w tdata cseq) ∧ Forward irregular (uasAnswered tu w tdata cseq) := by
  have below : c.state.Live := by
    rcases open_ with state | state <;> rw [state] <;> decide
  have live : w.state.Live := by
    rw [show w.state = c.state from congrArg Core.state core]
    exact below
  have status : w.statusCode = code := congrArg Core.statusCode core
  have saved : ({ w.core with lastTx := some tdata } : Core) = { c with statusCode := code, lastTx := some tdata } := by
    rw [core]
  unfold uasAnswered
  rw [status]
  split
  · rename_i early
    have move := @Move.provisional irregular c server open_ tdata code cseq msg early
    rw [← saved] at move
    exact Forward.after move (by decide) (uasProvisionalReaches keeps follows (moveStored move stored) account live
      prompt tdata .refl)
  split
  · rename_i success
    have late : 200 ≤ code := by
      have quotient : code / 100 = 2 := by simpa [inClass] using success
      omega
    have move := @Move.final irregular c server open_ tdata code cseq msg late
    rw [← saved] at move
    exact uasSuccessReaches quiet keeps follows stored below account core prompt tdata move
  split
  · rename_i failure
    have move := @Move.final irregular c server open_ tdata code cseq msg (by omega)
    rw [← saved] at move
    exact Forward.after move (by decide) (uasFailureReaches keeps follows (moveStored move stored) account live
      prompt tdata cseq .refl)
  · rename_i notEarly notSuccess notFailure
    have odd : irregular := by
      refine Classical.byContradiction fun even => ?_
      have enough := regular even
      have quotients : ¬ code / 100 = 1 ∧ ¬ code / 100 = 2 := by
        simpa [inClass] using And.intro notEarly notSuccess
      omega
    exact ⟨⟨.single (core ▸ Move.odd odd server open_ code last),prompt⟩,.inl odd⟩

theorem onStateProceedingUasReaches (sound : Sound irregular k o w) (server : w.role = .uas)
    (open_ : w.state = .trying ∨ w.state = .proceeding) (event : Event)
    (regular : ¬ irregular → ∀ tdata code cseq, event = .txMsg tdata → tdata.msg = .response code cseq → 100 ≤ code) :
    Reaches irregular o w.core (onStateProceedingUas tu o w event).2 ∧
      (∀ tdata, event = .txMsg tdata → (onStateProceedingUas tu o w event).1 = 0 →
        Forward irregular (onStateProceedingUas tu o w event).2) := by
  have live : w.state.Live := by
    rcases open_ with state | state <;> rw [state] <;> decide
  cases event with
  | rxMsg msg =>
    refine ⟨?_,fun _ other => nomatch other⟩
    simp only [onStateProceedingUas]
    split
    · exact Reaches.stay sound.prompt
    · split
      · rename_i on
        exact ⟨.refl,Prompt.busy on⟩
      · exact resentReaches quiet sound.account live sound.prompt _
  | timer entry =>
    refine ⟨?_,fun _ other => nomatch other⟩
    cases entry with
    | retransmit => exact retransmitReaches quiet sound.account live sound.prompt true
    | timeout => exact retiredReaches quiet live rfl _ _ _
  | txMsg tdata =>
    cases msg : tdata.msg with
    | request =>
      simp only [onStateProceedingUas,msg]
      exact ⟨Reaches.stay sound.prompt,fun _ _ ok => absurd ok (by decide)⟩
    | response code cseq =>
      let dropped : World := dropLast { w with statusCode := code } tdata
      obtain ⟨last,core⟩ : ∃ last, dropped.core = { w.core with statusCode := code, lastTx := last } :=
        dropLastCore _ tdata
      have books : dropped.books = w.books := dropLastBooks _ tdata
      have below : dropped.state.Live := by
        rw [show dropped.state = w.state from congrArg Core.state core]
        exact live
      have prompt : Prompt o dropped := sound.prompt.same (dropLastSend _ tdata)
        (congrArg Books.pendingTransport books) (congrArg Books.resolvedServer books) (congrArg Core.state core)
      have account : Account k dropped := sound.account.same books
      obtain ⟨passed,prompt'⟩ := sendMsgPassed quiet account below prompt tdata
      have accounted := (sendMsgAccount granted quiet account below (some tdata)).1
      simp only [onStateProceedingUas,msg]
      generalize sendMsg tu o (dropLast { w with statusCode := code } tdata) (some tdata) = r
        at passed prompt' accounted ⊢
      cases passed with
      | ended error code' core' =>
        rw [if_pos error]
        refine ⟨⟨?_,prompt'⟩,fun _ _ ok => absurd ok error⟩
        rw [core',core]
        exact .single (Move.retire live code' last .transportError)
      | kept core' status =>
        have ok : r.1 = 0 := by
          rcases status with ok | request
          · exact ok
          · rw [msg] at request
            cases request
        rw [if_neg (by simpa using ok)]
        have answered := uasAnsweredReaches quiet keeps follows sound.stored server open_ accounted prompt' msg
          (core'.trans core) (fun even => regular even tdata code cseq rfl msg)
        exact ⟨answered.1,fun _ _ _ => answered.2⟩

theorem onStateTryingReaches (sound : Sound irregular k o w) (server : w.role = .uas)
    (state : w.state = .trying) (event : Event)
    (regular : ¬ irregular → ∀ tdata code cseq, event = .txMsg tdata → tdata.msg = .response code cseq → 100 ≤ code) :
    Reaches irregular o w.core (onStateTrying tu o w event).2 := by
  cases event with
  | rxMsg => exact Reaches.stay sound.prompt
  | timer => exact Reaches.stay sound.prompt
  | txMsg tdata =>
    have live : w.state.Live := by rw [state]; decide
    obtain ⟨reaches,forward⟩ := onStateProceedingUasReaches quiet granted keeps follows sound server (.inl state)
      (.txMsg tdata) regular
    have accounted := onStateProceedingUasAccount granted quiet keeps sound.account live (.txMsg tdata)
    simp only [onStateTrying]
    generalize onStateProceedingUas tu o w (.txMsg tdata) = r at reaches forward accounted
    split
    · rename_i still
      -- a regular response has taken the server out of the trying state
      have odd : irregular := by
        rcases forward tdata rfl still.1 with odd | above
        · exact odd
        · rw [still.2] at above
          exact absurd above (by decide)
      have role : r.2.role = .uas := (pathUp reaches.1).1.trans server
      exact setStateReaches keeps follows sound.stored accounted (by rw [still.2]; decide) reaches.2 .proceeding _
        (by decide) (shared _ _ (by decide) (by decide)) (reaches.1.tail (Move.oddTrying odd role still.2))
    · exact reaches

omit granted in
theorem onStateCompletedUasReaches (sound : Sound irregular k o w) (server : w.role = .uas)
    (state : w.state = .completed) (event : Event) :
    Reaches irregular o w.core (onStateCompletedUas tu o w event).2 := by
  have live : w.state.Live := by rw [state]; decide
  unfold onStateCompletedUas
  split
  · exact Reaches.stay sound.prompt
  · rename_i method
    split
    · exact retransmitReaches quiet sound.account live sound.prompt false
    · rename_i isAck
      have ack : method = .ack := by simpa using isAck
      split
      · exact Reaches.stay sound.prompt
      · rename_i isInvite
        have invite : w.method = .invite := by simpa using isInvite
        rw [ack]
        refine setStateReaches keeps follows sound.stored ?_ ?_ ?_ .confirmed _ (by decide) ?_ ?_
        · exact sound.account.same rfl
        · exact live
        · exact sound.prompt.same rfl rfl rfl rfl
        · exact shared _ _ (by decide) (by decide)
        · exact .single (Move.confirm server invite state)
  · exact retransmitReaches quiet sound.account live sound.prompt true
  · split
    · exact retiredReaches quiet live rfl _ _ _
    · exact retiredReaches quiet live rfl _ _ _
  · exact Reaches.stay sound.prompt

omit granted keeps follows in
theorem onStateCompletedUacReaches (sound : Sound irregular k o w) (state : w.state = .completed)
    (event : Event) : Reaches irregular o w.core (onStateCompletedUac tu o w event).2 := by
  have live : w.state.Live := by rw [state]; decide
  unfold onStateCompletedUac
  split
  · exact Reaches.stay sound.prompt
  · exact retiredReaches quiet live rfl _ _ _
  · split
    · exact retransmitReaches quiet sound.account live sound.prompt false
    · exact Reaches.stay sound.prompt
  · exact Reaches.stay sound.prompt
  · exact Reaches.stay sound.prompt

omit granted keeps follows in
theorem onStateConfirmedReaches (sound : Sound irregular k o w) (state : w.state = .confirmed)
    (event : Event) : Reaches irregular o w.core (onStateConfirmed tu w event).2 := by
  have live : w.state.Live := by rw [state]; decide
  unfold onStateConfirmed
  split
  · exact Reaches.stay sound.prompt
  · exact Reaches.stay sound.prompt
  · exact Reaches.stay sound.prompt
  · exact retiredReaches quiet live rfl _ _ _
  · exact Reaches.stay sound.prompt

omit granted keeps follows in
theorem onStateTerminatedReaches (sound : Sound irregular k o w) (state : w.state = .terminated)
    (event : Event) : Reaches irregular o w.core (onStateTerminated tu w event).2 := by
  unfold onStateTerminated
  split
  · have shut := setStateShut quiet w .timer
    refine ⟨?_,Prompt.dead (by rw [shut.state]; decide)⟩
    rw [shut.core]
    exact .single (Move.destroy state .timer)
  · exact Reaches.stay sound.prompt

theorem dispatchReaches (sound : Sound irregular k o w) (event : Event)
    (regular : ¬ irregular → w.role = .uas → w.state.Live → ∀ tdata code cseq,
      event = .txMsg tdata → tdata.msg = .response code cseq → 100 ≤ code) :
    Reaches irregular o w.core (dispatch tu o w event).2 := by
  have paired : w.stateHandler = stateHandlers w.role w.state := sound.account.1.paired
  cases found : w.stateHandler with
  | none =>
    have legal : (stateHandlers w.role w.state).isSome = true := sound.account.1.legal
    rw [← paired,found] at legal
    cases legal
  | some handler =>
    rw [found] at paired
    have state := handlerState paired
    rw [dispatchSome tu o _ found]
    cases handler with
    | null => exact onStateNullReaches quiet granted keeps follows sound state event
    | calling =>
      exact onStateCallingReaches quiet granted keeps follows sound (handlerRole paired rfl) state event
    | trying =>
      have server := handlerRole (r := .uas) paired rfl
      exact onStateTryingReaches quiet granted keeps follows sound server state event
        (fun even => regular even server (by rw [state]; decide))
    | proceedingUas =>
      have server := handlerRole (r := .uas) paired rfl
      exact (onStateProceedingUasReaches quiet granted keeps follows sound server (.inr state) event
        (fun even => regular even server (by rw [state]; decide))).1
    | proceedingUac =>
      exact onStateProceedingUacReaches quiet granted keeps follows sound (handlerRole paired rfl) (.inr state) event
    | completedUas =>
      exact onStateCompletedUasReaches quiet keeps follows sound (handlerRole paired rfl) state event
    | completedUac => exact onStateCompletedUacReaches quiet sound state event
    | confirmed => exact onStateConfirmedReaches quiet sound state event
    | terminated => exact onStateTerminatedReaches quiet sound state event
    | destroyed => exact Reaches.stay sound.prompt

/- A call of the user that sends a response sends a regular one. -/
def UserOp.Regular (op : UserOp) : Prop :=
  ∀ tdata code cseq, op = .sendMsg (some tdata) → tdata.msg = .response code cseq → 100 ≤ code

theorem userOpReaches (sound : Sound irregular k o w) (op : UserOp) (timely : op.Timely w)
    (regular : ¬ irregular → op.Regular) : Reaches irregular o w.core (userOp tu o w op) := by
  have idle : ∀ w' : World, Idle w w' → Reaches irregular o w.core w' := by
    rintro _ ⟨_,_,_,_,rfl⟩
    exact ⟨.refl,sound.prompt.same rfl rfl rfl rfl⟩
  cases op with
  | retransmitNoState given =>
    rcases resendTimely tu o timely with same | ⟨live,sends⟩
    · rw [same]
      exact Reaches.stay sound.prompt
    · rw [sends]
      cases given.or w.lastTx with
      | none => exact Reaches.stay sound.prompt
      | some tdata => exact resentReaches quiet sound.account live sound.prompt tdata
  | sendMsg tdata =>
    simp only [userOp,pjsipTsxSendMsg]
    split
    · exact Reaches.stay sound.prompt
    · rename_i taken from_
      refine dispatchReaches quiet granted keeps follows sound _ ?_
      intro even server live tdata' code cseq same msg
      cases same
      cases tdata with
      | none => exact sound.stored even server live taken code cseq from_ msg
      | some given =>
        have given : given = taken := by simpa using from_
        exact regular even taken code cseq (by rw [given]) msg
  | terminate code =>
    simp only [userOp,pjsipTsxTerminate]
    split
    · exact Reaches.stay sound.prompt
    split
    · rename_i live
      exact retiredReaches quiet live rfl _ _ _
    · exact Reaches.stay sound.prompt
  | stopRetransmit => exact idle _ (stopRetransmitIdle w)
  | setTimeout millisec => exact idle _ (setTimeoutIdle w millisec)
  | handle200resp value => exact idle _ ⟨_,_,_,_,rfl⟩

theorem userOpsReaches (ops : List UserOp) (sound : Sound irregular k o w) (timely : ∀ op ∈ ops, ∀ w, op.Timely w)
    (regular : ¬ irregular → ∀ op ∈ ops, op.Regular) : Reaches irregular o w.core (ops.foldl (userOp tu o) w) := by
  induction ops generalizing w with
  | nil => exact Reaches.stay sound.prompt
  | cons op ops ih =>
    have here := timely op List.mem_cons_self w
    have first := userOpReaches quiet granted keeps follows sound op here
      (fun even => regular even op List.mem_cons_self)
    have next : Sound irregular k o (userOp tu o w op) :=
      ⟨userOpAccount granted quiet keeps sound.account op here,first.2,pathStored first.1 sound.stored⟩
    have rest := ih next (fun op' inside => timely op' (List.mem_cons_of_mem _ inside))
      (fun even op' inside => regular even op' (List.mem_cons_of_mem _ inside))
    exact ⟨first.1.trans rest.1,rest.2⟩

end Walk

/- What the user does in its callbacks is regular. -/
def RegularUser (o : Oracle) : Prop := ∀ n, ∀ op ∈ o.user n, op.Regular

theorem reactionFollows {irregular : Prop} {k : Kind} {o : Oracle} (granted : k.strict → NoRefusal o)
    (timely : TimelyUser o) (regular : ¬ irregular → RegularUser o) (depth : Nat) : Follows irregular k o (reaction o depth) := by
  induction depth with
  | zero => exact fun w sound => Reaches.stay sound.prompt
  | succ depth ih =>
    intro w sound
    have ticked : Sound irregular k o w.tick :=
      ⟨sound.account.same rfl,sound.prompt.same rfl rfl rfl rfl,sound.stored⟩
    exact userOpsReaches (reactionQuiet timely depth) granted (reactionKeeps granted timely depth) ih _ ticked
      (timely w.clock) (fun even => regular even w.clock)

end Pjproject.Tsx
