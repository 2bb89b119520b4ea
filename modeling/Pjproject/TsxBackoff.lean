import Pjproject.TsxHandlers

/-! The delays between retransmissions of a transaction, for any T1 and T2. tsx_resched_retransmission and
tsx_retransmit are told over the part of a transaction that they use, without the sending; for the configured
defaults, runs of the transactions of the other modules show that part. -/
namespace Pjproject.Tsx

/- pjsip_cfg()->tsx, in milliseconds. -/
structure Timing where
  t1 : UInt32 := 500
  t2 : UInt32 := 4000
  deriving DecidableEq

/- A delay as it was computed, and how many times the message had been sent again by then. -/
structure Delay where
  resent : Nat
  msecTime : Nat
  deriving DecidableEq

/- resent and delays are kept beside the transaction: resent counts what goes on to tsx_send_msg. -/
structure Resender where
  role : Role
  method : Method
  statusCode : Nat
  retransmitCount : Nat := 0
  timer : TimerEntry
  pendingTransport : Bool := false
  pendingResched : Bool := false
  lastTx : Bool := true
  resent : Nat := 0
  delays : List Delay := []
  deriving DecidableEq

def msecTime (cfg : Timing) (r : Resender) : Nat :=
  let msecTime := if r.role = .uac ∧ 100 ≤ r.statusCode then cfg.t2.toNat
    else 2 ^ r.retransmitCount * cfg.t1.toNat % 2 ^ 32
  if r.role = .uac then (if cfg.t2.toNat < msecTime ∧ r.method ≠ .invite then cfg.t2.toNat else msecTime)
  else if r.statusCode < 200 then retrans1xxDelay * 1000
  else if cfg.t2.toNat < msecTime then cfg.t2.toNat else msecTime

/- tsx_resched_retransmission: a delay of zero schedules nothing. -/
def Resender.resched (cfg : Timing) (r : Resender) : Resender :=
  { r with
    timer := if msecTime cfg r ≠ 0 then r.timer.schedule (msecTime cfg r) .retransmit else r.timer
    delays := ⟨r.resent,msecTime cfg r⟩ :: r.delays }

/- tsx_retransmit up to the call of tsx_send_msg. -/
def Resender.retransmit (cfg : Timing) (r : Resender) (resched : Bool) : Resender :=
  if resched && r.timer.running then r
  else if r.lastTx = false then r
  else
    let r := { r with retransmitCount := r.retransmitCount + 1, resent := r.resent + 1 }
    if resched then (if r.pendingTransport then { r with pendingResched := true } else r.resched cfg) else r

/- What happens to a transaction that stays in the state in which it retransmits: its timer expires, the peer sends its
message again, a transport is waited for, done or found, a client has another provisional response. -/
inductive Round where
  | expire | received | pending | done
  | found (reliable : Bool)
  | provisional (code : Nat)

def Resender.round (cfg : Timing) (r : Resender) : Round → Resender
  | .expire =>
    if r.timer.running then { r with timer := ⟨.inactive,false,r.timer.delay⟩ }.retransmit cfg true else r
  | .received => r.retransmit cfg false
  | .pending => { r with pendingTransport := true }
  | .done => { r with pendingTransport := false }
  | .found reliable =>
    let r := { r with pendingTransport := false }
    if r.pendingResched then
      let r := { r with pendingResched := false }
      if reliable then r else r.resched cfg
    else r
  | .provisional code =>
    if r.role = .uac ∧ 100 ≤ r.statusCode ∧ 100 ≤ code ∧ code < 200 then { r with statusCode := code } else r

def Resender.rounds (cfg : Timing) (r : Resender) (rs : List Round) : Resender := rs.foldl (Resender.round cfg) r

/- Doubling from T1, for INVITE requests without end and else up to T2; T2 once there is a provisional response. -/
def plainBackoff (cfg : Timing) (role : Role) (method : Method) (statusCode k : Nat) : Nat :=
  if 100 ≤ statusCode ∧ (role = .uac ∨ statusCode < 200) then cfg.t2.toNat
  else if role = .uac ∧ method = .invite then cfg.t1.toNat * 2 ^ k
  else min (cfg.t1.toNat * 2 ^ k) cfg.t2.toNat

/- A server that has sent a provisional response sends it again every minute. -/
def backoff (cfg : Timing) (role : Role) (method : Method) (statusCode k : Nat) : Nat :=
  if role = .uas ∧ statusCode < 200 then retrans1xxDelay * 1000 else plainBackoff cfg role method statusCode k

/- The shift stays in an int and the product in its 32 bits. -/
def Representable (cfg : Timing) (k : Nat) : Prop := 2 ^ k < 2 ^ 31 ∧ cfg.t1.toNat * 2 ^ k < 2 ^ 32

instance (cfg k) : Decidable (Representable cfg k) := by unfold Representable; infer_instance

/- Whether the delay does not depend on the number of retransmissions. -/
def Steady (role : Role) (statusCode : Nat) : Prop :=
  role = .uac ∧ 100 ≤ statusCode ∨ role = .uas ∧ statusCode < 200

theorem msecTimeSteady (cfg : Timing) (r : Resender) (k : Nat) (steady : Steady r.role r.statusCode) :
    msecTime cfg r = backoff cfg r.role r.method r.statusCode k := by
  unfold msecTime backoff plainBackoff
  rcases steady with ⟨client,answered⟩ | ⟨server,early⟩
  · simp [client,answered]
  · simp [server,early]

theorem msecTimeDoubled (cfg : Timing) (r : Resender) (fits : Representable cfg r.retransmitCount)
    (doubling : ¬ Steady r.role r.statusCode) :
    msecTime cfg r = backoff cfg r.role r.method r.statusCode r.retransmitCount := by
  have product : 2 ^ r.retransmitCount * cfg.t1.toNat % 2 ^ 32 = cfg.t1.toNat * 2 ^ r.retransmitCount := by
    rw [Nat.mul_comm,Nat.mod_eq_of_lt fits.2]
  have unanswered : ¬ (r.role = .uac ∧ 100 ≤ r.statusCode) := fun client => doubling (.inl client)
  have late : ¬ (r.role = .uas ∧ r.statusCode < 200) := fun server => doubling (.inr server)
  unfold msecTime backoff plainBackoff
  rw [product,if_neg unanswered,if_neg late]
  cases role : r.role with
  | uac =>
    have first : ¬ 100 ≤ r.statusCode := fun answered => unanswered ⟨role,answered⟩
    by_cases invite : r.method = .invite
    · simp [first,invite]
    · simp only [first,invite,false_and,and_false,if_false,if_true,ne_eq,not_false_eq_true,and_true]
      split <;> omega
  | uas =>
    have final : ¬ r.statusCode < 200 := fun early => late ⟨role,early⟩
    simp only [final,reduceCtorEq,false_and,and_false,or_self,if_false]
    split <;> omega

variable {cfg : Timing} {start r : Resender}

theorem backoffPositive (t1 : 0 < cfg.t1) (t2 : 0 < cfg.t2) (role : Role) (method : Method)
    (statusCode k : Nat) : 0 < backoff cfg role method statusCode k := by
  have first : 0 < cfg.t1.toNat * 2 ^ k := Nat.mul_pos (UInt32.lt_iff_toNat_lt.mp t1) (Nat.two_pow_pos k)
  have second : 0 < cfg.t2.toNat := UInt32.lt_iff_toNat_lt.mp t2
  unfold backoff plainBackoff
  split
  · decide
  · split
    · exact second
    · split
      · exact first
      · exact lt_min first second

/- The counter is the number of retransmissions, the delays so far are those of backoff, and what the delay depends on
has not changed. -/
structure Paced (cfg : Timing) (start r : Resender) : Prop where
  role : r.role = start.role
  method : r.method = start.method
  statusCode : r.statusCode = start.statusCode ∨
    start.role = .uac ∧ 100 ≤ start.statusCode ∧ 100 ≤ r.statusCode
  count : r.retransmitCount = r.resent
  delays : ∀ d ∈ r.delays, Steady start.role start.statusCode ∨ Representable cfg d.resent →
    d.msecTime = backoff cfg start.role start.method start.statusCode d.resent

theorem backoffAlike (paced : Paced cfg start r) (k : Nat) :
    backoff cfg r.role r.method r.statusCode k = backoff cfg start.role start.method start.statusCode k := by
  rw [paced.role,paced.method]
  rcases paced.statusCode with same | ⟨client,before,now⟩
  · rw [same]
  · simp [backoff,plainBackoff,client,before,now]

theorem steadyAlike (paced : Paced cfg start r) :
    Steady r.role r.statusCode ↔ Steady start.role start.statusCode := by
  unfold Steady
  rw [paced.role]
  rcases paced.statusCode with same | ⟨client,before,now⟩
  · rw [same]
  · simp [client,before,now]

theorem Paced.resched (paced : Paced cfg start r) : Paced cfg start (r.resched cfg) := by
  refine ⟨paced.role,paced.method,paced.statusCode,paced.count,?_⟩
  intro d listed fits
  rcases List.mem_cons.mp listed with rfl | earlier
  · refine Eq.trans ?_ (backoffAlike paced r.resent)
    by_cases steady : Steady r.role r.statusCode
    · exact msecTimeSteady cfg r r.resent steady
    · have counted := fits.resolve_left (fun before => steady ((steadyAlike paced).mpr before))
      exact paced.count ▸ msecTimeDoubled cfg r (paced.count ▸ counted) steady
  · exact paced.delays d earlier fits

theorem Paced.retransmit (paced : Paced cfg start r) (resched : Bool) :
    Paced cfg start (r.retransmit cfg resched) := by
  have sent : Paced cfg start { r with retransmitCount := r.retransmitCount + 1, resent := r.resent + 1 } :=
    ⟨paced.role,paced.method,paced.statusCode,congrArg (· + 1) paced.count,paced.delays⟩
  unfold Resender.retransmit
  split
  · exact paced
  · split
    · exact paced
    · dsimp only
      split
      · split
        · exact ⟨sent.role,sent.method,sent.statusCode,sent.count,sent.delays⟩
        · exact sent.resched
      · exact sent

theorem Paced.round (paced : Paced cfg start r) (event : Round) : Paced cfg start (r.round cfg event) := by
  obtain ⟨role,method,statusCode,count,delays⟩ := id paced
  cases event with
  | expire =>
    simp only [Resender.round]
    split
    · have expired : Paced cfg start { r with timer := ⟨.inactive,false,r.timer.delay⟩ } :=
        ⟨role,method,statusCode,count,delays⟩
      exact expired.retransmit true
    · exact paced
  | received => exact paced.retransmit false
  | pending => exact ⟨role,method,statusCode,count,delays⟩
  | done => exact ⟨role,method,statusCode,count,delays⟩
  | found =>
    simp only [Resender.round]
    split
    · split
      · exact ⟨role,method,statusCode,count,delays⟩
      · exact Paced.resched ⟨role,method,statusCode,count,delays⟩
    · exact ⟨role,method,statusCode,count,delays⟩
  | provisional =>
    simp only [Resender.round]
    split
    next client =>
      obtain ⟨isClient,answered,low,_⟩ := client
      refine ⟨role,method,.inr ⟨role ▸ isClient,?_,low⟩,count,delays⟩
      rcases statusCode with same | both
      · exact same ▸ answered
      · exact both.2.1
    · exact paced

theorem Paced.rounds (paced : Paced cfg start r) (rs : List Round) : Paced cfg start (r.rounds cfg rs) := by
  induction rs generalizing r with
  | nil => exact paced
  | cons event rest ih => exact ih (paced.round event)

/- A message that has just been sent for the first time. -/
structure Unsent (r : Resender) : Prop where
  count : r.retransmitCount = 0
  resent : r.resent = 0
  delays : r.delays = []

theorem Unsent.paced (fresh : Unsent r) (cfg : Timing) : Paced cfg r r :=
  ⟨rfl,rfl,.inl rfl,fresh.count.trans fresh.resent.symm,by simp [fresh.delays]⟩

theorem retransmissionsPaced (cfg : Timing) (t1 : 0 < cfg.t1) (t2 : 0 < cfg.t2) (start : Resender) (fresh : Unsent start)
    (rs : List Round) : ∀ d ∈ (start.rounds cfg rs).delays,
      Steady start.role start.statusCode ∨ Representable cfg d.resent →
      d.msecTime = backoff cfg start.role start.method start.statusCode d.resent ∧ 0 < d.msecTime := by
  intro d listed fits
  have same := ((fresh.paced cfg).rounds rs).delays d listed fits
  exact ⟨same,same ▸ backoffPositive t1 t2 _ _ _ _⟩

/- A transaction of the machine, with what has been kept beside it. -/
def World.resender (w : World) (resent : Nat) (delays : List Delay) : Resender where
  role := w.role
  method := w.method
  statusCode := w.statusCode
  retransmitCount := w.retransmitCount
  timer := w.retransmitTimer
  pendingTransport := w.pendingTransport
  pendingResched := w.pendingResched
  lastTx := w.lastTx.isSome
  resent := resent
  delays := delays

theorem reschedShown (w : World) (resent : Nat) (delays : List Delay) : (w.resender resent delays).resched {} =
      (reschedRetransmission w).resender resent (⟨resent,reschedDelay w⟩ :: delays) := by
  have same : msecTime {} (w.resender resent delays) = reschedDelay w := rfl
  unfold Resender.resched reschedRetransmission
  rw [same]
  split <;> rfl

/- What tsx_retransmit does to a transaction before it sends. -/
def counted (w : World) (resched : Bool) : World :=
  let w := { w with retransmitCount := w.retransmitCount + 1 }
  if resched then (if w.pendingTransport then { w with pendingResched := true } else reschedRetransmission w) else w

theorem countedShown (w : World) (resent : Nat) (delays : List Delay) {resched : Bool}
    (idle : ¬ (resched && w.retransmitTimer.running) = true) (present : w.lastTx ≠ none) :
    ∃ delays', (w.resender resent delays).retransmit {} resched = (counted w resched).resender (resent + 1) delays' := by
  have last : (w.resender resent delays).lastTx ≠ false := by
    simpa [World.resender,Option.isSome_iff_ne_none] using present
  unfold Resender.retransmit counted
  rw [if_neg (show ¬ (resched && (w.resender resent delays).timer.running) = true from idle),if_neg last]
  cases resched with
  | false => exact ⟨delays,rfl⟩
  | true =>
    dsimp only
    rw [if_pos rfl,if_pos rfl]
    by_cases waiting : w.pendingTransport = true
    · rw [if_pos waiting]
      exact ⟨delays,if_pos waiting⟩
    · rw [if_neg waiting]
      have rescheduled := reschedShown { w with retransmitCount := w.retransmitCount + 1 } (resent + 1) delays
      exact ⟨_,(if_neg waiting).trans rescheduled⟩

/- A transport is waited for after a step. -/
def waits (w : World) : List Round := if w.pendingTransport then [.pending] else []

/- There is a transport to send by, or one is waited for, and none refuses. -/
def Routed (w : World) (o : Oracle) : Prop :=
  (w.transport = none → w.pendingTransport = true) ∧ ∀ n err, o.transport n ≠ .failed err

theorem sendShown (tu : World → World) {o : Oracle} {w : World} (routed : Routed w o) (tdata : TxData) (resent : Nat)
    (delays : List Delay) : let w' := (sendMsg tu o w (some tdata)).2
      (w.resender resent delays).rounds {} (waits w') = w'.resender resent delays := by
  obtain ⟨route,granted⟩ := routed
  unfold sendMsg sendMsgWith
  by_cases waiting : w.pendingTransport = true
  · simp [waits,waiting,Resender.rounds,Resender.round,World.resender]
  · cases transport : w.transport with
    | none => exact absurd (route transport) waiting
    | some =>
      by_cases busy : o.busy w.clock = true
      · simp [waits,waiting,busy,World.tick,Resender.rounds,World.resender]
      · cases reply : o.transport (w.clock + 1) with
        | failed err => exact absurd reply (granted _ err)
        | pending => simp [waits,waiting,busy,transport,reply,World.tick,Resender.rounds,Resender.round,World.resender]
        | sent => simp [waits,waiting,busy,transport,reply,World.tick,Resender.rounds,World.resender]

theorem retransmitShown (tu : World → World) {o : Oracle} {w : World} {resched : Bool}
    (idle : ¬ (resched && w.retransmitTimer.running) = true) (present : w.lastTx ≠ none) (routed : Routed w o)
    (resent : Nat) (delays : List Delay) : let w' := (retransmit tu o w resched).2
      ∃ delays', ((w.resender resent delays).retransmit {} resched).rounds {} (waits w') =
        w'.resender (resent + 1) delays' := by
  obtain ⟨delays',same⟩ := countedShown w resent delays idle present
  obtain ⟨tdata,found⟩ := Option.ne_none_iff_exists'.mp present
  have sends : retransmit tu o w resched = sendMsg tu o (counted w resched) w.lastTx := by
    unfold retransmit
    rw [if_neg idle]
    split
    next absent => exact absurd absent present
    next last => exact congrArg (sendMsg tu o (counted w resched)) last.symm
  have route : Routed (counted w resched) o := by
    refine ⟨?_,routed.2⟩
    unfold counted reschedRetransmission
    dsimp only
    split
    · split
      · exact routed.1
      · split <;> exact routed.1
    · exact routed.1
  rw [same,sends,found]
  exact ⟨delays',sendShown tu route tdata _ _⟩

/- The states whose handlers send the last message again when the timer expires. -/
def resending : List (Option Handler) := [some .calling,some .proceedingUac,some .proceedingUas,some .completedUas]

/- The round that an input makes where tsx_retransmit is called or a send ends. -/
def World.asRound (w : World) : Input → Option Round
  | .expire .retransmit => if w.stateHandler ∈ resending then some .expire else none
  | .recv (.request method) => if w.stateHandler = some .completedUas ∧ method ≠ .ack then some .received else none
  | .recv (.response code _) =>
    if w.stateHandler = some .completedUac ∧ w.method = .invite ∧ 200 ≤ code then some .received else none
  | .transportDone index none =>
    match w.inFlight[index]? with
    | some (.transport _) => some .done
    | _ => none
  | _ => none

/- A transaction goes on sending its last message again. -/
structure Repeats (w : World) (o : Oracle) (input : Input) : Prop where
  round : (w.asRound input).isSome
  present : w.lastTx ≠ none
  timer : w.retransmitTimer.id ≠ .transportErr
  alive : w.state.num < State.destroyed.num
  routed : Routed w o

/- The part of a transaction that a Resender has goes through the rounds. -/
def Shows (w w' : World) (rs : List Round) : Prop :=
  ∀ resent delays, ∃ resent' delays', (w.resender resent delays).rounds {} rs = w'.resender resent' delays'

def stepRounds (depth : Nat) (w : World) (o : Oracle) (input : Input) : List Round :=
  (w.asRound input).toList ++ waits (step depth w o input)

section Steps
variable {w : World} {o : Oracle} {msg : Msg} {input : Input} (depth : Nat)

theorem expireShown (repeats : Repeats w o (.expire .retransmit)) (handler : w.stateHandler ∈ resending) :
    Shows w (step depth w o (.expire .retransmit)) (.expire :: waits (step depth w o (.expire .retransmit))) := by
  intro resent delays
  by_cases running : w.retransmitTimer.running = true
  · let expired : World := { w with clock := 0, retransmitTimer := ⟨.inactive,false,w.retransmitTimer.delay⟩ }
    have taken : step depth w o (.expire .retransmit) = (retransmit (reaction o depth) o expired true).2 := by
      simp only [resending,List.mem_cons,List.not_mem_nil,or_false] at handler
      rcases handler with handler | handler | handler | handler <;>
        simp [step,World.entry,running,timerCallback,World.setEntry,Nat.not_le.mpr repeats.alive,repeats.timer,dispatch,
          handler,callHandler,onStateCalling,onStateProceedingUac,onStateProceedingUas,onStateCompletedUas,expired]
    obtain ⟨delays',same⟩ := @retransmitShown (reaction o depth) o expired true (by simp [expired]) repeats.present
      repeats.routed resent delays
    refine ⟨resent + 1,delays',?_⟩
    rw [taken,← same]
    simp [Resender.rounds,Resender.round,World.resender,running,expired]
  · have none : step depth w o (.expire .retransmit) = { w with clock := 0 } := if_neg running
    refine ⟨resent,delays,?_⟩
    rw [none]
    by_cases waiting : w.pendingTransport = true <;>
      simp [Resender.rounds,Resender.round,World.resender,running,waits,waiting]

theorem receivedShown (repeats : Repeats w o (.recv msg))
    (taken : step depth w o (.recv msg) = (retransmit (reaction o depth) o { w with clock := 0 } false).2) :
    Shows w (step depth w o (.recv msg)) (.received :: waits (step depth w o (.recv msg))) := by
  intro resent delays
  obtain ⟨delays',same⟩ := @retransmitShown (reaction o depth) o { w with clock := 0 } false (by simp) repeats.present
    repeats.routed resent delays
  rw [taken]
  exact ⟨resent + 1,delays',same⟩

theorem stepShown (repeats : Repeats w o input) : Shows w (step depth w o input) (stepRounds depth w o input) := by
  have round := repeats.round
  unfold stepRounds
  cases input with
  | expire entry =>
    cases entry with
    | timeout => cases round
    | retransmit =>
      simp only [World.asRound] at round ⊢
      split at round
      next handler =>
        rw [if_pos handler]
        exact expireShown depth repeats handler
      next => cases round
  | recv msg =>
    cases msg with
    | request =>
      simp only [World.asRound] at round ⊢
      split at round
      next handler =>
        rw [if_pos handler]
        exact receivedShown depth repeats (by simp [step,pjsipTsxRecvMsg,dispatch,handler,callHandler,onStateCompletedUas])
      next => cases round
    | response =>
      simp only [World.asRound] at round ⊢
      split at round
      next handler =>
        rw [if_pos handler]
        exact receivedShown depth repeats (by simp [step,pjsipTsxRecvMsg,dispatch,handler,callHandler,onStateCompletedUac])
      next => cases round
  | transportDone index failed =>
    cases failed with
    | some => cases round
    | none =>
      simp only [World.asRound] at round ⊢
      split at round
      next tdata found =>
        intro resent delays
        refine ⟨resent,delays,?_⟩
        simp [step,found,transportCallback,waits,Resender.rounds,Resender.round,World.resender]
      next => cases round
  | call => cases round
  | endpointDone => cases round
  | transportDown => cases round

end Steps

/- The rounds of a run, one step after the other. -/
def runRounds (depth : Nat) : World → List (Oracle × Input) → List Round
  | _, [] => []
  | w, s :: steps => stepRounds depth w s.1 s.2 ++ runRounds depth (step depth w s.1 s.2) steps

theorem runShown (depth : Nat) {w : World} {steps : List (Oracle × Input)} (repeats : Meets Repeats depth w steps) :
    Shows w (run depth w steps) (runRounds depth w steps) := by
  induction steps generalizing w with
  | nil => exact fun resent delays => ⟨resent,delays,rfl⟩
  | cons s steps ih =>
    intro resent delays
    obtain ⟨first,later⟩ := repeats
    obtain ⟨resent',delays',shown⟩ := stepShown depth first resent delays
    obtain ⟨resent'',delays'',rest⟩ := ih later resent' delays'
    rw [← shown] at rest
    exact ⟨resent'',delays'',(List.foldl_append ..).trans rest⟩

/- The retransmissions of a run are rounds of a Resender, so they are paced. -/
theorem runPaced (depth : Nat) {w : World} {steps : List (Oracle × Input)} (fresh : w.retransmitCount = 0)
    (repeats : Meets Repeats depth w steps) : ∃ resent delays,
      (w.resender 0 []).rounds {} (runRounds depth w steps) = (run depth w steps).resender resent delays ∧
      Paced {} (w.resender 0 []) ((run depth w steps).resender resent delays) := by
  obtain ⟨resent,delays,shown⟩ := runShown depth repeats 0 []
  have unsent : Unsent (w.resender 0 []) := ⟨fresh,rfl,rfl⟩
  exact ⟨resent,delays,shown,shown ▸ (unsent.paced {}).rounds _⟩

/- An INVITE that is sent three times and not answered. -/
def unanswered : Oracle :=
  ⟨fun _ => false,fun _ => .sent,fun _ => .accepted [] .pending,fun _ => .ok 0,fun _ => []⟩

example : Meets Repeats 0 {
    role := .uac, method := .invite, stateHandler := some .calling, lastTx := some ⟨0,.request .invite⟩
    transport := some ⟨0,false,false⟩, retransmitTimer := ⟨.retransmit,true,500⟩ }
    [(unanswered,.expire .retransmit),(unanswered,.expire .retransmit)] :=
  ⟨⟨rfl,nofun,nofun,by decide,nofun,nofun⟩,⟨rfl,nofun,nofun,by decide,nofun,nofun⟩,trivial⟩

/- The second retransmission of an INVITE. -/
theorem inviteDoubledTwice : 2000 = backoff {} .uac .invite 0 2 ∧ 0 < 2000 :=
  retransmissionsPaced {} (by decide) (by decide)
    { role := .uac, method := .invite, statusCode := 0, timer := ⟨.retransmit,true,500⟩ } ⟨rfl,rfl,rfl⟩
    [.expire,.expire] ⟨2,2000⟩ (by decide) (.inr (by decide))

/- A server that has answered an INVITE with 180. -/
theorem provisionalEveryMinute :
    ¬ ∀ cfg start rs, 0 < cfg.t1 → 0 < cfg.t2 → Unsent start → ∀ d ∈ (start.rounds cfg rs).delays,
      d.msecTime = plainBackoff cfg start.role start.method start.statusCode d.resent := by
  intro doubled
  have minute := doubled {}
    { role := .uas, method := .invite, statusCode := 180, timer := ⟨.retransmit,true,60000⟩ } [.expire]
    (by decide) (by decide) ⟨rfl,rfl,rfl⟩ ⟨1,60000⟩ (by decide)
  exact absurd minute (by decide)

end Pjproject.Tsx
