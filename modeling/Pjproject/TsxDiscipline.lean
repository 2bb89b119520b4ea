import Pjproject.TsxRefine

/-! Whole runs of a transaction on the abstract machine: the discipline of its states and the response a server
holds for retransmissions. -/
namespace Pjproject.Tsx

variable {irregular : Prop} {k : Kind} {tu : World → World} {o : Oracle} {w : World}

theorem endpointDonePath (quiet : Quiet tu) (account : Account k w) {index : Nat} {tdata : TxData}
    (found : w.inFlight[index]? = some (.endpoint tdata)) (outcome : Outcome) (moreServers : Bool) :
    Path irregular w.core (endpointDone tu o w index tdata outcome moreServers).core := by
  have tiedFacts := attachedAlone account found
  have result := endpointDoneResult tu o account found outcome moreServers
  generalize endpointDone tu o w index tdata outcome moreServers = after at result
  cases result with
  | detached => exact .refl
  | retried tied retried =>
    obtain ⟨_,_,rfl,-⟩ := retried
    exact .refl
  | failed tied err =>
    obtain ⟨-,-,on,-,-,-⟩ := tiedFacts tied
    have live : w.state.Live := account.1.live on
    rw [(callbackFailedEnded quiet _ err.code (by exact live)).core]
    exact .single (Move.retire live (failureCode err.code) w.lastTx .transportError)
  | sent tied tp =>
    obtain ⟨-,-,on,-,-,-⟩ := tiedFacts tied
    have live : w.state.Live := account.1.live on
    let u : World := { w with
      inFlight := w.inFlight.eraseIdx index, refs := w.refs - 1, modData := detach w.modData tdata
      pendingTx := none }
    obtain ⟨v,transported,result⟩ := callbackSentCases tu o u tp account.1.destroy
    have taken : v.core = w.core ∧ v.resolvedServer = true ∧ v.pendingDestroy = false := by
      obtain ⟨_,_,_,_,rfl,-⟩ := transported
      exact ⟨rfl,rfl,account.1.destroy⟩
    have resched : ∀ {a b : World}, Rescheduled a b → b.core = a.core := by
      rintro a b ⟨_,_,rfl⟩
      rfl
    rcases result with ⟨-,later⟩ | ⟨-,later⟩
    · rw [resched later,taken.1]
      exact .refl
    · have resends : ∀ last, Path irregular w.core (sendMsg tu o { v with pendingSend := false } last).2.core := by
        intro last
        cases last with
        | none =>
          rw [sendMsgNone]
          show Path irregular w.core v.core
          rw [taken.1]
          exact .refl
        | some tdata' =>
          have passed := plainSentPassed (w := { v with pendingSend := false }) quiet taken.2.1
            (sendMsgSent tu o { v with pendingSend := false } tdata' taken.2.2)
          cases passed with
          | kept core =>
            rw [core]
            show Path irregular w.core v.core
            rw [taken.1]
            exact .refl
          | ended _ code core =>
            rw [core]
            show Path irregular w.core (Core.enter { v.core with statusCode := code } .terminated .transportError)
            rw [taken.1]
            exact .single (Move.retire live code w.lastTx .transportError)
      rw [resched later]
      exact resends _

theorem transportErrTimerPath (quiet : Quiet tu)
    (live : w.state.Live) : Path irregular w.core (transportErrTimer tu w).core := by
  have ends : ∀ v : World, ∀ code, v.core = { w.core with statusCode := code } →
      Path irregular w.core ((notify tu (setState tu v .terminated .transportError true true)).scheduleTimeout 0
        .timeout).core := by
    intro v code core
    have ended := setStateEnded quiet v .transportError true true
    have dead : Dead (setState tu v .terminated .transportError true true) := by
      refine ⟨ended.dead,?_⟩
      rw [ended.stateHandler,ended.role,ended.state,terminatedHandler]
    have told := idleCore (notifyQuiet quiet _ dead)
    show Path irregular w.core (notify tu _).core
    rw [told,ended.core,core]
    exact .single (Move.retire live code w.lastTx .transportError)
  unfold transportErrTimer
  refine ends _ (if w.statusCode < 200 then scTransportError else w.statusCode) ?_
  show World.core (if w.statusCode < 200 then _ else _) = _
  split <;> rfl

theorem timerCallbackPath (quiet : Quiet tu)
    (granted : k.strict → NoRefusal o) (keeps : Keeps k tu) (follows : Follows irregular k o tu)
    (sound : Sound irregular k o w) (entry : Entry) : Path irregular w.core (timerCallback tu o w entry).core := by
  have set : ∀ (v : World) (t : TimerEntry), Alike v (v.setEntry entry t) := by
    intro v t
    cases entry <;> exact ⟨rfl,rfl,rfl⟩
  simp only [timerCallback]
  generalize { w.entry entry with running := false } = t
  generalize { w.entry entry with id := .inactive, running := false } = t'
  have once := set w t
  have twice := set (w.setEntry entry t) t'
  have core : ((w.setEntry entry t).setEntry entry t').core = w.core := twice.core.trans once.core
  split
  · rw [once.core]
    exact .refl
  rw [← core]
  split
  · split
    · rename_i live
      exact transportErrTimerPath quiet live
    · exact .refl
  · refine (dispatchReaches quiet granted keeps follows ⟨?_,?_,?_⟩ (.timer entry) (fun _ _ _ _ _ _ other => by cases other)).1
    · exact sound.account.same (twice.books.trans once.books)
    · exact twice.prompt (once.prompt sound.prompt)
    · exact core ▸ sound.stored

/- The calls of the user in a step send regular responses. -/
def RegularInput : Input → Prop
  | .call op => op.Regular
  | _ => True

theorem stepPath (granted : k.strict → NoRefusal o) (depth : Nat) (sound : Sound irregular k o w) (input : Input)
    (timely : Timely w o input) (regular : ¬ irregular → RegularUser o ∧ RegularInput input) :
    Path irregular w.core (step depth w o input).core := by
  have quiet := reactionQuiet timely.1 depth
  have keeps := reactionKeeps granted timely.1 depth
  have follows := reactionFollows granted timely.1 (fun even => (regular even).1) depth
  have reset : Sound irregular k o { w with clock := 0 } :=
    ⟨sound.account.same rfl,sound.prompt.same rfl rfl rfl rfl,sound.stored⟩
  simp only [step]
  cases input with
  | call op =>
    exact (userOpReaches quiet granted keeps follows reset op (timely.2 op rfl) (fun even => (regular even).2)).1
  | recv msg =>
    exact (dispatchReaches quiet granted keeps follows reset (.rxMsg msg)
      (fun _ _ _ _ _ _ other => by cases other)).1
  | expire entry =>
    dsimp only
    split
    · exact timerCallbackPath quiet granted keeps follows reset entry
    · exact .refl
  | transportDone index failed =>
    dsimp only
    split
    · have same : ∀ v : World, (transportCallback v failed).core = v.core := by
        intro v
        unfold transportCallback
        cases failed with
        | none => rfl
        | some err => exact (postTransportErrorAlike { v with pendingTransport := false } err.code).core
      rw [same]
      exact .refl
    · exact .refl
  | endpointDone index outcome moreServers =>
    dsimp only
    split
    · rename_i found
      exact endpointDonePath (w := { w with clock := 0 }) quiet reset.account found outcome moreServers
    · exact .refl
  | transportDown err =>
    dsimp only
    split
    · rw [(postTransportErrorAlike _ err).core]
      exact .refl
    · exact .refl

/- The condition of a step for the moves: the resend is not left over, nothing is sent again after the end, and with it
the regularity of what the user sends. -/
def Condition (irregular : Prop) (w : World) (o : Oracle) (input : Input) : Prop :=
  Prompt o w ∧ Timely w o input ∧ (¬ irregular → RegularUser o ∧ RegularInput input)

theorem createdStored (created : Created w) : Stored irregular w.core := by
  cases created with
  | uac ok =>
    unfold createUac at ok
    split at ok
    · cases ok
    · cases ok
    · cases ok
      exact fun _ server => nomatch server
  | @uas _ tp _ _ _ ok =>
    have none : w.lastTx = none := by
      unfold createUas at ok
      split at ok
      · cases ok
      · cases ok
      · rename_i user _ method _
        cases tp with
        | some tp =>
          obtain ⟨err,timeout,result,-⟩ := updateTransportKeeps
            { role := .uas, method := method, resAddrTransport := some tp, tsxUser := user } tp
          dsimp only at ok
          rw [result] at ok
          cases ok
          rfl
        | none =>
          cases ok
          rfl
    exact fun _ _ _ tdata code cseq held => nomatch none.symm.trans held

theorem runPath (depth : Nat) (created : Created w)
    (steps : List (Oracle × Input)) (meets : Meets (Condition irregular) depth w steps) :
    Account ⟨False,w.role,w.method⟩ (run depth w steps) ∧ Path irregular w.core (run depth w steps).core := by
  have start := (createdFresh created).account False
  refine @runInvariant (Condition irregular)
    (fun v => Account ⟨False,w.role,w.method⟩ v ∧ Path irregular w.core v.core) depth ?_ steps w
    ⟨start,.refl⟩ meets
  intro v o input before condition
  have sound : Sound irregular ⟨False,w.role,w.method⟩ o v :=
    ⟨before.1,condition.1,pathStored before.2 (createdStored created)⟩
  exact ⟨stepAccount False.elim depth before.1 input condition.2.1,
    before.2.trans (stepPath False.elim depth sound input condition.2.1 condition.2.2)⟩

theorem meetsWeaker {strong weak : World → Oracle → Input → Prop} (weaker : ∀ w o input, strong w o input → weak w o input)
    {depth : Nat} {steps : List (Oracle × Input)} (meets : Meets strong depth w steps) :
    Meets weak depth w steps := by
  induction steps generalizing w with
  | nil => trivial
  | cons s steps ih => exact ⟨weaker _ _ _ meets.1,ih meets.2⟩

theorem meetsAlways {condition : World → Oracle → Input → Prop} {depth : Nat} {steps : List (Oracle × Input)}
    (always : ∀ s ∈ steps, ∀ w, condition w s.1 s.2) : Meets condition depth w steps := by
  induction steps generalizing w with
  | nil => trivial
  | cons s steps ih =>
    exact ⟨always s List.mem_cons_self w,ih (fun t inside => always t (List.mem_cons_of_mem _ inside))⟩

/- In every run without a leftover resend and without a resend after the end the state never goes back, a handler is there for every state, only a
server of an INVITE is confirmed, and a client is never trying nor a server calling. -/
theorem transactionDisciplined (depth : Nat) (w : World) (created : Created w) (steps : List (Oracle × Input))
    (prompt : Meets (fun w o input => Prompt o w ∧ Timely w o input) depth w steps) :
    let w' := run depth w steps
    Climbs w'.state w'.trail ∧ ConfirmedOnAck w'.core ∧ w'.missing = false ∧
      w'.stateHandler = stateHandlers w'.role w'.state ∧ w'.stateHandler.isSome = true ∧
      (w'.role = .uac → w'.state ≠ .trying) ∧ (w'.role = .uas → w'.state ≠ .calling) := by
  have fresh := createdFresh created
  have meets : Meets (Condition True) depth w steps :=
    meetsWeaker (fun _ _ _ both => ⟨both.1,both.2,fun odd => absurd trivial odd⟩) prompt
  obtain ⟨account,path⟩ := runPath depth created steps meets
  have start : Disciplined w.core := by
    refine ⟨?_,fun t inside => ?_,fresh.missing⟩
    · show Climbs w.state w.trail
      rw [fresh.state,fresh.trail]
      rfl
    · rw [show w.core.trail = [] from fresh.trail] at inside
      cases inside
  obtain ⟨climbs,confirmed,missing⟩ := pathDisciplined path start
  have paired : (run depth w steps).stateHandler =
      stateHandlers (run depth w steps).role (run depth w steps).state := account.1.paired
  have legal : (stateHandlers (run depth w steps).role (run depth w steps).state).isSome = true := account.1.legal
  refine ⟨climbs,confirmed,missing,paired,paired ▸ legal,?_,?_⟩
  · intro client trying
    rw [client,trying] at legal
    cases legal
  · intro server calling
    rw [server,calling] at legal
    cases legal

/- In every such run in which the user sends regular responses, a server that has answered holds its last
response and its status code. -/
theorem serverAnswers (depth : Nat) (w : World) (created : Created w) (steps : List (Oracle × Input))
    (conditions : Meets (fun w o input => Prompt o w ∧ Timely w o input ∧ RegularUser o ∧ RegularInput input) depth w steps) :
    Answers (run depth w steps).core := by
  have meets : Meets (Condition False) depth w steps :=
    meetsWeaker (fun _ _ _ both => ⟨both.1,both.2.1,fun _ => both.2.2⟩) conditions
  obtain ⟨-,path⟩ := runPath depth created steps meets
  refine pathAnswers id path fun _ busy => ?_
  rw [show w.core.state = .null from (createdFresh created).state] at busy
  rcases busy with busy | busy <;> cases busy

/- A server of an INVITE that came over a connection. -/
def connection : Transport := ⟨1,true,false⟩

def invited : World :=
  { role := .uas, method := .invite, resAddrTransport := some connection, transport := some connection
    isReliable := true }

theorem invitedCreated : Created invited := @Created.uas (.request .invite) (some connection) false true _ rfl

/- Surroundings in which the transport takes a message and answers later. -/
def slowOracle : Oracle := { pendingOracle with transport := fun _ => .pending }

def ringing : TxData := ⟨2,.response 180 .invite⟩

/- Every connection fails, and the endpoint gets a message out by a new one. -/
def brokenOracle : Oracle :=
  { pendingOracle with
    transport := fun _ => .failed ⟨120104,by decide⟩
    endpoint := fun _ => .accepted [] (.done (.sent ⟨2,true,false⟩)) }

/- The INVITE, the 180 that stays with its transport, the INVITE again, and the end of the send. -/
def ringingSteps : List (Oracle × Input) :=
  [(slowOracle, .recv (.request .invite)),(slowOracle, .call (.sendMsg (some ringing))),
   (slowOracle, .recv (.request .invite)),(slowOracle, .transportDone 0 none)]

theorem slowPrompt (w : World) : Prompt slowOracle w := by
  rintro - - - - n ⟨attempts,tp,reply⟩
  cases reply

theorem ringingRegular : (UserOp.sendMsg (some ringing)).Regular := by
  intro tdata code cseq same msg
  cases same
  cases msg
  decide

theorem ringingMet : ∀ s ∈ ringingSteps, ∀ w, Prompt s.1 w ∧ Timely w s.1 s.2 ∧ RegularUser s.1 ∧ RegularInput s.2 := by
  have timely : TimelyUser slowOracle := fun _ _ inside => absurd inside List.not_mem_nil
  have user : RegularUser slowOracle := fun _ _ inside => absurd inside List.not_mem_nil
  have others : ∀ input : Input, (∀ op, input ≠ .call op) → RegularInput input → ∀ w,
      Prompt slowOracle w ∧ Timely w slowOracle input ∧ RegularUser slowOracle ∧ RegularInput input :=
    fun _ noCall regular w => ⟨slowPrompt w,⟨timely,fun op same => absurd same (noCall op)⟩,user,regular⟩
  refine List.forall_mem_cons.mpr ⟨others _ (by simp) trivial,List.forall_mem_cons.mpr ⟨fun w => ?_,
    List.forall_mem_cons.mpr ⟨others _ (by simp) trivial,List.forall_mem_singleton.mpr (others _ (by simp) trivial)⟩⟩⟩
  refine ⟨slowPrompt w,⟨timely,fun op same => ?_⟩,user,ringingRegular⟩
  cases same
  trivial

theorem ringingDisciplined : Climbs (run 1 invited ringingSteps).state (run 1 invited ringingSteps).trail :=
  (transactionDisciplined 1 invited invitedCreated ringingSteps
    (meetsAlways (fun s inside v => ⟨(ringingMet s inside v).1,(ringingMet s inside v).2.1⟩))).1

theorem ringingAnswers :
    ∃ tdata code cseq, (run 1 invited ringingSteps).lastTx = some tdata ∧ tdata.msg = .response code cseq ∧
      (run 1 invited ringingSteps).statusCode = code :=
  serverAnswers 1 invited invitedCreated ringingSteps (meetsAlways ringingMet) (by decide) (.inl (by decide))

/- The 180 is sent once more: its connection fails, the endpoint sends it by a new one, and the resend left over
from before fails within that send and terminates the transaction, which the handler does not notice. -/
theorem terminatedThenCompleted :
    let w' := run 1 invited (ringingSteps ++ [(brokenOracle, .call (.sendMsg none))])
    w'.state = .completed ∧ ⟨.terminated,.completed,.txMsg⟩ ∈ w'.trail ∧ ¬ Climbs w'.state w'.trail := by
  have state : (run 1 invited (ringingSteps ++ [(brokenOracle, .call (.sendMsg none))])).state = .completed := by
    decide
  have inside : ⟨.terminated,.completed,.txMsg⟩ ∈
      (run 1 invited (ringingSteps ++ [(brokenOracle, .call (.sendMsg none))])).trail := by decide
  refine ⟨state,inside,fun climbs => ?_⟩
  have bound := (climbs.bounded _ inside).1
  rw [state] at bound
  exact absurd bound (by decide)

theorem notAnswers (server : w.role = .uas) (completed : w.state = .completed)
    (last : w.lastTx = some ringing) (status : w.statusCode ≠ 180) : ¬ Answers w.core := by
  intro answers
  obtain ⟨tdata,code,cseq,held,msg,same⟩ := answers server (.inr completed)
  have held' : some ringing = some tdata := last.symm.trans held
  cases held'
  cases msg
  exact status same

/- The same run leaves the status 503 beside the stored 180. -/
theorem completedWithoutAnswer :
    let w' := run 1 invited (ringingSteps ++ [(brokenOracle, .call (.sendMsg none))])
    w'.role = .uas ∧ w'.state = .completed ∧ w'.statusCode = 503 ∧ w'.lastTx = some ringing ∧
      ¬ Answers w'.core := by
  refine ⟨by decide,by decide,by decide,by decide,notAnswers ?_ ?_ ?_ ?_⟩ <;> decide

end Pjproject.Tsx
