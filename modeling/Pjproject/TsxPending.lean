import Pjproject.TsxAccount

/-! The accounts of sends over whole runs: completions that come later, timers and transports that go down,
and the pending-transport flag between any two events. -/
namespace Pjproject.Tsx

variable {k : Kind} {w : World} {index : Nat} {tdata : TxData} {tu : World → World} {o : Oracle}

theorem transportCallbackBooks (w : World) (failed : Option Fault) : (transportCallback w failed).books =
    { w.books with pendingTransport := false, refs := w.refs - 1 } := by
  unfold transportCallback
  cases failed with
  | none => rfl
  | some err =>
    have post := postTransportErrorBooks { w with pendingTransport := false } err.code
    exact congrArg (fun b : Books => { b with refs := b.refs - 1 }) post

theorem transportCallbackAccount (account : Account k w)
    (found : w.inFlight[index]? = some (.transport tdata)) (failed : Option Fault) :
    Account k (transportCallback { w with inFlight := w.inFlight.eraseIdx index } failed) := by
  obtain ⟨base,booked⟩ := account
  have books := transportCallbackBooks { w with inFlight := w.inFlight.eraseIdx index } failed
  have within : index < w.inFlight.length := (List.getElem?_eq_some_iff.mp found).1
  have shorter : (w.inFlight.eraseIdx index).length = w.inFlight.length - 1 := List.length_eraseIdx_of_lt within
  have free : w.books.modData = [] := by
    rcases base.attachment with none | ⟨other,-,-,-,alone,-⟩
    · exact none
    · have alone' : w.inFlight = [.endpoint other] := alone
      rw [alone'] at found within
      have zero : index = 0 := by simpa using within
      subst zero
      simp at found
  unfold Account
  rw [books]
  refine ⟨⟨base.role,base.method,base.paired,base.legal,base.destroy,fun _ => rfl,base.addr,.inl free,?_⟩,fun none => ⟨?_,?_,?_⟩⟩
  · intro live unresolved
    have one := base.clear live unresolved
    show (w.inFlight.eraseIdx index).length ≤ 0
    have most : w.inFlight.length ≤ 1 := by
      refine Nat.le_trans one ?_
      split <;> decide
    omega
  · have before : w.refs = w.inFlight.length := (booked none).refs
    show w.refs - 1 = ((w.inFlight.eraseIdx index).length : Int)
    omega
  · intro fresh
    have one : w.inFlight.length = if w.pendingTransport then 1 else 0 := (booked none).flag fresh
    have most : w.inFlight.length ≤ 1 := by
      rw [one]
      split <;> decide
    show (w.inFlight.eraseIdx index).length = 0
    omega
  · intro fresh other inside
    have earlier : Flight.endpoint other ∈ w.inFlight := List.mem_of_mem_eraseIdx inside
    have attached : other.id ∈ w.books.modData := (booked none).attached fresh other earlier
    exact attached

theorem transportErrTimerAccount (quiet : Quiet tu) (keeps : Keeps k tu)
    (account : Account k w) : Account k (transportErrTimer tu w) := by
  have closable := account.closable
  unfold transportErrTimer
  refine Account.same (notifyAccount keeps (setStateTerminatedAccount quiet ?_ .transportError true true)) rfl
  split
  · exact ⟨closable.role,closable.method,closable.destroy,closable.attachment,closable.refs⟩
  · exact ⟨closable.role,closable.method,closable.destroy,closable.attachment,closable.refs⟩

theorem timerCallbackAccount (granted : k.strict → NoRefusal o)
    (quiet : Quiet tu) (keeps : Keeps k tu) (account : Account k w) (entry : Entry) :
    Account k (timerCallback tu o w entry) := by
  have set : ∀ (w : World) (t : TimerEntry), (w.setEntry entry t).books = w.books := by
    intro w t
    cases entry <;> rfl
  have taken : ∀ t t', Account k ((w.setEntry entry t).setEntry entry t') := fun t t' =>
    account.same ((set _ t').trans (set w t))
  simp only [timerCallback]
  split
  · exact account.same (set _ _)
  split
  · split
    · exact transportErrTimerAccount quiet keeps (taken _ _)
    · exact taken _ _
  · exact dispatchAccount granted quiet keeps (taken _ _) _

theorem attachedAlone (account : Account k w)
    (found : w.inFlight[index]? = some (.endpoint tdata)) (tied : ¬ tdata.id ∉ w.modData) :
    w.modData = [tdata.id] ∧ w.pendingTx = some tdata ∧ w.pendingTransport = true ∧
      w.inFlight = [.endpoint tdata] ∧ w.transport = none ∧ w.inFlight.eraseIdx index = [] := by
  rcases account.1.attachment with none | ⟨other,attached,pending,on,alone,transport⟩
  · exact absurd (show tdata.id ∉ w.modData by rw [show w.modData = [] from none]; exact List.not_mem_nil) tied
  · have alone' : w.inFlight = [.endpoint other] := alone
    have within : index < w.inFlight.length := (List.getElem?_eq_some_iff.mp found).1
    rw [alone'] at found within
    have zero : index = 0 := by simpa using within
    subst zero
    have same : other = tdata := by simpa using found
    subst same
    exact ⟨attached,pending,on,alone,transport,by rw [alone']; rfl⟩

theorem endpointDoneResult (tu : World → World) (o : Oracle) (account : Account k w)
    (found : w.inFlight[index]? = some (.endpoint tdata)) (outcome : Outcome) (moreServers : Bool) : Answered tu o
      { w with inFlight := w.inFlight.eraseIdx index } tdata (endpointDone tu o w index tdata outcome moreServers) := by
  refine endpointDoneAnswered tu o index tdata outcome moreServers fun tied => ?_
  obtain ⟨modData,pendingTx,-,-,transport,-⟩ := attachedAlone account found tied
  exact ⟨⟨[],by simp [modData,attach,detach]⟩,pendingTx,transport,account.1.destroy⟩

theorem endpointDoneAccount (quiet : Quiet tu) (account : Account k w)
    (found : w.inFlight[index]? = some (.endpoint tdata)) (outcome : Outcome) (moreServers : Bool) :
    Account k (endpointDone tu o w index tdata outcome moreServers) := by
  have tiedFacts := attachedAlone account found
  have within : index < w.inFlight.length := (List.getElem?_eq_some_iff.mp found).1
  have shorter : (w.inFlight.eraseIdx index).length = w.inFlight.length - 1 := List.length_eraseIdx_of_lt within
  have result := endpointDoneResult tu o account found outcome moreServers
  obtain ⟨base,booked⟩ := account
  generalize endpointDone tu o w index tdata outcome moreServers = after at result
  cases result with
  | detached loose =>
    have loose' : tdata.id ∉ w.modData := loose
    have free : w.modData = [] := by
      rcases base.attachment with none | ⟨other,attached,-,-,alone,-⟩
      · exact none
      · have alone' : w.inFlight = [.endpoint other] := alone
        rw [alone'] at found within
        have zero : index = 0 := by simpa using within
        subst zero
        have same : other = tdata := by simpa using found
        subst same
        have attached' : w.modData = [other.id] := attached
        exact absurd (by rw [attached']; exact List.mem_cons_self) loose'
    refine ⟨⟨base.role,base.method,base.paired,base.legal,base.destroy,base.idle,base.addr,.inl free,?_⟩,fun none => ⟨?_,?_,?_⟩⟩
    · intro live unresolved
      refine Nat.le_trans ?_ (base.clear live unresolved)
      show (w.inFlight.eraseIdx index).length ≤ w.inFlight.length
      omega
    · have before : w.refs = w.inFlight.length := (booked none).refs
      show w.refs - 1 = ((w.inFlight.eraseIdx index).length : Int)
      omega
    · intro fresh
      exact absurd ((booked none).attached fresh tdata (List.mem_of_getElem? found)) loose'
    · intro fresh
      exact absurd ((booked none).attached fresh tdata (List.mem_of_getElem? found)) loose'
  | sent tied tp =>
    obtain ⟨modData,-,on,alone,transport,none⟩ := tiedFacts tied
    have live : w.state.Live := base.live on
    refine And.left (callbackSentAccount quiet _ tp ?_ ?_ ?_)
    · exact base.destroy
    · exact live
    intro v transported
    obtain ⟨tp',books⟩ := transportedBooks transported
    have detached : detach w.modData tdata = [] := by simp [modData,detach]
    unfold Account
    rw [books]
    refine ⟨⟨base.role,base.method,base.paired,base.legal,base.destroy,fun _ => rfl,(fun none => by cases none),.inl detached,
      fun _ unresolved => by cases (show true = false from unresolved)⟩,fun granted => ⟨?_,fun _ => ?_,?_⟩⟩
    · have before : w.refs = w.inFlight.length := (booked granted).refs
      show w.refs - 1 = ((w.inFlight.eraseIdx index).length : Int)
      rw [before,none,alone]
      rfl
    · show (w.inFlight.eraseIdx index).length = 0
      rw [none]
      rfl
    · intro _ other inside
      have listed : Flight.endpoint other ∈ w.inFlight.eraseIdx index := inside
      rw [none] at listed
      cases listed
  | failed tied =>
    obtain ⟨modData,-,on,alone,transport,none⟩ := tiedFacts tied
    have live : w.state.Live := base.live on
    rw [callbackFailedLive _ _ (by exact live)]
    refine setStateTerminatedAccount quiet ?_ _ _ _
    refine ⟨base.role,base.method,base.destroy,.inl ?_,fun granted => ?_⟩
    · show detach w.modData tdata = []
      simp [modData,detach]
    · have before : w.refs = w.inFlight.length := (booked granted).refs
      show w.refs - 1 = ((w.inFlight.eraseIdx index).length : Int)
      rw [before,none,alone]
      rfl
  | retried tied retried =>
    obtain ⟨-,-,-,alone,-,none⟩ := tiedFacts tied
    obtain ⟨_,_,rfl,-⟩ := retried
    have again : w.inFlight.eraseIdx index ++ [.endpoint tdata] = w.inFlight := by
      rw [none]
      exact alone.symm
    refine Account.same ⟨base,booked⟩ ?_
    show ({ w.books with inFlight := w.inFlight.eraseIdx index ++ [.endpoint tdata] } : Books) = w.books
    rw [again]
    rfl

theorem stepAccount (granted : k.strict → NoRefusal o) (depth : Nat)
    (account : Account k w) (input : Input) (timely : Timely w o input) : Account k (step depth w o input) := by
  have quiet := reactionQuiet timely.1 depth
  have keeps := reactionKeeps granted timely.1 depth
  have reset : Account k { w with clock := 0 } := account.same rfl
  simp only [step]
  cases input with
  | call op => exact userOpAccount granted quiet keeps reset op (timely.2 op rfl)
  | recv => exact dispatchAccount granted quiet keeps reset _
  | expire entry =>
    dsimp only
    split
    · exact timerCallbackAccount granted quiet keeps reset entry
    · exact reset
  | transportDone index failed =>
    dsimp only
    split
    · rename_i found
      exact transportCallbackAccount reset found failed
    · exact reset
  | endpointDone index outcome moreServers =>
    dsimp only
    split
    · rename_i found
      exact endpointDoneAccount quiet reset found outcome moreServers
    · exact reset
  | transportDown err =>
    dsimp only
    split
    · exact reset.same (postTransportErrorBooks _ err)
    · exact reset

structure Fresh (w : World) : Prop where
  state : w.state = .null
  stateHandler : w.stateHandler = some .null
  destroy : w.pendingDestroy = false
  pendingTransport : w.pendingTransport = false
  pendingSend : w.pendingSend = false
  inFlight : w.inFlight = []
  refs : w.refs = 0
  modData : w.modData = []
  trail : w.trail = []
  missing : w.missing = false
  addr : w.transport = none → w.resAddrTransport = none
  client : w.role = .uac → w.resAddrTransport = none ∧ w.transport = none

theorem createdFresh (created : Created w) : Fresh w := by
  cases created with
  | uac ok =>
    unfold createUac at ok
    split at ok
    · cases ok
    · cases ok
    · cases ok
      exact ⟨rfl,rfl,rfl,rfl,rfl,rfl,rfl,rfl,rfl,rfl,fun _ => rfl,fun _ => ⟨rfl,rfl⟩⟩
  | @uas _ tp reliable user _ ok =>
    unfold createUas at ok
    split at ok
    · cases ok
    · cases ok
    · rename_i method _
      cases tp with
      | some tp =>
        obtain ⟨err,timeout,result,-⟩ := updateTransportKeeps
          { role := .uas, method := method, resAddrTransport := some tp, tsxUser := user } tp
        dsimp only at ok
        rw [result] at ok
        cases ok
        exact ⟨rfl,rfl,rfl,rfl,rfl,rfl,rfl,rfl,rfl,rfl,(fun none => nomatch none),(fun uac => nomatch uac)⟩
      | none =>
        cases ok
        exact ⟨rfl,rfl,rfl,rfl,rfl,rfl,rfl,rfl,rfl,rfl,fun _ => rfl,(fun uac => nomatch uac)⟩

theorem Fresh.account (fresh : Fresh w) (strict : Prop) : Account ⟨strict,w.role,w.method⟩ w := by
  have paired : w.stateHandler = stateHandlers w.role w.state := by
    rw [fresh.state,fresh.stateHandler]
    cases w.role <;> rfl
  refine ⟨⟨rfl,rfl,paired,?_,fresh.destroy,fun _ => fresh.pendingTransport,fun none _ => fresh.addr none,
    .inl fresh.modData,fun _ _ => ?_⟩,fun _ => ⟨?_,fun _ => ?_,fun _ tdata inside => ?_⟩⟩
  · simp only [World.books,fresh.state]
    exact shared w.role .null (by decide) (by decide)
  · simp [World.books,fresh.inFlight]
  · simp [World.books,fresh.inFlight,fresh.refs]
  · simp [World.books,fresh.inFlight,fresh.pendingTransport]
  · simp [World.books,fresh.inFlight] at inside

theorem runInvariant {condition : World → Oracle → Input → Prop} {invariant : World → Prop} (depth : Nat)
    (keeps : ∀ w o input, invariant w → condition w o input → invariant (step depth w o input))
    (steps : List (Oracle × Input)) (w : World) (start : invariant w)
    (meets : Meets condition depth w steps) : invariant (run depth w steps) := by
  induction steps generalizing w with
  | nil => exact start
  | cons s steps ih => exact ih _ (keeps w s.1 s.2 start meets.1) meets.2

theorem meetsAppend {condition : World → Oracle → Input → Prop} {depth : Nat}
    {steps : List (Oracle × Input)} {s : Oracle × Input} (meets : Meets condition depth w (steps ++ [s])) :
    Meets condition depth w steps ∧ condition (run depth w steps) s.1 s.2 := by
  induction steps generalizing w with
  | nil => exact ⟨trivial,meets.1⟩
  | cons t steps ih =>
    obtain ⟨before,last⟩ := ih meets.2
    exact ⟨⟨meets.1,before⟩,last⟩

/- A message that the user sends again after the end and that stays with the transport: it takes a reference and sets
the flag, and both go when it completes. -/
structure Resent (depth : Nat) (w v : World) : Prop where
  flag : v.pendingTransport = true
  refs : v.refs = v.inFlight.length
  state : v.state = w.state
  completes : ∀ (o : Oracle) (failed : Option Fault),
    let u := step depth v o (.transportDone w.inFlight.length failed)
    u.pendingTransport = false ∧ u.refs = u.inFlight.length ∧ u.inFlight = w.inFlight

theorem lateResent (depth : Nat) (refs : w.refs = w.inFlight.length) (off : w.pendingTransport = false) {tp : Transport}
    (kept : w.transport = some tp) (free : o.busy 0 = false) (slow : o.transport 1 = .pending) (tdata : TxData) :
    Resent depth w (step depth w o (.call (.retransmitNoState (some tdata) false))) := by
  have result : step depth w o (.call (.retransmitNoState (some tdata) false)) = { w with
      clock := 2, refs := w.refs + 1, pendingTransport := true, inFlight := w.inFlight ++ [.transport tdata] } := by
    simp [step,userOp,pjsipTsxRetransmitNoState,sendMsg,sendMsgWith,World.tick,off,kept,free,slow]
  rw [result]
  refine ⟨rfl,?_,rfl,fun o failed => ?_⟩
  · rw [List.length_append,refs]
    rfl
  · have listed : (w.inFlight ++ [.transport tdata])[w.inFlight.length]? = some (.transport tdata) :=
      List.getElem?_concat_length
    have erased : (w.inFlight ++ [Flight.transport tdata]).eraseIdx w.inFlight.length = w.inFlight := by
      rw [List.eraseIdx_append_of_length_le (Nat.le_refl _),Nat.sub_self]
      exact List.append_nil _
    simp only [step,listed]
    have books := transportCallbackBooks { w with
      clock := 0, refs := w.refs + 1, pendingTransport := true
      inFlight := (w.inFlight ++ [Flight.transport tdata]).eraseIdx w.inFlight.length } failed
    rw [erased] at books ⊢
    have back : w.refs + 1 - 1 = w.inFlight.length := by omega
    have flights := congrArg Books.inFlight books
    refine ⟨congrArg Books.pendingTransport books,(congrArg Books.refs books).trans (back.trans ?_),flights⟩
    exact congrArg (fun l => (List.length l : Int)) flights.symm

/- One reference for each send under way, between any two events; the flag says whether there is one until the
transaction terminates, and is down from then on, until the user sends a message again after the end. -/
theorem sendsAccounted (depth : Nat) (w : World) (created : Created w) (steps : List (Oracle × Input))
    (meets : Meets (fun w o input => NoRefusal o ∧ Timely w o input) depth w steps) :
    let w' := run depth w steps
    w'.refs = w'.inFlight.length ∧
      (¬ w'.books.retired → (w'.pendingTransport = true ↔ w'.inFlight ≠ [])) ∧
      (State.terminated.num ≤ w'.state.num → w'.pendingTransport = false ∧
        ∀ (o : Oracle) (tdata : TxData), w'.transport.isSome = true → o.busy 0 = false → o.transport 1 = .pending →
          Resent depth w' (step depth w' o (.call (.retransmitNoState (some tdata) false)))) := by
  have account : Account ⟨True,w.role,w.method⟩ (run depth w steps) :=
    @runInvariant (fun w o input => NoRefusal o ∧ Timely w o input) (Account ⟨True,w.role,w.method⟩) depth
      (fun _ _ input before met => stepAccount (fun _ => met.1) depth before input met.2) steps w
      ((createdFresh created).account True) meets
  obtain ⟨base,booked⟩ := account
  have books := booked trivial
  refine ⟨books.refs,fun fresh => ?_,fun dead => ⟨base.idle dead,fun o tdata kept free slow => ?_⟩⟩
  case refine_2 =>
    obtain ⟨tp,isKept⟩ := Option.isSome_iff_exists.mp kept
    exact lateResent depth books.refs (base.idle dead) isKept free slow tdata
  have length : (run depth w steps).inFlight.length = if (run depth w steps).pendingTransport then 1 else 0 :=
    books.flag fresh
  rw [← List.length_pos_iff,length]
  cases (run depth w steps).pendingTransport <;> simp

/- Surroundings in which every send is left with the endpoint and the user does nothing. -/
def pendingOracle : Oracle where
  busy := fun _ => false
  transport := fun _ => .sent
  endpoint := fun _ => .accepted [] .pending
  ack := fun _ => .ok 0
  user := fun _ => []

theorem pendingNoRefusal : NoRefusal pendingOracle := fun _ _ refused => nomatch refused

theorem pendingTimely : TimelyUser pendingOracle := fun _ _ inside => absurd inside List.not_mem_nil

/- A client transaction for a request that has just been created. -/
def clientOf (method : Method) : World :=
  { role := .uac, method := method, lastTx := some ⟨1,.request method⟩ }

theorem clientCreated (method : Method) (proper : method ≠ .ack) : Created (clientOf method) := by
  refine @Created.uac ⟨1,.request method⟩ false true _ ?_
  cases method <;> first | rfl | contradiction

/- A request left with the endpoint. -/
theorem pendingSendAccounted :
    let w' := run 1 (clientOf .options) [(pendingOracle, .call (.sendMsg none))]
    w'.refs = 1 ∧ w'.pendingTransport = true ∧ w'.inFlight ≠ [] := by
  have accounted := sendsAccounted 1 (clientOf .options) (clientCreated .options (by decide))
    [(pendingOracle, .call (.sendMsg none))]
    ⟨⟨pendingNoRefusal,pendingTimely,fun op same => by cases same; trivial⟩,trivial⟩
  refine ⟨accounted.1.trans (by decide),?_,by decide⟩
  exact (accounted.2.1 (by unfold Books.retired; decide)).mpr (by decide)

/- The user terminates the transaction while its request is with the endpoint. -/
theorem terminatedWhileSending :
    let w' := run 1 (clientOf .options)
      [(pendingOracle, .call (.sendMsg none)),(pendingOracle, .call (.terminate 487))]
    ¬ (w'.pendingTransport = true ↔ w'.inFlight ≠ []) := by
  decide

end Pjproject.Tsx
