import Pjproject.TsxSend

/-! The accounts a transaction keeps of its sends: the pending-transport flag, the references taken on the
group lock and the transmit data it is attached to, through every handler and every run. -/
namespace Pjproject.Tsx

structure Books where
  role : Role
  method : Method
  state : State
  stateHandler : Option Handler
  trail : List Transition
  pendingTx : Option TxData
  transport : Option Transport
  resAddrTransport : Option Transport
  pendingTransport : Bool
  pendingDestroy : Bool
  resolvedServer : Bool
  inFlight : List Flight
  refs : Int
  modData : List Nat

def World.books (w : World) : Books where
  role := w.role
  method := w.method
  state := w.state
  stateHandler := w.stateHandler
  trail := w.trail
  pendingTx := w.pendingTx
  transport := w.transport
  resAddrTransport := w.resAddrTransport
  pendingTransport := w.pendingTransport
  pendingDestroy := w.pendingDestroy
  resolvedServer := w.resolvedServer
  inFlight := w.inFlight
  refs := w.refs
  modData := w.modData

/- What is fixed in a run: its role and method, and whether refusals are ruled out. -/
structure Kind where
  strict : Prop
  role : Role
  method : Method

/- What holds whatever the surroundings answer. The transaction is attached to a message only while the
endpoint has it and nothing else is under way. -/
structure Base (k : Kind) (b : Books) : Prop where
  role : b.role = k.role
  method : b.method = k.method
  paired : b.stateHandler = stateHandlers b.role b.state
  legal : (stateHandlers b.role b.state).isSome = true
  destroy : b.pendingDestroy = false
  idle : State.terminated.num ≤ b.state.num → b.pendingTransport = false
  addr : b.transport = none → b.state.Live → b.resAddrTransport = none
  attachment : b.modData = [] ∨ ∃ tdata, b.modData = [tdata.id] ∧ b.pendingTx = some tdata ∧
    b.pendingTransport = true ∧ b.inFlight = [.endpoint tdata] ∧ b.transport = none
  clear : b.state.Live → b.resolvedServer = false →
    b.inFlight.length ≤ if b.pendingTransport then 1 else 0

/- The transaction has been terminated at some point. -/
def Books.retired (b : Books) : Prop := ∃ t ∈ b.trail, t.after = State.terminated

/- One reference for each send under way; until termination the flag says whether there is one, and a send of
the endpoint has the transaction attached. -/
structure Booked (b : Books) : Prop where
  refs : b.refs = b.inFlight.length
  flag : ¬ b.retired → b.inFlight.length = if b.pendingTransport then 1 else 0
  attached : ¬ b.retired → ∀ tdata, .endpoint tdata ∈ b.inFlight → tdata.id ∈ b.modData

def NoRefusal (o : Oracle) : Prop := ∀ n err, o.endpoint n ≠ .refused err

/- The accounts: the second part where refusals are ruled out. -/
def Account (k : Kind) (w : World) : Prop := Base k w.books ∧ (k.strict → Booked w.books)

variable {k : Kind} {tu : World → World} {o : Oracle} {w w' v : World}

theorem Account.same (account : Account k w) (same : w'.books = w.books) : Account k w' := by
  unfold Account
  rw [same]
  exact account

theorem idleBooks (idle : Idle w w') : w'.books = w.books := by
  obtain ⟨_,_,_,_,rfl⟩ := idle
  rfl

theorem rescheduledBooks (resched : Rescheduled w w') : w'.books = w.books := by
  obtain ⟨_,_,rfl⟩ := resched
  rfl

theorem startRetransmitBooks (w : World) (delay : Nat) : (startRetransmit w delay).books = w.books := by
  simp only [startRetransmit]
  split <;> rfl

theorem reschedRetransmissionBooks (w : World) : (reschedRetransmission w).books = w.books := by
  unfold reschedRetransmission
  split <;> rfl

theorem dropLastBooks (w : World) (tdata : TxData) : (dropLast w tdata).books = w.books := by
  unfold dropLast
  split
  · split <;> rfl
  · rfl

theorem postTransportErrorBooks (w : World) (err : Nat) : (postTransportError w err).books = w.books := by
  simp only [postTransportError]
  split <;> rfl

theorem shared (role : Role) (s : State) (notCalling : s ≠ .calling) (notTrying : s ≠ .trying) :
    (stateHandlers role s).isSome = true := by
  cases role <;> cases s <;> first | rfl | contradiction

theorem Base.unattached {b : Books} (base : Base k b) (off : b.pendingTransport = false) : b.modData = [] := by
  rcases base.attachment with none | ⟨_,_,_,on,_,_⟩
  · exact none
  · rw [off] at on
    cases on

theorem Base.live {b : Books} (base : Base k b) (on : b.pendingTransport = true) :
    b.state.Live := by
  rcases Nat.lt_or_ge b.state.num State.terminated.num with live | dead
  · exact live
  · rw [base.idle dead] at on
    cases on

theorem enterRetired (w : World) (source : Source) : (enter w .terminated source).books.retired :=
  ⟨_,List.mem_cons_self,rfl⟩

structure Closable (k : Kind) (w : World) : Prop where
  role : w.role = k.role
  method : w.method = k.method
  destroy : w.pendingDestroy = false
  attachment : w.modData = [] ∨ ∃ tdata, w.modData = [tdata.id] ∧ w.pendingTx = some tdata ∧
    w.pendingTransport = true
  refs : k.strict → w.refs = w.inFlight.length

theorem Account.closable (account : Account k w) : Closable k w where
  role := account.1.role
  method := account.1.method
  destroy := account.1.destroy
  attachment := account.1.attachment.imp id fun ⟨tdata,attached,pending,on,_,_⟩ =>
    ⟨tdata,attached,pending,on⟩
  refs := fun none => (account.2 none).refs

theorem terminatedAccount (closable : Closable k w) (source : Source) :
    Account k (disassociate (enter w .terminated source)) := by
  have closed : ∀ (w' : World), w'.pendingTransport = false → w'.modData = [] →
      w'.books = { (enter w .terminated source).books with
        pendingTransport := w'.pendingTransport, modData := w'.modData, pendingTx := w'.pendingTx } →
      Account k w' := by
    intro w' off empty same
    have retired : w'.books.retired := same ▸ enterRetired w source
    have state : w'.books.state = .terminated := by rw [same]; rfl
    have notLive : ¬ w'.books.state.Live := by rw [state]; exact Nat.lt_irrefl _
    refine ⟨⟨?_,?_,?_,?_,?_,fun _ => off,fun _ live => absurd live notLive,.inl empty,
      fun live => absurd live notLive⟩,fun none => ⟨?_,fun fresh => absurd retired fresh,
      fun fresh => absurd retired fresh⟩⟩
    · rw [same]
      exact closable.role
    · rw [same]
      exact closable.method
    · rw [same]
      rfl
    · rw [same]
      exact shared w.role .terminated (by decide) (by decide)
    · rw [same]
      exact closable.destroy
    · rw [same]
      exact closable.refs none
  by_cases on : w.pendingTransport = true
  · rw [disassociateOn (w := enter w .terminated source) on]
    refine closed _ rfl ?_ rfl
    dsimp only
    rw [show (enter w .terminated source).pendingTx = w.pendingTx from rfl,
      show (enter w .terminated source).modData = w.modData from rfl]
    rcases closable.attachment with none | ⟨tdata,attached,pending,-⟩
    · cases w.pendingTx <;> simp [none,detach]
    · simp [attached,pending,detach]
  · have off : w.pendingTransport = false := by simpa using on
    rw [disassociateOff (w := enter w .terminated source) off]
    refine closed _ off ?_ rfl
    rcases closable.attachment with none | ⟨_,_,_,on'⟩
    · exact none
    · exact absurd on' on

theorem setStateTerminatedAccount (quiet : Quiet tu)
    (closable : Closable k w) (source : Source) (noNotify noSchedule : Bool) :
    Account k (setState tu w .terminated source noNotify noSchedule) :=
  (terminatedAccount closable source).same (idleBooks (setStateTerminated quiet w source noNotify noSchedule))

/- A transaction that may enter a state short of terminated: it is there now, or an answered send has resolved
the server. -/
def Ready (w : World) : Prop :=
  w.state.Live ∨
    (w.resolvedServer = true ∧ (w.transport = none → w.resAddrTransport = none))

theorem Ready.same (ready : Ready w) (same : w'.books = w.books) : Ready w' := by
  have state : w'.state = w.state := congrArg Books.state same
  have resolved : w'.resolvedServer = w.resolvedServer := congrArg Books.resolvedServer same
  have transport : w'.transport = w.transport := congrArg Books.transport same
  have addr : w'.resAddrTransport = w.resAddrTransport := congrArg Books.resAddrTransport same
  unfold Ready
  rw [state,resolved,transport,addr]
  exact ready

theorem enterAccount (account : Account k w) (ready : Ready w) (s : State)
    (live : s.Live) (legal : (stateHandlers w.role s).isSome = true) (source : Source) :
    Account k (enter w s source) := by
  obtain ⟨base,booked⟩ := account
  have fresh : ¬ (enter w s source).books.retired → ¬ w.books.retired := by
    rintro still ⟨t,earlier,after⟩
    exact still ⟨t,List.mem_cons_of_mem _ earlier,after⟩
  have addr : w.transport = none → w.resAddrTransport = none := by
    rcases ready with now | resolved
    · exact fun none => base.addr none now
    · exact resolved.2
  refine ⟨⟨base.role,base.method,rfl,legal,base.destroy,fun dead => absurd dead (Nat.not_le.mpr live),fun none _ => addr none,
    base.attachment,?_⟩,fun none => ⟨(booked none).refs,?_,?_⟩⟩
  · intro _ unresolved
    rcases ready with now | resolved
    · exact base.clear now unresolved
    · exact absurd resolved.1 (by rw [show w.resolvedServer = false from unresolved]; decide)
  · exact fun still => (booked none).flag (fresh still)
  · exact fun still => (booked none).attached (fresh still)

/- The reaction of the user keeps the accounts. -/
def Keeps (k : Kind) (tu : World → World) : Prop := ∀ w, Account k w → Account k (tu w)

theorem notifyAccount (keeps : Keeps k tu)
    (account : Account k w) : Account k (notify tu w) := by
  unfold notify
  split
  · exact keeps w account
  · exact account

theorem informedAccount (keeps : Keeps k tu)
    (account : Account k w) (source : Source) : Account k (informed tu w source false) := by
  unfold informed
  refine notifyAccount keeps ?_
  split
  · exact notifyAccount keeps account
  · exact account

theorem setStateLiveAccount (keeps : Keeps k tu)
    (account : Account k w) (ready : Ready w) (s : State) (live : s.Live)
    (legal : (stateHandlers w.role s).isSome = true) (source : Source) :
    Account k (setState tu w s source false false) := by
  rw [setStateLive tu w s source live]
  exact informedAccount keeps (enterAccount account ready s live legal source) source

theorem setStateSharedAccount (keeps : Keeps k tu)
    (account : Account k w) (ready : Ready w) (s : State) (live : s.Live)
    (both : s ≠ .calling ∧ s ≠ .trying) (source : Source) : Account k (setState tu w s source false false) :=
  setStateLiveAccount keeps account ready s live (shared w.role s both.1 both.2) source

theorem setStateDestroyedAccount (quiet : Quiet tu)
    (account : Account k w) (dead : State.terminated.num ≤ w.state.num) (source : Source) :
    Account k (setState tu w .destroyed source false false) := by
  obtain ⟨base,booked⟩ := account
  have off : w.pendingTransport = false := base.idle dead
  obtain ⟨w',idle,result⟩ := setStateDestroyed quiet w source
  have books := idleBooks idle
  have off' : w'.pendingTransport = false := (congrArg Books.pendingTransport books).trans off
  have fresh : ¬ (enter w .destroyed source).books.retired → ¬ w.books.retired := by
    rintro still ⟨t,earlier,after⟩
    exact still ⟨t,List.mem_cons_of_mem _ earlier,after⟩
  have after : (shutdown w').books = { (enter w .destroyed source).books with transport := none } := by
    rw [← books]
    simp [shutdown,updateTransport,World.cancelTimeout,World.cancelRetransmit,off',World.books]
  have notLive : ¬ State.destroyed.num < State.terminated.num := by decide
  rw [result]
  unfold Account
  rw [after]
  exact ⟨⟨base.role,base.method,rfl,shared w.role .destroyed (by decide) (by decide),base.destroy,fun _ => off,fun _ live => absurd live notLive,.inl (base.unattached off),
    fun live => absurd live notLive⟩,fun none => ⟨(booked none).refs,
    fun still => (booked none).flag (fresh still),fun still => (booked none).attached (fresh still)⟩⟩

theorem resolvedAccount (account : Account k w) (off : w.pendingTransport = false)
    {tp addr : Option Transport} (unrouted : tp = none → addr = none)
    (books : v.books = { w.books with
      transport := tp, resAddrTransport := addr, pendingTx := none, modData := [], resolvedServer := true
      pendingTransport := false }) : Account k v := by
  obtain ⟨base,booked⟩ := account
  have flag := fun none => (booked none).flag
  unfold Account
  rw [books]
  refine ⟨⟨base.role,base.method,base.paired,base.legal,base.destroy,fun _ => rfl,fun none _ => unrouted none,.inl rfl,
    fun _ unresolved => by cases (show true = false from unresolved)⟩,fun none => ⟨(booked none).refs,?_,?_⟩⟩
  · intro fresh
    have before := (booked none).flag fresh
    rw [show w.books.pendingTransport = false from off] at before
    exact before
  · intro fresh tdata inside
    have before := (booked none).attached fresh tdata inside
    rw [base.unattached off] at before
    exact absurd before (List.not_mem_nil)

theorem Unrouted.addr (unrouted : Unrouted w v) (account : Account k w)
    (live : w.state.Live) : v.resAddrTransport = none := by
  obtain ⟨_,addr,rfl,none | ⟨rfl,transport⟩⟩ := unrouted
  · exact none
  · exact account.1.addr transport live

theorem Unrouted.books (unrouted : Unrouted w v) (account : Account k w)
    (live : w.state.Live) :
    v.books = { w.books with transport := none, resAddrTransport := none } := by
  have addr := unrouted.addr account live
  obtain ⟨_,_,rfl,-⟩ := unrouted
  have none : _ = Option.none := addr
  subst none
  rfl

theorem retiredAccount (quiet : Quiet tu)
    (account : Account k w) (live : w.state.Live) (unrouted : Unrouted w v)
    (resolved : w.resolvedServer = true) :
    Account k (setState tu { v with statusCode := scTransportError } .terminated .transportError false false) ∧
      Ready (setState tu { v with statusCode := scTransportError } .terminated .transportError false false) := by
  have books := unrouted.books account live
  have closable : Closable k { v with statusCode := scTransportError } := by
    have before := account.closable
    obtain ⟨_,_,rfl,-⟩ := unrouted
    exact ⟨before.role,before.method,before.destroy,before.attachment,before.refs⟩
  have ended := setStateEnded quiet { v with statusCode := scTransportError } .transportError false false
  have addr := unrouted.addr account live
  refine ⟨setStateTerminatedAccount quiet closable _ _ _,.inr ⟨?_,fun _ => ?_⟩⟩
  · rw [ended.resolvedServer]
    obtain ⟨_,_,rfl,-⟩ := unrouted
    exact resolved
  · rw [ended.resAddrTransport]
    exact addr

theorem pendingAccount (account : Account k w)
    (live : w.state.Live) (off : w.pendingTransport = false) (clock : Nat)
    (tdata : TxData) :
    Account k { w with clock := clock, refs := w.refs + 1, pendingTransport := true,
                       inFlight := w.inFlight ++ [.transport tdata] } ∧
    Ready { w with clock := clock, refs := w.refs + 1, pendingTransport := true,
                   inFlight := w.inFlight ++ [.transport tdata] } := by
  obtain ⟨base,booked⟩ := account
  refine ⟨⟨⟨base.role,base.method,base.paired,base.legal,base.destroy,fun dead => absurd dead (Nat.not_le.mpr live),base.addr,
    .inl (base.unattached off),?_⟩,fun none => ⟨?_,?_,?_⟩⟩,.inl live⟩
  · intro _ unresolved
    have empty := base.clear live unresolved
    rw [show w.books.pendingTransport = false from off] at empty
    have none : w.inFlight = [] := List.length_eq_zero_iff.mp (Nat.le_zero.mp empty)
    show (w.inFlight ++ [Flight.transport tdata]).length ≤ 1
    simp [none]
  · show w.refs + 1 = ((w.inFlight ++ [Flight.transport tdata]).length : Int)
    rw [show w.refs = _ from (booked none).refs]
    simp [World.books]
  · intro fresh
    have before := (booked none).flag fresh
    rw [show w.books.pendingTransport = false from off] at before
    have empty : w.inFlight.length = 0 := before
    show (w.inFlight ++ [Flight.transport tdata]).length = 1
    simp [empty]
  · intro fresh other inside
    have listed : Flight.endpoint other ∈ w.inFlight ++ [Flight.transport tdata] := inside
    have earlier : Flight.endpoint other ∈ w.inFlight := by simpa using listed
    exact (booked none).attached fresh other earlier

theorem plainSentAccount (quiet : Quiet tu) {tdata : TxData}
    {r : Nat × World} (account : Account k w) (live : w.state.Live)
    (resolved : w.resolvedServer = true) (sent : Sent tu o w tdata r) : Account k r.2 ∧ Ready r.2 := by
  cases sent with
  | deferred => exact ⟨account.same rfl,.inl live⟩
  | quiet => exact ⟨account.same rfl,.inl live⟩
  | pending off clock => exact pendingAccount account live off clock tdata
  | retired off unrouted resolved' => exact retiredAccount quiet account live unrouted resolved'
  | refused off fresh | refusedResponse off fresh | waiting off fresh | answered off fresh | failed off fresh =>
    exact absurd resolved (by rw [fresh]; decide)

theorem transportedBooks {u : World} (transported : Transported u v) : ∃ tp : Transport, v.books = { u.books with
      transport := some tp, pendingTransport := false, resolvedServer := true } := by
  obtain ⟨tp,_,_,_,rfl,-⟩ := transported
  exact ⟨tp,rfl⟩

theorem sendMsgNone (tu : World → World) (o : Oracle) (w : World) : sendMsg tu o w none = (pjEInval, w) := rfl

theorem callbackSentAccount (quiet : Quiet tu) (u : World) (tp : Transport)
    (destroy : u.pendingDestroy = false) (live : u.state.Live)
    (taken : ∀ v, Transported u v → Account k v) :
    Account k (callbackSent tu o u tp) ∧ Ready (callbackSent tu o u tp) := by
  obtain ⟨v,transported,result⟩ := callbackSentCases tu o u tp destroy
  have account := taken v transported
  have facts : v.state.Live ∧ v.resolvedServer = true := by
    obtain ⟨_,_,_,_,rfl,-⟩ := transported
    exact ⟨live,rfl⟩
  rcases result with ⟨-,resched⟩ | ⟨-,resched⟩
  · exact ⟨account.same (rescheduledBooks resched),Ready.same (.inl facts.1) (rescheduledBooks resched)⟩
  · have again : Account k { v with pendingSend := false } := account.same rfl
    have sent : ∀ tdata, Account k (sendMsg tu o { v with pendingSend := false } tdata).2 ∧
        Ready (sendMsg tu o { v with pendingSend := false } tdata).2 := by
      intro tdata
      cases tdata with
      | none =>
        rw [sendMsgNone]
        exact ⟨again,.inl facts.1⟩
      | some tdata =>
        exact plainSentAccount quiet again facts.1 facts.2
          (sendMsgSent tu o { v with pendingSend := false } tdata account.1.destroy)
    exact ⟨(sent _).1.same (rescheduledBooks resched),(sent _).2.same (rescheduledBooks resched)⟩

theorem sentAccount (granted : k.strict → NoRefusal o)
    (quiet : Quiet tu) {tdata : TxData}
    {r : Nat × World} (account : Account k w) (live : w.state.Live)
    (sent : Sent tu o w tdata r) : Account k r.2 ∧ (r.1 = 0 → Ready r.2) := by
  by_cases resolved : w.resolvedServer = true
  · have plain := plainSentAccount quiet account live resolved sent
    exact ⟨plain.1,fun _ => plain.2⟩
  have base := account.1
  have booked := account.2
  have alone : w.pendingTransport = false → w.resolvedServer = false → w.inFlight = [] := by
    intro off fresh
    have empty := base.clear live fresh
    rw [show w.books.pendingTransport = false from off] at empty
    exact List.length_eq_zero_iff.mp (Nat.le_zero.mp empty)
  cases sent with
  | deferred => exact ⟨account.same rfl,fun _ => .inl live⟩
  | quiet => exact ⟨account.same rfl,fun _ => .inl live⟩
  | pending off clock => exact (pendingAccount account live off clock tdata).imp id fun ready _ => ready
  | retired off unrouted resolved' => exact absurd resolved' resolved
  | refused off fresh unrouted reply =>
    refine ⟨⟨?_,fun none => absurd reply (granted none _ _)⟩,fun ok => absurd ok (Fault.isError _)⟩
    have addr := unrouted.addr account live
    have empty : w.modData = [] := base.unattached off
    have alone := alone off fresh
    obtain ⟨_,_,rfl,-⟩ := unrouted
    exact ⟨base.role,base.method,base.paired,base.legal,base.destroy,fun dead => absurd dead (Nat.not_le.mpr live),fun _ _ => addr,
      .inl (by simp [World.books,empty,detach]),fun _ _ => by simp [World.books,alone]⟩
  | refusedResponse off fresh unrouted err addr =>
    rw [unrouted.addr account live] at addr
    cases addr
  | waiting off fresh unrouted retried =>
    have addr := unrouted.addr account live
    have empty : w.modData = [] := base.unattached off
    have alone := alone off fresh
    obtain ⟨_,_,rfl,-⟩ := unrouted
    obtain ⟨_,_,rfl,-⟩ := retried
    refine ⟨⟨⟨base.role,base.method,base.paired,base.legal,base.destroy,fun dead => absurd dead (Nat.not_le.mpr live),fun _ _ => addr,.inr ?_,
      fun _ _ => by simp [World.books,engaged,alone]⟩,fun none => ⟨?_,fun _ => ?_,fun _ => ?_⟩⟩,
      fun _ => .inl live⟩
    · exact ⟨tdata,by simp [World.books,engaged,empty,attach,detach],rfl,rfl,
        by simp [World.books,engaged,alone],rfl⟩
    · have before : w.refs = w.inFlight.length := (booked none).refs
      simp [World.books,engaged,alone,before]
    · simp [World.books,engaged,alone]
    · intro other inside
      have same : other = tdata := by simpa [World.books,engaged,alone] using inside
      rw [same]
      exact List.mem_cons_self
  | @answered off fresh v unrouted count timeout keeps tp reply w' result =>
    have empty : w.modData = [] := base.unattached off
    have before := unrouted.books account live
    have state : v.state = w.state := congrArg Books.state before
    have destroy : v.pendingDestroy = w.pendingDestroy := congrArg Books.pendingDestroy before
    rw [result]
    have sent := @callbackSentAccount k tu o quiet (settled v tdata count timeout) tp
      (destroy.trans base.destroy) (show v.state.num < _ from state ▸ live)
      (fun v' transported => by
        obtain ⟨tp',books⟩ := transportedBooks transported
        refine @resolvedAccount k w v' account off (some tp') none (fun none => by cases none) ?_
        have settledBooks : (settled v tdata count timeout).books =
            { v.books with modData := detach v.books.modData tdata, pendingTx := none, pendingTransport := true } :=
          rfl
        rw [books,settledBooks,before]
        simp [World.books,empty,detach])
    exact ⟨sent.1,fun _ => sent.2⟩
  | @failed off fresh v unrouted count timeout err w' result =>
    have empty : w.modData = [] := base.unattached off
    have kept : v.state = w.state ∧ v.pendingDestroy = w.pendingDestroy ∧ v.modData = w.modData ∧
        v.refs = w.refs ∧ v.inFlight = w.inFlight := by
      obtain ⟨_,_,rfl,-⟩ := unrouted
      exact ⟨rfl,rfl,rfl,rfl,rfl⟩
    obtain ⟨state,destroy,modData,refs,inFlight⟩ := kept
    have live' : v.state.Live := state ▸ live
    have closable : Closable k (failedFor (settled v tdata count timeout) err.code) := by
      refine ⟨(unrouted.kind.1).trans base.role,(unrouted.kind.2).trans base.method,
        destroy.trans base.destroy,.inl ?_,fun none => ?_⟩
      · simp [failedFor,settled,modData,empty,detach]
      · show v.refs = v.inFlight.length
        rw [refs,inFlight]
        exact (booked none).refs
    have ended := callbackFailedEnded quiet (settled v tdata count timeout) err.code live'
    rw [← result] at ended
    rw [callbackFailedLive (settled v tdata count timeout) err.code live'] at result
    refine ⟨result ▸ setStateTerminatedAccount quiet closable _ _ _,fun ok => ?_⟩
    rw [if_pos ended.state,ended.transportErr] at ok
    exact absurd ok err.isError

section Handlers

variable (granted : k.strict → NoRefusal o) (quiet : Quiet tu)
  (keeps : Keeps k tu)

include granted quiet

variable {w : World}

theorem sendMsgAccount (account : Account k w) (live : w.state.Live)
    (tdata : Option TxData) :
    Account k (sendMsg tu o w tdata).2 ∧ ((sendMsg tu o w tdata).1 = 0 → Ready (sendMsg tu o w tdata).2) := by
  cases tdata with
  | none => exact ⟨account,fun _ => .inl live⟩
  | some tdata => exact sentAccount granted quiet account live (sendMsgSent tu o w tdata account.1.destroy)

theorem retransmitAccount (account : Account k w) (live : w.state.Live)
    (resched : Bool) : Account k (retransmit tu o w resched).2 := by
  unfold retransmit
  split
  · exact account
  · split
    · exact account
    · refine (sendMsgAccount granted quiet (account.same ?_) ?_ _).1
      · split
        · split
          · rfl
          · exact reschedRetransmissionBooks _
        · rfl
      · split
        · split
          · exact live
          · unfold reschedRetransmission
            split <;> exact live
        · exact live

include keeps

theorem onStateNullAccount (account : Account k w) (state : w.state = .null) (event : Event) :
    Account k (onStateNull tu o w event).2 := by
  have live : w.state.Live := by rw [state]; decide
  unfold onStateNull
  split
  · rename_i server
    exact setStateLiveAccount keeps account (.inl live) .trying (by decide) (by rw [server]; rfl) _
  · rename_i notServer
    split
    · rename_i tdata
      have saved : Account k { w with lastTx := some tdata } := account.same rfl
      have sent := sendMsgAccount granted quiet saved live (some tdata)
      split
      rename_i status w' result
      have client : w.role = .uac := by
        cases role : w.role with
        | uac => rfl
        | uas => exact absurd role notServer
      have kind := sendMsgKind o quiet { w with lastTx := some tdata } live account.1.destroy tdata
      rw [result] at sent kind
      have role : w'.role = .uac := kind.1.trans client
      split
      · exact sent.1
      · rename_i ok
        have ready := sent.2 (by simpa using ok)
        let armed := w'.cancelTimeout.scheduleTimeout timeoutVal .timeout
        have same : (if armed.isReliable = true then armed else startRetransmit armed t1).books = w'.books := by
          split
          · rfl
          · exact startRetransmitBooks armed t1
        exact setStateLiveAccount (w := if armed.isReliable = true then armed else startRetransmit armed t1)
          keeps (sent.1.same same) (ready.same same) .calling (by decide)
          (by rw [show (ite _ _ _ : World).role = w'.role from congrArg Books.role same,role]; rfl) .txMsg
    · exact account

omit granted quiet in
theorem completeUacAccount (account : Account k w) (ready : Ready w) (msg : Msg)
    (ack : Option TxData) : Account k (completeUac tu w msg ack) := by
  have entered := setStateSharedAccount keeps account ready .completed (by decide) (by decide) (.rxMsg msg)
  refine entered.same ?_
  cases ack <;> rfl

theorem uacResponseAccount (account : Account k w) (live : w.state.Live)
    (msg : Msg) (code : Nat) : Account k (uacResponse tu o w msg code).2 := by
  have coded : Account k { w with statusCode := code } := account.same rfl
  simp only [uacResponse]
  split
  · exact setStateSharedAccount keeps coded (.inl live) .proceeding (by decide) (by decide) _
  split
  · have stopped : Account k ({ w with statusCode := code } : World).cancelTimeout := coded.same rfl
    split
    · exact setStateTerminatedAccount quiet stopped.closable _ _ _
    · refine setStateSharedAccount keeps ?_ (.inl ?_) .completed (by decide) (by decide) _
      · exact stopped.same rfl
      · exact live
  split
  · have stopped : Account k ({ w with statusCode := code } : World).cancelRetransmit.cancelTimeout :=
      coded.same rfl
    split
    · split
      · exact stopped.same rfl
      · rename_i id _
        have asked : Account k (({ w with statusCode := code } : World).cancelRetransmit.cancelTimeout).tick :=
          stopped.same rfl
        have sent := sendMsgAccount granted quiet asked live (some ⟨id,.request .ack⟩)
        split
        · exact sent.1
        · rename_i ok
          exact completeUacAccount keeps sent.1 (sent.2 (by simpa using ok)) msg _
    · exact completeUacAccount keeps stopped (.inl live) msg none
  · exact coded

theorem onStateProceedingUacAccount (account : Account k w)
    (live : w.state.Live) (event : Event) :
    Account k (onStateProceedingUac tu o w event).2 := by
  unfold onStateProceedingUac
  split
  · exact account
  · exact account
  · exact uacResponseAccount granted quiet keeps account live _ _
  · exact retransmitAccount granted quiet account live true
  · have timed : Account k { w with statusCode := scTimeout } := account.same rfl
    exact setStateTerminatedAccount quiet timed.closable _ _ _

theorem onStateCallingAccount (account : Account k w) (live : w.state.Live) (event : Event) :
    Account k (onStateCalling tu o w event).2 := by
  unfold onStateCalling
  split
  · exact retransmitAccount granted quiet account live true
  · have timed : Account k { w.cancelRetransmit with pendingResched := false, statusCode := scTimeout } :=
      account.same rfl
    exact setStateTerminatedAccount quiet timed.closable _ _ _
  · exact account
  · refine onStateProceedingUacAccount granted quiet keeps (account.same ?_) ?_ _
    · split
      · split <;> rfl
      · split
        · rfl
        · split <;> rfl
    · split
      · split <;> exact live
      · split
        · exact live
        · split <;> exact live
  · exact account

omit granted quiet in
theorem uasProvisionalAccount (account : Account k w) (ready : Ready w) (tdata : TxData) :
    Account k (uasProvisional tu w tdata) := by
  have saved : Account k { w with lastTx := some tdata } := account.same rfl
  have entered := setStateSharedAccount keeps saved ready .proceeding (by decide) (by decide) .txMsg
  simp only [uasProvisional]
  split
  · exact entered.same (startRetransmitBooks _ _)
  · exact entered

omit granted in
theorem uasSuccessAccount (account : Account k w) (ready : Ready w) (tdata : TxData) :
    Account k (uasSuccess tu w tdata) := by
  have stopped : Account k w.cancelRetransmit := account.same rfl
  simp only [uasSuccess]
  split
  · exact setStateTerminatedAccount quiet stopped.closable _ _ _
  · have completes : ∀ started : World, started.books = w.books →
        Account k (setState tu ({ started with lastTx := some tdata }.cancelTimeout.scheduleTimeout
          (timerH { started with lastTx := some tdata }) .timeout) .completed .txMsg false false) := by
      intro started same
      refine setStateSharedAccount keeps ?_ ?_ .completed (by decide) (by decide) _
      · exact account.same same
      · exact ready.same same
    refine completes _ ?_
    split
    · exact startRetransmitBooks _ _
    · rfl

omit granted quiet in
theorem uasFailureAccount (account : Account k w) (ready : Ready w) (tdata : TxData)
    (cseq : Method) : Account k (uasFailure tu w tdata cseq) := by
  have completes : ∀ armed : World, armed.books = w.books →
      Account k (setState tu armed .completed .txMsg false false) := by
    intro armed same
    exact setStateSharedAccount keeps (account.same same) (ready.same same) .completed (by decide) (by decide) _
  refine completes _ ?_
  split
  · exact startRetransmitBooks _ _
  · rfl

omit granted in
theorem uasAnsweredAccount (account : Account k w) (ready : Ready w) (tdata : TxData)
    (cseq : Method) : Account k (uasAnswered tu w tdata cseq) := by
  unfold uasAnswered
  split
  · exact uasProvisionalAccount keeps account ready tdata
  split
  · exact uasSuccessAccount quiet keeps account ready tdata
  split
  · exact uasFailureAccount keeps account ready tdata cseq
  · exact account

theorem onStateProceedingUasAccount (account : Account k w)
    (live : w.state.Live) (event : Event) :
    Account k (onStateProceedingUas tu o w event).2 := by
  unfold onStateProceedingUas
  split
  · split
    · exact account
    · split
      · exact account.same rfl
      · exact (sendMsgAccount granted quiet account live _).1
  · rename_i tdata
    split
    · exact account
    · rename_i code cseq _
      have dropped : Account k (dropLast { w with statusCode := code } tdata) :=
        account.same (dropLastBooks _ _)
      have stillLive : (dropLast { w with statusCode := code } tdata).state.Live := by
        have same : (dropLast { w with statusCode := code } tdata).state = w.state :=
          congrArg Books.state (dropLastBooks _ _)
        rw [same]
        exact live
      have sent := sendMsgAccount granted quiet dropped stillLive (some tdata)
      dsimp only
      split
      · exact sent.1
      · rename_i ok
        exact uasAnsweredAccount quiet keeps sent.1 (sent.2 (by simpa using ok)) tdata cseq
  · exact retransmitAccount granted quiet account live true
  · have timed : Account k { w with statusCode := scTimeout } := account.same rfl
    exact setStateTerminatedAccount quiet timed.closable _ _ _

theorem onStateTryingAccount (account : Account k w) (live : w.state.Live) (event : Event) :
    Account k (onStateTrying tu o w event).2 := by
  unfold onStateTrying
  split
  · rename_i tdata
    have handled := onStateProceedingUasAccount granted quiet keeps account live (.txMsg tdata)
    split
    rename_i status w' result
    rw [result] at handled
    split
    · rename_i still
      refine setStateSharedAccount keeps handled (.inl ?_) .proceeding (by decide) (by decide) _
      rw [still.2]
      decide
    · exact handled
  · exact account

theorem onStateCompletedUasAccount (account : Account k w)
    (live : w.state.Live) (event : Event) :
    Account k (onStateCompletedUas tu o w event).2 := by
  unfold onStateCompletedUas
  split
  · exact account
  · split
    · exact retransmitAccount granted quiet account live false
    split
    · exact account
    · refine setStateSharedAccount keeps ?_ (.inl ?_) .confirmed (by decide) (by decide) _
      · exact account.same rfl
      · exact live
  · exact retransmitAccount granted quiet account live true
  · have coded : Account k (if w.method = .invite then { w with statusCode := scTimeout } else w) := by
      split
      · exact account.same rfl
      · exact account
    exact setStateTerminatedAccount quiet coded.closable _ _ _
  · exact account

omit keeps in
theorem onStateCompletedUacAccount (account : Account k w)
    (live : w.state.Live) (event : Event) :
    Account k (onStateCompletedUac tu o w event).2 := by
  unfold onStateCompletedUac
  split
  · exact account
  · exact setStateTerminatedAccount quiet account.closable _ _ _
  · split
    · exact retransmitAccount granted quiet account live false
    · exact account
  · exact account
  · exact account

omit granted keeps in
theorem onStateConfirmedAccount (account : Account k w) (event : Event) :
    Account k (onStateConfirmed tu w event).2 := by
  unfold onStateConfirmed
  split
  · exact account
  · exact account
  · exact account
  · exact setStateTerminatedAccount quiet account.closable _ _ _
  · exact account

omit granted keeps in
theorem onStateTerminatedAccount (account : Account k w)
    (dead : State.terminated.num ≤ w.state.num) (event : Event) : Account k (onStateTerminated tu w event).2 := by
  unfold onStateTerminated
  split
  · exact setStateDestroyedAccount quiet account dead _
  · exact account

theorem dispatchAccount (account : Account k w) (event : Event) : Account k (dispatch tu o w event).2 := by
  have paired : w.stateHandler = stateHandlers w.role w.state := account.1.paired
  cases found : w.stateHandler with
  | none =>
    rw [dispatchNone tu o event found]
    exact account.same rfl
  | some handler =>
    rw [dispatchSome tu o event found]
    rw [found] at paired
    have state := handlerState paired
    have live : handler ≠ .terminated → handler ≠ .destroyed → w.state.Live := by
      intro notTerminated notDestroyed
      rw [state]
      cases handler <;> first | decide | contradiction
    cases handler with
    | null => exact onStateNullAccount granted quiet keeps account state event
    | calling => exact onStateCallingAccount granted quiet keeps account (live (by decide) (by decide)) event
    | trying => exact onStateTryingAccount granted quiet keeps account (live (by decide) (by decide)) event
    | proceedingUas => exact onStateProceedingUasAccount granted quiet keeps account (live (by decide) (by decide)) event
    | proceedingUac => exact onStateProceedingUacAccount granted quiet keeps account (live (by decide) (by decide)) event
    | completedUas => exact onStateCompletedUasAccount granted quiet keeps account (live (by decide) (by decide)) event
    | completedUac => exact onStateCompletedUacAccount granted quiet account (live (by decide) (by decide)) event
    | confirmed => exact onStateConfirmedAccount quiet account event
    | terminated => exact onStateTerminatedAccount quiet account (state ▸ Nat.le_refl _) event
    | destroyed => exact account

theorem userOpAccount (account : Account k w) (op : UserOp) (timely : op.Timely w) :
    Account k (userOp tu o w op) := by
  cases op with
  | retransmitNoState =>
    rcases resendTimely tu o timely with same | ⟨live,sends⟩
    · rw [same]
      exact account
    · rw [sends]
      exact (sendMsgAccount granted quiet account live _).1
  | sendMsg =>
    simp only [userOp,pjsipTsxSendMsg]
    split
    · exact account
    · exact dispatchAccount granted quiet keeps account _
  | terminate code =>
    simp only [userOp,pjsipTsxTerminate]
    split
    · exact account
    split
    · have coded : Account k { w with statusCode := code } := account.same rfl
      exact setStateTerminatedAccount quiet coded.closable _ _ _
    · exact account
  | stopRetransmit => exact account.same (idleBooks (stopRetransmitIdle w))
  | setTimeout millisec => exact account.same (idleBooks (setTimeoutIdle w millisec))
  | handle200resp value => exact account.same rfl

theorem userOpsAccount (ops : List UserOp) (account : Account k w) (timely : ∀ op ∈ ops, ∀ w, op.Timely w) :
    Account k (ops.foldl (userOp tu o) w) := by
  induction ops generalizing w with
  | nil => exact account
  | cons op ops ih =>
    exact ih (userOpAccount granted quiet keeps account op (timely op List.mem_cons_self w))
      (fun op' inside => timely op' (List.mem_cons_of_mem _ inside))

end Handlers

theorem reactionKeeps (granted : k.strict → NoRefusal o) (timely : TimelyUser o) (depth : Nat) :
    Keeps k (reaction o depth) := by
  induction depth with
  | zero => exact fun w account => account
  | succ depth ih =>
    intro w account
    have ticked : Account k w.tick := account.same rfl
    exact userOpsAccount granted (reactionQuiet timely depth) ih _ ticked (timely w.clock)

end Pjproject.Tsx
