import Pjproject.PrackOrder

/-! The queue of reliable responses over the INVITE transactions of a dialog: it has responses of the transaction that is
being answered only, and the timer runs whenever there is something in it. -/
namespace Pjproject.Rel100

structure Current (d : Dialog) : Prop where
  armed : ∀ u, d.uasState = some u → Armed u
  idle : d.state ≠ .early → d.state ≠ .confirmed → d.inviteTsx = none
  running : d.crashed = false
  current : ∀ u, d.uasState = some u → ∀ tl ∈ u.txDataList, d.inviteTsx = some tl.tdata.cseq

section Steps

variable {d : Dialog} {u : UasState}

theorem sendMsgCrashed (d : Dialog) (r : Response) : (d.sendMsg r).crashed = d.crashed := by
  have answered : ∀ (e : Dialog) (code : Nat), (e.answered code).crashed = e.crashed := by
    intro e code
    unfold Dialog.answered
    cases e.state with
    | early =>
      dsimp only
      split
      · rfl
      · rfl
    | connecting => rfl
    | confirmed => rfl
    | disconnected => rfl
  unfold Dialog.sendMsg
  split
  · rfl
  · dsimp only
    split
    · exact answered _ _
    · rfl

theorem emptyMap (empty : ∀ u, d.uasState = some u → u.txDataList = []) {state : Option UasState}
    (same : state = d.uasState ∨ state = d.uasState.map (fun u => u.cancelTimer.clearAllResponses)) :
    ∀ u, state = some u → u.txDataList = [] := by
  rcases same with rfl | rfl
  · exact empty
  · intro u here
    obtain ⟨old,_,rfl⟩ := Option.map_eq_some_iff.mp here
    rfl

variable {r : Response}

theorem sendFinalCurrent (current : Current d) (final : 200 ≤ r.code)
    (empty : ∀ u, d.uasState = some u → u.txDataList = []) : Current (d.sendMsg r) := by
  rcases sendMsgCases d r with ⟨_,same⟩ | ⟨_,_,⟨below,_⟩ | ⟨_,ends,state⟩⟩
  · rw [same]
    exact current
  · omega
  · refine ⟨armedMap current.armed state,fun _ _ => ends,by rw [sendMsgCrashed,current.running],fun u here tl member => ?_⟩
    rw [emptyMap empty state u here] at member
    contradiction

theorem setCurrent (current : Current d) (armed : Armed u)
    (mine : ∀ tl ∈ u.txDataList, d.inviteTsx = some tl.tdata.cseq) : Current { d with uasState := some u } := by
  refine ⟨fun v same => ?_,current.idle,current.running,fun v same => ?_⟩
  · rw [← Option.some.inj same]
    exact armed
  · rw [← Option.some.inj same]
    exact mine

theorem clearedCurrent (current : Current d) (list : u.txDataList = []) (timer : u.retransmitTimer = none)
    (final : 200 ≤ r.code) : Current ({ d with uasState := some u }.sendMsg r) := by
  have cleared : Current { d with uasState := some u } := by
    refine setCurrent current (armedEmpty list timer) ?_
    rw [list]
    exact nofun
  refine sendFinalCurrent cleared final (fun v same => ?_)
  rw [← Option.some.inj same]
  exact list

theorem sendProvisionalCurrent (current : Current d) (provisional : r.code < 200) :
    Current (d.sendMsg r) ∧ (d.sendMsg r).inviteTsx = d.inviteTsx := by
  rcases sendMsgCases d r with ⟨_,same⟩ | ⟨_,_,⟨_,tsx,state,uas⟩ | ⟨final,_⟩⟩
  · rw [same]
    exact ⟨current,rfl⟩
  · refine ⟨⟨fun u here => current.armed u (uas ▸ here),fun early confirmed => ?_,?_,fun u here tl member => ?_⟩,tsx⟩
    · rw [tsx]
      exact current.idle (state ▸ early) (state ▸ confirmed)
    · rw [sendMsgCrashed,current.running]
    · rw [tsx]
      exact current.current u (uas ▸ here) tl member
  · omega

/- The queue on_retransmit works on, when its head can be sent. -/
structure Due (d : Dialog) (u : UasState) (tl : TxData) (rest : List TxData) : Prop where
  list : u.txDataList = tl :: rest
  entries : ∀ tl ∈ u.txDataList, tl.Fits u.cseq
  mine : ∀ tl ∈ u.txDataList, d.inviteTsx = some tl.tdata.cseq
  idle : d.state ≠ .early → d.state ≠ .confirmed → d.inviteTsx = none
  running : d.crashed = false
  later : u.retransmitCount ≠ 0 → tl.tdata.isReliable = true
  ends : 6 ≤ u.retransmitCount → d.state ≠ .confirmed

variable {tl : TxData} {rest : List TxData}

theorem Due.invite (due : Due d u tl rest) : d.inviteTsx = some tl.tdata.cseq :=
  due.mine tl (by rw [due.list]; exact List.mem_cons_self)

theorem Due.early (due : Due d u tl rest) (last : 6 ≤ u.retransmitCount) : d.state = .early := by
  by_contra other
  have none := due.idle other (due.ends last)
  rw [due.invite] at none
  contradiction

theorem rejectDisconnects (due : Due d u tl rest) (last : 6 ≤ u.retransmitCount) (v : UasState) :
    ({ d with uasState := some v }.rejectUnacknowledged).state = .disconnected := by
  unfold Dialog.rejectUnacknowledged Dialog.sendMsg Dialog.answered Dialog.disconnect Dialog.endSession
  rw [due.early last,due.invite]
  rfl

theorem onRetransmitExpired (last : 6 ≤ u.retransmitCount) : d.onRetransmit u =
    { d with uasState := some { u with
      txDataList := [], retransmitTimer := none, retransmitCount := u.retransmitCount + 1 } }.rejectUnacknowledged := by
  unfold Dialog.onRetransmit
  rw [if_pos (by dsimp only; omega)]
  rfl

theorem onRetransmitFirst (due : Due d u tl rest) (zero : u.retransmitCount = 0) :
    Current (d.onRetransmit u) ∧ .sent tl.tdata ∈ (d.onRetransmit u).log := by
  have invite := due.invite
  have fits := due.entries tl (by rw [due.list]; exact List.mem_cons_self)
  have once : u.retransmitCount + 1 = 1 := by omega
  unfold Dialog.onRetransmit
  dsimp only
  rw [if_neg (by omega),due.list]
  dsimp only
  rw [if_pos once]
  have crashed : (d.sendMsg tl.tdata).crashed = false := (sendMsgCrashed d tl.tdata).trans due.running
  rcases sendMsgCases d tl.tdata with ⟨none,_⟩ | ⟨_,log,later⟩
  · rw [none] at invite
    contradiction
  · have member : .sent tl.tdata ∈ (d.sendMsg tl.tdata).log := by
      rw [log]
      exact List.mem_append_right _ List.mem_cons_self
    rcases later with ⟨below,tsx,state,_⟩ | ⟨final,ends,_⟩
    · rw [if_neg (Nat.not_le_of_lt below)]
      have reliable : tl.tdata.isReliable = true := by
        rcases fits with success | ⟨reliable,_⟩
        · have above := (successAbove success).1
          omega
        · exact reliable
      refine ⟨⟨fun v same => ?_,fun early confirmed => ?_,crashed,fun v same => ?_⟩,member⟩
      · rw [← Option.some.inj same]
        exact armedHead rfl rfl (Nat.le_add_left 1 _) (due.list ▸ due.entries) reliable
      · exact tsx.trans (due.idle (state ▸ early) (state ▸ confirmed))
      · rw [← Option.some.inj same]
        intro q inside
        exact tsx.trans (due.mine q (by rw [due.list]; exact inside))
    · rw [if_pos final]
      refine ⟨⟨fun v same => ?_,fun _ _ => ends,crashed,fun v same => ?_⟩,member⟩
      · rw [← Option.some.inj same]
        exact armedEmpty rfl rfl
      · rw [← Option.some.inj same]
        exact nofun

theorem onRetransmitAgain (due : Due d u tl rest) (sent : u.retransmitCount ≠ 0) (more : u.retransmitCount < 6) :
    Current (d.onRetransmit u) ∧ (d.onRetransmit u).log = d.log ++ [.resent tl.tdata] ∧
      (d.onRetransmit u).head = some tl.tdata := by
  have reliable := due.later sent
  have again : d.retransmitNoState tl.tdata = { d with log := d.log ++ [.resent tl.tdata] } := by
    unfold Dialog.retransmitNoState
    rw [due.invite]
  have already : ¬ u.retransmitCount + 1 = 1 := by omega
  unfold Dialog.onRetransmit
  dsimp only
  rw [if_neg (by omega),due.list]
  dsimp only
  rw [if_neg already,if_neg (Nat.not_le_of_lt (reliableBelow reliable).1),again]
  refine ⟨⟨fun v same => ?_,due.idle,due.running,fun v same => ?_⟩,rfl,rfl⟩
  · rw [← Option.some.inj same]
    exact armedHead rfl rfl (Nat.le_add_left 1 _) (due.list ▸ due.entries) reliable
  · rw [← Option.some.inj same]
    intro q inside
    exact due.mine q (by rw [due.list]; exact inside)

theorem onRetransmitLast (due : Due d u tl rest) (last : 6 ≤ u.retransmitCount) :
    Current (d.onRetransmit u) ∧ (d.onRetransmit u).state = .disconnected := by
  rw [onRetransmitExpired last]
  generalize ({ u with txDataList := [], retransmitTimer := none, retransmitCount := u.retransmitCount + 1 } : UasState) =
    v
  refine ⟨?_,rejectDisconnects due last v⟩
  unfold Dialog.rejectUnacknowledged Dialog.sendMsg Dialog.answered Dialog.disconnect Dialog.endSession
  rw [due.early last,due.invite]
  refine ⟨fun w same => ?_,fun _ _ => rfl,due.running,fun w same => ?_⟩
  · rw [← Option.some.inj same]
    exact armedCleared v
  · rw [← Option.some.inj same]
    exact nofun

theorem onRetransmitCurrent (due : Due d u tl rest) : Current (d.onRetransmit u) := by
  rcases Nat.eq_zero_or_pos u.retransmitCount with zero | sent
  · exact (onRetransmitFirst due zero).1
  · rcases Nat.lt_or_ge u.retransmitCount 6 with more | last
    · exact (onRetransmitAgain due (Nat.ne_of_gt sent) more).1
    · exact (onRetransmitLast due last).1

theorem txSuccessCurrent (current : Current d) (success : r.isSuccess = true)
    (mine : d.inviteTsx = some r.cseq) : Current (d.txSuccess r) := by
  have final := (successAbove success).1
  unfold Dialog.txSuccess
  split
  · rename_i none
    refine sendFinalCurrent current final (fun u here => ?_)
    rw [none] at here
    contradiction
  · rename_i u here
    have armed := current.armed u here
    split
    · rename_i sdp
      have more : u.txDataList ≠ [] := by
        intro none
        rw [UasState.hasSdp,none] at sdp
        contradiction
      refine setCurrent current (armed.queued more (.inl success) u.rseq) (fun q member => ?_)
      rcases List.mem_append.mp member with before | new
      · exact current.current u here q before
      · rw [List.mem_singleton.mp new]
        exact mine
    · exact clearedCurrent current rfl rfl final

theorem txFailureCurrent (current : Current d) (final : 300 ≤ r.code) : Current (d.txFailure r) := by
  have above : 200 ≤ r.code := by omega
  unfold Dialog.txFailure
  split
  · rename_i none
    refine sendFinalCurrent current above (fun u here => ?_)
    rw [none] at here
    contradiction
  · rename_i u here
    split
    · exact clearedCurrent current rfl rfl above
    · rename_i stopped
      refine sendFinalCurrent current above (fun v here' => ?_)
      rw [here] at here'
      obtain rfl := Option.some.inj here'
      by_contra more
      exact stopped ((current.armed u here).timer.mpr more)

def Dialog.Holds (d : Dialog) (q : Response) : Prop :=
  ∃ u, d.uasState = some u ∧ ∃ tl ∈ u.txDataList, tl.tdata = q

/- A response as it is sent reliably, under the next RSeq. -/
def Dialog.reliably (d : Dialog) (r : Response) (rand : Nat) : Response :=
  { r with require := true, rseq := some (printU (d.uasOf r.cseq rand).rseq) }

/- It is accepted, and it is transmitted or queued under its own RSeq. -/
def Dialog.Accepts (d : Dialog) (r : Response) (rand : Nat) : Prop :=
  (d.txResponse r rand).1 = .success ∧
    (.sent (d.reliably r rand) ∈ (d.txResponse r rand).2.log ∨ (d.txResponse r rand).2.Holds (d.reliably r rand))

theorem txProvisionalCurrent (current : Current d) (code : 100 < r.code ∧ r.code < 200)
    (mine : d.inviteTsx = some r.cseq) (rand : Nat) : Current (d.txProvisional r rand).2 ∧
      ((d.txProvisional r rand).1 = .success ↔ r.cseq = (d.uasOf r.cseq rand).cseq) ∧
      (r.cseq = (d.uasOf r.cseq rand).cseq → .sent (d.reliably r rand) ∈ (d.txProvisional r rand).2.log ∨
        (d.txProvisional r rand).2.Holds (d.reliably r rand)) := by
  have held : Armed (d.uasOf r.cseq rand) ∧ ∀ tl ∈ (d.uasOf r.cseq rand).txDataList, d.inviteTsx = some tl.tdata.cseq := by
    unfold Dialog.uasOf
    cases here : d.uasState with
    | none => exact ⟨armedEmpty rfl rfl,nofun⟩
    | some u => exact ⟨current.armed u here,current.current u here⟩
  unfold Dialog.txProvisional Dialog.reliably
  dsimp only
  generalize d.uasOf r.cseq rand = u at held
  obtain ⟨armed,own⟩ := held
  split
  · rename_i other
    exact ⟨setCurrent current armed own,⟨(fun same => nomatch same),fun same => absurd same other⟩,
      fun same => absurd same other⟩
  · rename_i same
    have same : r.cseq = u.cseq := not_not.mp same
    generalize made : (⟨u.rseq,{ r with require := true, rseq := some (printU u.rseq) }⟩ : TxData) = tl
    have reliable : tl.tdata.isReliable = true := by
      rw [← made]
      unfold Response.isReliable
      simp only [decide_eq_true code.1,decide_eq_true code.2,Bool.and_self]
    have content : { r with require := true, rseq := some (printU u.rseq) } = tl.tdata := congrArg TxData.tdata made
    have fits : tl.Fits u.cseq := by
      refine .inr ⟨reliable,?_⟩
      rw [← made]
      exact ⟨rfl,same⟩
    have longer : ∀ q ∈ u.txDataList ++ [tl], q.Fits u.cseq ∧ d.inviteTsx = some q.tdata.cseq := by
      intro q member
      rcases List.mem_append.mp member with before | new
      · exact ⟨armed.entries q before,own q before⟩
      · rw [List.mem_singleton.mp new]
        exact ⟨fits,by rw [← content,mine]⟩
    split
    · rename_i more
      refine ⟨setCurrent current (armed.queued more fits (u.rseq + 1)) (fun q member => (longer q member).2),
        ⟨fun _ => same,fun _ => rfl⟩,fun _ => .inr ?_⟩
      rw [content]
      exact ⟨_,rfl,tl,List.mem_append_right _ List.mem_cons_self,rfl⟩
    · rename_i none
      have none : u.txDataList = [] := not_not.mp none
      have due : Due d { u with rseq := u.rseq + 1, txDataList := u.txDataList ++ [tl], retransmitCount := 0 } tl [] := by
        refine ⟨?_,fun q member => (longer q member).1,fun q member => (longer q member).2,current.idle,
          current.running,fun sent => absurd rfl sent,nofun⟩
        dsimp only
        rw [none,List.nil_append]
      obtain ⟨after,sent⟩ := onRetransmitFirst due rfl
      rw [content]
      exact ⟨after,⟨fun _ => same,fun _ => rfl⟩,fun _ => .inl sent⟩

theorem txResponseCurrent (current : Current d) (code : 100 ≤ r.code) (mine : d.inviteTsx = some r.cseq)
    (rand : Nat) : Current (d.txResponse r rand).2 := by
  unfold Dialog.txResponse
  split
  · rename_i plain
    exact (sendProvisionalCurrent current (by omega)).1
  · rename_i other
    dsimp only
    split
    · rename_i success
      exact txSuccessCurrent current (decide_eq_true success) mine
    · split
      · rename_i final
        exact txFailureCurrent current final
      · refine (txProvisionalCurrent current ⟨?_,?_⟩ mine rand).1
        · omega
        · omega

theorem acceptsIff (current : Current d) (code : 100 < r.code ∧ r.code < 200)
    (mine : d.inviteTsx = some r.cseq) (rand : Nat) :
    d.Accepts r rand ↔ d.uasState.all (fun u => decide (u.cseq = r.cseq)) = true := by
  obtain ⟨_,success,taken⟩ := txProvisionalCurrent current (r := { r with require := false, rseq := none }) code mine rand
  have branch : d.txResponse r rand = d.txProvisional { r with require := false, rseq := none } rand := by
    have hundreds : ¬ r.code / 100 = 2 := by omega
    have below : ¬ 300 ≤ r.code := by omega
    have above : ¬ r.code = 100 := by omega
    unfold Dialog.txResponse
    rw [if_neg above]
    dsimp only
    rw [if_neg hundreds,if_neg below]
  have named : d.uasState.all (fun u => decide (u.cseq = r.cseq)) = true ↔ r.cseq = (d.uasOf r.cseq rand).cseq := by
    unfold Dialog.uasOf
    cases d.uasState with
    | none => exact ⟨fun _ => rfl,fun _ => rfl⟩
    | some =>
      rw [Option.all_some,decide_eq_true_eq]
      exact eq_comm
  unfold Dialog.Accepts
  rw [named,branch]
  exact ⟨fun accepted => success.mp accepted.1,fun same => ⟨success.mpr same,taken same⟩⟩

theorem onRxPrackCurrent (current : Current d) (rack : Option (List Char)) : Current (d.onRxPrack rack).2 := by
  unfold Dialog.onRxPrack
  split
  · exact current
  · rename_i u here
    have armed := current.armed u here
    split
    · exact current
    · rename_i tl rest list
      split
      · exact current
      · split
        · dsimp only
          have later : ∀ q ∈ rest, q.Fits u.cseq ∧ d.inviteTsx = some q.tdata.cseq := by
            intro q member
            have inside : q ∈ u.txDataList := by
              rw [list]
              exact List.mem_cons_of_mem _ member
            exact ⟨armed.entries q inside,current.current u here q inside⟩
          split
          · rename_i none
            subst none
            refine ⟨fun v same => ?_,current.idle,current.running,fun v same => ?_⟩
            · rw [← Option.some.inj same]
              exact armedEmpty rfl rfl
            · rw [← Option.some.inj same]
              exact nofun
          · rename_i more
            obtain ⟨next,after,list'⟩ := List.exists_cons_of_ne_nil more
            subst list'
            have due : Due
                { d with
                  uasState := some { u.cancelTimer with txDataList := next :: after, retransmitCount := 0 }
                  log := d.log ++ [.matched tl.tdata] }
                { u.cancelTimer with txDataList := next :: after, retransmitCount := 0 } next after :=
              ⟨rfl,fun q member => (later q member).1,fun q member => (later q member).2,current.idle,
                current.running,fun sent => absurd rfl sent,nofun⟩
            exact onRetransmitCurrent due
        · exact current

theorem Current.due (current : Current d) (here : d.uasState = some u) (list : u.txDataList = tl :: rest)
    (ends : d.endsTimeout .timer = true) : Due d u tl rest := by
  have armed := current.armed u here
  have more : u.txDataList ≠ [] := by
    rw [list]
    exact nofun
  refine ⟨list,armed.entries,current.current u here,current.idle,current.running,
    fun _ => armed.head tl (by rw [list]; rfl),fun last established => ?_⟩
  have out : d.timesOut = true := by
    rw [Dialog.timesOut,here,Option.any_some,armed.timer.mpr more,decide_eq_true last]
    rfl
  rw [Dialog.endsTimeout,out,established] at ends
  contradiction

theorem disconnectCurrent (current : Current d) : Current d.disconnect := by
  refine ⟨armedMap current.armed (.inr rfl),fun _ _ => rfl,current.running,fun u here => ?_⟩
  obtain ⟨old,_,rfl⟩ := Option.map_eq_some_iff.mp here
  exact nofun

end Steps

/- Reliable responses are sent for the INVITE that the state of the UAS was made for, the timer does not expire for the
last time in a session that is established, and no transaction fails there with responses in the queue. -/
def Dialog.fits (d : Dialog) : Event → Bool
  | .own (.answer code _ _) =>
    decide (code ≤ 100) || decide (200 ≤ code) ||
      d.inviteTsx.all (fun cseq => d.uasState.all (fun u => decide (u.cseq = cseq)))
  | .own .tsxError => decide (d.state ≠ .confirmed) || decide (d.head = none)
  | .own event => d.endsTimeout event
  | _ => true

def Dialog.everyEvent (d : Dialog) : List Event → Bool
  | [] => true
  | event :: rest => d.fits event && (d.step event).everyEvent rest

section Runs

variable {d : Dialog}

theorem ownCurrent (current : Current d) {event : Local} (fits : d.fits (.own event) = true) : Current (d.own event) := by
  cases event with
  | answer code body rand =>
    unfold Dialog.own
    dsimp only
    split
    · exact current
    · rename_i cseq here
      split
      · rename_i valid
        exact txResponseCurrent current valid here rand
      · exact current
  | timer =>
    unfold Dialog.own
    dsimp only
    split
    · exact current
    · rename_i u here
      split
      · rename_i scheduled
        have more := (current.armed u here).timer.mp scheduled
        obtain ⟨tl,rest,list⟩ := List.exists_cons_of_ne_nil more
        exact onRetransmitCurrent (current.due here list fits)
      · exact current
  | rxAck =>
    unfold Dialog.own
    dsimp only
    split
    · rename_i connecting
      have none : d.inviteTsx = none := by
        refine current.idle ?_ ?_
        · rw [connecting]
          exact nofun
        · rw [connecting]
          exact nofun
      exact ⟨current.armed,fun _ _ => none,current.running,current.current⟩
    · exact current
  | tsxError =>
    unfold Dialog.own
    dsimp only
    split
    · exact disconnectCurrent current
    · rename_i late
      refine ⟨current.armed,fun _ _ => rfl,current.running,fun u here tl member => ?_⟩
      have here : d.uasState = some u := here
      have open' := current.current u here tl member
      have established : d.state = .confirmed := by
        by_contra other
        rw [current.idle late other] at open'
        contradiction
      have empty : d.head = none := by
        rw [Dialog.fits,established] at fits
        simpa using fits
      rw [headOf here,Option.map_eq_none_iff,List.head?_eq_none_iff] at empty
      rw [empty] at member
      contradiction
  | ended => exact disconnectCurrent current

theorem Current.step (current : Current d) {event : Event} (fits : d.fits event = true) : Current (d.step event) := by
  unfold Dialog.step
  split
  · exact current
  · cases event with
    | own => exact ownCurrent current fits
    | rxPrack rack => exact onRxPrackCurrent current rack
    | rxInvite cseq =>
      dsimp only
      split
      · split
        · rename_i free
          refine ⟨current.armed,fun _ late => absurd free.1 late,current.running,fun u here tl member => ?_⟩
          have open' := current.current u here tl member
          rw [free.2] at open'
          contradiction
        · exact ⟨current.armed,current.idle,current.running,current.current⟩
      · exact current

theorem currentRun (events : List Event) : ∀ {d : Dialog}, Current d → d.everyEvent events = true →
    Current (d.run events) := by
  induction events with
  | nil => exact fun current _ => current
  | cons event rest ih =>
    intro d current every
    rw [Dialog.everyEvent,Bool.and_eq_true] at every
    exact ih (current.step every.1) every.2

theorem everyPrefix (first rest : List Event) : ∀ {d : Dialog}, d.everyEvent (first ++ rest) = true →
    d.everyEvent first = true ∧ (d.run first).everyEvent rest = true := by
  induction first with
  | nil => exact fun every => ⟨rfl,every⟩
  | cons event later ih =>
    intro d every
    rw [List.cons_append,Dialog.everyEvent,Bool.and_eq_true] at every
    obtain ⟨before,after⟩ := ih every.2
    exact ⟨by rw [Dialog.everyEvent,every.1,before]; rfl,after⟩

theorem Dialog.Fresh.current (fresh : d.Fresh) : Current d := by
  have none : ∀ u, d.uasState ≠ some u := by
    intro u here
    rw [fresh.uasState] at here
    contradiction
  exact ⟨fun u here => absurd here (none u),fun late _ => absurd fresh.state late,fresh.crashed,
    fun u here => absurd here (none u)⟩

end Runs

/- The queue is the current INVITE's, its timer is scheduled and sends the head again or ends the session, and a
provisional response is accepted exactly when the state of the UAS is none yet or the current INVITE's. -/
structure Dialog.Steady (d : Dialog) : Prop where
  queue : ∀ u, d.uasState = some u → ∀ tl ∈ u.txDataList, d.inviteTsx = some tl.tdata.cseq
  timer : ∀ u, d.uasState = some u → u.txDataList ≠ [] → u.retransmitTimer.isSome = true
  fires : ∀ u tl rest, d.uasState = some u → u.txDataList = tl :: rest → d.endsTimeout .timer = true →
    ((d.step (.own .timer)).log = d.log ++ [.resent tl.tdata] ∧ (d.step (.own .timer)).head = some tl.tdata) ∨
      (d.step (.own .timer)).state = .disconnected
  answers : ∀ cseq, d.inviteTsx = some cseq → ∀ code body rand, 100 < code → code < 200 →
    (d.Accepts { code := code, body := body, cseq := cseq } rand ↔
      d.uasState.all (fun u => decide (u.cseq = cseq)) = true)

theorem Current.steady {d : Dialog} (current : Current d) : d.Steady := by
  refine ⟨current.current,fun u here more => (current.armed u here).timer.mpr more,fun u tl rest here list ends => ?_,
    fun cseq mine code body rand above below => acceptsIff current ⟨above,below⟩ mine rand⟩
  have due := current.due here list ends
  have more : u.txDataList ≠ [] := by
    rw [list]
    exact nofun
  have count := (current.armed u here).count more
  unfold Dialog.step Dialog.own
  split
  · rename_i gone
    have left : d.state = .disconnected := gone.resolve_left (by rw [current.running]; exact Bool.false_ne_true)
    exact .inr left
  · dsimp only
    rw [here]
    dsimp only
    rw [if_pos ((current.armed u here).timer.mpr more)]
    rcases Nat.lt_or_ge u.retransmitCount 6 with again | last
    · exact .inl (onRetransmitAgain due (by omega) again).2
    · exact .inr (onRetransmitLast due last).2

theorem queueNeverStalls {d : Dialog} (fresh : d.Fresh) (events : List Event) (fits : d.everyEvent events = true) :
    (d.run events).Steady ∧ ∀ first code body rand rest cseq, events = first ++ .own (.answer code body rand) :: rest →
      100 < code → code < 200 → (d.run first).inviteTsx = some cseq →
        (d.run first).Accepts { code := code, body := body, cseq := cseq } rand := by
  refine ⟨(currentRun events fresh.current fits).steady,?_⟩
  intro first code body rand rest cseq whole above below mine
  rw [whole] at fits
  obtain ⟨before,after⟩ := everyPrefix first _ fits
  rw [Dialog.everyEvent,Bool.and_eq_true] at after
  have current := (currentRun first fresh.current before).steady
  refine (current.answers cseq mine code body rand above below).mpr ?_
  have named := after.1
  rw [Dialog.fits,mine,decide_eq_false (by omega),decide_eq_false (by omega)] at named
  exact named

/- An INVITE that is answered reliably and acknowledged; a second reliable response waits in the queue on the way. -/
def ringing : List Event :=
  [.own (.answer 180 false 9),.own (.answer 183 true 0),.own .timer,.rxPrack (some (Rack.print ⟨10,1,[]⟩)),
    .rxPrack (some (Rack.print ⟨11,1,[]⟩)),.own (.answer 200 true 0),.own .rxAck]

theorem ringingSteady :
    (Dialog.run { inviteTsx := some 1, remoteCSeq := 1 } ringing).Steady ∧
      (Dialog.run { inviteTsx := some 1, remoteCSeq := 1 } (ringing.take 2)).Steady := by
  have fresh : Dialog.Fresh { inviteTsx := some 1, remoteCSeq := 1 } := ⟨rfl,rfl,rfl,rfl,rfl⟩
  exact ⟨(queueNeverStalls fresh ringing (by decide +kernel)).1,
    (queueNeverStalls fresh (ringing.take 2) (by decide +kernel)).1⟩

/- The next INVITE of the dialog gets no reliable response any more. -/
theorem nextInviteRefused : ¬ ∀ d : Dialog, d.Fresh → ∀ events cseq code body rand, 100 < code → code < 200 →
    (d.run events).inviteTsx = some cseq →
      (d.run events).Accepts { code := code, body := body, cseq := cseq } rand := by
  intro claim
  have accepted := claim { inviteTsx := some 1, remoteCSeq := 1 } ⟨rfl,rfl,rfl,rfl,rfl⟩ (ringing ++ [.rxInvite 2]) 2
    180 false 0 (by decide) (by decide) (by decide +kernel)
  exact absurd accepted.1 (by decide +kernel)

end Pjproject.Rel100
