import Pjproject.StunAuth

/-! STUN client transactions of stun_transaction.c: one retransmit timer, which also stands for the timeout, and the
timer that destroys the transaction. What the transport makes of a transmission is an input. -/
namespace Pjproject.Stun

def stunMaxTransmitCount : Nat := 7
def stunTimeoutValue : Nat := 1600

def isRequest (type : UInt16) : Bool := type &&& 0x0110 == 0x0000
def isSuccessResponse (type : UInt16) : Bool := type &&& 0x0110 == 0x0100
def isErrorResponse (type : UInt16) : Bool := type &&& 0x0110 == 0x0110
def isIndication (type : UInt16) : Bool := type &&& 0x0110 == 0x0010

/- What on_send_msg returns; PJ_EPENDING and PJ_EBUSY count as sent. -/
inductive Sending where
  | sent | destroyed | invalidOp | failed (err : Nat)
  deriving DecidableEq, Repr

/- The status of an operation on a transaction, and the one it completes with. -/
inductive TsxStatus where
  | success | busy | noTimer | timedOut | notResponse
  | sending (result : Sending)
  | code (errCode : Int)
  deriving DecidableEq, Repr

/- The outcome of one transmission: whether the timer can be scheduled, and the sending. -/
structure Transport where
  scheduled : Bool := true
  sending : Sending := .sent
  deriving DecidableEq, Repr

structure ClientTsx where
  complete : Bool := false
  requireRetransmit : Bool := false
  rtoMsec : Nat
  timer : Bool := false
  transmitCount : Nat := 0
  retransmitTime : Nat := 0
  destroyTimer : Bool := false
  onComplete : Bool := true
  deriving DecidableEq, Repr

/- pj_stun_client_tsx_create. -/
def ClientTsx.create (rtoMsec : Nat) : ClientTsx := { rtoMsec := rtoMsec }

/- pj_stun_client_tsx_schedule_destroy: the transaction goes on without a callback. -/
def ClientTsx.scheduleDestroy (tsx : ClientTsx) : ClientTsx :=
  { tsx with timer := false, destroyTimer := true, onComplete := false }

/- pj_stun_client_tsx_stop. -/
def ClientTsx.stop (tsx : ClientTsx) : ClientTsx := { tsx with timer := false, destroyTimer := false }

/- The delay until the next retransmission, or the timeout after the last one. -/
def ClientTsx.delay (tsx : ClientTsx) : Nat :=
  if tsx.transmitCount = 0 then tsx.rtoMsec
  else if tsx.transmitCount < stunMaxTransmitCount - 1 then tsx.retransmitTime * 2 % 2 ^ 32
  else stunTimeoutValue

/- A failed sending cancels the timer. -/
def Sending.cancels (modCount : Bool) : Sending → Bool
  | .sent => false
  | .destroyed => false
  | .invalidOp => true
  | .failed _ => modCount

def Sending.status : Sending → TsxStatus
  | .sent => .success
  | result => .sending result

/- tsx_transmit_msg. -/
def ClientTsx.transmitMsg (tsx : ClientTsx) (modCount : Bool) (transport : Transport) : TsxStatus × ClientTsx :=
  if tsx.timer ∧ tsx.requireRetransmit ∧ modCount then (.busy, tsx)
  else if tsx.requireRetransmit ∧ modCount ∧ ¬ transport.scheduled then
    (.noTimer, { tsx with retransmitTime := tsx.delay, timer := false })
  else
    let tsx := if tsx.requireRetransmit ∧ modCount then { tsx with retransmitTime := tsx.delay, timer := true } else tsx
    let tsx := if modCount then { tsx with transmitCount := (tsx.transmitCount + 1) % 2 ^ 32 } else tsx
    (transport.sending.status, if transport.sending.cancels modCount then { tsx with timer := false } else tsx)

/- pj_stun_client_tsx_send_msg. Without retransmissions the timer is the timeout. -/
def ClientTsx.sendMsg (tsx : ClientTsx) (retransmit : Bool) (transport : Transport) : TsxStatus × ClientTsx :=
  if tsx.timer then (.busy, tsx)
  else
    let tsx := { tsx with requireRetransmit := retransmit }
    if ¬ retransmit ∧ ¬ transport.scheduled then
      (.noTimer, { tsx with transmitCount := stunMaxTransmitCount, retransmitTime := tsx.rtoMsec * 16 % 2 ^ 32 })
    else
      let tsx := if retransmit then tsx
        else { tsx with transmitCount := stunMaxTransmitCount, retransmitTime := tsx.rtoMsec * 16 % 2 ^ 32, timer := true }
      let (status, tsx) := tsx.transmitMsg true transport
      (status, if status ≠ .success then { tsx with timer := false } else tsx)

/- The transaction completes once; the result is what on_complete is called with. -/
def ClientTsx.finish (tsx : ClientTsx) (status : TsxStatus) : Option TsxStatus × ClientTsx :=
  if tsx.complete then (none, tsx)
  else (if tsx.onComplete then some status else none, { tsx with complete := true })

/- retransmit_timer_callback. -/
def ClientTsx.retransmitTimerCallback (tsx : ClientTsx) (transport : Transport) : Option TsxStatus × ClientTsx :=
  if stunMaxTransmitCount ≤ tsx.transmitCount then { tsx with timer := false }.finish .timedOut
  else
    let (status, tsx) := { tsx with timer := false }.transmitMsg true transport
    if status ≠ .success then { tsx with timer := false }.finish status else (none, tsx)

/- pj_stun_client_tsx_retransmit. -/
def ClientTsx.retransmit (tsx : ClientTsx) (modCount : Bool) (transport : Transport) : TsxStatus × ClientTsx :=
  if tsx.destroyTimer then (.success, tsx)
  else
    let tsx := if modCount then { tsx with timer := false } else tsx
    tsx.transmitMsg modCount transport

def Attr.errCode (a : Attr) : Int :=
  match a.body with
  | .errcode errCode _ => errCode
  | _ => 0

/- The response is one that ends the retransmissions and is dropped otherwise. -/
def provisional (msg : Msg) : Bool := (findAttr msg attrErrorCode).any (fun a => a.errCode ≤ 200)

/- pj_stun_client_tsx_on_rx_msg. -/
def ClientTsx.onRxMsg (tsx : ClientTsx) (msg : Msg) : TsxStatus × Option TsxStatus × ClientTsx :=
  if ¬ isSuccessResponse msg.hdr.type ∧ ¬ isErrorResponse msg.hdr.type then (.notResponse, none, tsx)
  else
    let tsx := { tsx with timer := false }
    if provisional msg then (.success, none, tsx)
    else
      let status := match findAttr msg attrErrorCode with
        | none => TsxStatus.success
        | some a => .code a.errCode
      (.success, tsx.finish status)

/- What happens to a transaction after it was sent. -/
inductive TsxEvent where
  | timer (transport : Transport)
  | retransmit (modCount : Bool) (transport : Transport)
  | response (msg : Msg)

/- A transaction with the calls of on_complete and the transmissions its timer made. -/
structure TsxHistory where
  tsx : ClientTsx
  completions : List TsxStatus := []
  timerSends : Nat := 0

/- The transmissions of the timer callback. -/
def ClientTsx.timerSends (tsx : ClientTsx) (transport : Transport) : Bool :=
  tsx.transmitCount < stunMaxTransmitCount && (!tsx.requireRetransmit || transport.scheduled)

def TsxHistory.step (h : TsxHistory) : TsxEvent → TsxHistory
  | .timer transport =>
    if h.tsx.timer then
      let (called, tsx) := h.tsx.retransmitTimerCallback transport
      { tsx := tsx, completions := h.completions ++ called.toList
        timerSends := h.timerSends + if h.tsx.timerSends transport then 1 else 0 }
    else h
  | .retransmit modCount transport => { h with tsx := (h.tsx.retransmit modCount transport).2 }
  | .response msg =>
    let (_, called, tsx) := h.tsx.onRxMsg msg
    { h with tsx := tsx, completions := h.completions ++ called.toList }

def TsxHistory.run (h : TsxHistory) (events : List TsxEvent) : TsxHistory := events.foldl TsxHistory.step h

theorem transmitFrame (tsx : ClientTsx) (modCount : Bool) (transport : Transport) :
    let out := (tsx.transmitMsg modCount transport).2
    out.complete = tsx.complete ∧ out.onComplete = tsx.onComplete ∧ out.destroyTimer = tsx.destroyTimer ∧
      out.requireRetransmit = tsx.requireRetransmit := by
  unfold ClientTsx.transmitMsg
  split
  · exact ⟨rfl,rfl,rfl,rfl⟩
  · split
    · exact ⟨rfl,rfl,rfl,rfl⟩
    · cases modCount <;> cases retransmits : tsx.requireRetransmit <;>
        cases transport.sending.cancels _ <;> simp [retransmits]

variable (tsx : ClientTsx) (h : TsxHistory) (events : List TsxEvent)

theorem transmitCounted (transport : Transport) (idle : tsx.timer = false)
    (retransmits : tsx.requireRetransmit = true) :
    tsx.transmitMsg true transport =
      if transport.scheduled then
        (transport.sending.status,
          { tsx with
            retransmitTime := tsx.delay
            transmitCount := (tsx.transmitCount + 1) % 2 ^ 32
            timer := !transport.sending.cancels true })
      else (.noTimer, { tsx with retransmitTime := tsx.delay, timer := false }) := by
  unfold ClientTsx.transmitMsg
  cases transport.scheduled <;> cases cancels : transport.sending.cancels true <;> simp [idle,retransmits]

theorem transmitUncounted (transport : Transport) : (tsx.transmitMsg false transport).2 =
      if transport.sending.cancels false then { tsx with timer := false } else tsx := by
  unfold ClientTsx.transmitMsg
  simp

theorem sentKeeps (sending : Sending) (sent : sending.status = .success) : sending.cancels true = false := by
  cases sending <;> simp_all [Sending.status,Sending.cancels]

/- on_complete is called once, when the transaction completes. -/
structure Reported (h : TsxHistory) : Prop where
  onComplete : h.tsx.onComplete = true
  destroyTimer : h.tsx.destroyTimer = false
  retransmits : h.tsx.requireRetransmit = true
  calls : h.completions.length = if h.tsx.complete then 1 else 0

theorem finishReported (reported : Reported h) (tsx : ClientTsx) (status : TsxStatus)
    (complete : tsx.complete = h.tsx.complete) (onComplete : tsx.onComplete = h.tsx.onComplete)
    (destroyTimer : tsx.destroyTimer = h.tsx.destroyTimer) (retransmits : tsx.requireRetransmit = h.tsx.requireRetransmit)
    (sends : Nat) : Reported ⟨(tsx.finish status).2,h.completions ++ (tsx.finish status).1.toList,sends⟩ := by
  have called := onComplete.trans reported.onComplete
  have calls := reported.calls
  unfold ClientTsx.finish
  by_cases done : tsx.complete = true
  · rw [if_pos done]
    refine ⟨called,destroyTimer.trans reported.destroyTimer,retransmits.trans reported.retransmits,?_⟩
    rw [← complete,if_pos done] at calls
    simp [calls,done]
  · rw [if_neg done,if_pos called]
    refine ⟨called,destroyTimer.trans reported.destroyTimer,retransmits.trans reported.retransmits,?_⟩
    rw [← complete,if_neg done] at calls
    simp [calls]

theorem quietReported (reported : Reported h) (tsx : ClientTsx) (complete : tsx.complete = h.tsx.complete)
    (onComplete : tsx.onComplete = h.tsx.onComplete) (destroyTimer : tsx.destroyTimer = h.tsx.destroyTimer)
    (retransmits : tsx.requireRetransmit = h.tsx.requireRetransmit) (sends : Nat) :
    Reported ⟨tsx,h.completions,sends⟩ := by
  refine ⟨onComplete.trans reported.onComplete,destroyTimer.trans reported.destroyTimer,
    retransmits.trans reported.retransmits,?_⟩
  rw [complete]
  exact reported.calls

theorem timerReported (reported : Reported h) (transport : Transport) (sends : Nat) :
    Reported ⟨(h.tsx.retransmitTimerCallback transport).2,
      h.completions ++ (h.tsx.retransmitTimerCallback transport).1.toList,sends⟩ := by
  unfold ClientTsx.retransmitTimerCallback
  split
  · exact finishReported h reported { h.tsx with timer := false } _ rfl rfl rfl rfl sends
  · have frame := transmitFrame { h.tsx with timer := false } true transport
    generalize ({ h.tsx with timer := false } : ClientTsx).transmitMsg true transport = result at frame ⊢
    obtain ⟨status,tsx⟩ := result
    obtain ⟨complete,onComplete,destroyTimer,retransmits⟩ := frame
    dsimp only
    split
    · exact finishReported h reported { tsx with timer := false } status complete onComplete destroyTimer retransmits sends
    · rw [Option.toList_none,List.append_nil]
      exact quietReported h reported tsx complete onComplete destroyTimer retransmits sends

theorem responseReported (reported : Reported h) (msg : Msg) :
    Reported ⟨(h.tsx.onRxMsg msg).2.2,h.completions ++ (h.tsx.onRxMsg msg).2.1.toList,h.timerSends⟩ := by
  unfold ClientTsx.onRxMsg
  split
  · rw [Option.toList_none,List.append_nil]
    exact reported
  · dsimp only
    split
    · rw [Option.toList_none,List.append_nil]
      exact quietReported h reported { h.tsx with timer := false } rfl rfl rfl rfl h.timerSends
    · exact finishReported h reported { h.tsx with timer := false } _ rfl rfl rfl rfl h.timerSends

theorem stepReported (reported : Reported h) (event : TsxEvent) : Reported (h.step event) := by
  cases event with
  | timer transport =>
    rw [TsxHistory.step]
    split
    · exact timerReported h reported transport _
    · exact reported
  | retransmit modCount transport =>
    have frame := transmitFrame (if modCount then { h.tsx with timer := false } else h.tsx) modCount transport
    rw [TsxHistory.step,ClientTsx.retransmit,if_neg (by rw [reported.destroyTimer]; decide)]
    obtain ⟨complete,onComplete,destroyTimer,retransmits⟩ := frame
    refine quietReported h reported _ (complete.trans ?_) (onComplete.trans ?_) (destroyTimer.trans ?_)
      (retransmits.trans ?_) h.timerSends
    all_goals cases modCount <;> rfl
  | response msg => exact responseReported h reported msg

/- An event that leaves a transaction timed: no provisional response, and no explicit retransmission that fails and
takes the timer along. -/
def TsxEvent.keepsTimer : TsxEvent → Bool
  | .timer _ => true
  | .retransmit modCount transport => !transport.sending.cancels modCount && (!modCount || transport.scheduled)
  | .response msg => !provisional msg

theorem timerCallbackTimed (transport : Transport) (retransmits : tsx.requireRetransmit = true)
    (unfinished : (tsx.retransmitTimerCallback transport).2.complete = false) :
    (tsx.retransmitTimerCallback transport).2.timer = true := by
  have finished : ∀ (other : ClientTsx) (status : TsxStatus), (other.finish status).2.complete = true := by
    intro other status
    unfold ClientTsx.finish
    split
    · assumption
    · rfl
  unfold ClientTsx.retransmitTimerCallback at unfinished ⊢
  split at unfinished
  · rw [finished] at unfinished
    contradiction
  · rename_i few
    rw [if_neg few]
    have counted := transmitCounted { tsx with timer := false } transport rfl retransmits
    rw [counted] at unfinished ⊢
    by_cases scheduled : transport.scheduled = true
    · rw [if_pos scheduled] at unfinished ⊢
      dsimp only at unfinished ⊢
      split at unfinished
      · rw [finished] at unfinished
        contradiction
      · rename_i sent
        have sent := not_not.mp sent
        rw [if_neg (not_not.mpr sent)]
        dsimp only
        rw [sentKeeps transport.sending sent]
        rfl
    · rw [if_neg scheduled] at unfinished
      dsimp only at unfinished
      rw [if_pos (by decide),finished] at unfinished
      contradiction

theorem retransmitTimed (modCount : Bool) (transport : Transport) (active : tsx.destroyTimer = false)
    (retransmits : tsx.requireRetransmit = true) (timed : tsx.timer = true)
    (keeps : (TsxEvent.retransmit modCount transport).keepsTimer = true) :
    (tsx.retransmit modCount transport).2.timer = true := by
  obtain ⟨kept,scheduled⟩ := Bool.and_eq_true_iff.mp keeps
  have kept : transport.sending.cancels modCount = false := by simpa using kept
  rw [ClientTsx.retransmit,if_neg (by rw [active]; decide)]
  cases modCount with
  | false =>
    dsimp only
    rw [if_neg (by decide),transmitUncounted,kept,if_neg (by decide)]
    exact timed
  | true =>
    have scheduled : transport.scheduled = true := by simpa using scheduled
    have counted := transmitCounted { tsx with timer := false } transport rfl retransmits
    dsimp only
    rw [if_pos rfl,counted,if_pos scheduled]
    dsimp only
    rw [kept]
    rfl

theorem stepTimed (reported : Reported h) (event : TsxEvent) (keeps : event.keepsTimer = true)
    (timed : h.tsx.complete = false → h.tsx.timer = true) :
    (h.step event).tsx.complete = false → (h.step event).tsx.timer = true := by
  cases event with
  | timer transport =>
    rw [TsxHistory.step]
    split
    · exact timerCallbackTimed h.tsx transport reported.retransmits
    · exact timed
  | retransmit modCount transport =>
    intro unfinished
    refine retransmitTimed h.tsx modCount transport reported.destroyTimer reported.retransmits (timed ?_) keeps
    have same := (transmitFrame (if modCount then { h.tsx with timer := false } else h.tsx) modCount transport).1
    change (h.tsx.retransmit modCount transport).2.complete = false at unfinished
    rw [ClientTsx.retransmit,if_neg (by rw [reported.destroyTimer]; decide)] at unfinished
    refine (same.trans ?_).symm.trans unfinished
    cases modCount <;> rfl
  | response msg =>
    have firm : provisional msg = false := by simpa [TsxEvent.keepsTimer] using keeps
    change (h.tsx.onRxMsg msg).2.2.complete = false → (h.tsx.onRxMsg msg).2.2.timer = true
    unfold ClientTsx.onRxMsg
    split
    · exact timed
    · dsimp only
      rw [if_neg (by rw [firm]; decide)]
      unfold ClientTsx.finish
      split
      · rename_i done
        intro unfinished
        exact absurd done (by rw [unfinished]; decide)
      · exact fun unfinished => nomatch unfinished

/- An explicit retransmission that counts. -/
def TsxEvent.counted : TsxEvent → Bool
  | .retransmit modCount _ => modCount
  | _ => false

/- The count is at least the number of transmissions by the timer, and it does not wrap around. -/
structure Counts (asked : Nat) (h : TsxHistory) : Prop where
  few : h.timerSends + 1 ≤ stunMaxTransmitCount
  lower : h.timerSends + 1 ≤ h.tsx.transmitCount
  upper : h.tsx.transmitCount ≤ h.timerSends + 1 + asked

theorem finishCount (status : TsxStatus) : (tsx.finish status).2.transmitCount = tsx.transmitCount := by
  unfold ClientTsx.finish
  split <;> rfl

theorem timerCallbackCount (transport : Transport) (retransmits : tsx.requireRetransmit = true) :
    (tsx.retransmitTimerCallback transport).2.transmitCount =
      if tsx.timerSends transport then (tsx.transmitCount + 1) % 2 ^ 32 else tsx.transmitCount := by
  unfold ClientTsx.retransmitTimerCallback ClientTsx.timerSends
  by_cases many : stunMaxTransmitCount ≤ tsx.transmitCount
  · rw [if_pos many,finishCount]
    simp [Nat.not_lt.mpr many]
  · have few := Nat.lt_of_not_le many
    rw [if_neg many,transmitCounted { tsx with timer := false } transport rfl retransmits]
    cases transport.scheduled with
    | false => simp [finishCount,retransmits]
    | true =>
      rw [if_pos rfl]
      dsimp only
      split
      · rw [finishCount]
        simp [few]
      · simp [few]

theorem timerCounts (reported : Reported h) (transport : Transport) (asked : Nat)
    (counts : Counts asked h) : Counts asked (h.step (.timer transport)) := by
  obtain ⟨few,lower,upper⟩ := counts
  rw [TsxHistory.step]
  split
  · have count := timerCallbackCount h.tsx transport reported.retransmits
    by_cases sends : h.tsx.timerSends transport = true
    · have below : h.tsx.transmitCount < stunMaxTransmitCount := by
        have parts := (Bool.and_eq_true_iff.mp sends).1
        simpa using parts
      have small : h.tsx.transmitCount + 1 < 2 ^ 32 := by
        unfold stunMaxTransmitCount at below
        omega
      rw [if_pos sends,Nat.mod_eq_of_lt small] at count
      refine ⟨?_,?_,?_⟩
      · dsimp only
        rw [if_pos sends]
        omega
      · dsimp only
        rw [if_pos sends,count]
        omega
      · dsimp only
        rw [if_pos sends,count]
        omega
    · rw [if_neg sends] at count
      refine ⟨?_,?_,?_⟩
      · dsimp only
        rw [if_neg sends]
        exact few
      · dsimp only
        rw [if_neg sends,count]
        exact lower
      · dsimp only
        rw [if_neg sends,count]
        exact upper
  · exact ⟨few,lower,upper⟩

theorem retransmitCounts (reported : Reported h) (modCount : Bool) (transport : Transport) (asked : Nat)
    (counts : Counts asked h) (room : asked + (if modCount then 1 else 0) + stunMaxTransmitCount < 2 ^ 32) :
    Counts (asked + if modCount then 1 else 0) (h.step (.retransmit modCount transport)) := by
  obtain ⟨few,lower,upper⟩ := counts
  have active : ¬ h.tsx.destroyTimer = true := by
    rw [reported.destroyTimer]
    decide
  cases modCount with
  | false =>
    have kept : (h.tsx.retransmit false transport).2.transmitCount = h.tsx.transmitCount := by
      rw [ClientTsx.retransmit,if_neg active]
      dsimp only
      rw [if_neg (by decide),transmitUncounted]
      split <;> rfl
    exact ⟨few,kept ▸ lower,kept ▸ upper⟩
  | true =>
    have small : h.tsx.transmitCount + 1 < 2 ^ 32 := by
      rw [if_pos rfl] at room
      omega
    have counted := transmitCounted { h.tsx with timer := false } transport rfl reported.retransmits
    have count : (h.tsx.retransmit true transport).2.transmitCount =
        if transport.scheduled then h.tsx.transmitCount + 1 else h.tsx.transmitCount := by
      rw [ClientTsx.retransmit,if_neg active]
      dsimp only
      rw [if_pos rfl,counted]
      split
      · exact Nat.mod_eq_of_lt small
      · rfl
    refine ⟨few,?_,?_⟩
    · change h.timerSends + 1 ≤ (h.tsx.retransmit true transport).2.transmitCount
      rw [count]
      split <;> omega
    · change (h.tsx.retransmit true transport).2.transmitCount ≤ h.timerSends + 1 + (asked + 1)
      rw [count]
      split <;> omega

theorem stepCounts (reported : Reported h) (event : TsxEvent) (asked : Nat) (counts : Counts asked h)
    (room : asked + (if event.counted then 1 else 0) + stunMaxTransmitCount < 2 ^ 32) :
    Counts (asked + if event.counted then 1 else 0) (h.step event) := by
  cases event with
  | timer transport => exact timerCounts h reported transport asked counts
  | retransmit modCount transport => exact retransmitCounts h reported modCount transport asked counts room
  | response msg =>
    have same : (h.tsx.onRxMsg msg).2.2.transmitCount = h.tsx.transmitCount := by
      unfold ClientTsx.onRxMsg
      split
      · rfl
      · dsimp only
        split
        · rfl
        · exact finishCount _ _
    exact ⟨counts.few,same ▸ counts.lower,same ▸ counts.upper⟩

theorem runReported (h : TsxHistory) (reported : Reported h) : Reported (h.run events) := by
  induction events generalizing h with
  | nil => exact reported
  | cons event rest ih => exact ih (h.step event) (stepReported h reported event)

theorem runTimed (h : TsxHistory) (reported : Reported h)
    (keeps : events.all TsxEvent.keepsTimer = true) (timed : h.tsx.complete = false → h.tsx.timer = true) :
    (h.run events).tsx.complete = false → (h.run events).tsx.timer = true := by
  induction events generalizing h with
  | nil => exact timed
  | cons event rest ih =>
    obtain ⟨now,later⟩ := Bool.and_eq_true_iff.mp keeps
    exact ih (h.step event) (stepReported h reported event) later (stepTimed h reported event now timed)

theorem runCounts (h : TsxHistory) (reported : Reported h) (asked : Nat)
    (counts : Counts asked h) (room : asked + events.countP TsxEvent.counted + stunMaxTransmitCount < 2 ^ 32) :
    (h.run events).timerSends + 1 ≤ stunMaxTransmitCount := by
  induction events generalizing h asked with
  | nil => exact counts.few
  | cons event rest ih =>
    rw [List.countP_cons] at room
    refine ih (h.step event) (stepReported h reported event) (asked + if event.counted then 1 else 0) ?_ (by omega)
    exact stepCounts h reported event asked counts (by omega)

theorem sentTransaction (rtoMsec : Nat) (transport : Transport) (out : ClientTsx)
    (sent : (ClientTsx.create rtoMsec).sendMsg true transport = (.success, out)) :
    out.timer = true ∧ Counts 0 ⟨out,[],0⟩ ∧ Reported ⟨out,[],0⟩ := by
  have counted := transmitCounted { ClientTsx.create rtoMsec with requireRetransmit := true } transport rfl rfl
  unfold ClientTsx.sendMsg ClientTsx.create at sent
  unfold ClientTsx.create at counted
  simp only [Bool.false_eq_true,if_false,not_true_eq_false,false_and,if_true] at sent
  rw [counted] at sent
  cases scheduled : transport.scheduled with
  | false =>
    rw [scheduled] at sent
    exact nomatch (Prod.mk.inj sent).1
  | true =>
    rw [scheduled,if_pos rfl] at sent
    obtain ⟨status,isOut⟩ := Prod.mk.inj sent
    dsimp only at status isOut
    have kept := sentKeeps transport.sending status
    rw [if_neg (not_not.mpr status),kept] at isOut
    subst isOut
    exact ⟨rfl,⟨Nat.le_of_ble_eq_true rfl,Nat.le_refl 1,Nat.le_refl 1⟩,⟨rfl,rfl,rfl,rfl⟩⟩

theorem transactionStaysTimed (rtoMsec : Nat) (transport : Transport) (tsx : ClientTsx)
    (sent : (ClientTsx.create rtoMsec).sendMsg true transport = (.success, tsx))
    (events : List TsxEvent) :
    let out := (TsxHistory.mk tsx [] 0).run events
    (events.all TsxEvent.keepsTimer = true → out.completions = [] → out.tsx.timer = true) ∧
    (events.countP TsxEvent.counted + stunMaxTransmitCount < 2 ^ 32 → out.timerSends ≤ stunMaxTransmitCount) ∧
    out.completions.length ≤ 1 := by
  obtain ⟨timer,counts,reported⟩ := sentTransaction rtoMsec transport tsx sent
  have final := runReported events _ reported
  refine ⟨?_,?_,?_⟩
  · intro keeps silent
    refine runTimed events _ reported keeps (fun _ => timer) ?_
    have calls := final.calls
    rw [silent] at calls
    by_contra done
    rw [if_pos (by simpa using done)] at calls
    contradiction
  · intro room
    have bound := runCounts events _ reported 0 counts (by omega)
    exact Nat.le_of_succ_le bound
  · rw [final.calls]
    split <;> decide

/- A Binding error response with code 100. -/
def tryingResponse : Msg :=
  ⟨⟨0x0111,8,stunMagic,fun _ => 0⟩,[errcodeAttrCreate 100 []],by decide⟩

theorem leftUntimed :
    ¬ ∀ (rtoMsec : Nat) (transport : Transport) (tsx : ClientTsx),
      (ClientTsx.create rtoMsec).sendMsg true transport = (.success, tsx) → ∀ events : List TsxEvent,
      let out := (TsxHistory.mk tsx [] 0).run events
      (out.completions = [] → out.tsx.timer = true) ∧ out.timerSends ≤ stunMaxTransmitCount ∧
        out.completions.length ≤ 1 := by
  intro claim
  have timed := (claim 100 {} _ rfl [.response tryingResponse]).1 rfl
  exact absurd timed (by decide +kernel)

/- All retransmissions go out, with one asked for in between, and the last timer reports the timeout. -/
def unanswered : List TsxEvent :=
  [.timer {},.retransmit true {},.timer {},.timer {},.timer {},.timer {},.timer {}]

theorem unansweredTimesOut :
    let tsx := ((ClientTsx.create 100).sendMsg true {}).2
    ((TsxHistory.mk tsx [] 0).run unanswered).completions = [.timedOut] ∧
      ((TsxHistory.mk tsx [] 0).run (unanswered.take 5)).tsx.timer = true := by
  have kept := (transactionStaysTimed 100 {} _ rfl (unanswered.take 5)).1 (by decide) (by decide +kernel)
  exact ⟨by decide +kernel,kept⟩

end Pjproject.Stun
