import Mathlib

/-! Reliable provisional responses of sip_100rel.c: the queue of the UAS with its retransmission timer, the PRACK requests
of the UAC, and what the INVITE session does with them. Sending succeeds; calls that the application makes while a
response is being sent are left out. -/
namespace Pjproject.Rel100

/- pj_strtoul on the 64 bits of an unsigned long. -/
def strtoulFrom (value : UInt64) : List Char → UInt64
  | [] => value
  | c :: rest =>
    if c.isDigit then strtoulFrom (value * 10 + UInt64.ofNat (c.toNat - '0'.toNat)) rest else value

def strtoul (str : List Char) : UInt64 := strtoulFrom 0 str

/- The conversion %u. -/
def printU (n : UInt32) : List Char := Nat.toDigits 10 n.toNat

/- What pjsip_100rel_create_prack writes into the RAck header. -/
structure Rack where
  rseq : UInt32
  cseq : UInt32
  method : List Char
  deriving DecidableEq

def Rack.print (rack : Rack) : List Char := printU rack.rseq ++ ' ' :: (printU rack.cseq ++ ' ' :: rack.method)

def parseRack (rack : List Char) : Rack :=
  let second := (rack.dropWhile Char.isDigit).drop 1
  ⟨(strtoul (rack.takeWhile Char.isDigit)).toUInt32,(strtoul (second.takeWhile Char.isDigit)).toUInt32,
    (second.dropWhile Char.isDigit).drop 1⟩

/- A response to INVITE: whether it has a body, its RSeq header, and whether Require names 100rel. -/
structure Response where
  code : Nat
  body : Bool
  cseq : UInt32
  rseq : Option (List Char) := none
  require : Bool := false
  deriving DecidableEq

/- pjsip_100rel_is_reliable. -/
def Response.isReliable (r : Response) : Bool := 100 < r.code && r.code < 200 && r.require

/- tx_data_list_t. -/
structure TxData where
  rseq : UInt32
  tdata : Response
  deriving DecidableEq

/- uas_state_t; the timer has the delay it is scheduled with, in milliseconds. -/
structure UasState where
  cseq : UInt32
  rseq : UInt32
  txDataList : List TxData := []
  retransmitCount : Nat := 0
  retransmitTimer : Option Nat := none
  deriving DecidableEq

/- uac_state_t. -/
structure UacState where
  tag : List Char
  cseq : UInt32
  rseq : UInt32
  deriving DecidableEq

/- The states of an INVITE session whose INVITE was received; early is INCOMING too. -/
inductive InvState where
  | early | connecting | confirmed | disconnected
  deriving DecidableEq

/- What the UAS gave to the INVITE transaction, and the responses that a PRACK was matched with. -/
inductive Action where
  | sent (r : Response)
  | resent (r : Response)
  | matched (r : Response)
  deriving DecidableEq

/- A UAS dialog with its INVITE session: the CSeq of the INVITE transaction that waits for a final response, and the
highest CSeq that came in. -/
structure Dialog where
  state : InvState := .early
  inviteTsx : Option UInt32 := none
  remoteCSeq : UInt32 := 0
  t1 : Nat := 500
  uasState : Option UasState := none
  log : List Action := []
  crashed : Bool := false
  deriving DecidableEq

def UasState.clearAllResponses (u : UasState) : UasState := { u with txDataList := [] }
def UasState.cancelTimer (u : UasState) : UasState := { u with retransmitTimer := none }
def UasState.hasSdp (u : UasState) : Bool := u.txDataList.any (fun tl => tl.tdata.body)

/- pjsip_100rel_end_session. -/
def Dialog.endSession (d : Dialog) : Dialog :=
  { d with uasState := d.uasState.map (fun u => u.cancelTimer.clearAllResponses) }

/- The session is disconnected and destroyed. -/
def Dialog.disconnect (d : Dialog) : Dialog := { d with state := .disconnected, inviteTsx := none }.endSession

/- A final response ends the INVITE transaction. -/
def Dialog.answered (d : Dialog) (code : Nat) : Dialog :=
  match d.state with
  | .early =>
    if code < 300 then { d with state := .connecting, inviteTsx := none } else d.disconnect
  | _ => { d with inviteTsx := none }

/- pjsip_dlg_send_response and pjsip_tsx_send_msg for the INVITE transaction. -/
def Dialog.sendMsg (d : Dialog) (r : Response) : Dialog :=
  match d.inviteTsx with
  | none => d
  | some _ =>
    let d := { d with log := d.log ++ [.sent r] }
    if 200 ≤ r.code then d.answered r.code else d

/- pjsip_tsx_retransmit_no_state takes the transaction without a look. -/
def Dialog.retransmitNoState (d : Dialog) (r : Response) : Dialog :=
  match d.inviteTsx with
  | none => { d with crashed := true }
  | some _ => { d with log := d.log ++ [.resent r] }

/- The end of on_retransmit when no PRACK came: pjsip_inv_end_session with 500 answers an INVITE that is not answered,
but makes a BYE request in a session that is established, which pjsip_dlg_send_response refuses. -/
def Dialog.rejectUnacknowledged (d : Dialog) : Dialog :=
  match d.state, d.inviteTsx with
  | .early, some cseq => d.sendMsg { code := 500, body := false, cseq := cseq }
  | _, _ => d

def retransmitDelay (t1 count : Nat) : Nat := if count < 6 then 2 ^ count * t1 else 1500

/- on_retransmit. -/
def Dialog.onRetransmit (d : Dialog) (u : UasState) : Dialog :=
  let u := { u with retransmitTimer := none, retransmitCount := u.retransmitCount + 1 }
  if 7 ≤ u.retransmitCount then { d with uasState := some u.clearAllResponses }.rejectUnacknowledged
  else match u.txDataList with
    | [] => { d with uasState := some u }
    | tl :: _ =>
      let d := if u.retransmitCount = 1 then d.sendMsg tl.tdata else d.retransmitNoState tl.tdata
      if 200 ≤ tl.tdata.code then { d with uasState := some u.clearAllResponses }
      else { d with uasState := some { u with retransmitTimer := some (retransmitDelay d.t1 u.retransmitCount) } }

inductive Status where
  | success | einvalidop | eignored | emissinghdr
  deriving DecidableEq

/- The branches of pjsip_100rel_tx_response for a success, for another final response, and for a provisional one. -/
def Dialog.txSuccess (d : Dialog) (tdata : Response) : Dialog :=
  match d.uasState with
  | none => d.sendMsg tdata
  | some u =>
    if u.hasSdp then { d with uasState := some { u with txDataList := u.txDataList ++ [⟨0xFFFFFFFF,tdata⟩] } }
    else { d with uasState := some u.cancelTimer.clearAllResponses }.sendMsg tdata

def Dialog.txFailure (d : Dialog) (tdata : Response) : Dialog :=
  match d.uasState with
  | none => d.sendMsg tdata
  | some u =>
    if u.retransmitTimer.isSome then { d with uasState := some u.cancelTimer.clearAllResponses }.sendMsg tdata
    else d.sendMsg tdata

/- The state a dialog has or gets; rand is the value of pj_rand. -/
def Dialog.uasOf (d : Dialog) (cseq : UInt32) (rand : Nat) : UasState :=
  d.uasState.getD { cseq := cseq, rseq := UInt32.ofNat (rand % 0x7FFF + 1) }

def Dialog.txProvisional (d : Dialog) (tdata : Response) (rand : Nat) : Status × Dialog :=
  let u := d.uasOf tdata.cseq rand
  if tdata.cseq ≠ u.cseq then (.einvalidop, { d with uasState := some u })
  else
    let tl : TxData := ⟨u.rseq,{ tdata with require := true, rseq := some (printU u.rseq) }⟩
    let queued := { u with rseq := u.rseq + 1, txDataList := u.txDataList ++ [tl] }
    if u.txDataList ≠ [] then (.success, { d with uasState := some queued })
    else (.success, d.onRetransmit { queued with retransmitCount := 0 })

/- pjsip_100rel_tx_response. -/
def Dialog.txResponse (d : Dialog) (tdata : Response) (rand : Nat) : Status × Dialog :=
  if tdata.code = 100 then (.success, d.sendMsg tdata)
  else
    let tdata := { tdata with require := false, rseq := none }
    if tdata.code / 100 = 2 then (.success, d.txSuccess tdata)
    else if 300 ≤ tdata.code then (.success, d.txFailure tdata)
    else d.txProvisional tdata rand

/- pjsip_100rel_on_rx_prack, which answers the request with 200 before all else. -/
def Dialog.onRxPrack (d : Dialog) (rack : Option (List Char)) : Status × Dialog :=
  match d.uasState with
  | none => (.eignored, d)
  | some u =>
    match u.txDataList with
    | [] => (.eignored, d)
    | tl :: rest =>
      match rack with
      | none => (.emissinghdr, d)
      | some text =>
        if (parseRack text).rseq = tl.rseq ∧ (parseRack text).cseq = u.cseq then
          let u := { u.cancelTimer with txDataList := rest, retransmitCount := 0 }
          let d := { d with uasState := some u, log := d.log ++ [.matched tl.tdata] }
          (.success, if rest = [] then d else d.onRetransmit u)
        else (.eignored, d)

/- What happens to a UAS dialog: the application answers, the timer fires, ACK comes in, the transport fails, or the
session ends; and then the requests of the other side. -/
inductive Local where
  | answer (code : Nat) (body : Bool) (rand : Nat)
  | timer
  | rxAck
  | tsxError
  | ended
  deriving DecidableEq

inductive Event where
  | own (event : Local)
  | rxPrack (rack : Option (List Char))
  | rxInvite (cseq : UInt32)
  deriving DecidableEq

def Dialog.own (d : Dialog) : Local → Dialog
  | .answer code body rand =>
    match d.inviteTsx with
    | none => d
    | some cseq => if 100 ≤ code then (d.txResponse { code := code, body := body, cseq := cseq } rand).2 else d
  | .timer =>
    match d.uasState with
    | none => d
    | some u => if u.retransmitTimer.isSome then d.onRetransmit u else d
  | .rxAck => if d.state = .connecting then { d with state := .confirmed } else d
  | .tsxError => if d.state = .early then d.disconnect else { d with inviteTsx := none }
  | .ended => d.disconnect

def Dialog.step (d : Dialog) (event : Event) : Dialog :=
  if d.crashed ∨ d.state = .disconnected then d
  else match event with
    | .own event => d.own event
    | .rxPrack rack => (d.onRxPrack rack).2
    | .rxInvite cseq =>
      if d.remoteCSeq < cseq then
        if d.state = .confirmed ∧ d.inviteTsx = none then { d with remoteCSeq := cseq, inviteTsx := some cseq }
        else { d with remoteCSeq := cseq }
      else d

def Dialog.run (d : Dialog) (events : List Event) : Dialog := events.foldl Dialog.step d

/- A dialog that an INVITE made. -/
structure Dialog.Fresh (d : Dialog) : Prop where
  state : d.state = .early
  inviteTsx : d.inviteTsx = some d.remoteCSeq
  uasState : d.uasState = none
  log : d.log = []
  crashed : d.crashed = false

/- pjsip_100rel_create_prack. The outcome says whether the request can be created and, for a response of another call
leg than the dialog's, addressed. -/
def sameTag (a b : List Char) : Bool := a.map Char.toLower = b.map Char.toLower

def updateUacState (tag : List Char) (f : UacState → UacState) : List UacState → List UacState
  | [] => []
  | st :: rest => if sameTag st.tag tag then f st :: rest else st :: updateUacState tag f rest

def findUacState (tag : List Char) (list : List UacState) : Option UacState := list.find? (fun st => sameTag st.tag tag)

/- The state of a call leg is made when it is missing, and reset by a new INVITE transaction. -/
def enterUacState (list : List UacState) (tag : List Char) (cseq rseq : UInt32) : List UacState :=
  match findUacState tag list with
  | none => ⟨tag,cseq,rseq - 1⟩ :: list
  | some st =>
    if cseq ≠ st.cseq then updateUacState tag (fun st => { st with cseq := cseq, rseq := rseq - 1 }) list else list

def createPrack (list : List UacState) (tag : List Char) (r : Response) (created : Bool) :
    Except Status Rack × List UacState :=
  match r.rseq with
  | none => (.error .emissinghdr, list)
  | some text =>
    let rseq := (strtoul text).toUInt32
    let list := enterUacState list tag r.cseq rseq
    match findUacState tag list with
    | none => (.error .eignored, list)
    | some st =>
      if rseq ≤ st.rseq then (.error .eignored, list)
      else if rseq ≠ st.rseq + 1 then (.error .eignored, list)
      else
        (if created then .ok ⟨rseq,r.cseq,"INVITE".toList⟩ else .error .einvalidop,
          updateUacState tag (fun st => { st with rseq := rseq }) list)

/- One INVITE transaction between the UAS and a UAC. The network keeps what was sent: any of it can arrive at any time,
more than once or not at all. -/
structure Link where
  uas : Dialog
  tag : List Char
  uac : List UacState := []
  pracks : List Rack := []
  deriving DecidableEq

def Action.message : Action → Option Response
  | .sent r => some r
  | .resent r => some r
  | .matched _ => none

inductive LinkEvent where
  | uas (event : Local)
  | toUac (i : Nat) (created : Bool)
  | toUas (i : Nat)
  deriving DecidableEq

def Link.step (s : Link) : LinkEvent → Link
  | .uas event => { s with uas := s.uas.step (.own event) }
  | .toUac i created =>
    match s.uas.log[i]?.bind Action.message with
    | none => s
    | some r =>
      if r.isReliable then
        match createPrack s.uac s.tag r created with
        | (.ok rack, uac) => { s with uac := uac, pracks := s.pracks ++ [rack] }
        | (.error _, uac) => { s with uac := uac }
      else s
  | .toUas i =>
    match s.pracks[i]? with
    | none => s
    | some rack => { s with uas := s.uas.step (.rxPrack (some rack.print)) }

def Link.run (s : Link) (events : List LinkEvent) : Link := events.foldl Link.step s

/- The INVITE has come in, as the first of its dialog or in a session that is established. -/
structure Link.Fresh (s : Link) : Prop where
  state : s.uas.state = .early ∨ s.uas.state = .confirmed
  inviteTsx : s.uas.inviteTsx = some s.uas.remoteCSeq
  uasState : ∀ u, s.uas.uasState = some u → u.txDataList = [] ∧ u.retransmitTimer = none
  log : s.uas.log = []
  pracks : s.pracks = []

end Pjproject.Rel100
