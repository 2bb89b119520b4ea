import Mathlib

/-! Session timers of sip_timer.c, and two INVITE sessions that refresh each other. Authentication, other error responses,
the SDP of a refresh and the choice between INVITE and UPDATE are left out. -/
namespace Pjproject.SessTimer

inductive Role where
  | uac | uas
  deriving DecidableEq

structure Setting where
  minSe : UInt32
  sessExpires : UInt32
  deriving DecidableEq

def absMinSe : UInt32 := 90

/- pjsip_timer_setting_default. -/
def Setting.default : Setting := ⟨absMinSe,1800⟩

/- pjsip_timer. The two timer entries have the delay they are scheduled with, in seconds. -/
structure Timer where
  active : Bool := false
  setting : Setting := .default
  refresher : Option Role := none
  role : Role := .uac
  timer : Option Int := none
  expireTimer : Option Int := none
  last422Cseq : UInt32 := 0
  deriving DecidableEq

structure Options where
  supportTimer : Bool
  requireTimer : Bool := false
  alwaysUseTimer : Bool := false
  deriving DecidableEq

/- What the session timers use of an INVITE session. -/
structure Inv where
  options : Options
  timer : Option Timer := none
  confirmed : Bool := false
  deriving DecidableEq

/- The Session-Expires header. -/
structure SessExpires where
  sessExpires : UInt32
  refresher : Option Role
  deriving DecidableEq

/- The headers of an INVITE or UPDATE request; supported says that Supported names the timer. -/
structure Request where
  cseq : UInt32
  supported : Bool
  sessExpires : Option SessExpires := none
  minSe : Option UInt32 := none
  deriving DecidableEq

structure Response where
  code : Nat
  sessExpires : Option SessExpires := none
  minSe : Option UInt32 := none
  deriving DecidableEq

/- A session without a timer gets one with the default setting. -/
def Inv.timerOf (inv : Inv) : Timer := inv.timer.getD {}

def Timer.asRefresher (t : Timer) : Bool := t.refresher = some t.role

def Timer.sessExpiresHdr (t : Timer) : SessExpires := ⟨t.setting.sessExpires,t.refresher⟩

/- The delays of start_timer. -/
def Timer.refreshDelay (t : Timer) : Int := (t.setting.sessExpires / 2).toNat

def Timer.giveUpDelay (t : Timer) : Int :=
  max ((t.setting.sessExpires.toNat : Int) - 32) (t.setting.sessExpires - t.setting.sessExpires / 3).toNat

def Timer.nextDelay (t : Timer) : Int := if t.asRefresher then t.refreshDelay else t.giveUpDelay

def Timer.stop (t : Timer) : Timer := { t with timer := none, expireTimer := none }

/- start_timer. -/
def Timer.start (t : Timer) : Timer :=
  { t.stop with
    expireTimer := if t.asRefresher then some t.setting.sessExpires.toNat else none
    timer := some t.nextDelay }

/- pjsip_timer_end_session. -/
def Inv.endSession (inv : Inv) : Inv := { inv with timer := inv.timer.map (fun t => { t.stop with active := false }) }

/- The refresher is kept, seen from the role in a new transaction. -/
def Timer.becomeUac (t : Timer) : Timer :=
  match t.refresher with
  | none => t
  | some _ => { t with role := .uac, refresher := some (if t.asRefresher then .uac else .uas) }

/- pjsip_timer_update_req. -/
def Inv.updateReq (inv : Inv) (req : Request) : Request × Inv :=
  if inv.options.supportTimer then
    let t := inv.timerOf.becomeUac
    ({ req with sessExpires := some t.sessExpiresHdr, minSe := some t.setting.minSe }, { inv with timer := some t })
  else (req, inv)

inductive Outcome where
  | success
  | error
  | retry (req : Request)
  deriving DecidableEq

/- The setting after a 422 response and after a success. -/
def Setting.raise (s : Setting) (minSe : UInt32) : Setting :=
  let low := max minSe s.minSe
  ⟨low,if s.sessExpires < low then low else s.sessExpires⟩

def Setting.accept (s : Setting) (sessExpires : UInt32) : Setting :=
  let s := if sessExpires < s.minSe ∧ absMinSe ≤ sessExpires then ⟨sessExpires,sessExpires⟩ else s
  if sessExpires ≤ s.sessExpires ∧ s.minSe ≤ sessExpires then { s with sessExpires := sessExpires } else s

/- pjsip_timer_process_resp for the response to a request that was sent; next is the CSeq of a retried one. -/
def Inv.processTooSmall (inv : Inv) (req : Request) (resp : Response) (next : UInt32) : Outcome × Inv :=
  match resp.minSe with
  | none => (.error, inv.endSession)
  | some minSe =>
    let t := inv.timerOf
    if req.cseq = t.last422Cseq + 1 then (if inv.confirmed then .success else .error, inv)
    else
      let t := { t with last422Cseq := req.cseq, setting := t.setting.raise minSe }
      (.retry { req with cseq := next, sessExpires := some t.sessExpiresHdr, minSe := some t.setting.minSe },
        { inv with timer := some t })

def Inv.processSuccess (inv : Inv) (resp : Response) : Outcome × Inv :=
  if resp.sessExpires = none ∧ inv.options.requireTimer then (.error, inv.endSession)
  else if resp.sessExpires = none ∧ ¬ inv.options.alwaysUseTimer then (.success, inv.endSession)
  else
    let t := inv.timerOf
    let t := { t with
      setting := match resp.sessExpires with
        | none => t.setting
        | some se => t.setting.accept se.sessExpires
      refresher := some ((resp.sessExpires.bind SessExpires.refresher).getD .uac)
      role := .uac
      active := true }
    (.success, { inv with timer := some t.start })

def Inv.processResp (inv : Inv) (req : Request) (resp : Response) (next : UInt32) : Outcome × Inv :=
  if inv.options.supportTimer then
    if resp.code = 422 then inv.processTooSmall req resp next
    else if resp.code / 100 = 2 then inv.processSuccess resp
    else (.success, inv)
  else (if resp.code = 422 then .error else .success, inv)

/- The refresher of a request, seen by the UAS. -/
def Timer.refresherFor (t : Timer) (req : Request) : Role :=
  match req.sessExpires.bind SessExpires.refresher with
  | some r => r
  | none =>
    match t.refresher with
    | some _ => if t.asRefresher then .uas else .uac
    | none => if req.supported ∧ req.sessExpires.isSome then .uac else .uas

/- pjsip_timer_process_req: false stands for 422. -/
def Inv.processReq (inv : Inv) (req : Request) : Bool × Inv :=
  if inv.options.supportTimer then
    let t := inv.timerOf
    let minSe := match req.minSe with
      | none => t.setting.minSe
      | some low => max low t.setting.minSe
    if req.sessExpires.any (fun se => decide (se.sessExpires < minSe)) then (false, { inv with timer := some t })
    else
      let t := match req.sessExpires with
        | some se => { t with setting := { t.setting with sessExpires := se.sessExpires } }
        | none =>
          if t.setting.sessExpires < minSe then { t with setting := { t.setting with sessExpires := minSe } } else t
      if req.sessExpires = none ∧ ¬ inv.options.requireTimer ∧ ¬ inv.options.alwaysUseTimer then
        (true, { inv with timer := some t }.endSession)
      else
        (true, { inv with
          timer := some { t with refresher := some (t.refresherFor req), role := .uas, active := true } })
  else (true, inv)

/- pjsip_timer_update_resp. -/
def Inv.updateResp (inv : Inv) (resp : Response) : Response × Inv :=
  if inv.options.supportTimer then
    match inv.timer with
    | none => (resp, inv)
    | some t =>
      if resp.code / 100 = 2 then
        if t.active then ({ resp with sessExpires := some t.sessExpiresHdr }, { inv with timer := some t.start })
        else (resp, inv)
      else if resp.code = 422 then ({ resp with minSe := some t.setting.minSe }, inv)
      else (resp, inv)
  else (resp, inv)

inductive Side where
  | caller | callee
  deriving DecidableEq

def Side.other : Side → Side
  | .caller => .callee
  | .callee => .caller

inductive Pending where
  | request (uac : Side) (req : Request)
  | response (uac : Side) (req : Request) (resp : Response)

/- Two sessions and the transaction that is under way; answered tells that one was completed with a success. -/
structure Pair where
  inv : Side → Inv
  pending : Option Pending := none
  answered : Bool := false

def Pair.set (s : Pair) (side : Side) (inv : Inv) : Pair := { s with inv := Function.update s.inv side inv }

/- A side starts to refresh, the other answers with 200 or 422, and the first takes the answer; a re-INVITE can go through
pjsip_timer_process_req twice, when the application answers it. The ACK comes in between. -/
inductive Event where
  | refresh (uac : Side) (cseq : UInt32) (supported : Bool)
  | receive (again : Bool)
  | complete (next : UInt32)
  | confirmed (side : Side)

def Pair.step (s : Pair) : Event → Pair
  | .refresh uac cseq supported =>
    if s.pending.isSome then s
    else
      let (req, inv) := (s.inv uac).updateReq { cseq := cseq, supported := supported }
      { s.set uac inv with pending := some (.request uac req) }
  | .receive again =>
    match s.pending with
    | some (.request uac req) =>
      let (good, inv) := (s.inv uac.other).processReq req
      let (good, inv) := if good && again then inv.processReq req else (good, inv)
      let (resp, inv) := inv.updateResp { code := if good then 200 else 422 }
      { s.set uac.other inv with pending := some (.response uac req resp) }
    | _ => s
  | .complete next =>
    match s.pending with
    | some (.response uac req resp) =>
      match (s.inv uac).processResp req resp next with
      | (.retry req, inv) => { s.set uac inv with pending := some (.request uac req) }
      | (_, inv) => { s.set uac inv with pending := none, answered := s.answered || decide (resp.code / 100 = 2) }
    | _ => s
  | .confirmed side => s.set side { s.inv side with confirmed := true }

def Pair.run (s : Pair) (events : List Event) : Pair := events.foldl Pair.step s

/- What pjsip_timer_init_session requires. -/
structure Setting.Valid (s : Setting) : Prop where
  low : absMinSe ≤ s.minSe
  interval : s.minSe ≤ s.sessExpires

structure Pair.Fresh (s : Pair) : Prop where
  support : ∀ side, (s.inv side).options.supportTimer = true
  valid : ∀ side, (s.inv side).timerOf.setting.Valid
  refresher : ∀ side, (s.inv side).timerOf.refresher = none
  pending : s.pending = none
  answered : s.answered = false

end Pjproject.SessTimer
