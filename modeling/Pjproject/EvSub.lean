import Pjproject.StunAuth
import Pjproject.Time

/-! A notifier's subscription of pjsip-simple/evsub.c and an incoming request that refreshes or ends it. The dialog
gives the request to the subscription that its Event header names; NOTIFY is left out, and so are the texts and the body
of the response. -/
namespace Pjproject.EvSub
open Time (TimeVal timeValAdd)
open Stun (stricmpZero)

inductive EvsubState where
  | null | sent | accepted | pending | active | terminated | unknown
  deriving DecidableEq

def evsubStateNames : EvsubState → String
  | .null => "NULL"
  | .sent => "SENT"
  | .accepted => "ACCEPTED"
  | .pending => "PENDING"
  | .active => "ACTIVE"
  | .terminated => "TERMINATED"
  | .unknown => "UNKNOWN"

inductive TimerId where
  | uacRefresh | uasTimeout | uacTerminate | uacWaitNotify
  deriving DecidableEq

/- A running timer with the tick at which it expires. TIMER_TYPE_NONE is no timer. -/
structure Scheduled where
  id : TimerId
  due : TimeVal
  deriving DecidableEq

structure EventHdr where
  eventType : List UInt8
  idParam : List UInt8 := []
  deriving DecidableEq

structure Evpkg where
  pkgName : List UInt8
  pkgExpires : UInt32

/- What the refresh uses of pjsip_evsub. destroyed tells that evsub_destroy has run. -/
structure Evsub where
  event : EventHdr
  state : EvsubState := .null
  stateStr : String := evsubStateNames .null
  expires : UInt32
  refreshTime : TimeVal
  timer : Option Scheduled := none
  pendingTsx : Int := 0
  destroyed : Bool := false
  deriving DecidableEq

structure Request where
  event : Option EventHdr
  expires : Option UInt32 := none
  deriving DecidableEq

structure Response where
  stCode : Int
  expires : UInt32
  deriving DecidableEq

/- What the handler meets: the clock, the ticks of the timer heap, whether the response can be created, and whether
sending it terminates the transaction before the call returns. -/
structure Surroundings where
  now : TimeVal
  tick : TimeVal
  created : Bool := true
  terminates : Bool := false

def expiresNotSpecified : UInt32 := 0xFFFFFFFF

def findPkg (pkgs : List Evpkg) (eventName : List UInt8) : Option Evpkg :=
  pkgs.find? fun pkg => stricmpZero pkg.pkgName eventName

def updateExpires (now : TimeVal) (interval : UInt32) (sub : Evsub) : Evsub :=
  { sub with refreshTime := ⟨now.sec + interval.toNat,now.msec⟩ }

def setTimer (tick : TimeVal) (timerId : Option TimerId) (seconds : UInt32) (sub : Evsub) : Evsub :=
  match timerId with
  | some id =>
    if seconds ≠ expiresNotSpecified then { sub with timer := some ⟨id,timeValAdd tick ⟨seconds.toNat,0⟩⟩ }
    else { sub with timer := none }
  | none => { sub with timer := none }

def evsubDestroy (sub : Evsub) : Evsub := { sub with timer := none, destroyed := true }

/- The callback for the new state sends nothing. -/
def setState (state : EvsubState) (sub : Evsub) : Evsub :=
  let prevState := sub.state
  let sub := { sub with state := state, stateStr := evsubStateNames state }
  if state = .terminated ∧ prevState ≠ .terminated then
    let sub := { sub with timer := none }
    if sub.pendingTsx = 0 then evsubDestroy sub else sub
  else sub

/- The last part of mod_evsub_on_tsx_state, for a transaction that is terminated. -/
def tsxTerminated (sub : Evsub) : Evsub :=
  let sub := { sub with pendingTsx := sub.pendingTsx - 1 }
  if sub.state = .terminated ∧ sub.pendingTsx = 0 then evsubDestroy sub else sub

/- sub->expires->ivalue from the Expires header, at most the expiry of the package. -/
def requestExpires (pkgs : List Evpkg) (req : Request) (sub : Evsub) : Evsub :=
  match req.event, req.expires with
  | some event, some ivalue =>
    match findPkg pkgs event.eventType with
    | some evpkg => { sub with expires := if ivalue < evpkg.pkgExpires then ivalue else evpkg.pkgExpires }
    | none => sub
  | _, _ => sub

/- The state the application finds when it is asked. -/
def provisionalState (sub : Evsub) : Evsub :=
  if sub.expires = 0 then { sub with state := .terminated, stateStr := evsubStateNames .terminated }
  else if sub.state = .null then { sub with state := .accepted, stateStr := evsubStateNames .accepted }
  else sub

/- The code that on_rx_refresh leaves, 200 where it is not called, made a final and valid one. -/
def finalCode (answer : Option Int) : Int :=
  let stCode := answer.getD 200
  let stCode := if stCode ≥ 200 then stCode else 200
  if stCode ≤ 699 then stCode else 500

/- A transaction that sending terminates comes back to mod_evsub_on_tsx_state at once. Its state is no longer TRYING, so
that on_tsx_state_uas does nothing. -/
def sendResponse (env : Surroundings) (sub : Evsub) : Evsub :=
  if env.created ∧ env.terminates then tsxTerminated sub else sub

/- on_tsx_state_uas for a transaction in TRYING of the method that made the subscription, or of SUBSCRIBE. -/
def onTsxStateUas (pkgs : List Evpkg) (env : Surroundings) (answer : Option Int) (sub : Evsub) (req : Request) :
    Evsub × Option Response :=
  let sub := requestExpires pkgs req sub
  let sub := updateExpires env.now sub.expires sub
  let oldState := sub.state
  let oldStateStr := sub.stateStr
  let sub := provisionalState sub
  let stCode := finalCode answer
  let response := if env.created then some ⟨stCode,sub.expires⟩ else none
  let sub := sendResponse env sub
  if stCode / 100 = 2 then
    let sub := if sub.expires = 0 then setState sub.state sub
      else if sub.state = .null then setState sub.state sub else sub
    let sub := if sub.state ≠ .terminated then setTimer env.tick (some .uasTimeout) sub.expires sub else sub
    (sub, response)
  else ({ sub with state := oldState, stateStr := oldStateStr }, response)

/- on_new_transaction: the subscription takes the request. -/
def Takes (sub : Evsub) (req : Request) : Prop :=
  ∃ event ∈ req.event, stricmpZero sub.event.eventType event.eventType = true ∧
    sub.event.idParam = event.idParam ∧ sub.state ≠ .terminated

instance (sub req) : Decidable (Takes sub req) := by unfold Takes; infer_instance

def modEvsubOnTsxState (pkgs : List Evpkg) (env : Surroundings) (answer : Option Int) (sub : Evsub) (req : Request) :
    Evsub × Option Response :=
  if Takes sub req then
    let (sub, response) := onTsxStateUas pkgs env answer { sub with pendingTsx := sub.pendingTsx + 1 } req
    (if env.created ∧ env.terminates then tsxTerminated sub else sub, response)
  else (sub, none)

structure SameAs (before after : Evsub) : Prop where
  state : after.state = before.state
  stateStr : after.stateStr = before.stateStr
  expires : after.expires = before.expires
  refreshTime : after.refreshTime = before.refreshTime
  timer : after.timer = before.timer

/- What the request asks for is the interval there is already. -/
def SameInterval (pkgs : List Evpkg) (sub : Evsub) (req : Request) : Prop :=
  ∀ event ∈ req.event, ∀ ivalue ∈ req.expires, ∀ evpkg ∈ findPkg pkgs event.eventType,
    min ivalue.toNat evpkg.pkgExpires.toNat = sub.expires.toNat

/- The transaction of the request is the only one, ends while an interval of zero is provisionally a terminated
subscription, and takes a running timer with it. -/
def KillsTimer (env : Surroundings) (sub : Evsub) : Prop :=
  sub.expires = 0 ∧ env.created = true ∧ env.terminates = true ∧ sub.pendingTsx = 0 ∧ sub.timer ≠ none

structure Harmless (pkgs : List Evpkg) (env : Surroundings) (sub : Evsub) (req : Request) : Prop where
  interval : SameInterval pkgs sub req
  time : sub.refreshTime = ⟨env.now.sec + sub.expires.toNat,env.now.msec⟩
  timer : ¬ KillsTimer env sub

theorem finalRefused {code : Int} (refused : 300 ≤ code) : finalCode (some code) / 100 ≠ 2 := by
  have final : (some code).getD 200 ≥ 200 := by simp only [Option.getD_some]; omega
  simp only [finalCode,Option.getD_some] at final ⊢
  rw [if_pos final]
  split <;> omega

variable (pkgs : List Evpkg) (sub : Evsub)

theorem requestOthers (req : Request) (sub : Evsub) :
    ∃ interval, requestExpires pkgs req sub = { sub with expires := interval } := by
  unfold requestExpires
  split
  · split
    · exact ⟨_,rfl⟩
    · exact ⟨sub.expires,rfl⟩
  · exact ⟨sub.expires,rfl⟩

theorem requestSame {pkgs : List Evpkg} {req : Request} {sub : Evsub} :
    (requestExpires pkgs req sub).expires = sub.expires ↔ SameInterval pkgs sub req := by
  unfold requestExpires SameInterval
  split
  next event ivalue named timed =>
    have least : ∀ evpkg : Evpkg, (if ivalue < evpkg.pkgExpires then ivalue else evpkg.pkgExpires) = sub.expires ↔
        min ivalue.toNat evpkg.pkgExpires.toNat = sub.expires.toNat := by
      intro evpkg
      split
      next below => rw [← UInt32.toNat_inj,min_eq_left (UInt32.lt_iff_toNat_lt.mp below).le]
      next above => rw [← UInt32.toNat_inj,min_eq_right (UInt32.le_iff_toNat_le.mp (UInt32.not_lt.mp above))]
    split
    next evpkg found => simp [named,timed,found,least]
    next missing => simp [named,timed,missing]
  next absent =>
    refine ⟨fun _ event named ivalue timed => ?_,fun _ => rfl⟩
    exact absurd timed (absent event ivalue named)

theorem provisionalOthers :
    (provisionalState sub).expires = sub.expires ∧ (provisionalState sub).refreshTime = sub.refreshTime ∧
    (provisionalState sub).timer = sub.timer ∧ (provisionalState sub).pendingTsx = sub.pendingTsx := by
  unfold provisionalState
  split
  · exact ⟨rfl,rfl,rfl,rfl⟩
  · split <;> exact ⟨rfl,rfl,rfl,rfl⟩

theorem provisionalTerminated {sub : Evsub} (live : sub.state ≠ .terminated) :
    (provisionalState sub).state = .terminated ↔ sub.expires = 0 := by
  unfold provisionalState
  split
  next zero => exact ⟨fun _ => zero,fun _ => rfl⟩
  next running =>
    split
    · exact ⟨fun same => (EvsubState.noConfusion same),fun zero => absurd zero running⟩
    · exact ⟨fun same => absurd same live,fun zero => absurd zero running⟩

theorem endedOthers : (tsxTerminated sub).state = sub.state ∧ (tsxTerminated sub).stateStr = sub.stateStr ∧
    (tsxTerminated sub).expires = sub.expires ∧ (tsxTerminated sub).refreshTime = sub.refreshTime := by
  unfold tsxTerminated
  dsimp only
  split <;> exact ⟨rfl,rfl,rfl,rfl⟩

theorem endedTimer : (tsxTerminated sub).timer =
      if sub.state = .terminated ∧ sub.pendingTsx = 1 then none else sub.timer := by
  unfold tsxTerminated
  have last : sub.pendingTsx - 1 = 0 ↔ sub.pendingTsx = 1 := by omega
  dsimp only
  simp only [last]
  split <;> rfl

theorem endedLive {sub : Evsub} (live : sub.state ≠ .terminated) : (tsxTerminated sub).timer = sub.timer := by
  rw [endedTimer,if_neg (fun ended => live ended.1)]

theorem sentOthers (env : Surroundings) (sub : Evsub) :
    (sendResponse env sub).expires = sub.expires ∧ (sendResponse env sub).refreshTime = sub.refreshTime := by
  unfold sendResponse
  split
  · exact ⟨(endedOthers sub).2.2.1,(endedOthers sub).2.2.2⟩
  · exact ⟨rfl,rfl⟩

theorem sentTimer (env : Surroundings) (sub : Evsub) : (sendResponse env sub).timer =
      if env.created = true ∧ env.terminates = true ∧ sub.state = .terminated ∧ sub.pendingTsx = 1 then none
      else sub.timer := by
  unfold sendResponse
  by_cases ends : env.created = true ∧ env.terminates = true
  · rw [if_pos ends,endedTimer]
    simp only [ends,true_and]
  · rw [if_neg ends,if_neg (fun all => ends ⟨all.1,all.2.1⟩)]

/- What a refused request leaves: the state is put back, everything else is as the handler made it. -/
structure Refused (pkgs : List Evpkg) (env : Surroundings) (sub : Evsub) (req : Request) (after : Evsub) : Prop where
  state : after.state = sub.state
  stateStr : after.stateStr = sub.stateStr
  expires : after.expires = (requestExpires pkgs req sub).expires
  refreshTime : after.refreshTime = ⟨env.now.sec + (requestExpires pkgs req sub).expires.toNat,env.now.msec⟩
  timer : after.timer =
    if env.created = true ∧ env.terminates = true ∧ (requestExpires pkgs req sub).expires = 0 ∧ sub.pendingTsx = 0
    then none else sub.timer

theorem uasRefused (env : Surroundings) {code : Int} {sub : Evsub} (req : Request)
    (live : sub.state ≠ .terminated) (refused : 300 ≤ code) : Refused pkgs env sub req
      (onTsxStateUas pkgs env (some code) { sub with pendingTsx := sub.pendingTsx + 1 } req).1 := by
  obtain ⟨interval,asked⟩ := requestOthers pkgs req { sub with pendingTsx := sub.pendingTsx + 1 }
  have plain : (requestExpires pkgs req sub).expires = interval := by
    have same : (requestExpires pkgs req sub).expires =
        (requestExpires pkgs req { sub with pendingTsx := sub.pendingTsx + 1 }).expires := by
      unfold requestExpires
      split
      · split <;> rfl
      · rfl
    rw [same,asked]
  unfold onTsxStateUas
  simp only [asked,finalRefused refused,if_false]
  generalize held : updateExpires env.now interval
    { sub with expires := interval, pendingTsx := sub.pendingTsx + 1 } = updated
  have kept := provisionalOthers updated
  have sent := sentOthers env (provisionalState updated)
  have ended : (provisionalState updated).state = .terminated ↔ interval = 0 := by
    subst held
    exact provisionalTerminated live
  subst held
  refine ⟨rfl,rfl,?_,?_,?_⟩
  · exact sent.1.trans (kept.1.trans plain.symm)
  · rw [plain]
    exact sent.2.trans kept.2.1
  · have last : sub.pendingTsx + 1 = 1 ↔ sub.pendingTsx = 0 := by omega
    have timed := sentTimer env
      (provisionalState (updateExpires env.now interval { sub with expires := interval, pendingTsx := sub.pendingTsx + 1 }))
    rw [kept.2.2.1,kept.2.2.2] at timed
    simp only [ended] at timed
    rw [plain]
    simp only [updateExpires,last] at timed
    exact timed

theorem refreshRefused (env : Surroundings) {code : Int} {sub : Evsub} {req : Request}
    (taken : Takes sub req) (refused : 300 ≤ code) :
    Refused pkgs env sub req (modEvsubOnTsxState pkgs env (some code) sub req).1 := by
  obtain ⟨_,_,_,_,live⟩ := id taken
  have handled := uasRefused pkgs env req live refused
  unfold modEvsubOnTsxState
  simp only [taken,if_true]
  split
  · have others := endedOthers
      (onTsxStateUas pkgs env (some code) { sub with pendingTsx := sub.pendingTsx + 1 } req).1
    have timer := endedLive (handled.state ▸ live)
    exact ⟨others.1.trans handled.state,others.2.1.trans handled.stateStr,others.2.2.1.trans handled.expires,
      others.2.2.2.trans handled.refreshTime,timer.trans handled.timer⟩
  · exact handled

theorem refusedKeepsExactly (pkgs : List Evpkg) (env : Surroundings) (code : Int) (sub : Evsub) (req : Request)
    (taken : Takes sub req) (refused : 300 ≤ code) :
    SameAs sub (modEvsubOnTsxState pkgs env (some code) sub req).1 ↔ Harmless pkgs env sub req := by
  have left := refreshRefused pkgs env taken refused
  constructor
  · intro same
    have interval : (requestExpires pkgs req sub).expires = sub.expires := left.expires.symm.trans same.expires
    have time := same.refreshTime.symm.trans left.refreshTime
    have timer := same.timer.symm.trans left.timer
    rw [interval] at time timer
    refine ⟨requestSame.mp interval,time,fun kills => ?_⟩
    rw [if_pos ⟨kills.2.1,kills.2.2.1,kills.1,kills.2.2.2.1⟩] at timer
    exact kills.2.2.2.2 timer
  · intro harmless
    have interval := requestSame.mpr harmless.interval
    refine ⟨left.state,left.stateStr,left.expires.trans interval,?_,?_⟩
    · rw [left.refreshTime,interval]
      exact harmless.time.symm
    · rw [left.timer,interval]
      split
      next kills =>
        by_contra running
        exact harmless.timer ⟨kills.2.2.1,kills.1,kills.2.1,kills.2.2.2,fun idle => running idle.symm⟩
      · rfl

/- A subscription to presence, active for another 600 seconds, and a watcher that wants to end it. -/
def presence : EventHdr := ⟨[112,114,101,115,101,110,99,101],[]⟩

def watched : Evsub where
  event := presence
  state := .active
  stateStr := evsubStateNames .active
  expires := 600
  refreshTime := ⟨1600,0⟩
  timer := some ⟨.uasTimeout,⟨605,0⟩⟩

theorem sameSecondKept :
    SameAs watched (modEvsubOnTsxState [⟨presence.eventType,3600⟩] ⟨⟨1000,0⟩,⟨5,0⟩,true,true⟩ (some 403) watched
      ⟨some presence,some 600⟩).1 :=
  (refusedKeepsExactly _ _ 403 watched _ (by decide) (by decide)).mpr
    ⟨by simp [SameInterval,findPkg,presence,watched,stricmpZero],by decide,
      fun kills => absurd kills.1 (by decide)⟩

theorem refusedUnsubscribeExpires :
    ¬ ∀ pkgs env code sub req, Takes sub req → 300 ≤ code →
      SameAs sub (modEvsubOnTsxState pkgs env (some code) sub req).1 := by
  intro kept
  have same := kept [⟨presence.eventType,3600⟩] ⟨⟨1100,0⟩,⟨105,0⟩,true,false⟩ 403 watched ⟨some presence,some 0⟩
    (by decide) (by decide)
  exact absurd same.expires (by decide)

end Pjproject.EvSub
