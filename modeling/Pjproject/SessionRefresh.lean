import Pjproject.SessionAgreement

/-! A refresh from the peer, of inv_on_state_confirmed and inv_respond_incoming_update: what a refused one leaves of the
session timer. SDPs are not kept; what their negotiation comes to and what the application does are inputs. -/
namespace Pjproject.SessTimer

/- An answer of the application, through pjsip_inv_initial_answer or pjsip_inv_answer; processed tells that process_answer
is successful. -/
structure Answer where
  initial : Bool
  code : Nat
  processed : Bool

/- A response of the session goes through pjsip_timer_update_resp before it is sent. -/
def Inv.reply (inv : Inv) (code : Nat) : Option Nat × Inv := (some code, (inv.updateResp { code := code }).2)

/- pjsip_inv_initial_answer and pjsip_inv_answer, with the code of the response when there is one. -/
def Inv.answer (inv : Inv) (req : Request) (a : Answer) : Option Nat × Inv :=
  if a.initial then
    match inv.processReq req with
    | (false, inv) => inv.reply 422
    | (true, inv) => if a.processed then inv.reply a.code else (none, inv)
  else if a.processed then inv.reply a.code
  else (none, inv)

/- The application answers until the response is final. -/
def Inv.answers (inv : Inv) (req : Request) : List Answer → Option Nat × Inv
  | [] => (none, inv)
  | a :: rest =>
    match inv.answer req a with
    | (none, inv) => inv.answers req rest
    | (some code, inv) => if 200 ≤ code then (some code, inv) else inv.answers req rest

inductive NegState where
  | localOffer | remoteOffer | waitNego | done
  deriving DecidableEq

/- inv_check_sdp_in_incoming_msg: insdp stands for PJMEDIA_SDP_EINSDP. -/
inductive SdpStatus where
  | success | insdp | error
  deriving DecidableEq

/- on_rx_reinvite: either the application answers, or it leaves this to the session, with or without an SDP answer. -/
inductive OnRxReinvite where
  | answers (answers : List Answer)
  | declines (waitNego : Bool)

structure Reinvite where
  otherInvite : Option Role := none
  secure : Bool := true
  neg : NegState := .done
  sdpStatus : SdpStatus := .success
  onRxReinvite : Option OnRxReinvite := none
  hasSdp : Bool := true
  hasBody : Bool := true
  acceptUnknownBody : Bool := false
  answered : Bool := true

/- An application that leaves the answer to the session has to set the SDP answer. -/
def Reinvite.status (r : Reinvite) : SdpStatus :=
  match r.sdpStatus, r.onRxReinvite with
  | .success, some (.declines waitNego) => if r.hasSdp ∧ ¬ waitNego then .error else .success
  | status, _ => status

/- The part of inv_on_state_confirmed for a new INVITE transaction. -/
def Inv.onReinvite (inv : Inv) (req : Request) (r : Reinvite) : Option Nat × Inv :=
  match r.otherInvite with
  | some role => (some (if role = .uac then 491 else 500), inv)
  | none =>
    if ¬ r.secure then (some 480, inv)
    else
      match inv.processReq req with
      | (false, inv) => inv.reply 422
      | (true, inv) =>
        if r.neg ≠ .done then inv.reply 491
        else
          match r.sdpStatus, r.onRxReinvite with
          | .success, some (.answers answers) => inv.answers req answers
          | _, _ =>
            match r.status with
            | .error => (some 488, inv)
            | .insdp =>
              if r.hasBody ∨ ¬ r.acceptUnknownBody then (some 415, inv)
              else if r.answered then inv.reply 200
              else (some 500, inv)
            | .success => if r.answered then inv.reply 200 else (some 500, inv)

structure Update where
  secure : Bool := true
  hasBody : Bool := true
  neg : NegState := .done
  negotiated : Bool := true

def Update.code (u : Update) : Nat :=
  if ¬ u.hasBody then 200
  else
    match u.neg with
    | .localOffer => 491
    | .remoteOffer | .waitNego => 500
    | .done => if u.negotiated then 200 else 488

/- inv_respond_incoming_update. -/
def Inv.respondUpdate (inv : Inv) (req : Request) (u : Update) : Option Nat × Inv :=
  if ¬ u.secure then (some 480, inv)
  else
    match inv.processReq req with
    | (false, inv) => inv.reply 422
    | (true, inv) => inv.reply u.code

inductive Refresh where
  | reinvite (r : Reinvite)
  | update (u : Update)

def Inv.refresh (inv : Inv) (req : Request) : Refresh → Option Nat × Inv
  | .reinvite r => inv.onReinvite req r
  | .update u => inv.respondUpdate req u

/- What a session does with its timer: its own requests and their responses, the answers to the initial INVITE, what the
peer sends, and the three things that timer_cb does when one of the entries is due. -/
inductive Action where
  | request (req : Request)
  | response (req : Request) (resp : Response) (next : UInt32)
  | incoming (req : Request) (answers : List Answer)
  | refresh (req : Request) (refresh : Refresh)
  | confirmed
  | endSession
  | postponed
  | due
  | expired

def Inv.act (inv : Inv) : Action → Inv
  | .request req => (inv.updateReq req).2
  | .response req resp next => (inv.processResp req resp next).2
  | .incoming req answers => (inv.answers req answers).2
  | .refresh req refresh => (inv.refresh req refresh).2
  | .confirmed => { inv with confirmed := true }
  | .endSession => inv.endSession
  | .postponed => { inv with timer := inv.timer.map (fun t => { t with timer := some 1 }) }
  | .due => { inv with timer := inv.timer.map (fun t => { t with timer := none }) }
  | .expired => { inv with timer := inv.timer.map (fun t => { t with expireTimer := none }) }

/- A session as pjsip_timer_init_session leaves it, and what it becomes. -/
inductive Inv.Reached : Inv → Prop where
  | init {inv : Inv} (idle : ∀ t, inv.timer = some t → t.active = false) : Inv.Reached inv
  | act {inv : Inv} (reached : Inv.Reached inv) (action : Action) : Inv.Reached (inv.act action)

/- The smallest interval that pjsip_timer_process_req takes, and the interval that it goes on with. -/
def Timer.minSeFor (t : Timer) (req : Request) : UInt32 :=
  match req.minSe with
  | none => t.setting.minSe
  | some low => max low t.setting.minSe

def Timer.tooSmall (t : Timer) (req : Request) : Bool :=
  req.sessExpires.any (fun se => decide (se.sessExpires < t.minSeFor req))

def Timer.take (t : Timer) (req : Request) : Timer :=
  match req.sessExpires with
  | some se => { t with setting := { t.setting with sessExpires := se.sessExpires } }
  | none =>
    if t.setting.sessExpires < t.minSeFor req then
      { t with setting := { t.setting with sessExpires := t.minSeFor req } }
    else t

/- The timer that is ended, and the one that goes on with the peer's interval. -/
def Timer.ended (t : Timer) (req : Request) : Timer := { (t.take req).stop with active := false }

def Timer.taken (t : Timer) (req : Request) : Timer :=
  { t.take req with refresher := some ((t.take req).refresherFor req), role := .uas, active := true }

/- A request without Session-Expires counts only when the session wants a timer. -/
def Options.wants (options : Options) (req : Request) : Prop :=
  req.sessExpires ≠ none ∨ options.requireTimer = true ∨ options.alwaysUseTimer = true

theorem processReqOutcome (inv : Inv) (req : Request) :
    (inv.options.supportTimer = false ∧ inv.processReq req = (true, inv)) ∨
    (inv.options.supportTimer = true ∧ inv.timerOf.tooSmall req = true ∧
      inv.processReq req = (false, { inv with timer := some inv.timerOf })) ∨
    (inv.options.supportTimer = true ∧ inv.timerOf.tooSmall req = false ∧ ¬ inv.options.wants req ∧
      inv.processReq req = (true, { inv with timer := some (inv.timerOf.ended req) })) ∨
    (inv.options.supportTimer = true ∧ inv.timerOf.tooSmall req = false ∧ inv.options.wants req ∧
      inv.processReq req = (true, { inv with timer := some (inv.timerOf.taken req) })) := by
  cases support : inv.options.supportTimer with
  | false =>
    refine .inl ⟨rfl,?_⟩
    unfold Inv.processReq
    rw [if_neg (by simp [support])]
  | true =>
    cases small : inv.timerOf.tooSmall req with
    | true =>
      refine .inr (.inl ⟨rfl,rfl,?_⟩)
      unfold Inv.processReq
      rw [if_pos support]
      exact if_pos small
    | false =>
      have enough : ¬ inv.timerOf.tooSmall req = true := Bool.eq_false_iff.mp small
      by_cases wants : inv.options.wants req
      · refine .inr (.inr (.inr ⟨rfl,rfl,wants,?_⟩))
        unfold Inv.processReq
        rw [if_pos support]
        refine (if_neg enough).trans (if_neg ?_)
        rintro ⟨absent,noRequire,noAlways⟩
        rcases wants with present | require | always
        · exact present absent
        · exact noRequire require
        · exact noAlways always
      · refine .inr (.inr (.inl ⟨rfl,rfl,wants,?_⟩))
        have unwanted := not_or.mp wants
        have forced := not_or.mp unwanted.2
        unfold Inv.processReq
        rw [if_pos support]
        exact (if_neg enough).trans (if_pos ⟨not_not.mp unwanted.1,forced⟩)

structure Timer.Agreeable (options : Options) (t : Timer) : Prop where
  support : t.active = true → options.supportTimer = true
  known : t.active = true → t.refresher ≠ none

def Inv.Good (inv : Inv) : Prop := ∀ t, inv.timer = some t → t.Agreeable inv.options

section Reached

variable {inv : Inv}

theorem Inv.Good.timerOf (good : inv.Good) : inv.timerOf.Agreeable inv.options := by
  unfold Inv.timerOf
  cases here : inv.timer with
  | none => exact ⟨nofun,nofun⟩
  | some t => exact good t here

theorem Inv.Good.mapTimer (good : inv.Good) {f : Timer → Timer}
    (kept : ∀ t, t.Agreeable inv.options → (f t).Agreeable inv.options) :
    ({ inv with timer := inv.timer.map f } : Inv).Good := by
  intro u changed
  obtain ⟨t,here,rfl⟩ := Option.map_eq_some_iff.mp changed
  exact kept t (good t here)

theorem Inv.Good.put {t : Timer} (agreeable : t.Agreeable inv.options) : ({ inv with timer := some t } : Inv).Good := by
  intro u here
  cases here
  exact agreeable

theorem Inv.Good.endSession (good : inv.Good) : inv.endSession.Good := good.mapTimer (fun _ _ => ⟨nofun,nofun⟩)

theorem Timer.Agreeable.becomeUac {options : Options} {t : Timer} (agreeable : t.Agreeable options) :
    t.becomeUac.Agreeable options := by
  have active : t.becomeUac.active = t.active := by
    unfold Timer.becomeUac
    split
    · rfl
    · rfl
  obtain ⟨_,_,_,unknown,_⟩ := becomeUacKeeps t
  refine ⟨fun on => agreeable.support (active ▸ on),fun on none => ?_⟩
  exact agreeable.known (active ▸ on) (unknown.mp none)

theorem Inv.Good.updateReq (good : inv.Good) (req : Request) : (inv.updateReq req).2.Good := by
  unfold Inv.updateReq
  split
  · exact .put good.timerOf.becomeUac
  · exact good

theorem Inv.Good.processResp (good : inv.Good) (req : Request) (resp : Response) (next : UInt32) :
    (inv.processResp req resp next).2.Good := by
  unfold Inv.processResp
  split
  · rename_i support
    split
    · unfold Inv.processTooSmall
      split
      · exact good.endSession
      · dsimp only
        split
        · exact good
        · exact .put ⟨good.timerOf.support,good.timerOf.known⟩
    · split
      · unfold Inv.processSuccess
        split
        · exact good.endSession
        · split
          · exact good.endSession
          · exact .put ⟨fun _ => support,nofun⟩
      · exact good
  · exact good

theorem Inv.Good.processReq (good : inv.Good) (req : Request) : (inv.processReq req).2.Good := by
  rcases processReqOutcome inv req with ⟨_,same⟩ | ⟨_,_,same⟩ | ⟨_,_,_,same⟩ | ⟨support,_,_,same⟩
  · rw [same]
    exact good
  · rw [same]
    exact .put good.timerOf
  · rw [same]
    exact .put ⟨nofun,nofun⟩
  · rw [same]
    exact .put ⟨fun _ => support,nofun⟩

theorem Inv.Good.reply (good : inv.Good) (code : Nat) : (inv.reply code).2.Good := by
  unfold Inv.reply Inv.updateResp
  split
  · split
    · exact good
    · rename_i t here
      split
      · split
        · exact .put ⟨(good t here).support,(good t here).known⟩
        · exact good
      · split
        · exact good
        · exact good
  · exact good

theorem Inv.Good.answer (good : inv.Good) (req : Request) (a : Answer) : (inv.answer req a).2.Good := by
  have asked := good.processReq req
  unfold Inv.answer
  split
  · split
    · rename_i inv' refused
      rw [refused] at asked
      exact asked.reply 422
    · rename_i inv' taken
      rw [taken] at asked
      split
      · exact asked.reply a.code
      · exact asked
  · split
    · exact good.reply a.code
    · exact good

theorem Inv.Good.answers (req : Request) (answers : List Answer) : ∀ {inv : Inv}, inv.Good →
    (inv.answers req answers).2.Good := by
  induction answers with
  | nil => exact fun good => good
  | cons a rest ih =>
    intro inv good
    have one := good.answer req a
    unfold Inv.answers
    split
    · rename_i inv' sent
      rw [sent] at one
      exact ih one
    · rename_i code inv' sent
      rw [sent] at one
      split
      · exact one
      · exact ih one

theorem Inv.Good.onReinvite (good : inv.Good) (req : Request) (r : Reinvite) : (inv.onReinvite req r).2.Good := by
  have asked := good.processReq req
  unfold Inv.onReinvite
  split
  · exact good
  · split
    · exact good
    · split
      · rename_i inv' refused
        rw [refused] at asked
        exact asked.reply 422
      · rename_i inv' taken
        rw [taken] at asked
        replace asked : inv'.Good := asked
        split
        · exact asked.reply 491
        · split
          · exact Inv.Good.answers req _ asked
          · split
            · exact asked
            · split
              · exact asked
              · split
                · exact asked.reply 200
                · exact asked
            · split
              · exact asked.reply 200
              · exact asked

theorem Inv.Good.respondUpdate (good : inv.Good) (req : Request) (u : Update) : (inv.respondUpdate req u).2.Good := by
  have asked := good.processReq req
  unfold Inv.respondUpdate
  split
  · exact good
  · split
    · rename_i inv' refused
      rw [refused] at asked
      exact asked.reply 422
    · rename_i inv' taken
      rw [taken] at asked
      exact asked.reply u.code

theorem Inv.Good.act (good : inv.Good) (action : Action) : (inv.act action).Good := by
  cases action with
  | request req => exact good.updateReq req
  | response req resp next => exact good.processResp req resp next
  | incoming req answers => exact Inv.Good.answers req answers good
  | refresh req refresh =>
    cases refresh with
    | reinvite r => exact good.onReinvite req r
    | update u => exact good.respondUpdate req u
  | confirmed => exact good
  | endSession => exact good.endSession
  | postponed => exact good.mapTimer (fun _ agreeable => ⟨agreeable.support,agreeable.known⟩)
  | due => exact good.mapTimer (fun _ agreeable => ⟨agreeable.support,agreeable.known⟩)
  | expired => exact good.mapTimer (fun _ agreeable => ⟨agreeable.support,agreeable.known⟩)

theorem Inv.Reached.good (reached : inv.Reached) : inv.Good := by
  induction reached with
  | init idle =>
    intro t here
    have off := idle t here
    exact ⟨fun on => absurd on (by simp [off]),fun on => absurd on (by simp [off])⟩
  | act _ action good => exact good.act action

end Reached

section Refused

variable {inv inv' : Inv}

variable {code : Nat} {u : Timer} {req : Request}

theorem replyRefused (refused : code / 100 ≠ 2) : inv.reply code = (some code, inv) := by
  unfold Inv.reply Inv.updateResp
  split
  · split
    · rfl
    · split
      · rfl
      · rfl
  · rfl

theorem takeMinSe (t : Timer) (req : Request) : (t.take req).setting.minSe = t.setting.minSe := by
  unfold Timer.take
  split
  · rfl
  · split
    · rfl
    · rfl

theorem minSeForSame {t : Timer} (same : u.setting.minSe = t.setting.minSe) (req : Request) :
    u.minSeFor req = t.minSeFor req := by
  unfold Timer.minSeFor
  rw [same]

theorem tooSmallSame {t : Timer} (same : u.setting.minSe = t.setting.minSe) (req : Request) :
    u.tooSmall req = t.tooSmall req := by
  unfold Timer.tooSmall
  rw [minSeForSame same]

theorem takeAgain {t : Timer} (same : u.setting = (t.take req).setting) : u.take req = u := by
  have low : u.minSeFor req = t.minSeFor req := minSeForSame (by rw [same,takeMinSe]) req
  unfold Timer.take at same ⊢
  split
  · rename_i se here
    rw [here] at same
    have interval : u.setting.sessExpires = se.sessExpires := congrArg Setting.sessExpires same
    rw [← interval]
  · rename_i absent
    rw [absent] at same
    dsimp only at same ⊢
    have enough : ¬ u.setting.sessExpires < u.minSeFor req := by
      rw [low]
      split at same
      · rw [same]
        exact UInt32.lt_irrefl _
      · rename_i enough
        rw [same]
        exact enough
    exact if_neg enough

theorem refresherForAgain {r : Role} (named : u.refresher = some r) (role : u.role = .uas)
    (same : ∀ s, req.sessExpires.bind SessExpires.refresher = some s → s = r) : u.refresherFor req = r := by
  unfold Timer.refresherFor
  split
  · rename_i s here
    exact same s here
  · rw [named]
    dsimp only
    rw [asRefresherUas named role]
    cases r with
    | uac => rfl
    | uas => rfl

theorem endedAgain (t : Timer) (req : Request) : (t.ended req).ended req = t.ended req := by
  have same : (t.ended req).take req = t.ended req := takeAgain (t := t) rfl
  calc
    (t.ended req).ended req = { ((t.ended req).take req).stop with active := false } := rfl
    _ = { (t.ended req).stop with active := false } := by rw [same]
    _ = t.ended req := rfl

theorem takenAgain (t : Timer) (req : Request) : (t.taken req).taken req = t.taken req := by
  have same : (t.taken req).take req = t.taken req := takeAgain (t := t) rfl
  have refresher : (t.taken req).refresherFor req = (t.take req).refresherFor req := by
    refine refresherForAgain rfl rfl (fun s named => ?_)
    unfold Timer.refresherFor
    rw [named]
  calc
    (t.taken req).taken req = { (t.taken req).take req with
        refresher := some (((t.taken req).take req).refresherFor req), role := .uas, active := true } := rfl
    _ = { t.taken req with refresher := some ((t.take req).refresherFor req), role := .uas, active := true } := by
      rw [same,refresher]
    _ = t.taken req := rfl

theorem processReqAgain (good : inv.processReq req = (true, inv')) : inv'.processReq req = (true, inv') := by
  rcases processReqOutcome inv req with ⟨_,same⟩ | ⟨_,_,same⟩ | ⟨support,small,unwanted,same⟩ |
    ⟨support,small,wants,same⟩
  · cases same.symm.trans good
    exact same
  · cases same.symm.trans good
  · cases same.symm.trans good
    have kept : (inv.timerOf.ended req).tooSmall req = false :=
      (tooSmallSame (takeMinSe inv.timerOf req) req).trans small
    rcases processReqOutcome { inv with timer := some (inv.timerOf.ended req) } req with
      ⟨off,_⟩ | ⟨_,low,_⟩ | ⟨_,_,_,again⟩ | ⟨_,_,on,_⟩
    · exact absurd (off.symm.trans support) Bool.false_ne_true
    · exact absurd (kept.symm.trans low) Bool.false_ne_true
    · rw [again,timerOfSome,endedAgain]
    · exact absurd on unwanted
  · cases same.symm.trans good
    have kept : (inv.timerOf.taken req).tooSmall req = false :=
      (tooSmallSame (takeMinSe inv.timerOf req) req).trans small
    rcases processReqOutcome { inv with timer := some (inv.timerOf.taken req) } req with
      ⟨off,_⟩ | ⟨_,low,_⟩ | ⟨_,_,off,_⟩ | ⟨_,_,_,again⟩
    · exact absurd (off.symm.trans support) Bool.false_ne_true
    · exact absurd (kept.symm.trans low) Bool.false_ne_true
    · exact absurd wants off
    · rw [again,timerOfSome,takenAgain]

theorem answerRefused (again : inv.processReq req = (true, inv)) {a : Answer} :
    inv.answer req a = (none, inv) ∨ inv.answer req a = inv.reply a.code := by
  unfold Inv.answer
  rw [again]
  dsimp only
  split
  · split
    · exact .inr rfl
    · exact .inl rfl
  · split
    · exact .inr rfl
    · exact .inl rfl

theorem answersRefused (again : inv.processReq req = (true, inv))
    (refused : code / 100 ≠ 2) (answers : List Answer) (final : inv.answers req answers = (some code, inv')) :
    inv' = inv := by
  induction answers with
  | nil => cases final
  | cons a rest ih =>
    unfold Inv.answers at final
    rcases answerRefused again (a := a) with failed | sent
    · rw [failed] at final
      exact ih final
    · rw [sent] at final
      have first : (inv.reply a.code).1 = some a.code := rfl
      by_cases last : 200 ≤ a.code
      · have both : inv.reply a.code = (some code, inv') := by
          rw [← final]
          unfold Inv.reply
          exact (if_pos last).symm
        have own : a.code = code := by
          rw [both] at first
          exact (Option.some.inj first).symm
        rw [replyRefused (own ▸ refused)] at both
        exact (congrArg Prod.snd both).symm
      · rw [replyRefused (show a.code / 100 ≠ 2 by omega)] at final
        exact ih ((if_neg last).symm.trans final)

theorem lateRefused (refused : code / 100 ≠ 2) {answered : Bool}
    (final : (if answered then inv.reply 200 else (some 500, inv)) = (some code, inv')) : inv' = inv := by
  split at final
  · have success : 200 = code := Option.some.inj (congrArg Prod.fst final)
    exact absurd rfl (success ▸ refused)
  · exact (congrArg Prod.snd final).symm

theorem repliedRefused {own : Nat} (refused : code / 100 ≠ 2) (final : inv.reply own = (some code, inv')) :
    inv' = inv := by
  have same : own = code := Option.some.inj (congrArg Prod.fst final)
  rw [replyRefused (same ▸ refused)] at final
  exact (congrArg Prod.snd final).symm

/- The refresh is refused before the headers of the timer are taken. -/
def Refresh.Early (refresh : Refresh) (t : Timer) (req : Request) : Prop :=
  t.tooSmall req = true ∨
    match refresh with
    | .reinvite r => r.otherInvite ≠ none ∨ r.secure = false
    | .update u => u.secure = false

theorem onReinviteRefused {r : Reinvite} (refused : code / 100 ≠ 2)
    (final : inv.onReinvite req r = (some code, inv')) : ((r.otherInvite ≠ none ∨ r.secure = false) ∧ inv' = inv) ∨
      ((r.otherInvite = none ∧ r.secure = true) ∧ ∃ good, inv.processReq req = (good, inv')) := by
  unfold Inv.onReinvite at final
  split at final
  · rename_i role other
    exact .inl ⟨.inl (by rw [other]; exact nofun),(congrArg Prod.snd final).symm⟩
  · rename_i alone
    split at final
    · rename_i insecure
      exact .inl ⟨.inr (Bool.eq_false_iff.mpr insecure),(congrArg Prod.snd final).symm⟩
    · rename_i secure
      refine .inr ⟨⟨alone,not_not.mp secure⟩,?_⟩
      split at final
      · rename_i inv1 small
        exact ⟨false,repliedRefused refused final ▸ small⟩
      · rename_i inv1 taken
        refine ⟨true,?_⟩
        suffices same : inv' = inv1 by rw [same,taken]
        split at final
        · exact repliedRefused refused final
        · split at final
          · exact answersRefused (processReqAgain taken) refused _ final
          · split at final
            · exact (congrArg Prod.snd final).symm
            · split at final
              · exact (congrArg Prod.snd final).symm
              · exact lateRefused refused final
            · exact lateRefused refused final

theorem respondUpdateRefused {u : Update} (refused : code / 100 ≠ 2)
    (final : inv.respondUpdate req u = (some code, inv')) :
    (u.secure = false ∧ inv' = inv) ∨ (u.secure = true ∧ ∃ good, inv.processReq req = (good, inv')) := by
  unfold Inv.respondUpdate at final
  split at final
  · rename_i insecure
    exact .inl ⟨Bool.eq_false_iff.mpr insecure,(congrArg Prod.snd final).symm⟩
  · rename_i secure
    refine .inr ⟨not_not.mp secure,?_⟩
    split at final
    · rename_i inv1 small
      exact ⟨false,repliedRefused refused final ▸ small⟩
    · rename_i inv1 taken
      exact ⟨true,repliedRefused refused final ▸ taken⟩

end Refused

/- The agreed interval, who refreshes, the active flag and the two timers. -/
structure Timer.Same (t u : Timer) : Prop where
  sessExpires : u.setting.sessExpires = t.setting.sessExpires
  asRefresher : u.asRefresher = t.asRefresher
  active : u.active = t.active
  timer : u.timer = t.timer
  expireTimer : u.expireTimer = t.expireTimer

/- The headers of the request ask for what is agreed already. -/
def Timer.Asks (t : Timer) (options : Options) (req : Request) : Prop :=
  match req.sessExpires with
  | none => (options.requireTimer = true ∨ options.alwaysUseTimer = true) ∧ t.minSeFor req ≤ t.setting.sessExpires
  | some se => se.sessExpires = t.setting.sessExpires ∧ ∀ r, se.refresher = some r → (r = .uas ↔ t.asRefresher = true)

section Same

variable {t : Timer}

theorem takenTimers (t : Timer) (req : Request) :
    (t.taken req).timer = t.timer ∧ (t.taken req).expireTimer = t.expireTimer := by
  unfold Timer.taken Timer.take
  split
  · exact ⟨rfl,rfl⟩
  · split
    · exact ⟨rfl,rfl⟩
    · exact ⟨rfl,rfl⟩

theorem takenRefresher (known : t.refresher ≠ none) (req : Request) : (t.taken req).asRefresher = t.asRefresher ↔
      ∀ r, req.sessExpires.bind SessExpires.refresher = some r → (r = .uas ↔ t.asRefresher = true) := by
  have parts : (t.take req).refresher = t.refresher ∧ (t.take req).asRefresher = t.asRefresher := by
    unfold Timer.take
    split
    · exact ⟨rfl,rfl⟩
    · split
      · exact ⟨rfl,rfl⟩
      · exact ⟨rfl,rfl⟩
  have ours : (t.taken req).asRefresher = decide ((t.take req).refresherFor req = .uas) := by
    rw [asRefresherUas (t := t.taken req) rfl rfl]
    cases (t.take req).refresherFor req with
    | uac => rfl
    | uas => rfl
  rw [ours]
  unfold Timer.refresherFor
  cases named : req.sessExpires.bind SessExpires.refresher with
  | none =>
    obtain ⟨r,some⟩ := Option.ne_none_iff_exists'.mp known
    rw [parts.1,parts.2,some]
    dsimp only
    refine ⟨fun _ _ => nofun,fun _ => ?_⟩
    cases t.asRefresher with
    | true => rfl
    | false => rfl
  | some r =>
    dsimp only
    constructor
    · intro same s here
      cases here
      rw [← same]
      exact decide_eq_true_iff.symm
    · intro agree
      have agree := agree r rfl
      cases own : t.asRefresher with
      | true => exact decide_eq_true (agree.mpr own)
      | false => exact decide_eq_false (fun uas => absurd (own.symm.trans (agree.mp uas)) Bool.false_ne_true)

theorem takenInterval (t : Timer) (req : Request) :
    (t.taken req).setting.sessExpires = t.setting.sessExpires ↔
      match req.sessExpires with
      | none => t.minSeFor req ≤ t.setting.sessExpires
      | some se => se.sessExpires = t.setting.sessExpires := by
  have interval : (t.taken req).setting.sessExpires = (t.take req).setting.sessExpires := rfl
  rw [interval]
  unfold Timer.take
  cases here : req.sessExpires with
  | some => exact Iff.rfl
  | none =>
    dsimp only
    split
    · rename_i raised
      constructor
      · intro same
        have same : t.minSeFor req = t.setting.sessExpires := same
        exact absurd (same ▸ raised) (UInt32.lt_irrefl _)
      · intro enough
        exact absurd enough (UInt32.not_le.mpr raised)
    · rename_i enough
      exact ⟨fun _ => UInt32.not_lt.mp enough,fun _ => rfl⟩

theorem processReqSame {inv inv' : Inv} (here : inv.timer = some t) (active : t.active = true)
    (agreeable : t.Agreeable inv.options) {req : Request} (small : t.tooSmall req = false) {good : Bool}
    (processed : inv.processReq req = (good, inv')) :
    (∃ u, inv'.timer = some u ∧ t.Same u) ↔ t.Asks inv.options req := by
  have own : inv.timerOf = t := by
    unfold Inv.timerOf
    rw [here,Option.getD_some]
  rcases processReqOutcome inv req with ⟨off,_⟩ | ⟨_,low,_⟩ | ⟨_,_,unwanted,same⟩ | ⟨_,_,wants,same⟩
  · exact absurd (off.symm.trans (agreeable.support active)) Bool.false_ne_true
  · exact absurd (small.symm.trans (own ▸ low)) Bool.false_ne_true
  · cases same.symm.trans processed
    obtain ⟨absent,forced⟩ := not_or.mp unwanted
    constructor
    · rintro ⟨u,changed,same⟩
      cases changed
      exact absurd (same.active.trans active) Bool.false_ne_true
    · intro asks
      unfold Timer.Asks at asks
      rw [not_not.mp absent] at asks
      exact absurd asks.1 forced
  · cases same.symm.trans processed
    rw [own]
    have timers := takenTimers t req
    have interval := takenInterval t req
    have refresher := takenRefresher (agreeable.known active) req
    unfold Timer.Asks
    constructor
    · rintro ⟨u,changed,same⟩
      cases changed
      have length := interval.mp same.sessExpires
      have who := refresher.mp same.asRefresher
      cases given : req.sessExpires with
      | none =>
        rw [given] at length
        rcases wants with present | forced
        · exact absurd given present
        · exact ⟨forced,length⟩
      | some =>
        rw [given] at length who
        exact ⟨length,who⟩
    · intro asks
      refine ⟨_,rfl,interval.mpr ?_,refresher.mpr ?_,active.symm,timers.1,timers.2⟩
      · cases given : req.sessExpires with
        | none =>
          rw [given] at asks
          exact asks.2
        | some =>
          rw [given] at asks
          exact asks.1
      · cases given : req.sessExpires with
        | none => exact fun _ => nofun
        | some =>
          rw [given] at asks
          exact asks.2

theorem refreshSame {inv : Inv} (reached : inv.Reached) (here : inv.timer = some t) (active : t.active = true)
    {req : Request} {refresh : Refresh} {code : Nat} {inv' : Inv}
    (final : inv.refresh req refresh = (some code, inv')) (refused : code / 100 ≠ 2) :
    (∃ u, inv'.timer = some u ∧ t.Same u) ↔ refresh.Early t req ∨ t.Asks inv.options req := by
  have agreeable := reached.good t here
  have own : inv.timerOf = t := by
    unfold Inv.timerOf
    rw [here,Option.getD_some]
  have early : inv' = inv → refresh.Early t req →
      ((∃ u, inv'.timer = some u ∧ t.Same u) ↔ refresh.Early t req ∨ t.Asks inv.options req) := by
    intro same early
    rw [same]
    exact ⟨fun _ => .inl early,fun _ => ⟨t,here,rfl,rfl,rfl,rfl,rfl⟩⟩
  have late : (∃ good, inv.processReq req = (good, inv')) → (refresh.Early t req → t.tooSmall req = true) →
      ((∃ u, inv'.timer = some u ∧ t.Same u) ↔ refresh.Early t req ∨ t.Asks inv.options req) := by
    rintro ⟨good,processed⟩ only
    cases small : t.tooSmall req with
    | true =>
      rcases processReqOutcome inv req with ⟨off,_⟩ | ⟨_,_,same⟩ | ⟨_,enough,_⟩ | ⟨_,enough,_⟩
      · exact absurd (off.symm.trans (agreeable.support active)) Bool.false_ne_true
      · refine early ?_ (.inl small)
        cases same.symm.trans processed
        rw [own,← here]
      · exact absurd ((own ▸ enough).symm.trans small) Bool.false_ne_true
      · exact absurd ((own ▸ enough).symm.trans small) Bool.false_ne_true
    | false =>
      rw [processReqSame here active agreeable small processed]
      refine ⟨.inr,fun either => either.resolve_left (fun first => ?_)⟩
      exact absurd (small.symm.trans (only first)) Bool.false_ne_true
  cases refresh with
  | reinvite =>
    rcases onReinviteRefused refused final with ⟨why,same⟩ | ⟨⟨alone,secure⟩,processed⟩
    · exact early same (.inr why)
    · refine late processed (fun first => first.resolve_right ?_)
      rintro (other | insecure)
      · exact other alone
      · exact absurd (insecure.symm.trans secure) Bool.false_ne_true
  | update =>
    rcases respondUpdateRefused refused final with ⟨why,same⟩ | ⟨secure,processed⟩
    · exact early same (.inr why)
    · refine late processed (fun first => first.resolve_right ?_)
      exact fun insecure => absurd (insecure.symm.trans secure) Bool.false_ne_true

theorem Timer.Same.settled {u peer : Timer} (same : t.Same u) (known : u.refresher ≠ none) (settled : Settled t peer) :
    Settled u peer := by
  refine ⟨known,settled.knows',same.sessExpires.trans settled.interval,?_,?_,settled.started'⟩
  · rw [same.asRefresher]
    exact settled.refresher
  · unfold Timer.Started Timer.nextDelay Timer.refreshDelay Timer.giveUpDelay
    rw [same.timer,same.asRefresher,same.sessExpires]
    exact settled.started

/- A refused refresh keeps the session timer when it was refused early, or asked for nothing new. -/
theorem refusedRefreshKeeps {inv : Inv} (reached : inv.Reached) (here : inv.timer = some t) (active : t.active = true)
    {req : Request} {refresh : Refresh} {code : Nat} {inv' : Inv}
    (final : inv.refresh req refresh = (some code, inv')) (refused : code / 100 ≠ 2) :
    (∃ u, inv'.timer = some u ∧ t.Same u ∧ ∀ peer, Settled t peer → Settled u peer) ↔
      refresh.Early t req ∨ t.Asks inv.options req := by
  rw [← refreshSame reached here active final refused]
  constructor
  · rintro ⟨u,changed,same,_⟩
    exact ⟨u,changed,same⟩
  · rintro ⟨u,changed,same⟩
    have next : inv'.Good := by
      have after : (inv.refresh req refresh).2.Good := (reached.act (.refresh req refresh)).good
      rw [final] at after
      exact after
    have known := (next u changed).known (same.active.trans active)
    exact ⟨u,changed,same,fun peer => same.settled known⟩

end Same

/- The callee of an INVITE with an interval of half an hour, which the caller is to refresh. -/
def halfHour : Action :=
  .incoming { cseq := 1, supported := true, sessExpires := some ⟨1800,some .uac⟩ } [⟨true,180,true⟩,⟨false,200,true⟩]

def refreshedCall : Inv := (({ options := ⟨true,false,false⟩ } : Inv).act halfHour).act .confirmed

theorem refreshedCallReached : refreshedCall.Reached := by
  have fresh : ({ options := ⟨true,false,false⟩ } : Inv).Reached := .init (fun _ none => nomatch none)
  exact (fresh.act halfHour).act .confirmed

def refreshedTimer : Timer :=
  { setting := ⟨90,1800⟩, active := true, refresher := some .uac, role := .uas, timer := some 1768 }

/- An UPDATE with an offer meets one of the session, and asks for the interval that there is. -/
theorem crossingUpdateKept :
    ∃ u, (refreshedCall.refresh { cseq := 2, supported := true, sessExpires := some ⟨1800,none⟩ }
      (.update { neg := .localOffer })).2.timer = some u ∧ refreshedTimer.Same u ∧
        ∀ peer, Settled refreshedTimer peer → Settled u peer := by
  have running : refreshedCall.timer = some refreshedTimer := by decide +kernel
  have final : refreshedCall.refresh { cseq := 2, supported := true, sessExpires := some ⟨1800,none⟩ }
      (.update { neg := .localOffer }) = (some 491, _) := rfl
  exact (refusedRefreshKeeps refreshedCallReached running rfl final (by decide)).mpr (.inr ⟨rfl,nofun⟩)

/- The same UPDATE without Session-Expires, which is answered with 491 as well, ends the timer. -/
def crossingUpdate : Option Nat × Inv :=
  refreshedCall.refresh { cseq := 2, supported := true } (.update { neg := .localOffer })

theorem crossingUpdateEndsTimer :
    refreshedCall.Reached ∧ refreshedCall.confirmed = true ∧ refreshedCall.timer = some refreshedTimer ∧
      crossingUpdate.1 = some 491 ∧ ¬ ∃ u, crossingUpdate.2.timer = some u ∧ refreshedTimer.Same u := by
  refine ⟨refreshedCallReached,rfl,by decide +kernel,rfl,?_⟩
  rintro ⟨u,changed,same⟩
  cases changed
  exact absurd same.active (by decide)

end Pjproject.SessTimer
