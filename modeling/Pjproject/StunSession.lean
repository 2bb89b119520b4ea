import Pjproject.StunTsx

/-! STUN sessions of stun_session.c: the requests that wait for a response, the cached responses and the handling of
authentication challenges. What the pools, the encoder and the transport make of a message is an input; the last
release of a destroyed session and calls from inside a callback are left out. -/
namespace Pjproject.Stun
open Lib.Bytes

inductive Auth where
  | none
  | shortTerm (cred : AuthCred)
  | longTerm (cred : AuthCred)

/- The code outside: digests, and the get_cred callback of dynamic credentials, which gives realm, user name, nonce
and password. -/
structure Library where
  env : Env
  md5 : List UInt8 → List UInt8
  getCred : DynCred → Msg → Option (ReqCredInfo × PasswdType)

/- pj_stun_tx_data. The request the application sent first is kept for the retried ones. -/
structure TxData where
  id : Nat
  origin : Nat
  token : Nat := 0
  msg : Msg
  msgMagic : UInt32
  msgKey : Fin 12 → UInt8
  authInfo : ReqCredInfo
  retransmit : Bool := false

/- A request with its client transaction. -/
structure Pending extends TxData where
  tsx : ClientTsx

/- The session; then the requests that pj_stun_session_send_msg accepted, those cancelled without notification, the
calls of on_request_complete, the requests given to on_rx_request and the responses sent from the cache. -/
structure Session where
  isDestroying : Bool := false
  rtoMsec : Nat := 100
  auth : Auth := .none
  authRetry : Nat := 0
  nextNonce : List UInt8 := []
  serverRealm : List UInt8 := []
  onRxRequest : Bool := true
  pending : List Pending := []
  cached : List TxData := []
  created : Nat := 0
  accepted : List Nat := []
  silenced : List Nat := []
  completed : List Nat := []
  rxRequests : List Msg := []
  resent : List Msg := []

/- What a new message meets: its random transaction id, whether it could be created and encoded, and its sending. -/
structure Attempt where
  tsxId : Fin 12 → UInt8
  created : Bool := true
  encoded : Bool := true
  transport : Transport := {}

def noCred : ReqCredInfo := ⟨[],[],[],[]⟩

/- get_auth. -/
def Session.getAuth (lib : Library) (sess : Session) (msg : Msg) : AuthCred → Option ReqCredInfo
  | .static cred => some
    { realm := sess.serverRealm
      username := cred.username
      nonce := cred.nonce
      authKey := createKey lib.md5 sess.serverRealm cred.username cred.dataType cred.data }
  | .dynamic cred => (lib.getCred cred msg).map (fun (info, dataType) =>
    { info with authKey := createKey lib.md5 info.realm info.username dataType info.authKey })

def Session.authInfo (lib : Library) (sess : Session) (msg : Msg) : Option ReqCredInfo :=
  match sess.auth with
  | .none => some noCred
  | .shortTerm cred => sess.getAuth lib msg cred
  | .longTerm cred =>
    if sess.nextNonce = [] then some noCred
    else (sess.getAuth lib msg cred).map (fun info => { info with nonce := sess.nextNonce, realm := sess.serverRealm })

/- pj_stun_session_create_req. -/
def Session.createReq (lib : Library) (sess : Session) (type : UInt16) (magic : UInt32) (attempt : Attempt) :
    Option TxData :=
  if sess.isDestroying ∨ ¬ attempt.created then none
  else
    let msg : Msg := ⟨⟨type,0,magic,attempt.tsxId⟩,[],Nat.zero_le _⟩
    (sess.authInfo lib msg).map (fun info =>
      { id := sess.created, origin := sess.created, msg := msg, msgMagic := magic, msgKey := attempt.tsxId
        authInfo := info })

def responseType (type : UInt16) (errCode : Nat) : UInt16 := if errCode = 0 then type ||| 0x0100 else type ||| 0x0110

/- pj_stun_session_create_res. -/
def Session.createRes (sess : Session) (req : Msg) (errCode : Nat) (reason : List UInt8) (info : ReqCredInfo)
    (attempt : Attempt) : Option TxData :=
  if sess.isDestroying ∨ ¬ attempt.created ∨ ¬ isRequest req.hdr.type then none
  else
    let attrs := if errCode = 0 then [] else [errcodeAttrCreate errCode reason]
    if bounded : attrs.length ≤ stunMaxAttr then
      some
        { id := sess.created, origin := sess.created
          msg := ⟨⟨responseType req.hdr.type errCode,0,req.hdr.magic,req.hdr.tsxId⟩,attrs,bounded⟩
          msgMagic := req.hdr.magic, msgKey := req.hdr.tsxId, authInfo := info }
    else none

/- pj_stun_session_send_msg. A message that is not sent is destroyed, before or after it went into the cache. -/
def Session.sendMsg (sess : Session) (token : Nat) (cacheRes retransmit : Bool) (attempt : Attempt) (tdata : TxData) :
    Bool × Session :=
  if sess.isDestroying ∨ ¬ attempt.encoded then (false, sess)
  else
    let tdata := { tdata with token := token, retransmit := retransmit }
    let sess := { sess with created := sess.created + 1 }
    if isRequest tdata.msg.hdr.type then
      let (status, tsx) := (ClientTsx.create sess.rtoMsec).sendMsg retransmit attempt.transport
      if status ≠ .success then (false, sess)
      else (true, { sess with pending := { tdata with tsx := tsx } :: sess.pending })
    else
      let caches := cacheRes && (isSuccessResponse tdata.msg.hdr.type || isErrorResponse tdata.msg.hdr.type)
      if caches ∧ ¬ attempt.transport.scheduled then (false, sess)
      else if attempt.transport.sending ≠ .sent then (false, sess)
      else (true, if caches then { sess with cached := sess.cached ++ [tdata] } else sess)

def Session.replace (sess : Session) (p : Pending) : Session :=
  { sess with pending := sess.pending.map (fun q => if q.id = p.id then p else q) }

def Session.erase (sess : Session) (id : Nat) : Session :=
  { sess with pending := sess.pending.filter (fun q => q.id ≠ id) }

/- destroy_tdata for a request that is pending. -/
def Session.destroyTdata (sess : Session) (p : Pending) (force : Bool) : Session :=
  if force then sess.erase p.id else sess.replace { p with tsx := p.tsx.scheduleDestroy }

/- The realm goes without trailing NULs. -/
def trimNul (realm : List UInt8) : List UInt8 := (realm.reverse.dropWhile (· == 0)).reverse

/- The attributes of a request that is tried again: those of authentication are filled in later. -/
def retried (request : Msg) (msg : Msg) : Msg :=
  ⟨msg.hdr,request.attrs.filter (fun a => a.type ≠ attrUsername ∧ a.type ≠ attrRealm ∧ a.type ≠ attrMessageIntegrity ∧
    a.type ≠ attrNonce),Nat.le_trans (List.length_filter_le _ _) request.bounded⟩

/- The part of handle_auth_challenge behind the checks: the request is tried again with the new nonce. -/
def Session.retry (lib : Library) (sess : Session) (request : TxData) (nonce : List UInt8) (realm : Option (List UInt8))
    (attempt : Attempt) : Bool × Session :=
  let sess := { sess with nextNonce := nonce, serverRealm := (realm.map trimNul).getD sess.serverRealm }
  match sess.createReq lib request.msg.hdr.type request.msg.hdr.magic attempt with
  | none => (true, sess)
  | some tdata =>
    let tdata := { tdata with msg := retried request.msg tdata.msg, origin := request.origin }
    (false, (sess.sendMsg request.token true request.retransmit attempt tdata).2)

/- handle_auth_challenge; the result says whether the user is notified. -/
def Session.handleAuthChallenge (lib : Library) (sess : Session) (request : TxData) (response : Option Msg)
    (attempt : Attempt) : Bool × Session :=
  match response, sess.auth with
  | some response, .longTerm _ =>
    if ¬ isErrorResponse response.hdr.type then (true, { sess with authRetry := 0 })
    else
      match findAttr response attrErrorCode with
      | none => (false, sess)
      | some ea =>
        if ea.errCode = 401 ∨ ea.errCode = 438 then
          match findAttr response attrNonce with
          | none => (false, sess)
          | some anonce =>
            if anonce.stringValue = sess.nextNonce then (true, sess)
            else
              let sess := { sess with authRetry := sess.authRetry + 1 }
              if 3 < sess.authRetry then (true, sess)
              else sess.retry lib request anonce.stringValue ((findAttr response attrRealm).map Attr.stringValue) attempt
        else (true, { sess with authRetry := 0 })
  | _, _ => (true, sess)

/- stun_tsx_on_complete. -/
def Session.tsxOnComplete (lib : Library) (sess : Session) (p : Pending) (status : TsxStatus) (response : Option Msg)
    (attempt : Attempt) : Session :=
  if sess.isDestroying then sess.destroyTdata p false
  else
    let (notifyUser, sess) := sess.handleAuthChallenge lib p.toTxData response attempt
    let sess := if notifyUser then { sess with completed := sess.completed ++ [p.origin] } else sess
    sess.destroyTdata p (status = .timedOut)

/- What a transaction did is stored, and its completion handed on. -/
def Session.deliver (lib : Library) (sess : Session) (p : Pending) (called : Option TsxStatus) (tsx : ClientTsx)
    (response : Option Msg) (attempt : Attempt) : Session :=
  let p := { p with tsx := tsx }
  let sess := sess.replace p
  match called with
  | none => sess
  | some status => sess.tsxOnComplete lib p status response attempt

/- A packet with the options it is received with. -/
structure RxPkt where
  bytes : Memory
  size : Nat
  options : DecodeOptions
  noAuthenticate : Bool := false

/- pj_stun_auth_valid_for_msg. -/
def authValidForMsg (msg : Msg) : Bool :=
  if ¬ isErrorResponse msg.hdr.type ∧ ¬ isIndication msg.hdr.type then true
  else if isIndication msg.hdr.type then false
  else match findAttr msg attrErrorCode with
    | none => true
    | some ea => !(ea.errCode = 400 || ea.errCode = 401 || ea.errCode = 438 || ea.errCode = 420)

/- tsx_lookup. -/
def Session.tsxLookup (sess : Session) (msg : Msg) : Option Pending :=
  sess.pending.find? (fun p => p.msgMagic = msg.hdr.magic ∧ p.msgKey = msg.hdr.tsxId)

def Session.responseAccepted (lib : Library) (sess : Session) (pkt : RxPkt) (msg : Msg) (p : Pending) : Bool :=
  match sess.auth with
  | .none => true
  | _ =>
    pkt.noAuthenticate || p.authInfo.authKey = [] || !authValidForMsg msg ||
      authenticateResponse lib.env pkt.bytes pkt.size msg p.authInfo.authKey = .success

/- on_incoming_response. -/
def Session.onIncomingResponse (lib : Library) (sess : Session) (pkt : RxPkt) (msg : Msg) (attempt : Attempt) : Session :=
  match sess.tsxLookup msg with
  | none => sess
  | some p =>
    if sess.responseAccepted lib pkt msg p then
      let (_, called, tsx) := p.tsx.onRxMsg msg
      sess.deliver lib p called tsx (some msg) attempt
    else sess

/- check_cached_response: the response that a message is answered with again. -/
def Session.cachedResponse (sess : Session) (msg : Msg) : Option TxData :=
  sess.cached.find? (fun t => t.msgMagic = msg.hdr.magic ∧ t.msg.hdr.type = msg.hdr.type ∧ t.msgKey = msg.hdr.tsxId)

def Session.requestAccepted (lib : Library) (sess : Session) (pkt : RxPkt) (msg : Msg) : Bool :=
  match sess.auth with
  | .none => true
  | .shortTerm cred => pkt.noAuthenticate ||
    (authenticateRequest lib.md5 lib.env pkt.bytes pkt.size msg cred).status = .success
  | .longTerm cred => pkt.noAuthenticate ||
    (authenticateRequest lib.md5 lib.env pkt.bytes pkt.size msg cred).status = .success

/- on_incoming_request. Without the callback the request is answered with 400. -/
def Session.onIncomingRequest (lib : Library) (sess : Session) (pkt : RxPkt) (msg : Msg) : Session :=
  if sess.requestAccepted lib pkt msg ∧ sess.onRxRequest then { sess with rxRequests := sess.rxRequests ++ [msg] }
  else sess

def RxPkt.msg (lib : Library) (pkt : RxPkt) : Option Msg :=
  match (stunMsgDecode lib.env pkt.bytes pkt.size pkt.options).result with
  | .ok (msg, _) => some msg
  | .error _ => none

/- pj_stun_session_on_rx_pkt; indications do not change the session. -/
def Session.onRxPkt (lib : Library) (sess : Session) (pkt : RxPkt) (attempt : Attempt) : Session :=
  if sess.isDestroying then sess
  else match pkt.msg lib with
    | none => sess
    | some msg =>
      match sess.cachedResponse msg with
      | some t => { sess with resent := sess.resent ++ [t.msg] }
      | none =>
        if isSuccessResponse msg.hdr.type ∨ isErrorResponse msg.hdr.type then sess.onIncomingResponse lib pkt msg attempt
        else if isRequest msg.hdr.type then sess.onIncomingRequest lib pkt msg
        else sess

/- pj_stun_session_cancel_req. -/
def Session.cancelReq (sess : Session) (p : Pending) (notify : Bool) : Session :=
  if sess.isDestroying then sess
  else
    let sess := if notify then { sess with completed := sess.completed ++ [p.origin] }
      else { sess with silenced := p.origin :: sess.silenced }
    sess.destroyTdata p false

/- pj_stun_session_destroy. -/
def Session.destroy (sess : Session) : Session :=
  if sess.isDestroying then sess
  else
    { sess with
      isDestroying := true
      pending := sess.pending.map (fun p => { p with tsx := p.tsx.stop })
      cached := [] }

/- What can happen to a session. A request is named by its transmit data, which is there while it is pending. -/
inductive Input where
  | sendRequest (type : UInt16) (magic : UInt32) (attrs : List Attr) (token : Nat) (retransmit : Bool) (attempt : Attempt)
  | respond (req : Msg) (errCode : Nat) (reason : List UInt8) (info : ReqCredInfo) (token : Nat) (cache : Bool)
      (attempt : Attempt)
  | cancel (id : Nat) (notify : Bool)
  | retransmit (id : Nat) (modCount : Bool) (transport : Transport)
  | packet (pkt : RxPkt) (attempt : Attempt)
  | timer (id : Nat) (transport : Transport)
  | destroyTimer (id : Nat)
  | cacheTimer (id : Nat)
  | setCredential (auth : Auth)
  | destroy

def Session.find (sess : Session) (id : Nat) : Option Pending := sess.pending.find? (fun p => p.id = id)

/- pj_stun_session_create_req with the attributes the application adds, then pj_stun_session_send_msg. -/
def Session.sendRequest (lib : Library) (sess : Session) (type : UInt16) (magic : UInt32) (attrs : List Attr)
    (token : Nat) (retransmit : Bool) (attempt : Attempt) : Session :=
  match sess.createReq lib type magic attempt with
  | none => sess
  | some tdata =>
    if bounded : attrs.length ≤ stunMaxAttr then
      let (sent, sess) := sess.sendMsg token false retransmit attempt { tdata with msg := ⟨tdata.msg.hdr,attrs,bounded⟩ }
      if sent ∧ isRequest type then { sess with accepted := tdata.id :: sess.accepted } else sess
    else sess

def Session.step (lib : Library) (sess : Session) : Input → Session
  | .sendRequest type magic attrs token retransmit attempt =>
    sess.sendRequest lib type magic attrs token retransmit attempt
  | .respond req errCode reason info token cache attempt =>
    match sess.createRes req errCode reason info attempt with
    | none => sess
    | some tdata => (sess.sendMsg token cache false attempt tdata).2
  | .cancel id notify =>
    match sess.find id with
    | none => sess
    | some p => sess.cancelReq p notify
  | .retransmit id modCount transport =>
    if sess.isDestroying then sess
    else match sess.find id with
      | none => sess
      | some p => sess.replace { p with tsx := (p.tsx.retransmit modCount transport).2 }
  | .packet pkt attempt => sess.onRxPkt lib pkt attempt
  | .timer id transport =>
    match sess.find id with
    | none => sess
    | some p =>
      if p.tsx.timer then
        let (called, tsx) := p.tsx.retransmitTimerCallback transport
        sess.deliver lib p called tsx none ⟨p.msgKey,true,true,transport⟩
      else sess
  | .destroyTimer id =>
    match sess.find id with
    | none => sess
    | some p => if p.tsx.destroyTimer then sess.erase id else sess
  | .cacheTimer id =>
    if sess.isDestroying then sess else { sess with cached := sess.cached.filter (fun t => t.id ≠ id) }
  | .setCredential auth => { sess with auth := auth }
  | .destroy => sess.destroy

def Session.run (lib : Library) (sess : Session) (inputs : List Input) : Session := inputs.foldl (Session.step lib) sess

/- A session as pj_stun_session_create leaves it. -/
structure Session.Fresh (sess : Session) : Prop where
  isDestroying : sess.isDestroying = false
  pending : sess.pending = []
  cached : sess.cached = []
  created : sess.created = 0
  accepted : sess.accepted = []
  silenced : sess.silenced = []
  completed : sess.completed = []

/- The cache holds responses: what is added to it is one. -/
def TxData.isResponse (t : TxData) : Bool := isSuccessResponse t.msg.hdr.type || isErrorResponse t.msg.hdr.type

def CacheKept (sess out : Session) : Prop := ∀ t ∈ out.cached, t ∈ sess.cached ∨ t.isResponse = true

theorem cacheSame {sess out : Session} (same : out.cached = sess.cached) : CacheKept sess out := by
  intro t member
  rw [same] at member
  exact Or.inl member

theorem CacheKept.trans {a b c : Session} (first : CacheKept a b) (next : CacheKept b c) : CacheKept a c := by
  intro t member
  rcases next t member with old | response
  · exact first t old
  · exact Or.inr response

theorem sendMsgCache (sess : Session) (token : Nat) (cacheRes retransmit : Bool) (attempt : Attempt) (tdata : TxData) :
    CacheKept sess (sess.sendMsg token cacheRes retransmit attempt tdata).2 := by
  unfold Session.sendMsg
  split
  · exact cacheSame rfl
  dsimp only
  split
  · split
    · exact cacheSame rfl
    · exact cacheSame rfl
  · split
    · exact cacheSame rfl
    · split
      · exact cacheSame rfl
      · split
        · rename_i caches
          have response := (Bool.and_eq_true_iff.mp caches).2
          intro t member
          rcases List.mem_append.mp member with old | new
          · exact Or.inl old
          · rw [List.mem_singleton.mp new]
            exact Or.inr response
        · exact cacheSame rfl

theorem destroyTdataCache (sess : Session) (p : Pending) (force : Bool) : (sess.destroyTdata p force).cached = sess.cached := by
  unfold Session.destroyTdata
  split <;> rfl

variable (lib : Library)

theorem handleAuthChallengeCache (sess : Session) (request : TxData) (response : Option Msg)
    (attempt : Attempt) : CacheKept sess (sess.handleAuthChallenge lib request response attempt).2 := by
  have again : ∀ (start : Session) (nonce : List UInt8) (realm : Option (List UInt8)), start.cached = sess.cached →
      CacheKept sess (start.retry lib request nonce realm attempt).2 := by
    intro start nonce realm same
    unfold Session.retry
    dsimp only
    split
    · exact cacheSame same
    · exact (cacheSame same).trans (sendMsgCache { start with
        nextNonce := nonce
        serverRealm := (realm.map trimNul).getD start.serverRealm } _ _ _ _ _)
  unfold Session.handleAuthChallenge
  split
  · split
    · exact cacheSame rfl
    · split
      · exact cacheSame rfl
      · split
        · split
          · exact cacheSame rfl
          · split
            · exact cacheSame rfl
            · dsimp only
              split
              · exact cacheSame rfl
              · exact again _ _ _ rfl
        · exact cacheSame rfl
  · exact cacheSame rfl

theorem deliverCache (sess : Session) (p : Pending) (called : Option TsxStatus) (tsx : ClientTsx)
    (response : Option Msg) (attempt : Attempt) : CacheKept sess (sess.deliver lib p called tsx response attempt) := by
  unfold Session.deliver
  dsimp only
  split
  · exact cacheSame rfl
  · unfold Session.tsxOnComplete
    split
    · exact cacheSame (destroyTdataCache _ _ _)
    · have challenged := handleAuthChallengeCache lib (sess.replace { p with tsx := tsx })
        ({ p with tsx := tsx } : Pending).toTxData response attempt
      generalize (sess.replace { p with tsx := tsx }).handleAuthChallenge lib
        ({ p with tsx := tsx } : Pending).toTxData response attempt = result at challenged ⊢
      obtain ⟨notifyUser,out⟩ := result
      refine (CacheKept.trans (b := sess.replace { p with tsx := tsx }) (cacheSame rfl) challenged).trans ?_
      refine cacheSame ((destroyTdataCache _ _ _).trans ?_)
      dsimp only
      split <;> rfl

theorem onRxPktCache (sess : Session) (pkt : RxPkt) (attempt : Attempt) :
    CacheKept sess (sess.onRxPkt lib pkt attempt) := by
  unfold Session.onRxPkt
  split
  · exact cacheSame rfl
  · split
    · exact cacheSame rfl
    · split
      · exact cacheSame rfl
      · split
        · unfold Session.onIncomingResponse
          split
          · exact cacheSame rfl
          · split
            · exact deliverCache lib sess _ _ _ _ attempt
            · exact cacheSame rfl
        · split
          · unfold Session.onIncomingRequest
            split <;> exact cacheSame rfl
          · exact cacheSame rfl

theorem stepCache (sess : Session) (input : Input) : CacheKept sess (sess.step lib input) := by
  cases input with
  | sendRequest type magic attrs token retransmit attempt =>
    rw [Session.step,Session.sendRequest]
    split
    · exact cacheSame rfl
    · split
      · have sent := sendMsgCache sess token false retransmit attempt
        dsimp only
        split
        · exact (sent _).trans (cacheSame rfl)
        · exact sent _
      · exact cacheSame rfl
  | respond req errCode reason info token cache attempt =>
    rw [Session.step]
    split
    · exact cacheSame rfl
    · exact sendMsgCache sess token cache false attempt _
  | cancel =>
    rw [Session.step]
    split
    · exact cacheSame rfl
    · unfold Session.cancelReq
      split
      · exact cacheSame rfl
      · refine cacheSame ((destroyTdataCache _ _ _).trans ?_)
        split <;> rfl
  | retransmit =>
    rw [Session.step]
    split
    · exact cacheSame rfl
    · split <;> exact cacheSame rfl
  | packet pkt attempt => exact onRxPktCache lib sess pkt attempt
  | timer =>
    rw [Session.step]
    split
    · exact cacheSame rfl
    · split
      · exact deliverCache lib sess _ _ _ none _
      · exact cacheSame rfl
  | destroyTimer =>
    rw [Session.step]
    split
    · exact cacheSame rfl
    · split <;> exact cacheSame rfl
  | cacheTimer =>
    rw [Session.step]
    split
    · exact cacheSame rfl
    · exact fun t member => Or.inl (List.mem_of_mem_filter member)
  | setCredential => exact cacheSame rfl
  | destroy =>
    rw [Session.step,Session.destroy]
    split
    · exact cacheSame rfl
    · exact fun t member => absurd member List.not_mem_nil

theorem runCache (inputs : List Input) (sess : Session)
    (responses : ∀ t ∈ sess.cached, t.isResponse = true) : ∀ t ∈ (sess.run lib inputs).cached, t.isResponse = true := by
  induction inputs generalizing sess with
  | nil => exact responses
  | cons input rest ih =>
    refine ih (sess.step lib input) ?_
    intro t member
    rcases stepCache lib sess input t member with old | response
    · exact responses t old
    · exact response

theorem responseNotRequest (t : TxData) (msg : Msg) (response : t.isResponse = true) (request : isRequest msg.hdr.type = true) :
    t.msg.hdr.type ≠ msg.hdr.type := by
  intro same
  have kind : msg.hdr.type &&& 0x0110 = 0x0000 := by simpa [isRequest] using request
  rcases Bool.or_eq_true_iff.mp response with success | error
  · have bits : t.msg.hdr.type &&& 0x0110 = 0x0100 := by simpa [isSuccessResponse] using success
    rw [same,kind] at bits
    exact absurd bits (by decide)
  · have bits : t.msg.hdr.type &&& 0x0110 = 0x0110 := by simpa [isErrorResponse] using error
    rw [same,kind] at bits
    exact absurd bits (by decide)

/- A cached response to a request: same transaction and method. -/
def TxData.answers (t : TxData) (msg : Msg) : Prop :=
  t.msgMagic = msg.hdr.magic ∧ t.msgKey = msg.hdr.tsxId ∧ t.msg.hdr.type &&& 0xFEEF = msg.hdr.type &&& 0xFEEF

/- The same packet is received a number of times. -/
def Session.receives (lib : Library) (sess : Session) (pkt : RxPkt) (attempt : Attempt) (times : Nat) : Session :=
  sess.run lib (List.replicate times (.packet pkt attempt))

theorem requestReceived (sess : Session) (pkt : RxPkt) (attempt : Attempt) (msg : Msg)
    (alive : sess.isDestroying = false) (isMsg : pkt.msg lib = some msg) (request : isRequest msg.hdr.type = true)
    (responses : ∀ t ∈ sess.cached, t.isResponse = true) :
    sess.onRxPkt lib pkt attempt = sess.onIncomingRequest lib pkt msg := by
  have notCached : sess.cachedResponse msg = none := by
    refine List.find?_eq_none.mpr ?_
    intro t member found
    have found : t.msgMagic = msg.hdr.magic ∧ t.msg.hdr.type = msg.hdr.type ∧ t.msgKey = msg.hdr.tsxId := by
      simpa using found
    exact responseNotRequest t msg (responses t member) request found.2.1
  have kind : msg.hdr.type &&& 0x0110 = 0x0000 := by simpa [isRequest] using request
  have other : ¬ (isSuccessResponse msg.hdr.type = true ∨ isErrorResponse msg.hdr.type = true) := by
    simp [isSuccessResponse,isErrorResponse,kind]
  unfold Session.onRxPkt
  rw [if_neg (by rw [alive]; decide),isMsg]
  dsimp only
  rw [notCached]
  dsimp only
  rw [if_neg other,if_pos request]

theorem requestReceivedAgain (pkt : RxPkt) (attempt : Attempt) (msg : Msg)
    (isMsg : pkt.msg lib = some msg) (request : isRequest msg.hdr.type = true) (times : Nat) (sess : Session)
    (alive : sess.isDestroying = false) (responses : ∀ t ∈ sess.cached, t.isResponse = true) :
    sess.receives lib pkt attempt times =
      { sess with rxRequests := sess.rxRequests ++
        if sess.requestAccepted lib pkt msg ∧ sess.onRxRequest then List.replicate times msg else [] } := by
  induction times generalizing sess with
  | zero =>
    have none : (if sess.requestAccepted lib pkt msg = true ∧ sess.onRxRequest = true then List.replicate 0 msg else []) =
        [] := by split <;> rfl
    rw [none,List.append_nil]
    rfl
  | succ times ih =>
    have first := requestReceived lib sess pkt attempt msg alive isMsg request responses
    have unfolded : sess.receives lib pkt attempt (times + 1) =
        (sess.onRxPkt lib pkt attempt).receives lib pkt attempt times := rfl
    rw [unfolded,first]
    unfold Session.onIncomingRequest
    by_cases given : sess.requestAccepted lib pkt msg = true ∧ sess.onRxRequest = true
    · rw [if_pos given,ih { sess with rxRequests := sess.rxRequests ++ [msg] } alive responses]
      have same : (Session.requestAccepted lib { sess with rxRequests := sess.rxRequests ++ [msg] } pkt msg = true ∧
          sess.onRxRequest = true) := given
      rw [if_pos same,if_pos given,List.append_assoc]
      rfl
    · rw [if_neg given,ih sess alive responses,if_neg given,if_neg given]

theorem cachedResponseNotResent (lib : Library) (sess : Session) (fresh : sess.Fresh) (inputs : List Input)
    (t : TxData) (pkt : RxPkt) (attempt : Attempt) (msg : Msg) (times : Nat)
    (alive : (sess.run lib inputs).isDestroying = false) (_cached : t ∈ (sess.run lib inputs).cached)
    (isMsg : pkt.msg lib = some msg) (request : isRequest msg.hdr.type = true) (_answers : t.answers msg) :
    let before := sess.run lib inputs
    let after := before.receives lib pkt attempt times
    after.resent = before.resent ∧
      (before.requestAccepted lib pkt msg = true → before.onRxRequest = true →
        after.rxRequests = before.rxRequests ++ List.replicate times msg) ∧
      (0 < times → ¬ (after.resent = before.resent ++ List.replicate times t.msg ∧
        after.rxRequests = before.rxRequests)) := by
  have responses := runCache lib inputs sess (by
    intro t member
    rw [fresh.cached] at member
    exact absurd member List.not_mem_nil)
  have received := requestReceivedAgain lib pkt attempt msg isMsg request times (sess.run lib inputs) alive responses
  dsimp only
  rw [received]
  refine ⟨rfl,?_,?_⟩
  · intro accepted callback
    dsimp only
    rw [if_pos ⟨accepted,callback⟩]
  · intro some property
    have lengths := congrArg List.length property.1
    rw [List.length_append,List.length_replicate] at lengths
    dsimp only at lengths
    omega

/- A Binding request of 20 bytes, answered with a cached response and received once more. -/
def bindingBytes : List UInt8 := [0,1,0,0,0x21,0x12,0xA4,0x42,0,0,0,0,0,0,0,0,0,0,0,0]

def bindingPkt : RxPkt where
  bytes := fun i => bindingBytes.getD i 0
  size := 20
  options := ⟨true,true,false⟩

def plainLibrary : Library where
  env := ⟨fun _ _ _ => 0,fun _ => 0,0⟩
  md5 := fun _ => []
  getCred := fun _ _ => none

def zeroAttempt : Attempt := ⟨fun _ => 0,true,true,{}⟩

def bindingMsg : Msg := ⟨⟨1,0,stunMagic,fun i => bindingPkt.bytes (8 + i)⟩,[],Nat.zero_le _⟩

def bindingResponse : TxData where
  id := 0
  origin := 0
  msg := ⟨⟨0x0101,0,stunMagic,bindingMsg.hdr.tsxId⟩,[],Nat.zero_le _⟩
  msgMagic := stunMagic
  msgKey := bindingMsg.hdr.tsxId
  authInfo := noCred

def answered : List Input :=
  [.packet bindingPkt zeroAttempt,.respond bindingMsg 0 [] noCred 0 true zeroAttempt]

theorem bindingDecoded : bindingPkt.msg plainLibrary = some bindingMsg := by rfl

theorem answeredCached : (Session.run plainLibrary {} answered).cached = [bindingResponse] := by rfl

theorem emptySessionFresh : Session.Fresh {} := ⟨rfl,rfl,rfl,rfl,rfl,rfl,rfl⟩

theorem answeredAgainByUser :
    ¬ ∀ (lib : Library) (sess : Session), sess.Fresh → ∀ (inputs : List Input) (t : TxData) (pkt : RxPkt)
      (attempt : Attempt) (msg : Msg) (times : Nat), (sess.run lib inputs).isDestroying = false →
      t ∈ (sess.run lib inputs).cached → pkt.msg lib = some msg → isRequest msg.hdr.type = true → t.answers msg →
      let before := sess.run lib inputs
      let after := before.receives lib pkt attempt times
      after.resent = before.resent ++ List.replicate times t.msg ∧ after.rxRequests = before.rxRequests := by
  intro claim
  have cached : bindingResponse ∈ (Session.run plainLibrary {} answered).cached := by
    rw [answeredCached]
    exact List.mem_singleton_self _
  have once := (claim plainLibrary {} emptySessionFresh answered bindingResponse bindingPkt zeroAttempt bindingMsg 1 rfl
    cached bindingDecoded (by decide) ⟨rfl,rfl,by decide⟩).2
  have counts := congrArg List.length once
  exact absurd counts (by decide +kernel)

theorem answeredNotResent :
    ((Session.run plainLibrary {} answered).receives plainLibrary bindingPkt zeroAttempt 3).resent = [] ∧
      ((Session.run plainLibrary {} answered).receives plainLibrary bindingPkt zeroAttempt 3).rxRequests =
        List.replicate 4 bindingMsg := by
  have cached : bindingResponse ∈ (Session.run plainLibrary {} answered).cached := by
    rw [answeredCached]
    exact List.mem_singleton_self _
  have result := cachedResponseNotResent plainLibrary {} emptySessionFresh answered bindingResponse bindingPkt zeroAttempt
    bindingMsg 3 rfl cached bindingDecoded (by decide) ⟨rfl,rfl,by decide⟩
  exact ⟨result.1,result.2.1 rfl rfl⟩

end Pjproject.Stun
