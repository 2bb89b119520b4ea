import Pjproject.TurnSession

/-! The tables of a TURN client session: the server addresses it tries one after the other, and the channels, which are
found by peer address and by number. Permissions, the content of the packets and the times are left out. -/
namespace Pjproject.Turn
open Stun (SockAddr)

/- A peer address as the hash table compares it: padding, flow and scope of pj_sockaddr are part of the key. -/
structure Peer where
  addr : SockAddr
  extra : Nat := 0
  deriving DecidableEq

/- ch_t; its place in the list of all records stands for its pointer. -/
structure Channel where
  num : Nat
  bound : Bool
  addr : Peer
  deriving DecidableEq

def channelMin : Nat := 0x4000
def channelMax : Nat := 0x7FFF
def invalidChannel : Nat := 0xFFFF
def maxDnsSrvCnt : Nat := 4
def maxPktLen : Nat := 3000

inductive Key where
  | addr (peer : Peer)
  | num (n : Nat)
  deriving DecidableEq

/- pj_dns_srv_record. -/
inductive DnsAddr where
  | inet (addr : Fin 4 → UInt8)
  | inet6 (addr : Fin 16 → UInt8)
  | other
  deriving DecidableEq

structure SrvEntry where
  port : UInt16
  addrs : List DnsAddr
  deriving DecidableEq

def DnsAddr.family : DnsAddr → Option Family
  | .inet _ => some .inet
  | .inet6 _ => some .inet6
  | .other => none

def DnsAddr.sockAddr (port : UInt16) : DnsAddr → SockAddr
  | .inet addr => .ipv4 port addr
  | .inet6 addr => .ipv6 port addr
  | .other => .other

/- The two loops of dns_srv_resolver_cb, and the number of entries it makes room for. -/
def copyAddrs (af : Family) (port : UInt16) : List DnsAddr → List SockAddr → List SockAddr
  | [], made => made
  | a :: rest, made =>
    if maxDnsSrvCnt ≤ made.length then made
    else copyAddrs af port rest (if a.family = some af then made ++ [a.sockAddr port] else made)

def copyEntries (af : Family) : List SrvEntry → List SockAddr → List SockAddr
  | [], made => made
  | e :: rest, made =>
    if maxDnsSrvCnt ≤ made.length then made else copyEntries af rest (copyAddrs af e.port e.addrs made)

def servers (af : Family) (record : List SrvEntry) : List SockAddr := copyEntries af record []

def totCnt (record : List SrvEntry) : Nat :=
  min ((record.map (fun e => e.addrs.length)).sum) maxDnsSrvCnt

/- A ChannelBind request: the record it has as its token, and what its attributes say. -/
structure BindRequest where
  id : Nat
  record : Nat
  peer : Peer
  num : Nat
  deriving DecidableEq

/- The session with its tables; then the servers that ALLOCATE was sent to, the ChannelBind requests sent, and what those
said that were answered with success. -/
structure Client where
  sess : Session := {}
  srvAddrList : List SockAddr := []
  peerTcp : Bool := false
  chs : List Channel := []
  chTable : List (Key × Nat) := []
  nextCh : Nat := channelMin
  tried : List Nat := []
  binds : List BindRequest := []
  confirmed : List (Peer × Nat) := []

def Client.hashGet (c : Client) (key : Key) : Option Nat := (c.chTable.find? (fun e => e.1 = key)).map Prod.snd

/- lookup_ch_by_addr without an update, and lookup_ch_by_chnum. -/
def Client.lookupChByAddr (c : Client) (peer : Peer) : Option Nat := c.hashGet (.addr peer)
def Client.lookupChByChnum (c : Client) (num : Nat) : Option Nat := c.hashGet (.num num)

/- lookup_ch_by_addr with an update: a missing record is made. -/
def Client.recordOf (c : Client) (peer : Peer) : Nat × Client :=
  match c.lookupChByAddr peer with
  | some i => (i, c)
  | none =>
    (c.chs.length,
      { c with
        chs := c.chs ++ [⟨invalidChannel,false,peer⟩]
        chTable := c.chTable ++ [(.addr peer, c.chs.length)] })

/- The part of lookup_ch_by_addr that registers a bound channel by its number. -/
def Client.registerNum (c : Client) (i : Nat) : Client :=
  match c.chs[i]? with
  | none => c
  | some ch =>
    if c.lookupChByChnum ch.num = none then { c with chTable := c.chTable ++ [(.num ch.num, i)] } else c

/- The number a record has or gets. -/
def Client.assignNum (c : Client) (i : Nat) : Option (Nat × Client) :=
  match c.chs[i]? with
  | none => none
  | some ch =>
    if ch.num ≠ invalidChannel then some (ch.num, c)
    else if c.nextCh ≤ channelMax then
      some (c.nextCh,
        { c with chs := c.chs.modify i (fun ch => { ch with num := c.nextCh }), nextCh := c.nextCh + 1 })
    else none

/- pj_turn_session_bind_channel. -/
def Client.sendBind (c : Client) (i : Nat) (peer : Peer) (num : Nat) : Client :=
  { c with
    sess := c.sess.addRequest .channelBind
    binds := c.binds ++ [⟨c.sess.created,i,peer,num⟩] }

def Client.bindChannel (c : Client) (peer : Peer) (sending : Sending) : Client :=
  if c.sess.state ≠ .ready ∨ c.sess.refuses sending then c
  else
    let (i, c) := c.recordOf peer
    match c.assignNum i with
    | none => c
    | some (num, c) => if sending = .notSent then c else c.sendBind i peer num

/- A successful ChannelBind response. -/
def Client.channelBound (c : Client) (id : Nat) : Client :=
  match c.binds.find? (fun b => b.id = id) with
  | none => c
  | some b =>
    match c.chs[b.record]? with
    | none => c
    | some ch =>
      let c := { c with
        chs := c.chs.modify b.record (fun ch => { ch with bound := true })
        confirmed := c.confirmed ++ [(b.peer, b.num)] }
      let (i, c) := c.recordOf ch.addr
      c.registerNum i

/- What pj_turn_session_on_rx_pkt2 does with ChannelData: the peer it is delivered for. -/
def Client.rxChannelData (c : Client) (num : Nat) : Option Peer :=
  match (c.lookupChByChnum num).bind (fun i => c.chs[i]?) with
  | none => none
  | some ch => if ch.bound then some ch.addr else none

/- What pj_turn_session_sendto gives to the transport. -/
inductive Packet where
  | direct (peer : Peer)
  | channelData (num : Nat)
  | sendIndication (peer : Peer)
  deriving DecidableEq

def Client.packetTo (c : Client) (peer : Peer) (pktLen : Nat) : Option Packet :=
  if c.peerTcp then some (.direct peer)
  else match (c.lookupChByAddr peer).bind (fun i => c.chs[i]?) with
    | none => some (.sendIndication peer)
    | some ch =>
      if ch.num ≠ invalidChannel ∧ ch.bound then
        if maxPktLen < (pktLen + 4 + 3) / 4 * 4 then none else some (.channelData ch.num)
      else some (.sendIndication peer)

/- pj_turn_session_sendto; permitted says that the peer has a permission. -/
def Client.sendTo (c : Client) (peer : Peer) (permitted : Bool) (pktLen : Nat) (sending : Sending) :
    Option Packet × Client :=
  if c.sess.state ≠ .ready then (none, c)
  else if permitted then (c.packetTo peer pktLen, c)
  else
    let refused := c.sess.refuses sending ∨ sending = .notSent
    let c := { c with sess := c.sess.setPerm sending }
    if refused ∨ c.sess.crashed then (none, c) else (c.packetTo peer pktLen, c)

/- What pj_turn_session_set_server meets; pj_getaddrinfo finds at least one address when it succeeds. -/
inductive Lookup where
  | badTransport | refused | started
  | failed
  | found (first : SockAddr) (rest : List SockAddr)
  deriving DecidableEq

def Lookup.addresses : Lookup → List SockAddr
  | .found first rest => (first :: rest).take maxDnsSrvCnt
  | _ => []

def Lookup.resolution : Lookup → Resolution
  | .badTransport => .badTransport
  | .refused => .refused
  | .started => .started
  | .failed => .failed
  | .found first rest => .found ((first :: rest).take maxDnsSrvCnt).length

def Client.setServer (c : Client) (lookup : Lookup) : Client :=
  { c with
    sess := c.sess.setServer lookup.resolution
    srvAddrList := if c.sess.state = .null ∧ lookup.addresses ≠ [] then lookup.addresses else c.srvAddrList }

/- dns_srv_resolver_cb. -/
def Client.dnsSrvResolverCb (c : Client) (result : Option (List SrvEntry)) : Client :=
  let found := result.map (servers c.sess.af)
  { c with
    sess := { c.sess with dns := false }.dnsSrvResolverCb (found.map List.length)
    srvAddrList := if c.sess.pendingDestroy then c.srvAddrList else found.getD c.srvAddrList }

/- pj_turn_session_alloc. -/
def Client.alloc (c : Client) (af : Option Family) (peerTcp : Bool) (sending : Sending) : Client :=
  if c.sess.state = .resolving ∨ c.sess.state = .resolved then
    { c with
      sess := c.sess.alloc af sending
      peerTcp := peerTcp
      tried :=
        if c.sess.state = .resolved ∧ ¬ c.sess.refuses sending then c.tried ++ c.sess.srvAddr.toList else c.tried }
  else c

/- stun_on_request_complete. -/
def Client.onRequestComplete (c : Client) (req : Request) (completion : Completion) (sending : Sending) : Client :=
  let c := { c with sess := (c.sess.dropRequest req.id).onRequestComplete req.method completion sending }
  if req.method = .channelBind ∧ completion.good.isSome then c.channelBound req.id else c

/- on_timer_event. The channels that are due stand in the order of the table, with what becomes of their requests. -/
def Client.refreshChannel (c : Client) (due : Nat × Sending) : Client :=
  match c.chs[due.1]? with
  | none => c
  | some ch => if ch.bound then c.bindChannel ch.addr due.2 else c

def Client.onTimerEvent (c : Client) (due : Bool) (refresh : Sending) (channels : List (Nat × Sending))
    (perms : Option Sending) : Client :=
  let fired := c.sess.timer
  let c := { c with sess := { c.sess with timer := .none } }
  match fired with
  | .none => c
  | .destroy => { c with sess := c.sess.doDestroy }
  | .keepAlive =>
    if State.deallocating.num ≤ c.sess.state.num then c
    else
      let c := { c with sess := if due ∧ c.sess.state = .ready then c.sess.send .refresh refresh else c.sess }
      let c := channels.foldl Client.refreshChannel c
      let c := { c with sess := match perms with
        | none => c.sess
        | some sending => c.sess.send .createPerm sending }
      { c with sess := if due then c.sess else c.sess.startKeepAlive }

inductive Event where
  | setServer (lookup : Lookup)
  | dns (result : Option (List SrvEntry))
  | alloc (af : Option Family) (peerTcp : Bool) (sending : Sending)
  | setPerm (sending : Sending)
  | sendTo (peer : Peer) (permitted : Bool) (pktLen : Nat) (sending : Sending)
  | bindChannel (peer : Peer) (sending : Sending)
  | connectionBind (sending : Sending)
  | shutdown (sending : Sending)
  | destroy
  | complete (id : Nat) (completion : Completion) (sending : Sending)
  | lost (id : Nat)
  | timer (due : Bool) (refresh : Sending) (channels : List (Nat × Sending)) (perms : Option Sending)

def Client.step (c : Client) (event : Event) : Client :=
  if c.sess.crashed then c
  else match event with
    | .setServer lookup => c.setServer lookup
    | .dns result => if c.sess.dns then c.dnsSrvResolverCb result else c
    | .alloc af peerTcp sending => c.alloc af peerTcp sending
    | .setPerm sending => { c with sess := c.sess.setPerm sending }
    | .sendTo peer permitted pktLen sending => (c.sendTo peer permitted pktLen sending).2
    | .bindChannel peer sending => c.bindChannel peer sending
    | .connectionBind sending => { c with sess := c.sess.bind .connectionBind sending }
    | .shutdown sending => { c with sess := c.sess.sessShutdown sending }
    | .destroy => { c with sess := c.sess.destroy }
    | .complete id completion sending =>
      match c.sess.request id with
      | none => c
      | some req => c.onRequestComplete req completion sending
    | .lost id => { c with sess := c.sess.dropRequest id }
    | .timer due refresh channels perms => c.onTimerEvent due refresh channels perms

def Client.run (c : Client) (events : List Event) : Client := events.foldl Client.step c

/- A session as pj_turn_session_create leaves it. -/
structure Client.Fresh (c : Client) : Prop where
  sess : c.sess.Fresh
  srvAddr : c.sess.srvAddr = none
  srvAddrList : c.srvAddrList = []
  chs : c.chs = []
  chTable : c.chTable = []
  nextCh : c.nextCh = channelMin
  tried : c.tried = []
  binds : c.binds = []
  confirmed : c.confirmed = []

/- What each event is to the session. A ChannelBind fails when no number is left for the channel. -/
def Client.bindSending (c : Client) (peer : Peer) (sending : Sending) : Sending :=
  if ((c.recordOf peer).2.assignNum (c.recordOf peer).1).isSome then sending else .notCreated

def Client.refreshSending (c : Client) (due : Nat × Sending) : Sending :=
  match c.chs[due.1]? with
  | none => .notCreated
  | some ch => if ch.bound then c.bindSending ch.addr due.2 else .notCreated

def Client.refreshSendings : Client → List (Nat × Sending) → List Sending
  | _, [] => []
  | c, due :: rest => c.refreshSending due :: (c.refreshChannel due).refreshSendings rest

/- The keep-alive timer when it comes to the channels. -/
def Client.atChannels (c : Client) (due : Bool) (refresh : Sending) : Client :=
  let sess := { c.sess with timer := .none }
  { c with sess := if due ∧ sess.state = .ready then sess.send .refresh refresh else sess }

def Client.input (c : Client) : Event → Option Input
  | .setServer lookup => some (.setServer lookup.resolution)
  | .dns result => some (.dnsComplete ((result.map (servers c.sess.af)).map List.length))
  | .alloc af _ sending => some (.alloc af sending)
  | .setPerm sending => some (.setPerm sending)
  | .sendTo _ permitted _ sending => if c.sess.state = .ready ∧ permitted = false then some (.setPerm sending) else none
  | .bindChannel peer sending => some (.bindChannel (c.bindSending peer sending))
  | .connectionBind sending => some (.connectionBind sending)
  | .shutdown sending => some (.shutdown sending)
  | .destroy => some .destroy
  | .complete id completion sending => some (.complete id completion sending)
  | .lost id => some (.lost id)
  | .timer due refresh channels perms =>
    some (.timer due refresh ((c.atChannels due refresh).refreshSendings channels) perms)

def Client.inputs : Client → List Event → List Input
  | _, [] => []
  | c, event :: rest => (c.input event).toList ++ (c.step event).inputs rest

section Sessions

theorem recordOfSess (c : Client) (peer : Peer) : (c.recordOf peer).2.sess = c.sess := by
  unfold Client.recordOf
  split
  · rfl
  · rfl

theorem assignNumSess {c out : Client} {i num : Nat} (found : c.assignNum i = some (num, out)) : out.sess = c.sess := by
  unfold Client.assignNum at found
  split at found
  · contradiction
  · split at found
    · rw [(Prod.mk.inj (Option.some.inj found)).2]
    · split at found
      · rw [← (Prod.mk.inj (Option.some.inj found)).2]
      · contradiction

theorem bindNotCreated (sess : Session) : sess.bind .channelBind .notCreated = sess := by
  unfold Session.bind Session.send Session.refuses
  simp

theorem bindChannelSess (c : Client) (peer : Peer) (sending : Sending) :
    (c.bindChannel peer sending).sess = c.sess.bind .channelBind (c.bindSending peer sending) := by
  unfold Client.bindChannel Client.bindSending
  split
  · rename_i refused
    have either : ∀ sending', sending' = sending ∨ sending' = .notCreated →
        c.sess = c.sess.bind .channelBind sending' := by
      rintro _ (rfl | rfl)
      · unfold Session.bind Session.send
        rcases refused with other | refused
        · rw [if_neg other]
        · rw [if_pos (Or.inl refused),ite_self]
      · exact (bindNotCreated c.sess).symm
    refine either _ ?_
    split
    · exact Or.inl rfl
    · exact Or.inr rfl
  · rename_i ready
    rw [not_or,not_not,Bool.not_eq_true] at ready
    have same := recordOfSess c peer
    generalize c.recordOf peer = record at same
    obtain ⟨i,d⟩ := record
    dsimp only at same ⊢
    cases found : d.assignNum i with
    | none => exact same.trans (bindNotCreated c.sess).symm
    | some result =>
      have same' : result.2.sess = d.sess := assignNumSess found
      rw [Option.isSome_some,if_pos rfl]
      dsimp only
      unfold Session.bind Session.send
      rw [if_pos ready.1,ready.2]
      split
      · rename_i notSent
        rw [if_pos (Or.inr notSent)]
        exact same'.trans same
      · rename_i isSent
        rw [if_neg (by simp [isSent])]
        change result.2.sess.addRequest .channelBind = _
        rw [same',same]

theorem refreshChannelsSess (channels : List (Nat × Sending)) (c : Client) :
    (channels.foldl Client.refreshChannel c).sess =
      (c.refreshSendings channels).foldl (fun sess sending => sess.bind .channelBind sending) c.sess := by
  induction channels generalizing c with
  | nil => rfl
  | cons due rest ih =>
    rw [List.foldl_cons,ih,Client.refreshSendings,List.foldl_cons]
    refine congrArg (List.foldl _ · _) ?_
    unfold Client.refreshChannel Client.refreshSending
    split
    · exact (bindNotCreated c.sess).symm
    · split
      · exact bindChannelSess c _ due.2
      · exact (bindNotCreated c.sess).symm

theorem onTimerEventSess (c : Client) (due : Bool) (refresh : Sending) (channels : List (Nat × Sending))
    (perms : Option Sending) : (c.onTimerEvent due refresh channels perms).sess =
      c.sess.onTimerEvent due refresh ((c.atChannels due refresh).refreshSendings channels) perms := by
  unfold Client.onTimerEvent Session.onTimerEvent
  dsimp only
  cases c.sess.timer with
  | none => rfl
  | destroy => rfl
  | keepAlive =>
    dsimp only
    split
    · rfl
    · have same := refreshChannelsSess channels (c.atChannels due refresh)
      cases perms with
      | none => exact congrArg (fun sess : Session => if due then sess else sess.startKeepAlive) same
      | some sending =>
        exact congrArg (fun sess : Session =>
          if due then sess.send .createPerm sending else (sess.send .createPerm sending).startKeepAlive) same

theorem channelBoundSess (c : Client) (id : Nat) : (c.channelBound id).sess = c.sess := by
  have registered : ∀ (d : Client) (i : Nat), (d.registerNum i).sess = d.sess := by
    intro d i
    unfold Client.registerNum
    split
    · rfl
    · split
      · rfl
      · rfl
  unfold Client.channelBound
  split
  · rfl
  · split
    · rfl
    · dsimp only
      rw [registered,recordOfSess]

end Sessions

theorem Client.stepSess (c : Client) (event : Event) :
    (c.step event).sess = (c.input event).elim c.sess c.sess.step := by
  by_cases crashed : c.sess.crashed = true
  · have still : ∀ input, c.sess.step input = c.sess := fun input => if_pos crashed
    unfold Client.step
    rw [if_pos crashed]
    cases c.input event with
    | none => rfl
    | some input => exact (still input).symm
  have goes : ∀ input, c.input event = some input → (c.input event).elim c.sess c.sess.step = c.sess.step input := by
    intro input same
    rw [same]
    rfl
  unfold Client.step
  rw [if_neg crashed]
  cases event with
  | setServer =>
    rw [goes _ rfl,Session.step,if_neg crashed]
    rfl
  | dns =>
    rw [goes _ rfl,Session.step,if_neg crashed]
    dsimp only
    split
    · rfl
    · rfl
  | alloc af peerTcp sending =>
    rw [goes _ rfl,Session.step,if_neg crashed]
    dsimp only
    unfold Client.alloc
    split
    · rfl
    · rename_i other
      rw [not_or] at other
      unfold Session.alloc
      split
      · rename_i state
        exact absurd state other.1
      · rename_i state
        exact absurd state other.2
      · rfl
  | sendTo peer permitted pktLen sending =>
    dsimp only [Client.input]
    unfold Client.sendTo
    split
    · rename_i other
      rw [if_neg (fun both => other both.1)]
      rfl
    · rename_i ready
      split
      · rename_i allowed
        rw [if_neg (by simp [allowed])]
        rfl
      · rename_i denied
        have asks : c.sess.state = .ready ∧ permitted = false := ⟨not_not.mp ready,by simpa using denied⟩
        rw [if_pos (c := c.sess.state = .ready ∧ permitted = false) asks,Option.elim_some,Session.step,if_neg crashed]
        dsimp only
        split
        · rfl
        · rfl
  | bindChannel peer sending =>
    rw [goes _ rfl,Session.step,if_neg crashed]
    exact bindChannelSess c peer sending
  | complete id =>
    rw [goes _ rfl,Session.step,if_neg crashed]
    dsimp only
    cases found : c.sess.request id with
    | none => rfl
    | some req =>
      have named : req.id = id := by simpa using List.find?_some found
      dsimp only
      unfold Client.onRequestComplete
      dsimp only
      rw [named]
      split
      · rw [channelBoundSess]
      · rfl
  | timer due refresh channels perms =>
    rw [goes _ rfl,Session.step,if_neg crashed]
    exact onTimerEventSess c due refresh channels perms
  | _ =>
    rw [goes _ rfl,Session.step,if_neg crashed]

/- The client refines the session: its events are the inputs of the session, in their order. -/
theorem Client.runSess (c : Client) (events : List Event) : (c.run events).sess = c.sess.run (c.inputs events) := by
  induction events generalizing c with
  | nil => rfl
  | cons event rest ih =>
    change ((c.step event).run rest).sess = _
    rw [ih,stepSess,Client.inputs,Session.run,Session.run,List.foldl_append]
    cases c.input event with
    | none => rfl
    | some => rfl

end Pjproject.Turn
