import Pjproject.TurnClient
import Pjproject.TurnShutdown

/-! Which server a TURN session uses. The usable addresses of an answer are copied, and an allocation that fails moves
the session on to the next of them; apart from that no step changes the server. -/
namespace Pjproject.Turn
open Stun (Msg SockAddr findAttr)

variable (af : Family) (sess : Session)

theorem copyAddrsTake (port : UInt16) (addrs : List DnsAddr) (made : List SockAddr)
    (room : made.length ≤ maxDnsSrvCnt) : copyAddrs af port addrs made =
      (made ++ (addrs.filter (fun a => a.family = some af)).map (DnsAddr.sockAddr port)).take maxDnsSrvCnt := by
  induction addrs generalizing made with
  | nil =>
    rw [copyAddrs,List.filter_nil,List.map_nil,List.append_nil,List.take_of_length_le room]
  | cons a rest ih =>
    unfold copyAddrs
    split
    · rename_i full
      have exact' : made.length = maxDnsSrvCnt := Nat.le_antisymm room full
      rw [List.take_append_of_le_length full,← exact',List.take_length]
    · rename_i free
      by_cases usable : a.family = some af
      · have more : (made ++ [a.sockAddr port]).length ≤ maxDnsSrvCnt := by
          rw [List.length_append,List.length_singleton]
          omega
        rw [if_pos usable,ih _ more,List.filter_cons_of_pos (by simpa using usable),List.map_cons,List.append_assoc,
          List.singleton_append]
      · rw [if_neg usable,ih made room,List.filter_cons_of_neg (by simpa using usable)]

theorem copyEntriesTake (record : List SrvEntry) (made : List SockAddr) (room : made.length ≤ maxDnsSrvCnt) :
    copyEntries af record made =
      (made ++ record.flatMap (fun e => (e.addrs.filter (fun a => a.family = some af)).map (DnsAddr.sockAddr e.port))).take
        maxDnsSrvCnt := by
  induction record generalizing made with
  | nil => rw [copyEntries,List.flatMap_nil,List.append_nil,List.take_of_length_le room]
  | cons e rest ih =>
    unfold copyEntries
    split
    · rename_i full
      have exact' : made.length = maxDnsSrvCnt := Nat.le_antisymm room full
      rw [List.take_append_of_le_length full,← exact',List.take_length]
    · have next := copyAddrsTake af e.port e.addrs made room
      have within : (copyAddrs af e.port e.addrs made).length ≤ maxDnsSrvCnt := by
        rw [next]
        exact List.length_take_le _ _
      rw [ih _ within,next,List.flatMap_cons,← List.append_assoc]
      -- what does not fit after the first entry is cut in both
      generalize (e.addrs.filter (fun a => a.family = some af)).map (DnsAddr.sockAddr e.port) = mine
      generalize rest.flatMap
        (fun e => (e.addrs.filter (fun a => a.family = some af)).map (DnsAddr.sockAddr e.port)) = others
      have whole : (made ++ mine ++ others).take maxDnsSrvCnt =
          (made ++ mine).take maxDnsSrvCnt ++ others.take (maxDnsSrvCnt - (made ++ mine).length) := List.take_append
      rw [List.take_append,List.take_take,Nat.min_self,whole]
      congr 1
      by_cases fits : (made ++ mine).length ≤ maxDnsSrvCnt
      · rw [List.take_of_length_le fits]
      · rw [List.length_take_of_le (Nat.le_of_not_le fits),Nat.sub_self,
          Nat.sub_eq_zero_of_le (Nat.le_of_not_le fits)]

theorem serversTake (record : List SrvEntry) : servers af record =
      (record.flatMap (fun e => (e.addrs.filter (fun a => a.family = some af)).map (DnsAddr.sockAddr e.port))).take
        maxDnsSrvCnt :=
  copyEntriesTake af record [] (Nat.zero_le _)

theorem serversWithin (record : List SrvEntry) : (servers af record).length ≤ totCnt record := by
  rw [serversTake,List.length_take,totCnt,Nat.min_comm]
  refine Nat.le_min.mpr ⟨Nat.le_trans (Nat.min_le_left _ _) ?_,Nat.min_le_right _ _⟩
  rw [List.length_flatMap]
  refine List.sum_le_sum (fun e _ => ?_)
  rw [List.length_map]
  exact List.length_filter_le _ _

theorem serversFound (record : List SrvEntry) :
    servers af record ≠ [] ↔ ∃ e ∈ record, ∃ a ∈ e.addrs, a.family = some af := by
  rw [serversTake]
  simp [maxDnsSrvCnt]

/- The servers are the first usable addresses in the order of the answer. They fit the array that is made for them, and there is
one as soon as there is a usable address. -/
theorem serversChosen (record : List SrvEntry) :
    servers af record =
        (record.flatMap (fun e => (e.addrs.filter (fun a => a.family = some af)).map (DnsAddr.sockAddr e.port))).take
          maxDnsSrvCnt ∧
      (servers af record).length ≤ totCnt record ∧
      (servers af record ≠ [] ↔ ∃ e ∈ record, ∃ a ∈ e.addrs, a.family = some af) :=
  ⟨serversTake af record,serversWithin af record,serversFound af record⟩

/- An operation that leaves the server as it is, and starts no allocation. -/
structure Steers (sess out : Session) : Prop where
  srvAddr : out.srvAddr = sess.srvAddr
  count : out.srvAddrCnt = sess.srvAddrCnt
  dns : out.dns = true → sess.dns = true
  state : out.state = .null ∨ out.state = .resolved → out.state = sess.state
  notified : State.resolved ∈ out.notified ↔ State.resolved ∈ sess.notified
  allocates : ∀ r ∈ out.requests, r.method = .allocate → r ∈ sess.requests

theorem steersRefl : Steers sess sess := ⟨rfl,rfl,id,fun _ => rfl,Iff.rfl,fun _ member _ => member⟩

theorem Steers.trans {a b c : Session} (first : Steers a b) (next : Steers b c) : Steers a c := by
  refine ⟨next.srvAddr.trans first.srvAddr,next.count.trans first.count,fun on => first.dns (next.dns on),?_,
    next.notified.trans first.notified,?_⟩
  · intro early
    have same := next.state early
    rw [same] at early ⊢
    exact first.state early
  · intro r member method
    exact first.allocates r (next.allocates r member method) method

theorem steersSame {sess out : Session} (srvAddr : out.srvAddr = sess.srvAddr) (count : out.srvAddrCnt = sess.srvAddrCnt)
    (dns : out.dns = sess.dns) (state : out.state = sess.state) (notified : out.notified = sess.notified)
    (requests : out.requests = sess.requests) : Steers sess out :=
  ⟨srvAddr,count,fun on => dns ▸ on,fun _ => state,by rw [notified],fun _ member _ => requests ▸ member⟩

theorem setStateSteers (state : State) (later : state ≠ .null) (other : state ≠ .resolved) :
    Steers sess (sess.setState state) := by
  have arrives := setStateState sess state
  refine ⟨?_,?_,?_,?_,?_,?_⟩
  · unfold Session.setState
    split <;> rfl
  · unfold Session.setState
    split <;> rfl
  · rw [(setStateFrame sess state).dns]
    exact id
  · rw [arrives]
    exact fun early => absurd early (not_or.mpr ⟨later,other⟩)
  · unfold Session.setState
    split
    · exact Iff.rfl
    · simp [Ne.symm other]
  · rw [(setStateFrame sess state).requests]
    exact fun _ member _ => member

theorem scheduleDestroySteers : Steers sess sess.scheduleDestroy :=
  (setStateSteers sess .destroying nofun nofun).trans (steersSame rfl rfl rfl rfl rfl rfl)

theorem endSteers : Steers sess (sess.setState .deallocated).scheduleDestroy :=
  (setStateSteers sess .deallocated nofun nofun).trans (scheduleDestroySteers _)

theorem addRequestSteers (method : Method) (other : method ≠ .allocate) :
    Steers sess (sess.addRequest method) := by
  refine ⟨rfl,rfl,id,fun _ => rfl,Iff.rfl,?_⟩
  intro r member isAllocate
  rcases List.mem_append.mp member with old | new
  · exact old
  · obtain rfl := List.mem_singleton.mp new
    exact absurd isAllocate other

theorem sendSteers (method : Method) (other : method ≠ .allocate) (sending : Sending) :
    Steers sess (sess.send method sending) := by
  unfold Session.send
  split
  · exact steersRefl sess
  · exact addRequestSteers sess method other

theorem bindSteers (method : Method) (other : method ≠ .allocate) (sending : Sending) :
    Steers sess (sess.bind method sending) := by
  unfold Session.bind
  split
  · exact sendSteers sess method other sending
  · exact steersRefl sess

theorem setPermSteers (sending : Sending) : Steers sess (sess.setPerm sending) := by
  unfold Session.setPerm
  split
  · exact steersRefl sess
  · split
    · exact steersSame rfl rfl rfl rfl rfl rfl
    · exact sendSteers sess .createPerm nofun sending

theorem deallocateSteers (sending : Sending) : Steers sess (sess.deallocate sending) := by
  have leaves := setStateSteers sess .deallocating nofun nofun
  unfold Session.deallocate
  split
  · exact endSteers sess
  · dsimp only
    split
    · exact leaves.trans (endSteers _)
    · exact leaves.trans (addRequestSteers _ .refresh nofun)

theorem sessShutdownSteers (sending : Sending) : Steers sess (sess.sessShutdown sending) := by
  have pending : Steers sess { sess with pendingDestroy := true } := steersSame rfl rfl rfl rfl rfl rfl
  unfold Session.sessShutdown
  split
  · exact scheduleDestroySteers sess
  · exact pending
  · exact scheduleDestroySteers sess
  · exact pending
  · exact deallocateSteers sess sending
  · exact steersRefl sess
  · exact scheduleDestroySteers sess
  · exact scheduleDestroySteers sess

theorem startKeepAliveSteers : Steers sess sess.startKeepAlive := by
  unfold Session.startKeepAlive
  split <;> exact steersSame rfl rfl rfl rfl rfl rfl

theorem doDestroySteers : Steers sess sess.doDestroy := by
  unfold Session.doDestroy
  split
  · exact steersRefl sess
  · exact ⟨rfl,rfl,id,fun _ => rfl,Iff.rfl,nofun⟩

/- A failed allocation goes on to the next server. -/
structure Advances (sess out : Session) (i : Nat) : Prop where
  here : sess.srvAddr = some i
  more : i + 1 ≠ sess.srvAddrCnt
  srvAddr : out.srvAddr = some (i + 1)
  count : out.srvAddrCnt = sess.srvAddrCnt
  dns : out.dns = sess.dns
  state : out.state = .resolved
  notified : State.resolved ∈ sess.notified → State.resolved ∈ out.notified

def Courses (sess out : Session) : Prop := Steers sess out ∨ ∃ i, Advances sess out i

theorem onSessionFailCourses (method : Method) (chosen : method = .allocate → sess.srvAddr.isSome = true) :
    Courses sess (sess.onSessionFail method) := by
  unfold Session.onSessionFail
  split
  · rename_i next
    obtain ⟨i,here⟩ := Option.isSome_iff_exists.mp (chosen next.1)
    refine .inr ⟨i,here,fun last => next.2 ?_,?_,?_,?_,?_,?_⟩
    · rw [here,Option.map_some,last]
    · unfold Session.setState
      split <;> simp [here]
    · unfold Session.setState
      split <;> rfl
    · exact (setStateFrame _ .resolved).dns
    · exact setStateState _ .resolved
    · intro known
      unfold Session.setState
      split
      · exact known
      · exact List.mem_append_left _ known
  · exact .inl (endSteers sess)

theorem onAllocateSuccessCourses (method : Method)
    (chosen : method = .allocate → sess.srvAddr.isSome = true) (msg : Msg) :
    Courses sess (sess.onAllocateSuccess method msg) := by
  unfold Session.onAllocateSuccess
  split
  · exact onSessionFailCourses sess method chosen
  · split
    · exact .inl (endSteers sess)
    · split
      · exact onSessionFailCourses sess method chosen
      · dsimp only
        split
        · exact onSessionFailCourses sess method chosen
        · refine .inl ?_
          have relayed : Steers sess
              { sess with relayAddr := ((findAttr msg attrXorRelayedAddr).map Attr.sockaddr).or sess.relayAddr } :=
            steersSame rfl rfl rfl rfl rfl rfl
          have stopped : ∀ start, Steers sess start →
              Steers sess (if start.timer = TimerId.keepAlive then { start with timer := TimerId.none } else start) := by
            intro start first
            split
            · exact first.trans (steersSame rfl rfl rfl rfl rfl rfl)
            · exact first
          have kept : ∀ next, Steers sess next → Steers sess
              (if next.state.num < State.deallocating.num then next.startKeepAlive.setState .ready else next) := by
            intro next first
            split
            · exact (first.trans (startKeepAliveSteers next)).trans (setStateSteers _ .ready nofun nofun)
            · exact first
          exact kept _ (stopped _ relayed)

theorem onRequestCompleteCourses (method : Method)
    (chosen : method = .allocate → sess.srvAddr.isSome = true) (c : Completion) (sending : Sending) :
    Courses sess (sess.onRequestComplete method c sending) := by
  have mismatch : ∀ method, method ≠ .allocate →
      Courses sess (if c.good.isNone = true ∧ c.mismatch = true then sess.onSessionFail method else sess) := by
    intro method other
    split
    · exact onSessionFailCourses sess method (fun isAllocate => absurd isAllocate other)
    · exact .inl (steersRefl sess)
  unfold Session.onRequestComplete
  cases method with
  | allocate =>
    dsimp only
    split
    · refine .inl (Steers.trans ?_ (sessShutdownSteers _ sending))
      refine ⟨rfl,rfl,id,?_,Iff.rfl,fun _ member _ => member⟩
      dsimp only
      split
      · rintro (h | h) <;> contradiction
      · rintro (h | h) <;> contradiction
    · split
      · exact onAllocateSuccessCourses sess .allocate chosen _
      · exact onSessionFailCourses sess .allocate chosen
  | refresh =>
    dsimp only
    split
    · exact onAllocateSuccessCourses sess .refresh nofun _
    · exact onSessionFailCourses sess .refresh nofun
  | channelBind => exact mismatch .channelBind nofun
  | createPerm => exact mismatch .createPerm nofun
  | connectionBind => exact .inl (steersRefl sess)

/- The session once it has a server: the servers tried come before the present one, and in RESOLVED the present one is
still to be tried. -/
structure Served (c : Client) : Prop where
  unresolved : State.resolved ∉ c.sess.notified → c.sess.srvAddr = none ∧ c.tried = []
  early : c.sess.state = .null ∨ c.sess.dns = true → State.resolved ∉ c.sess.notified
  idle : c.sess.state = .null → c.sess.dns = false
  known : c.sess.state = .resolved → State.resolved ∈ c.sess.notified
  allocates : ∀ r ∈ c.sess.requests, r.method = .allocate → State.resolved ∈ c.sess.notified
  chosen : State.resolved ∈ c.sess.notified → c.sess.srvAddr.isSome = true
  next : c.sess.state = .resolved → ∀ i, c.sess.srvAddr = some i → i ∉ c.tried
  upTo : ∀ t ∈ c.tried, ∀ i, c.sess.srvAddr = some i → t ≤ i
  once : c.tried.Nodup

def Client.Selected (c : Client) : Prop :=
  State.resolved ∈ c.sess.notified →
    ∃ i, c.sess.srvAddr = some i ∧ i < c.sess.srvAddrCnt ∧ c.sess.srvAddrCnt = c.srvAddrList.length

section Serving

variable {c out : Client}

theorem Served.steers (served : Served c) (steers : Steers c.sess out.sess) (tried : out.tried = c.tried) :
    Served out := by
  have back : out.sess.state = .null ∨ out.sess.state = .resolved → out.sess.state = c.sess.state := steers.state
  refine ⟨?_,?_,?_,?_,?_,?_,?_,?_,?_⟩
  · rw [steers.notified,steers.srvAddr,tried]
    exact served.unresolved
  · rw [steers.notified]
    rintro (null | on)
    · exact served.early (.inl ((back (.inl null)).symm.trans null))
    · exact served.early (.inr (steers.dns on))
  · intro null
    have off := served.idle ((back (.inl null)).symm.trans null)
    exact Bool.eq_false_iff.mpr (fun on => by rw [steers.dns on] at off; contradiction)
  · rw [steers.notified]
    exact fun resolved => served.known ((back (.inr resolved)).symm.trans resolved)
  · rw [steers.notified]
    exact fun r member method => served.allocates r (steers.allocates r member method) method
  · rw [steers.notified,steers.srvAddr]
    exact served.chosen
  · rw [steers.srvAddr,tried]
    exact fun resolved => served.next ((back (.inr resolved)).symm.trans resolved)
  · rw [steers.srvAddr,tried]
    exact served.upTo
  · rw [tried]
    exact served.once

theorem Served.advances {i : Nat} (served : Served c) (known : State.resolved ∈ c.sess.notified)
    (advances : Advances c.sess out.sess i) (tried : out.tried = c.tried) : Served out := by
  have after := advances.notified known
  refine ⟨fun never => absurd after never,?_,?_,fun _ => after,fun _ _ _ => after,?_,?_,?_,?_⟩
  · rintro (null | on)
    · rw [advances.state] at null
      contradiction
    · rw [advances.dns] at on
      exact absurd known (served.early (.inr on))
  · rw [advances.state]
    exact nofun
  · intro _
    rw [advances.srvAddr]
    rfl
  · intro _ j place
    rw [advances.srvAddr] at place
    obtain rfl := Option.some.inj place
    rw [tried]
    intro again
    have bound := served.upTo (i + 1) again i advances.here
    omega
  · intro t member j place
    rw [advances.srvAddr] at place
    obtain rfl := Option.some.inj place
    rw [tried] at member
    exact Nat.le_succ_of_le (served.upTo t member i advances.here)
  · rw [tried]
    exact served.once

theorem Client.Selected.steers (selected : c.Selected) (steers : Steers c.sess out.sess)
    (list : out.srvAddrList = c.srvAddrList) : out.Selected := by
  unfold Client.Selected
  rw [steers.notified,steers.srvAddr,steers.count,list]
  exact selected

theorem Client.Selected.advances {i : Nat} (selected : c.Selected) (known : State.resolved ∈ c.sess.notified)
    (advances : Advances c.sess out.sess i) (list : out.srvAddrList = c.srvAddrList) : out.Selected := by
  intro _
  obtain ⟨j,here,below,length⟩ := selected known
  obtain rfl := Option.some.inj (here.symm.trans advances.here)
  refine ⟨j + 1,advances.srvAddr,?_,?_⟩
  · rw [advances.count]
    have more := advances.more
    omega
  · rw [advances.count,list,length]

/- The answer arrives: the first address is to be tried. -/
structure Resolves (out : Client) (list : List SockAddr) : Prop where
  state : out.sess.state = .resolved
  notified : State.resolved ∈ out.sess.notified
  dns : out.sess.dns = false
  srvAddr : out.sess.srvAddr = some 0
  count : out.sess.srvAddrCnt = list.length
  srvAddrList : out.srvAddrList = list
  tried : out.tried = []

theorem Resolves.served {list : List SockAddr} (resolves : Resolves out list) : Served out := by
  refine ⟨fun never => absurd resolves.notified never,?_,?_,fun _ => resolves.notified,
    fun _ _ _ => resolves.notified,?_,?_,?_,?_⟩
  · rw [resolves.state,resolves.dns]
    rintro (h | h) <;> contradiction
  · exact fun _ => resolves.dns
  · rw [resolves.srvAddr]
    exact fun _ => rfl
  · rw [resolves.tried]
    exact fun _ _ _ => List.not_mem_nil
  · rw [resolves.tried]
    exact nofun
  · rw [resolves.tried]
    exact List.nodup_nil

theorem Resolves.selected {list : List SockAddr} (resolves : Resolves out list) : out.Selected ↔ list ≠ [] := by
  unfold Client.Selected
  rw [resolves.srvAddr,resolves.count,resolves.srvAddrList]
  constructor
  · intro selected empty
    obtain ⟨i,here,below,_⟩ := selected resolves.notified
    rw [empty] at below
    exact Nat.not_lt_zero i below
  · exact fun some _ => ⟨0,rfl,List.length_pos_of_ne_nil some,rfl⟩

structure SameServers (c out : Client) : Prop where
  sess : Steers c.sess out.sess
  tried : out.tried = c.tried
  srvAddrList : out.srvAddrList = c.srvAddrList

theorem SameServers.trans {next : Client} (first : SameServers c out) (rest : SameServers out next) : SameServers c next :=
  ⟨first.sess.trans rest.sess,rest.tried.trans first.tried,rest.srvAddrList.trans first.srvAddrList⟩

theorem sameServersRefl (c : Client) : SameServers c c := ⟨steersRefl c.sess,rfl,rfl⟩

theorem sessServers (c : Client) (sess : Session) (steers : Steers c.sess sess) : SameServers c { c with sess := sess } :=
  ⟨steers,rfl,rfl⟩

theorem recordOfServers (c : Client) (peer : Peer) : SameServers c (c.recordOf peer).2 := by
  unfold Client.recordOf
  split
  · exact sameServersRefl c
  · exact ⟨steersRefl c.sess,rfl,rfl⟩

theorem bindChannelServers (c : Client) (peer : Peer) (sending : Sending) : SameServers c (c.bindChannel peer sending) := by
  unfold Client.bindChannel
  split
  · exact sameServersRefl c
  · have found := recordOfServers c peer
    generalize c.recordOf peer = pair at found
    obtain ⟨i,mid⟩ := pair
    dsimp only at found ⊢
    split
    · exact found
    · rename_i num given assigned
      have numbered : SameServers mid given := by
        unfold Client.assignNum at assigned
        split at assigned
        · contradiction
        · split at assigned
          · obtain ⟨_,rfl⟩ := Prod.mk.inj (Option.some.inj assigned)
            exact sameServersRefl mid
          · split at assigned
            · obtain ⟨_,rfl⟩ := Prod.mk.inj (Option.some.inj assigned)
              exact ⟨steersRefl mid.sess,rfl,rfl⟩
            · contradiction
      split
      · exact found.trans numbered
      · exact (found.trans numbered).trans ⟨addRequestSteers _ .channelBind nofun,rfl,rfl⟩

theorem registerNumServers (c : Client) (i : Nat) : SameServers c (c.registerNum i) := by
  unfold Client.registerNum
  split
  · exact sameServersRefl c
  · split
    · exact ⟨steersRefl c.sess,rfl,rfl⟩
    · exact sameServersRefl c

theorem channelBoundServers (c : Client) (id : Nat) : SameServers c (c.channelBound id) := by
  unfold Client.channelBound
  split
  · exact sameServersRefl c
  · split
    · exact sameServersRefl c
    · rename_i b _ _ ch _
      have marked : SameServers c { c with
          chs := c.chs.modify b.record (fun ch => { ch with bound := true })
          confirmed := c.confirmed ++ [(b.peer, b.num)] } := ⟨steersRefl c.sess,rfl,rfl⟩
      have found := marked.trans (recordOfServers _ ch.addr)
      exact found.trans (registerNumServers _ _)

theorem sendToServers (c : Client) (peer : Peer) (permitted : Bool) (pktLen : Nat) (sending : Sending) :
    SameServers c (c.sendTo peer permitted pktLen sending).2 := by
  unfold Client.sendTo
  split
  · exact sameServersRefl c
  · split
    · exact sameServersRefl c
    · dsimp only
      split <;> exact sessServers c _ (setPermSteers c.sess sending)

theorem refreshChannelsServers (channels : List (Nat × Sending)) (c : Client) :
    SameServers c (channels.foldl Client.refreshChannel c) := by
  induction channels generalizing c with
  | nil => exact sameServersRefl c
  | cons due rest ih =>
    have first : SameServers c (c.refreshChannel due) := by
      unfold Client.refreshChannel
      split
      · exact sameServersRefl c
      · split
        · exact bindChannelServers c _ due.2
        · exact sameServersRefl c
    exact first.trans (ih _)

theorem onTimerEventServers (c : Client) (due : Bool) (refresh : Sending) (channels : List (Nat × Sending))
    (perms : Option Sending) : SameServers c (c.onTimerEvent due refresh channels perms) := by
  have fired : SameServers c { c with sess := { c.sess with timer := .none } } :=
    ⟨steersSame rfl rfl rfl rfl rfl rfl,rfl,rfl⟩
  unfold Client.onTimerEvent
  dsimp only
  split
  · exact fired
  · exact fired.trans (sessServers _ _ (doDestroySteers _))
  · split
    · exact fired
    · refine fired.trans ?_
      have refreshed : SameServers { c with sess := { c.sess with timer := .none } }
          { c with sess := if due = true ∧ c.sess.state = .ready then
            Session.send { c.sess with timer := .none } .refresh refresh else { c.sess with timer := .none } } := by
        refine ⟨?_,rfl,rfl⟩
        dsimp only
        split
        · exact sendSteers _ .refresh (by simp) refresh
        · exact steersRefl _
      have bound := refreshed.trans (refreshChannelsServers channels _)
      generalize channels.foldl Client.refreshChannel _ = mid at bound ⊢
      refine bound.trans ⟨?_,rfl,rfl⟩
      cases perms with
      | none =>
        dsimp only
        split
        · exact steersRefl _
        · exact startKeepAliveSteers _
      | some sending =>
        have sent := sendSteers mid.sess .createPerm (by simp) sending
        dsimp only
        split
        · exact sent
        · exact sent.trans (startKeepAliveSteers _)

inductive Outcome (c out : Client) (usable : Bool) : Prop where
  | steers (same : SameServers c out) (ok : usable = true)
  | waits (before : State.resolved ∉ c.sess.notified) (state : out.sess.state = .resolving) (notified : State.resolved ∉ out.sess.notified)
      (srvAddr : out.sess.srvAddr = none) (tried : out.tried = [])
      (requests : out.sess.requests = c.sess.requests) (ok : usable = true)
  | advances (i : Nat) (known : State.resolved ∈ c.sess.notified) (next : Advances c.sess out.sess i)
      (tried : out.tried = c.tried) (list : out.srvAddrList = c.srvAddrList) (ok : usable = true)
  | tries (i : Nat) (resolved : c.sess.state = .resolved) (here : c.sess.srvAddr = some i)
      (state : out.sess.state = .allocating) (srvAddr : out.sess.srvAddr = c.sess.srvAddr)
      (count : out.sess.srvAddrCnt = c.sess.srvAddrCnt) (notified : State.resolved ∈ out.sess.notified)
      (dns : out.sess.dns = c.sess.dns) (tried : out.tried = c.tried ++ [i]) (list : out.srvAddrList = c.srvAddrList)
      (ok : usable = true)
  | resolves (list : List SockAddr) (found : Resolves out list) (ok : usable = true ↔ list ≠ [])

theorem Outcome.served {usable : Bool} (outcome : Outcome c out usable) (served : Served c) : Served out := by
  cases outcome with
  | steers same => exact served.steers same.sess same.tried
  | waits before state notified srvAddr tried requests =>
    refine ⟨fun _ => ⟨srvAddr,tried⟩,fun _ => notified,?_,?_,?_,fun known => absurd known notified,?_,?_,?_⟩
    · rw [state]
      exact nofun
    · rw [state]
      exact nofun
    · intro r member method
      rw [requests] at member
      exact absurd (served.allocates r member method) before
    · rw [state]
      exact nofun
    · rw [tried]
      exact nofun
    · rw [tried]
      exact List.nodup_nil
  | advances i known next tried => exact served.advances known next tried
  | tries i resolved here state srvAddr count notified dns tried =>
    have fresh := served.next resolved i here
    refine ⟨fun never => absurd notified never,?_,?_,fun _ => notified,fun _ _ _ => notified,?_,?_,?_,?_⟩
    · rw [state,dns]
      rintro (h | h)
      · contradiction
      · exact absurd (served.known resolved) (served.early (.inr h))
    · rw [state]
      exact nofun
    · rw [srvAddr,here]
      exact fun _ => rfl
    · rw [state]
      exact nofun
    · intro t member j place
      rw [srvAddr,here] at place
      obtain rfl := Option.some.inj place
      rw [tried] at member
      rcases List.mem_append.mp member with old | new
      · exact served.upTo t old i here
      · exact Nat.le_of_eq (List.mem_singleton.mp new)
    · rw [tried]
      exact List.nodup_append.mpr ⟨served.once,List.nodup_singleton i,fun t old u new same =>
        fresh (List.mem_singleton.mp new ▸ same ▸ old)⟩
  | resolves list found => exact found.served

theorem Outcome.selected {usable : Bool} (outcome : Outcome c out usable) (served : Served c) (selected : c.Selected) :
    out.Selected ↔ usable = true := by
  cases outcome with
  | steers same ok => exact iff_of_true (selected.steers same.sess same.srvAddrList) ok
  | waits before state notified srvAddr tried requests ok => exact iff_of_true (fun known => absurd known notified) ok
  | advances i known next tried list ok => exact iff_of_true (selected.advances known next list) ok
  | tries i resolved here state srvAddr count notified dns tried list ok =>
    refine iff_of_true (fun _ => ?_) ok
    rw [srvAddr,count,list]
    exact selected (served.known resolved)
  | resolves list found ok => exact found.selected.trans ok.symm

/- An accepted answer has an address the session can use. -/
def Client.usable (c : Client) : Event → Bool
  | .dns (some record) =>
    c.sess.crashed || !c.sess.dns || c.sess.pendingDestroy || servers c.sess.af record ≠ []
  | _ => true

theorem setServerOutcome (served : Served c) (lookup : Lookup) : Outcome c (c.setServer lookup) true := by
  by_cases null : c.sess.state = .null
  · have before := served.early (.inl null)
    obtain ⟨srvAddr,tried⟩ := served.unresolved before
    have off := served.idle null
    have unsure : (c.sess.setState .resolving).notified = c.sess.notified ++ [.resolving] := by
      rw [Session.setState,null,if_neg nofun]
    have still : State.resolved ∉ (c.sess.setState .resolving).notified := by
      rw [unsure]
      simp [before]
    have steers := setStateSteers c.sess .resolving nofun nofun
    unfold Client.setServer Session.setServer
    rw [if_neg (not_not.mpr null)]
    cases lookup with
    | badTransport => exact .steers ⟨steersRefl c.sess,rfl,by simp [Lookup.addresses]⟩ rfl
    | refused =>
      refine .steers ⟨?_,rfl,by simp [Lookup.addresses]⟩ rfl
      have resolving : c.sess.setState .resolving =
          { c.sess with state := .resolving, notified := c.sess.notified ++ [.resolving] } := by
        rw [Session.setState,null,if_neg nofun]
      change Steers c.sess ((c.sess.setState .resolving).setState .null)
      rw [resolving,Session.setState,if_neg nofun]
      exact ⟨rfl,rfl,id,fun _ => null.symm,by simp,fun _ member _ => member⟩
    | started =>
      refine .waits before (setStateState c.sess .resolving) still (steers.srvAddr.trans srvAddr) tried ?_ rfl
      exact (setStateFrame c.sess .resolving).requests
    | failed => exact .steers ⟨steers,rfl,by simp [Lookup.addresses]⟩ rfl
    | found first rest =>
      have some : (first :: rest).take maxDnsSrvCnt ≠ [] := by simp [maxDnsSrvCnt]
      refine .resolves ((first :: rest).take maxDnsSrvCnt) ?_ (iff_of_true rfl some)
      have dns : (c.sess.setState .resolving).dns = false := by
        rw [(setStateFrame c.sess .resolving).dns,off]
      generalize isStart : ({ c.sess.setState .resolving with
        srvAddrCnt := ((first :: rest).take maxDnsSrvCnt).length, srvAddr := Option.some 0 } : Session) = start
      have resolving : start.state = .resolving := by
        rw [← isStart]
        exact setStateState c.sess .resolving
      have made : start.setState .resolved =
          { start with state := .resolved, notified := start.notified ++ [.resolved] } := by
        rw [Session.setState,resolving,if_neg nofun]
      change Resolves { c with
        sess := ({ c.sess.setState .resolving with
          srvAddrCnt := ((first :: rest).take maxDnsSrvCnt).length, srvAddr := Option.some 0 } : Session).setState .resolved
        srvAddrList := _ } _
      rw [isStart,made]
      refine ⟨rfl,List.mem_append_right _ (List.mem_singleton.mpr rfl),?_,?_,?_,?_,tried⟩
      · rw [← isStart]
        exact dns
      · rw [← isStart]
      · rw [← isStart]
      · exact if_pos ⟨null,some⟩
  · refine .steers ⟨?_,rfl,?_⟩ rfl
    · change Steers c.sess (c.sess.setServer lookup.resolution)
      unfold Session.setServer
      rw [if_pos null]
      exact steersRefl c.sess
    · exact if_neg (fun both => null both.1)

theorem dnsOutcome (served : Served c) (running : c.sess.crashed = false) (on : c.sess.dns = true)
    (result : Option (List SrvEntry)) : Outcome c (c.dnsSrvResolverCb result) (c.usable (.dns result)) := by
  have before := served.early (.inr on)
  obtain ⟨srvAddr,tried⟩ := served.unresolved before
  have other : c.sess.state ≠ .resolved := fun resolved => before (served.known resolved)
  have ends : Steers c.sess (Session.scheduleDestroy (Session.setState { c.sess with dns := false } .destroying)) := by
    have off : Steers c.sess { c.sess with dns := false } := ⟨rfl,rfl,nofun,fun _ => rfl,Iff.rfl,fun _ member _ => member⟩
    exact off.trans ((setStateSteers _ .destroying nofun nofun).trans (scheduleDestroySteers _))
  cases result with
  | none => exact .steers ⟨ends,rfl,ite_self _⟩ rfl
  | some record =>
    unfold Client.dnsSrvResolverCb Session.dnsSrvResolverCb
    by_cases pending : c.sess.pendingDestroy = true
    · refine .steers ⟨?_,rfl,if_pos pending⟩ ?_
      · dsimp only [Option.map_some]
        rw [if_pos pending]
        exact ends
      · simp [Client.usable,pending]
    · have hurried : c.sess.pendingDestroy = false := Bool.eq_false_iff.mpr pending
      have made : Session.setState { c.sess with
            dns := false, srvAddrCnt := (servers c.sess.af record).length, srvAddr := some 0 } .resolved =
          { c.sess with
            dns := false, srvAddrCnt := (servers c.sess.af record).length, srvAddr := some 0, state := .resolved
            notified := c.sess.notified ++ [.resolved] } := by
        rw [Session.setState,if_neg (Ne.symm other)]
      refine .resolves (servers c.sess.af record) ?_ (by simp [Client.usable,running,on,hurried])
      dsimp only [Option.map_some,Option.getD_some]
      rw [if_neg pending,if_neg pending,made]
      have last : State.resolved ∈ c.sess.notified ++ [.resolved] :=
        List.mem_append_right _ (List.mem_singleton.mpr rfl)
      split
      · exact ⟨rfl,last,rfl,rfl,rfl,rfl,tried⟩
      · exact ⟨rfl,last,rfl,rfl,rfl,rfl,tried⟩

theorem allocResolved (sess : Session) (resolved : sess.state = .resolved) (af : Option Family) (sending : Sending) :
    sess.alloc af sending =
      if sess.refuses sending then { sess with allocAf := af }
      else if sending = .notSent then Session.setState { sess with allocAf := af } .allocating
      else (Session.setState { sess with allocAf := af } .allocating).addRequest .allocate := by
  unfold Session.alloc
  split
  · rename_i resolving
    rw [resolved] at resolving
    contradiction
  · rfl
  · rename_i other
    exact absurd resolved other

theorem allocOutcome (served : Served c) (af : Option Family) (peerTcp : Bool) (sending : Sending) :
    Outcome c (c.alloc af peerTcp sending) true := by
  unfold Client.alloc
  split
  · rename_i either
    by_cases resolved : c.sess.state = .resolved
    · rw [allocResolved c.sess resolved]
      by_cases refused : c.sess.refuses sending = true
      · refine .steers ⟨?_,if_neg (fun both => both.2 refused),rfl⟩ rfl
        dsimp only
        rw [if_pos refused]
        exact steersSame rfl rfl rfl rfl rfl rfl
      · obtain ⟨i,here⟩ := Option.isSome_iff_exists.mp (served.chosen (served.known resolved))
        have made : Session.setState { c.sess with allocAf := af } .allocating =
            { c.sess with allocAf := af, state := .allocating, notified := c.sess.notified ++ [.allocating] } := by
          rw [Session.setState,resolved,if_neg nofun]
        have known : State.resolved ∈ c.sess.notified ++ [.allocating] :=
          List.mem_append_left _ (served.known resolved)
        have more : (if c.sess.state = .resolved ∧ ¬ c.sess.refuses sending = true then
            c.tried ++ c.sess.srvAddr.toList else c.tried) = c.tried ++ [i] := by
          rw [if_pos ⟨resolved,refused⟩,here]
          rfl
        rw [if_neg refused,made]
        split
        · exact .tries i resolved here rfl rfl rfl known rfl more rfl rfl
        · exact .tries i resolved here rfl rfl rfl known rfl more rfl rfl
    · have resolving : c.sess.state = .resolving := either.resolve_right resolved
      refine .steers ⟨?_,if_neg (fun both => resolved both.1),rfl⟩ rfl
      dsimp only
      unfold Session.alloc
      split
      · exact steersSame rfl rfl rfl rfl rfl rfl
      · contradiction
      · exact steersRefl c.sess
  · exact .steers (sameServersRefl c) rfl

theorem completeOutcome (served : Served c) {number : Nat} {req : Request} (found : c.sess.request number = some req)
    (completion : Completion) (sending : Sending) : Outcome c (c.onRequestComplete req completion sending) true := by
  obtain ⟨member,_⟩ := requestMember found
  have dropped : Steers c.sess (c.sess.dropRequest req.id) :=
    ⟨rfl,rfl,id,fun _ => rfl,Iff.rfl,fun _ inside _ => List.mem_of_mem_filter inside⟩
  have known : req.method = .allocate → State.resolved ∈ c.sess.notified := served.allocates req member
  have courses := onRequestCompleteCourses (c.sess.dropRequest req.id) req.method (fun method => served.chosen (known method))
    completion sending
  unfold Client.onRequestComplete
  dsimp only
  split
  · rename_i bound
    have kept : Steers c.sess ((c.sess.dropRequest req.id).onRequestComplete req.method completion sending) := by
      have good : ¬ completion.good.isNone = true := by
        intro missing
        rw [Option.isNone_iff_eq_none.mp missing] at bound
        exact nomatch bound.2
      rw [bound.1]
      unfold Session.onRequestComplete
      dsimp only
      rw [if_neg (fun both => good both.1)]
      exact dropped
    exact .steers ((sessServers c _ kept).trans (channelBoundServers _ req.id)) rfl
  · rcases courses with steers | ⟨i,next⟩
    · exact .steers ⟨dropped.trans steers,rfl,rfl⟩ rfl
    · have resolved : State.resolved ∈ c.sess.notified := by
        by_contra never
        have none : (c.sess.dropRequest req.id).srvAddr = none := (served.unresolved never).1
        rw [next.here] at none
        contradiction
      exact .advances i resolved
        ⟨next.here,next.more,next.srvAddr,next.count,next.dns,next.state,next.notified⟩ rfl rfl rfl

theorem stepOutcome (served : Served c) (event : Event) : Outcome c (c.step event) (c.usable event) := by
  unfold Client.step
  split
  · rename_i crashed
    refine .steers (sameServersRefl c) ?_
    cases event with
    | dns result => cases result <;> simp [Client.usable,crashed]
    | _ => rfl
  · rename_i running
    have running : c.sess.crashed = false := Bool.eq_false_iff.mpr running
    cases event with
    | setServer lookup => exact setServerOutcome served lookup
    | dns result =>
      dsimp only
      split
      · rename_i on
        exact dnsOutcome served running on result
      · rename_i off
        refine .steers (sameServersRefl c) ?_
        cases result <;> simp [Client.usable,off]
    | alloc af peerTcp sending => exact allocOutcome served af peerTcp sending
    | setPerm sending => exact .steers (sessServers c _ (setPermSteers c.sess sending)) rfl
    | sendTo peer permitted pktLen sending => exact .steers (sendToServers c peer permitted pktLen sending) rfl
    | bindChannel peer sending => exact .steers (bindChannelServers c peer sending) rfl
    | connectionBind sending => exact .steers (sessServers c _ (bindSteers c.sess .connectionBind nofun sending)) rfl
    | shutdown sending => exact .steers (sessServers c _ (sessShutdownSteers c.sess sending)) rfl
    | destroy => exact .steers (sessServers c _ (endSteers c.sess)) rfl
    | complete number completion sending =>
      dsimp only
      split
      · exact .steers (sameServersRefl c) rfl
      · rename_i req found
        exact completeOutcome served found completion sending
    | lost =>
      exact .steers ⟨⟨rfl,rfl,id,fun _ => rfl,Iff.rfl,fun _ inside _ => List.mem_of_mem_filter inside⟩,rfl,rfl⟩ rfl
    | timer due refresh channels perms => exact .steers (onTimerEventServers c due refresh channels perms) rfl

end Serving

/- Every event of a run meets a condition on the state before it. -/
def Client.everyEvent (ok : Client → Event → Bool) : Client → List Event → Bool
  | _, [] => true
  | c, event :: rest => ok c event && (c.step event).everyEvent ok rest

theorem freshServed {c : Client} (fresh : c.Fresh) : Served c ∧ c.Selected := by
  have never : State.resolved ∉ c.sess.notified := by
    rw [fresh.sess.notified]
    exact List.not_mem_nil
  refine ⟨⟨fun _ => ⟨fresh.srvAddr,fresh.tried⟩,fun _ => never,fun _ => fresh.sess.dns,?_,?_,
    fun known => absurd known never,?_,?_,?_⟩,fun known => absurd known never⟩
  · rw [fresh.sess.state]
    exact nofun
  · rw [fresh.sess.requests]
    exact nofun
  · rw [fresh.sess.state]
    exact nofun
  · rw [fresh.tried]
    exact nofun
  · rw [fresh.tried]
    exact List.nodup_nil

theorem runServed (events : List Event) {c : Client} (served : Served c) : Served (c.run events) := by
  induction events generalizing c with
  | nil => exact served
  | cons event rest ih => exact ih ((stepOutcome served event).served served)

theorem runSelected (events : List Event) {c : Client} (served : Served c) (selected : c.Selected) :
    (∀ first rest, events = first ++ rest → (c.run first).Selected) ↔ c.everyEvent Client.usable events = true := by
  induction events generalizing c with
  | nil =>
    refine iff_of_true (fun first rest whole => ?_) rfl
    obtain ⟨rfl,_⟩ := List.append_eq_nil_iff.mp whole.symm
    exact selected
  | cons event later ih =>
    have outcome := stepOutcome served event
    have now := outcome.selected served selected
    have next := outcome.served served
    constructor
    · intro always
      have first := now.mp (always [event] later rfl)
      refine Bool.and_eq_true_iff.mpr ⟨first,(ih next (now.mpr first)).mp ?_⟩
      intro some rest whole
      exact always (event :: some) rest (by rw [whole,List.cons_append])
    · intro every
      obtain ⟨first,others⟩ := Bool.and_eq_true_iff.mp every
      have onward := (ih next (now.mpr first)).mpr others
      intro some rest whole
      cases some with
      | nil => exact selected
      | cons head tail =>
        obtain ⟨rfl,split⟩ := List.cons.inj whole
        exact onward tail rest split

theorem serverSelection {c : Client} (fresh : c.Fresh) (events : List Event) :
    (∀ first rest, events = first ++ rest → (c.run first).Selected ∧ (c.run first).tried.Nodup) ↔
      c.everyEvent Client.usable events = true := by
  obtain ⟨served,selected⟩ := freshServed fresh
  rw [← runSelected events served selected]
  refine ⟨fun always first rest whole => (always first rest whole).1,fun always first rest whole => ?_⟩
  exact ⟨always first rest whole,(runServed first served).once⟩

theorem newClient (af : Family) : Client.Fresh { sess := { af := af } } :=
  ⟨⟨rfl,rfl,rfl,rfl,rfl,rfl⟩,rfl,rfl,rfl,rfl,rfl,rfl,rfl,rfl⟩

/- Two servers are tried one after the other. -/
def secondServer : List Event :=
  [.setServer .started,.dns (some [⟨3478,[.inet fun _ => 2]⟩,⟨3479,[.inet fun _ => 3]⟩]),
    .alloc none false .sent,.complete 0 ⟨false,none⟩ .sent,.alloc none false .sent]

theorem secondServerTried :
    (Client.run {} secondServer).tried = [0,1] ∧ (Client.run {} secondServer).Selected ∧
      (Client.run {} secondServer).tried.Nodup := by
  have usable : Client.everyEvent Client.usable {} secondServer = true := by decide +kernel
  have always := (serverSelection (newClient .inet) secondServer).mpr usable
  exact ⟨by decide +kernel,always secondServer [] (List.append_nil _).symm⟩

/- An IPv6 session without a default port: the SRV query is answered without an SRV record, so the resolver clears its
options and asks for an A record, whose address is accepted. -/
def otherFamily : List Event := [.setServer .started,.dns (some [⟨0,[.inet fun _ => 1]⟩])]

theorem otherFamilyAccepted :
    ¬ ∀ c : Client, c.Fresh → ∀ events : List Event, (c.run events).Selected ∧ (c.run events).tried.Nodup := by
  intro claim
  have selected := (claim _ (newClient .inet6) otherFamily).1
  generalize result : Client.run { sess := { af := .inet6 } } otherFamily = out at selected
  have accepted : State.resolved ∈ out.sess.notified ∧ out.sess.srvAddrCnt = 0 := by
    rw [← result]
    decide +kernel
  obtain ⟨i,_,below,_⟩ := selected accepted.1
  rw [accepted.2] at below
  exact Nat.not_lt_zero i below

end Pjproject.Turn
