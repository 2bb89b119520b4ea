import Pjproject.TurnSession
import Pjproject.Lib.Keyed

/-! What a TURN session waits for. A resolution, an Allocate and Refresh requests are outstanding one kind at a time, and
each in the states that wait for it; a shutdown that is pending therefore ends with what is outstanding. -/
namespace Pjproject.Turn
open Lib.Keyed
open Stun (Msg SockAddr findAttr)

def Session.count (sess : Session) (method : Method) : Nat := sess.requests.countP (fun r => r.method = method)

structure Numbered (sess : Session) : Prop where
  ids : (sess.requests.map Request.id).Nodup
  below : ∀ r ∈ sess.requests, r.id < sess.created

structure Waits (sess : Session) : Prop where
  dnsAlone : sess.dns = true → sess.count .allocate = 0 ∧ sess.count .refresh = 0 ∧
    (sess.state = .resolving ∨ sess.state = .destroying)
  allocateAlone : 0 < sess.count .allocate → sess.count .allocate = 1 ∧ sess.count .refresh = 0 ∧
    (sess.state = .allocating ∨ sess.state = .destroying)
  refreshIn : 0 < sess.count .refresh →
    sess.state = .ready ∨ sess.state = .deallocating ∨ sess.state = .destroying
  resolving : sess.state = .resolving → sess.dns = true
  allocating : sess.state = .allocating → sess.isDestroying = true ∨ 0 < sess.count .allocate
  pending : sess.pendingDestroy = true →
    sess.state = .resolving ∨ sess.state = .allocating ∨ sess.state = .deallocating ∨ sess.state = .destroying

structure Frame (sess out : Session) : Prop where
  dns : out.dns = sess.dns
  requests : out.requests = sess.requests
  created : out.created = sess.created
  pendingDestroy : out.pendingDestroy = sess.pendingDestroy
  isDestroying : out.isDestroying = sess.isDestroying

theorem Frame.trans {a b c : Session} (first : Frame a b) (next : Frame b c) : Frame a c :=
  ⟨next.dns.trans first.dns,next.requests.trans first.requests,next.created.trans first.created,
    next.pendingDestroy.trans first.pendingDestroy,next.isDestroying.trans first.isDestroying⟩

@[simp] theorem setStateState (sess : Session) (state : State) : (sess.setState state).state = state := by
  unfold Session.setState
  split
  · rename_i same
    exact same.symm
  · rfl

theorem setStateFrame (sess : Session) (state : State) : Frame sess (sess.setState state) := by
  unfold Session.setState
  split <;> exact ⟨rfl,rfl,rfl,rfl,rfl⟩

theorem scheduleDestroyFrame (sess : Session) : Frame sess sess.scheduleDestroy := by
  have frame := setStateFrame sess .destroying
  exact ⟨frame.dns,frame.requests,frame.created,frame.pendingDestroy,frame.isDestroying⟩

theorem scheduleDestroyState (sess : Session) : sess.scheduleDestroy.state = .destroying := setStateState sess .destroying

variable {sess out : Session} {method : Method} {id : Nat} {req : Request}

theorem Frame.count (frame : Frame sess out) (method : Method) : out.count method = sess.count method := by
  unfold Session.count
  rw [frame.requests]

theorem addRequestCount (sess : Session) (method other : Method) :
    (sess.addRequest method).count other = sess.count other + if method = other then 1 else 0 := by
  unfold Session.count Session.addRequest
  dsimp only
  rw [List.countP_append,List.countP_singleton]
  simp

theorem Waits.arrives (waits : Waits sess) (dns : out.dns = sess.dns)
    (requests : out.requests = sess.requests) (state : out.state = .destroying) : Waits out := by
  have count : ∀ method, out.count method = sess.count method := by
    intro method
    unfold Session.count
    rw [requests]
  refine ⟨?_,?_,?_,?_,?_,?_⟩
  · intro has
    obtain ⟨noAllocate,noRefresh,_⟩ := waits.dnsAlone (dns ▸ has)
    exact ⟨(count _).trans noAllocate,(count _).trans noRefresh,Or.inr state⟩
  · intro has
    rw [count] at has
    obtain ⟨one,noRefresh,_⟩ := waits.allocateAlone has
    exact ⟨(count _).trans one,(count _).trans noRefresh,Or.inr state⟩
  · exact fun _ => Or.inr (Or.inr state)
  · intro other
    rw [state] at other
    contradiction
  · intro other
    rw [state] at other
    contradiction
  · exact fun _ => Or.inr (Or.inr (Or.inr state))

theorem Waits.ends (waits : Waits sess) (frame : Frame sess out) : Waits out.scheduleDestroy := by
  have next := frame.trans (scheduleDestroyFrame out)
  exact waits.arrives next.dns next.requests (scheduleDestroyState out)

theorem calmWaits (resolving : out.state ≠ .resolving) (allocating : out.state ≠ .allocating)
    (dns : out.dns = false) (allocate : out.count .allocate = 0)
    (refresh : 0 < out.count .refresh → out.state = .ready ∨ out.state = .deallocating ∨ out.state = .destroying)
    (pending : out.pendingDestroy = true → out.state = .deallocating ∨ out.state = .destroying) : Waits out := by
  refine ⟨?_,?_,refresh,?_,?_,?_⟩
  · intro has
    rw [dns] at has
    contradiction
  · intro has
    rw [allocate] at has
    exact absurd has (Nat.lt_irrefl 0)
  · exact fun other => absurd other resolving
  · exact fun other => absurd other allocating
  · exact fun has => Or.inr (Or.inr (pending has))

theorem Waits.rest (waits : Waits sess) (state : sess.state = .null ∨ sess.state = .resolved) :
    sess.dns = false ∧ sess.count .allocate = 0 ∧ sess.count .refresh = 0 ∧ sess.pendingDestroy = false := by
  refine ⟨?_,?_,?_,?_⟩
  · by_contra has
    have place := (waits.dnsAlone (by simpa using has)).2.2
    rcases state with is | is <;> simp [is] at place
  · by_contra has
    have place := (waits.allocateAlone (Nat.pos_of_ne_zero has)).2.2
    rcases state with is | is <;> simp [is] at place
  · by_contra has
    have place := waits.refreshIn (Nat.pos_of_ne_zero has)
    rcases state with is | is <;> simp [is] at place
  · by_contra has
    have place := waits.pending (by simpa using has)
    rcases state with is | is <;> simp [is] at place

/- The failing resolution and the failing Allocate that leave the session where it is, and an Allocate that is lost. -/
def Session.keepsWaiting (sess : Session) : Input → Bool
  | .setServer .failed => sess.state ≠ .null
  | .alloc _ .notSent => sess.state ≠ .resolved || sess.isDestroying
  | .lost id => (sess.request id).all (fun r => r.method ≠ .allocate)
  | _ => true

theorem sendWaits (waits : Waits sess) (method : Method) (sending : Sending)
    (notAllocate : method ≠ .allocate) (ready : method = .refresh → sess.state = .ready) :
    Waits (sess.send method sending) := by
  unfold Session.send
  split
  · exact waits
  · have allocate : (sess.addRequest method).count .allocate = sess.count .allocate := by
      rw [addRequestCount,if_neg notAllocate]
      rfl
    by_cases isRefresh : method = .refresh
    · have state := ready isRefresh
      refine calmWaits ?_ ?_ ?_ ?_ (fun _ => Or.inl state) ?_
      · change sess.state ≠ .resolving
        rw [state]
        decide
      · change sess.state ≠ .allocating
        rw [state]
        decide
      · by_contra has
        have place := (waits.dnsAlone (by simpa [Session.addRequest] using has)).2.2
        rw [state] at place
        simp at place
      · rw [allocate]
        by_contra has
        have place := (waits.allocateAlone (Nat.pos_of_ne_zero has)).2.2
        rw [state] at place
        simp at place
      · intro has
        have place := waits.pending has
        rw [state] at place
        simp at place
    · have refresh : (sess.addRequest method).count .refresh = sess.count .refresh := by
        rw [addRequestCount,if_neg isRefresh]
        rfl
      refine ⟨?_,?_,?_,waits.resolving,?_,waits.pending⟩
      · rw [allocate,refresh]
        exact waits.dnsAlone
      · rw [allocate,refresh]
        exact waits.allocateAlone
      · rw [refresh]
        exact waits.refreshIn
      · rw [allocate]
        exact waits.allocating

theorem Waits.noneWhenReady (waits : Waits sess) (ready : sess.state = .ready) :
    sess.dns = false ∧ sess.count .allocate = 0 ∧ sess.pendingDestroy = false := by
  refine ⟨?_,?_,?_⟩
  · by_contra has
    have place := (waits.dnsAlone (by simpa using has)).2.2
    simp [ready] at place
  · by_contra has
    have place := (waits.allocateAlone (Nat.pos_of_ne_zero has)).2.2
    simp [ready] at place
  · by_contra has
    have place := waits.pending (by simpa using has)
    simp [ready] at place

/- A session whose Allocate has completed: nothing that is waited for is outstanding. -/
structure Idle (sess : Session) : Prop where
  dns : sess.dns = false
  allocate : sess.count .allocate = 0
  refresh : sess.count .refresh = 0

theorem Idle.frame (idle : Idle sess) (frame : Frame sess out) : Idle out :=
  ⟨frame.dns.trans idle.dns,(frame.count _).trans idle.allocate,(frame.count _).trans idle.refresh⟩

theorem Idle.waits (idle : Idle sess) (resolving : sess.state ≠ .resolving) (allocating : sess.state ≠ .allocating)
    (pending : sess.pendingDestroy = true → sess.state = .deallocating ∨ sess.state = .destroying) : Waits sess := by
  refine calmWaits resolving allocating idle.dns idle.allocate ?_ pending
  intro has
  rw [idle.refresh] at has
  exact absurd has (Nat.lt_irrefl 0)

theorem Idle.ends (idle : Idle sess) (frame : Frame sess out) : Waits out.scheduleDestroy := by
  have state := scheduleDestroyState out
  refine (idle.frame (frame.trans (scheduleDestroyFrame out))).waits ?_ ?_ (fun _ => Or.inr state)
  · rw [state]
    decide
  · rw [state]
    decide

theorem Idle.onSessionFail (idle : Idle sess) (method : Method) (unhurried : sess.pendingDestroy = false) :
    Waits (sess.onSessionFail method) := by
  unfold Session.onSessionFail
  split
  · have frame := setStateFrame { sess with srvAddr := sess.srvAddr.map (· + 1) } .resolved
    have next : Idle (Session.setState { sess with srvAddr := sess.srvAddr.map (· + 1) } .resolved) :=
      ⟨frame.dns.trans idle.dns,(frame.count _).trans idle.allocate,(frame.count _).trans idle.refresh⟩
    refine next.waits (by simp) (by simp) ?_
    intro has
    rw [frame.pendingDestroy] at has
    change sess.pendingDestroy = true at has
    rw [unhurried] at has
    contradiction
  · exact idle.ends (setStateFrame sess .deallocated)

theorem Numbered.frame (numbered : Numbered sess) (frame : Frame sess out) : Numbered out := by
  refine ⟨?_,?_⟩
  · rw [frame.requests]
    exact numbered.ids
  · rw [frame.requests,frame.created]
    exact numbered.below

theorem Numbered.add (numbered : Numbered sess) (method : Method) : Numbered (sess.addRequest method) := by
  refine ⟨?_,?_⟩
  · change ((sess.requests ++ [Request.mk sess.created method]).map Request.id).Nodup
    rw [List.map_append,List.map_singleton,List.nodup_append]
    refine ⟨numbered.ids,List.nodup_singleton _,?_⟩
    intro id old other new
    obtain ⟨r,inside,isId⟩ := List.mem_map.mp old
    have below := numbered.below r inside
    have isNew : other = sess.created := List.mem_singleton.mp new
    omega
  · intro r inside
    change r.id < sess.created + 1
    rcases List.mem_append.mp inside with old | new
    · exact Nat.lt_succ_of_lt (numbered.below r old)
    · rw [List.mem_singleton.mp new]
      exact Nat.lt_succ_self _

theorem Numbered.drop (numbered : Numbered sess) (id : Nat) : Numbered (sess.dropRequest id) :=
  ⟨eraseKeys numbered.ids _,fun r inside => numbered.below r (List.mem_of_mem_filter inside)⟩

theorem Numbered.send (numbered : Numbered sess) (method : Method) (sending : Sending) :
    Numbered (sess.send method sending) := by
  unfold Session.send
  split
  · exact numbered
  · exact numbered.add method

theorem Numbered.deallocate (numbered : Numbered sess) (sending : Sending) :
    Numbered (sess.deallocate sending) := by
  unfold Session.deallocate
  split
  · exact numbered.frame ((setStateFrame sess .deallocated).trans (scheduleDestroyFrame _))
  · have first := setStateFrame sess .deallocating
    dsimp only
    split
    · exact numbered.frame ((first.trans (setStateFrame _ .deallocated)).trans (scheduleDestroyFrame _))
    · exact (numbered.frame first).add .refresh

theorem Numbered.sessShutdown (numbered : Numbered sess) (sending : Sending) :
    Numbered (sess.sessShutdown sending) := by
  unfold Session.sessShutdown
  split
  · exact numbered.frame (scheduleDestroyFrame sess)
  · exact ⟨numbered.ids,numbered.below⟩
  · exact numbered.frame (scheduleDestroyFrame sess)
  · exact ⟨numbered.ids,numbered.below⟩
  · exact numbered.deallocate sending
  · exact numbered
  · exact numbered.frame (scheduleDestroyFrame sess)
  · exact numbered.frame (scheduleDestroyFrame sess)

theorem Numbered.setServer (numbered : Numbered sess) (resolution : Resolution) :
    Numbered (sess.setServer resolution) := by
  have first := numbered.frame (setStateFrame sess .resolving)
  unfold Session.setServer
  split
  · exact numbered
  · cases resolution with
    | badTransport => exact numbered
    | refused => exact first.frame (setStateFrame _ .null)
    | started => exact ⟨first.ids,first.below⟩
    | failed => exact first
    | found count =>
      have next : Numbered { sess.setState .resolving with srvAddrCnt := count, srvAddr := some 0 } :=
        ⟨first.ids,first.below⟩
      exact next.frame (setStateFrame _ .resolved)

theorem Numbered.alloc (numbered : Numbered sess) (af : Option Family) (sending : Sending) :
    Numbered (sess.alloc af sending) := by
  have next : Numbered { sess with allocAf := af } := ⟨numbered.ids,numbered.below⟩
  unfold Session.alloc
  split
  · exact ⟨numbered.ids,numbered.below⟩
  · dsimp only
    split
    · exact next
    · have moved := next.frame (setStateFrame _ .allocating)
      split
      · exact moved
      · exact moved.add .allocate
  · exact numbered

theorem Numbered.onSessionFail (numbered : Numbered sess) (method : Method) :
    Numbered (sess.onSessionFail method) := by
  unfold Session.onSessionFail
  split
  · have next : Numbered { sess with srvAddr := sess.srvAddr.map (· + 1) } := ⟨numbered.ids,numbered.below⟩
    exact next.frame (setStateFrame _ .resolved)
  · exact numbered.frame ((setStateFrame sess .deallocated).trans (scheduleDestroyFrame _))

theorem onAllocateSuccessShape (sess : Session) (method : Method) (msg : Msg) :
    sess.onAllocateSuccess method msg = (sess.setState .deallocated).scheduleDestroy ∨
      sess.onAllocateSuccess method msg = sess.onSessionFail method ∨
      (Frame sess (sess.onAllocateSuccess method msg) ∧ (sess.onAllocateSuccess method msg).state =
        if sess.state.num < State.deallocating.num then .ready else sess.state) := by
  unfold Session.onAllocateSuccess
  split
  · exact Or.inr (Or.inl rfl)
  · split
    · exact Or.inl rfl
    · split
      · exact Or.inr (Or.inl rfl)
      · dsimp only
        split
        · exact Or.inr (Or.inl rfl)
        · refine Or.inr (Or.inr ?_)
          have stopped : ∀ out : Session,
              Frame out (if out.timer = TimerId.keepAlive then { out with timer := TimerId.none } else out) ∧
                (if out.timer = TimerId.keepAlive then { out with timer := TimerId.none } else out).state = out.state := by
            intro out
            split <;> exact ⟨⟨rfl,rfl,rfl,rfl,rfl⟩,rfl⟩
          obtain ⟨same,state⟩ := stopped
            { sess with relayAddr := ((findAttr msg attrXorRelayedAddr).map Attr.sockaddr).or sess.relayAddr }
          have first : ∀ relay : Option SockAddr, Frame sess { sess with relayAddr := relay } :=
            fun _ => ⟨rfl,rfl,rfl,rfl,rfl⟩
          have frame := (first _).trans same
          rw [state]
          split
          · have kept : ∀ out : Session, Frame out out.startKeepAlive := by
              intro out
              unfold Session.startKeepAlive
              split <;> exact ⟨rfl,rfl,rfl,rfl,rfl⟩
            exact ⟨(frame.trans (kept _)).trans (setStateFrame _ .ready),setStateState _ _⟩
          · exact ⟨frame,state⟩

theorem failureEnds (sess : Session) (notAllocate : method ≠ .allocate) :
    sess.onSessionFail method = (sess.setState .deallocated).scheduleDestroy := by
  unfold Session.onSessionFail
  exact if_neg (fun both => notAllocate both.1)

theorem Waits.same (waits : Waits sess) (dns : out.dns = sess.dns)
    (allocate : out.count .allocate = sess.count .allocate) (refresh : out.count .refresh = sess.count .refresh)
    (state : out.state = sess.state) (destroying : out.isDestroying = sess.isDestroying)
    (pending : out.pendingDestroy = sess.pendingDestroy) : Waits out := by
  refine ⟨?_,?_,?_,?_,?_,?_⟩
  · rw [dns,allocate,refresh,state]
    exact waits.dnsAlone
  · rw [allocate,refresh,state]
    exact waits.allocateAlone
  · rw [refresh,state]
    exact waits.refreshIn
  · rw [state,dns]
    exact waits.resolving
  · rw [state,destroying,allocate]
    exact waits.allocating
  · rw [pending,state]
    exact waits.pending

theorem requestMember (found : sess.request id = some req) : req ∈ sess.requests ∧ req.id = id :=
  ⟨List.mem_of_find?_eq_some found,by simpa using List.find?_some found⟩

theorem Idle.onAllocateSuccess (idle : Idle sess)
    (place : sess.state = .allocating ∨ sess.state = .destroying) (unhurried : sess.pendingDestroy = false) (msg : Msg) :
    Waits (sess.onAllocateSuccess .allocate msg) := by
  rcases onAllocateSuccessShape sess .allocate msg with ended | failed | ⟨frame,state⟩
  · rw [ended]
    exact idle.ends (setStateFrame sess .deallocated)
  · rw [failed]
    exact idle.onSessionFail .allocate unhurried
  · have notPending : (sess.onAllocateSuccess .allocate msg).pendingDestroy ≠ true := by
      rw [frame.pendingDestroy,unhurried]
      decide
    have there : (sess.onAllocateSuccess .allocate msg).state = .ready ∨
        (sess.onAllocateSuccess .allocate msg).state = .destroying := by
      rcases place with is | is <;> rw [is] at state <;> simp [State.num] at state
      · exact Or.inl state
      · exact Or.inr state
    refine (idle.frame frame).waits ?_ ?_ (fun has => absurd has notPending)
    · rcases there with is | is <;> rw [is] <;> decide
    · rcases there with is | is <;> rw [is] <;> decide

/- A session that only waits for Refresh requests. -/
structure Released (sess : Session) : Prop where
  dns : sess.dns = false
  allocate : sess.count .allocate = 0
  state : sess.state = .ready ∨ sess.state = .deallocating ∨ sess.state = .destroying
  pending : sess.pendingDestroy = true → sess.state = .deallocating ∨ sess.state = .destroying

theorem Released.waits (released : Released sess) : Waits sess := by
  refine calmWaits ?_ ?_ released.dns released.allocate (fun _ => released.state) released.pending
  · rcases released.state with is | is | is <;> rw [is] <;> decide
  · rcases released.state with is | is | is <;> rw [is] <;> decide

theorem Released.ends (released : Released sess) (frame : Frame sess out) : Waits out.scheduleDestroy :=
  released.waits.ends frame

theorem Waits.released (waits : Waits sess) (has : 0 < sess.count .refresh) : Released sess := by
  have place := waits.refreshIn has
  refine ⟨?_,?_,place,?_⟩
  · by_contra dns
    have none := (waits.dnsAlone (by simpa using dns)).2.1
    omega
  · by_contra allocate
    have none := (waits.allocateAlone (Nat.pos_of_ne_zero allocate)).2.1
    omega
  · intro pending
    rcases place with is | there
    · have unhurried := (waits.noneWhenReady is).2.2
      rw [unhurried] at pending
      contradiction
    · exact there

theorem Released.onAllocateSuccess (released : Released sess) (msg : Msg) :
    Waits (sess.onAllocateSuccess .refresh msg) := by
  have failed : sess.onSessionFail .refresh = (sess.setState .deallocated).scheduleDestroy :=
    failureEnds sess (by decide)
  rcases onAllocateSuccessShape sess .refresh msg with ended | ends | ⟨frame,state⟩
  · rw [ended]
    exact released.ends (setStateFrame sess .deallocated)
  · rw [ends,failed]
    exact released.ends (setStateFrame sess .deallocated)
  · have same : (sess.onAllocateSuccess .refresh msg).state = sess.state := by
      rw [state]
      rcases released.state with is | is | is <;> rw [is] <;> rfl
    exact released.waits.same frame.dns (frame.count _) (frame.count _) same frame.isDestroying frame.pendingDestroy

theorem Numbered.onAllocateSuccess (numbered : Numbered sess) (method : Method) (msg : Msg) :
    Numbered (sess.onAllocateSuccess method msg) := by
  rcases onAllocateSuccessShape sess method msg with ended | failed | ⟨frame,_⟩
  · rw [ended]
    exact numbered.frame ((setStateFrame sess .deallocated).trans (scheduleDestroyFrame _))
  · rw [failed]
    exact numbered.onSessionFail method
  · exact numbered.frame frame

theorem Numbered.onRequestComplete (numbered : Numbered sess) (method : Method) (c : Completion)
    (sending : Sending) : Numbered (sess.onRequestComplete method c sending) := by
  unfold Session.onRequestComplete
  cases method with
  | allocate =>
    dsimp only
    split
    · have next : Numbered { sess with state := if c.success then .ready else .deallocated } :=
        ⟨numbered.ids,numbered.below⟩
      exact next.sessShutdown sending
    · split
      · exact numbered.onAllocateSuccess .allocate _
      · exact numbered.onSessionFail .allocate
  | refresh =>
    dsimp only
    split
    · exact numbered.onAllocateSuccess .refresh _
    · exact numbered.onSessionFail .refresh
  | channelBind =>
    dsimp only
    split
    · exact numbered.onSessionFail .channelBind
    · exact numbered
  | createPerm =>
    dsimp only
    split
    · exact numbered.onSessionFail .createPerm
    · exact numbered
  | connectionBind => exact numbered

theorem Numbered.dnsSrvResolverCb (numbered : Numbered sess) (result : Option Nat) :
    Numbered (sess.dnsSrvResolverCb result) := by
  have ended := (numbered.frame (setStateFrame sess .destroying)).frame (scheduleDestroyFrame _)
  unfold Session.dnsSrvResolverCb
  cases result with
  | none => exact ended
  | some count =>
    dsimp only
    split
    · exact ended
    · have moved : Numbered (Session.setState { sess with srvAddrCnt := count, srvAddr := some 0 } .resolved) := by
        have next : Numbered { sess with srvAddrCnt := count, srvAddr := some 0 } := ⟨numbered.ids,numbered.below⟩
        exact next.frame (setStateFrame _ .resolved)
      split
      · exact ⟨moved.ids,moved.below⟩
      · exact moved

structure Waiting (sess : Session) : Prop where
  numbered : Numbered sess
  waits : Waits sess

theorem Waiting.send (waiting : Waiting sess) (method : Method) (sending : Sending)
    (notAllocate : method ≠ .allocate) (ready : method = .refresh → sess.state = .ready) :
    Waiting (sess.send method sending) :=
  ⟨waiting.numbered.send method sending,sendWaits waiting.waits method sending notAllocate ready⟩

theorem Waiting.bind (waiting : Waiting sess) (sending : Sending)
    (notAllocate : method ≠ .allocate) : Waiting (sess.bind method sending) := by
  unfold Session.bind
  split
  · rename_i ready
    exact waiting.send method sending notAllocate (fun _ => ready)
  · exact waiting

theorem Waiting.setPerm (waiting : Waiting sess) (sending : Sending) : Waiting (sess.setPerm sending) := by
  have waits := waiting.waits
  unfold Session.setPerm
  split
  · exact waiting
  · split
    · exact ⟨⟨waiting.numbered.ids,waiting.numbered.below⟩,
        waits.same rfl rfl rfl rfl rfl rfl⟩
    · exact waiting.send .createPerm sending (by decide) (fun other => absurd other (by decide))

theorem Waiting.startKeepAlive (waiting : Waiting sess) : Waiting sess.startKeepAlive := by
  unfold Session.startKeepAlive
  split
  · exact waiting
  · exact ⟨⟨waiting.numbered.ids,waiting.numbered.below⟩,waiting.waits.same rfl rfl rfl rfl rfl rfl⟩

theorem Waiting.doDestroy (waiting : Waiting sess) : Waiting sess.doDestroy := by
  unfold Session.doDestroy
  split
  · exact waiting
  · refine ⟨⟨List.nodup_nil,fun r inside => absurd inside List.not_mem_nil⟩,?_⟩
    refine ⟨?_,?_,?_,waiting.waits.resolving,fun _ => Or.inl rfl,waiting.waits.pending⟩
    · exact fun has => ⟨rfl,rfl,(waiting.waits.dnsAlone has).2.2⟩
    · exact fun has => absurd has (Nat.lt_irrefl 0)
    · exact fun has => absurd has (Nat.lt_irrefl 0)

theorem Waiting.binds (waiting : Waiting sess) (channels : List Sending) :
    Waiting (channels.foldl (fun sess sending => sess.bind .channelBind sending) sess) := by
  induction channels generalizing sess with
  | nil => exact waiting
  | cons sending rest ih => exact ih (waiting.bind sending (by decide))

theorem Waiting.onTimerEvent (waiting : Waiting sess) (due : Bool) (refresh : Sending)
    (channels : List Sending) (perms : Option Sending) : Waiting (sess.onTimerEvent due refresh channels perms) := by
  have fired : Waiting { sess with timer := .none } :=
    ⟨⟨waiting.numbered.ids,waiting.numbered.below⟩,waiting.waits.same rfl rfl rfl rfl rfl rfl⟩
  unfold Session.onTimerEvent
  dsimp only
  split
  · exact fired
  · exact fired.doDestroy
  · split
    · exact fired
    · have refreshed : Waiting (if due = true ∧ sess.state = .ready then
          Session.send { sess with timer := .none } .refresh refresh else { sess with timer := .none }) := by
        split
        · rename_i both
          exact fired.send .refresh refresh (by decide) (fun _ => both.2)
        · exact fired
      have bound := refreshed.binds channels
      cases perms with
      | none =>
        dsimp only
        split
        · exact bound
        · exact bound.startKeepAlive
      | some sending =>
        have sent := bound.send .createPerm sending (by decide) (fun other => absurd other (by decide))
        dsimp only
        split
        · exact sent
        · exact sent.startKeepAlive

/- Every step of a run meets a condition on the session before it. -/
def Session.everyStep (holds : Session → Input → Bool) (sess : Session) : List Input → Bool
  | [] => true
  | input :: rest => holds sess input && (sess.step input).everyStep holds rest

theorem outstanding (has : 0 < sess.count method) : ∃ r ∈ sess.requests, r.method = method := by
  obtain ⟨r,inside,isMethod⟩ := List.countP_pos_iff.mp has
  exact ⟨r,inside,of_decide_eq_true isMethod⟩

end Pjproject.Turn
