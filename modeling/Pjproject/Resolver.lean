import Pjproject.DnsCache

/-! The asynchronous queries of resolver.c. Queries on one resource hang below the first of them, which two hash tables and a
timer know; every section of code under the lock is one step, and so is every callback. A function returns none where the code
would use freed memory or call a NULL callback. -/
namespace Pjproject.Dns

/- struct res_key. -/
structure ResKey where
  qtype : UInt16
  name : List Char
  deriving DecidableEq

def maxHostname : Nat := 128

/- The array of a key is filled up with NULs, so a name that ends in them is the one without. -/
def resName (name : List Char) : List Char := (name.rdropWhile (·.toNat = 0)).map Char.toLower

def initResKey (type : Nat) (name : List Char) : ResKey := ⟨UInt16.ofNat type,resName (name.take maxHostname)⟩

/- pj_dns_async_query. A callback is known by the number of the start_query call that it came with. -/
structure Query where
  id : UInt16 := 0
  transmitCnt : Nat := 0
  key : ResKey := ⟨0,[]⟩
  timerId : Bool := false
  cb : Option Nat := none
  children : List Nat := []
  deriving DecidableEq

inductive DnsStatus where
  | rcode (code : Nat)
  | timedOut
  | cancelled
  deriving DecidableEq

/- A query that has left the tables while the callbacks on it run, and the nodes whose callback is still to come. -/
structure Delivery where
  query : Nat
  status : DnsStatus
  pkt : Option Packet
  left : List Nat
  deriving DecidableEq

structure Call where
  token : Nat
  status : DnsStatus
  pkt : Option Packet
  deriving DecidableEq

/- pj_dns_resolver. The fields from `tokens` on are not in the source: how many callbacks start_query was given, for which
resource the successful ones asked, which were cancelled, and what was called. -/
structure Resolver where
  cache : Cache ResKey
  qretrCount : Nat
  lastId : UInt16 := 1
  queries : Nat → Query := fun _ => {}
  fresh : Nat := 0
  byId : UInt16 → Option Nat := fun _ => none
  byRes : ResKey → Option Nat := fun _ => none
  timers : Nat → Bool := fun _ => false
  freeNodes : List Nat := []
  deliveries : List Delivery := []
  tokens : Nat := 0
  asked : Nat → Option ResKey := fun _ => none
  cancelled : Nat → Bool := fun _ => false
  calls : List Call := []

def Resolver.write (resv : Resolver) (node : Nat) (query : Query) : Resolver :=
  { resv with queries := Function.update resv.queries node query }

def Resolver.setTimer (resv : Resolver) (node : Nat) (scheduled : Bool) : Resolver :=
  { resv with timers := Function.update resv.timers node scheduled }

/- A callback is called, if there is one. -/
def Resolver.callback (resv : Resolver) (cb : Option Nat) (status : DnsStatus) (pkt : Option Packet) : Resolver :=
  match cb with
  | none => resv
  | some token => { resv with calls := ⟨token,status,pkt⟩ :: resv.calls }

/- A successful start_query has asked for a resource. -/
def Resolver.ask (resv : Resolver) (cb : Option Nat) (key : ResKey) : Resolver :=
  match cb with
  | none => resv
  | some token => { resv with asked := Function.update resv.asked token (some key) }

/- alloc_qnode. -/
def Resolver.allocNode (resv : Resolver) : Nat :=
  resv.freeNodes.headD resv.fresh

def Resolver.allocQnode (resv : Resolver) (cb : Option Nat) : Resolver :=
  { resv.write resv.allocNode { cb } with
    freeNodes := resv.freeNodes.tail
    fresh := if resv.freeNodes = [] then resv.fresh + 1 else resv.fresh }

/- How far transmit_query gets: no name server, no timer, a busy socket, nothing sent, or sent. -/
inductive Transmission where
  | noServer
  | noTimer
  | busy
  | nothingSent
  | sent
  deriving DecidableEq

def Transmission.succeeds : Transmission → Bool
  | .busy | .sent => true
  | _ => false

def Resolver.transmitQuery (resv : Resolver) (node : Nat) (net : Transmission) : Resolver :=
  let q := resv.queries node
  match net with
  | .noServer => resv
  | .noTimer => resv.write node { q with timerId := true }
  | .busy | .sent =>
    (resv.write node { q with timerId := true, transmitCnt := q.transmitCnt + 1 }).setTimer node true
  | .nothingSent => (resv.write node { q with timerId := true }).setTimer node false

def nextId (id : UInt16) : UInt16 := if id + 1 = 0 then 1 else id + 1

/- start_query when another query on the resource is pending. -/
def Resolver.startChild (resv : Resolver) (parent : Nat) (cb : Option Nat) (key : ResKey) : Resolver :=
  let node := resv.allocNode
  let resv := resv.allocQnode cb
  let q := resv.queries parent
  (resv.write parent { q with children := q.children ++ [node] }).ask cb key

/- start_query when none is. -/
def Resolver.startParent (resv : Resolver) (cb : Option Nat) (key : ResKey) (net : Transmission) : Resolver :=
  let node := resv.allocNode
  let id := resv.lastId
  let resv := resv.allocQnode cb
  let resv := resv.write node { resv.queries node with id, key }
  let resv := { resv with lastId := nextId id }
  let resv := resv.transmitQuery node net
  if net.succeeds then
    { resv with
      byId := Function.update resv.byId id (some node)
      byRes := Function.update resv.byRes key (some node) }.ask cb key
  else { resv with freeNodes := resv.freeNodes ++ [node] }

/- pj_dns_resolver_start_query. A callback that a cached packet is passed to runs until `cacheDone`. -/
def Resolver.startQuery (resv : Resolver) (name : List Char) (type : Nat) (hasCb : Bool) (now : Nat)
    (net : Transmission) : Option Resolver :=
  if ¬ (0 < type ∧ type < 0xFFFF ∧ 0 < name.length ∧ name.length < maxHostname) then some resv
  else do
    let key := initResKey type name
    let cb := if hasCb then some resv.tokens else none
    let (cache, found) ← resv.cache.lookup key now
    let resv := { resv with cache, tokens := resv.tokens + 1 }
    match found with
    | .hit use => some ((resv.ask cb key).callback cb (.rcode use.pkt.rcode) (some use.pkt))
    | .miss =>
      match resv.byRes key with
      | some parent => some (resv.startChild parent cb key)
      | none => some (resv.startParent cb key net)

def Resolver.cacheDone (resv : Resolver) (use : Use) : Option Resolver := do
  let cache ← resv.cache.finish use
  some { resv with cache }

/- pj_dns_resolver_cancel_query. The timer's id is cleared only when the timer was scheduled. -/
def Resolver.cancelQuery (resv : Resolver) (node : Nat) (notify : Bool) : Option Resolver :=
  let q := resv.queries node
  let timerId := q.timerId && !resv.timers node
  let resv := if q.timerId then resv.setTimer node false else resv
  let resv := resv.write node { q with cb := none, timerId }
  match q.cb with
  | none => if notify then none else some resv
  | some token =>
    let resv := { resv with cancelled := Function.update resv.cancelled token true }
    some (if notify then resv.callback (some token) .cancelled none else resv)

/- A query leaves the tables, and its callback and those of its children are to be called. -/
def Resolver.takeOut (resv : Resolver) (node : Nat) (status : DnsStatus) (pkt : Option Packet) : Resolver :=
  let q := resv.queries node
  { resv.setTimer node false with
    queries := Function.update resv.queries node { q with timerId := false }
    byId := Function.update resv.byId q.id none
    byRes := Function.update resv.byRes q.key none
    deliveries := ⟨node,status,pkt,node :: q.children⟩ :: resv.deliveries }

/- on_read_complete up to the callbacks, for a packet that could be parsed. Nothing of it but the id is looked at. -/
def Resolver.receive (resv : Resolver) (pkt : Packet) : Resolver :=
  match resv.byId pkt.id with
  | none => resv
  | some node => resv.takeOut node (.rcode pkt.rcode) (some pkt)

/- on_timeout up to the callbacks. -/
def Resolver.onTimeout (resv : Resolver) (node : Nat) (net : Transmission) : Resolver :=
  let resv := resv.setTimer node false
  let q := resv.queries node
  match resv.byId q.id with
  | none => resv
  | some _ =>
    let resv := resv.write node { q with timerId := false }
    if q.transmitCnt < resv.qretrCount then
      let resv := resv.transmitQuery node net
      if net.succeeds then resv else resv.takeOut node .timedOut none
    else resv.takeOut node .timedOut none

/- The next callback of a query that was taken out. -/
def Resolver.callNext (resv : Resolver) (delivery : Delivery) : Resolver :=
  match delivery.left with
  | [] => resv
  | node :: left =>
    let resv := { resv with deliveries := { delivery with left } :: resv.deliveries.erase delivery }
    resv.callback (resv.queries node).cb delivery.status delivery.pkt

/- A response is cached unless it is truncated. -/
def Resolver.cacheAnswer (resv : Resolver) (delivery : Delivery) (now : Nat) : Option (Cache ResKey) :=
  match delivery.pkt with
  | none => some resv.cache
  | some pkt =>
    if pkt.tc then some resv.cache
    else resv.cache.updateResCache (resv.queries delivery.query).key (delivery.status ≠ .rcode 0) true pkt now

/- on_read_complete and on_timeout after the callbacks. -/
def Resolver.finish (resv : Resolver) (delivery : Delivery) (now : Nat) : Option Resolver := do
  let cache ← resv.cacheAnswer delivery now
  some { resv with
    cache
    deliveries := resv.deliveries.erase delivery
    freeNodes := resv.freeNodes ++ (resv.queries delivery.query).children ++ [delivery.query] }

inductive Step where
  | start (name : List Char) (type : Nat) (hasCb : Bool) (now : Nat) (net : Transmission)
  | cacheDone (use : Use)
  | cancel (node : Nat) (notify : Bool)
  | receive (pkt : Packet)
  | timeout (node : Nat) (net : Transmission)
  | callNext (delivery : Delivery)
  | finish (delivery : Delivery) (now : Nat)

def Resolver.called (resv : Resolver) (token : Nat) : Prop := ∃ call ∈ resv.calls, call.token = token

/- What can happen: the application cancels a query that it started and that has not been answered, or one without a callback,
of which it cannot be notified; a timer goes off that is scheduled, and callbacks return that were called. -/
def Step.possible (resv : Resolver) : Step → Prop
  | .start .. => True
  | .cacheDone use => use ∈ resv.cache.uses
  | .cancel node notify =>
    (∃ token, (resv.queries node).cb = some token ∧ (resv.asked token).isSome ∧ ¬ resv.called token) ∨
      (resv.queries node).cb = none ∧ notify = false
  | .receive _ => True
  | .timeout node _ => resv.timers node = true
  | .callNext delivery => delivery ∈ resv.deliveries
  | .finish delivery _ => delivery ∈ resv.deliveries ∧ delivery.left = []

def Resolver.step (resv : Resolver) : Step → Option Resolver
  | .start name type hasCb now net => resv.startQuery name type hasCb now net
  | .cacheDone use => resv.cacheDone use
  | .cancel node notify => resv.cancelQuery node notify
  | .receive pkt => some (resv.receive pkt)
  | .timeout node net => some (resv.onTimeout node net)
  | .callNext delivery => some (resv.callNext delivery)
  | .finish delivery now => resv.finish delivery now

end Pjproject.Dns
