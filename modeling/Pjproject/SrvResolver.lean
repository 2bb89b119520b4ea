import Mathlib

/-! The resolution of a service in srv_resolver.c: the SRV query, the targets that its response names, and the A and AAAA
queries for each. What the resolver answers, and when, is given from outside. -/
namespace Pjproject.Srv

abbrev Status := Int

def success : Status := 0
def eignored : Status := 70020
def ednsNoAnswerRec : Status := 320047

def maxHostname : Nat := 128
def srvMaxAddr : Nat := 8
def addrMaxCount : Nat := 8

inductive Ip where
  | v4 (addr : UInt32)
  | v6 (addr : List UInt8)
  deriving DecidableEq

def Ip.isV6 : Ip → Bool
  | .v4 _ => false
  | .v6 _ => true

/- A query handle: NULL, the dummy 0x1, or a query that is pending. -/
inductive Handle where
  | null
  | dummy
  | pending
  deriving DecidableEq

/- struct srv_target. -/
structure Target where
  name : List Char
  cname : List Char := []
  port : UInt16 := 0
  priority : Nat := 0
  weight : Nat := 0
  sum : Nat := 0
  addr : List Ip := []
  qA : Handle := .null
  qAaaa : Handle := .null
  deriving DecidableEq

def Target.handle (target : Target) (aaaa : Bool) : Handle := if aaaa then target.qAaaa else target.qA

def Target.setHandle (target : Target) (aaaa : Bool) (handle : Handle) : Target :=
  if aaaa then { target with qAaaa := handle } else { target with qA := handle }

/- pj_dns_srv_option, after pj_dns_srv_resolve has completed it. -/
structure Options where
  fallbackA : Bool
  fallbackAaaa : Bool
  resolveAaaa : Bool
  aaaaOnly : Bool
  complete : aaaaOnly = true → resolveAaaa = true

def Options.normalize (fallbackA fallbackAaaa resolveAaaa aaaaOnly : Bool) : Options :=
  ⟨fallbackA,fallbackAaaa,resolveAaaa || aaaaOnly,aaaaOnly,fun only => by rw [only,Bool.or_true]⟩

/- The options under which the original name is resolved instead. -/
def Options.onFallback (option : Options) : Options :=
  ⟨false,false,option.fallbackAaaa,option.fallbackAaaa && !option.fallbackA,fun only => (Bool.and_eq_true_iff.mp only).1⟩

/- An entry of what the callback is given. -/
structure Entry where
  priority : Nat
  weight : Nat
  port : UInt16
  name : List Char
  aliasName : List Char
  addr : List Ip
  deriving DecidableEq

/- A call of the user's callback, and the state of the query at that moment. -/
structure Call where
  status : Status
  entries : Option (List Entry)
  hostResolved : Nat
  srv : List Target
  counted : List Nat
  deriving DecidableEq

/- The loop of resolve_hostnames between two calls of start_query: the host, and whether its AAAA query is next. -/
structure Loop where
  host : Nat
  aaaa : Bool
  errCnt : Nat
  err : Status
  deriving DecidableEq

/- pj_dns_srv_async_query. The last two fields are not in the source: the hosts in the order in which they were counted, and the
calls of the callback. -/
structure Job where
  option : Options
  domainPart : List Char
  defPort : UInt16
  qSrv : Bool := true
  lastError : Status := success
  srv : List Target := []
  hostResolved : Nat := 0
  loop : Option Loop := none
  counted : List Nat := []
  calls : List Call := []

def Job.modify (job : Job) (host : Nat) (change : Target → Target) : Job :=
  { job with srv := job.srv.modify host change }

def Job.setHandle (job : Job) (host : Nat) (aaaa : Bool) (handle : Handle) : Job :=
  job.modify host (·.setHandle aaaa handle)

def Job.count (job : Job) (host : Nat) : Job :=
  { job with hostResolved := job.hostResolved + 1, counted := job.counted ++ [host] }

def Job.callback (job : Job) (status : Status) (entries : Option (List Entry)) : Job :=
  { job with calls := job.calls ++ [⟨status,entries,job.hostResolved,job.srv,job.counted⟩] }

/- Resource records, and a response to the SRV query. -/
inductive Rdata where
  | a (addr : UInt32)
  | aaaa (addr : List UInt8)
  | srv (prio weight port : UInt16) (target : List Char)
  | other
  deriving DecidableEq

structure Rr where
  name : List Char
  rdata : Rdata
  deriving DecidableEq

structure SrvPacket where
  tc : Bool
  ans : List Rr
  arr : List Rr
  deriving DecidableEq

/- build_server_entries: the targets. -/

def Rr.target (rr : Rr) : Option Target :=
  match rr.rdata with
  | .srv prio weight port target =>
    if target.length > maxHostname then none
    else if target.length = 0 then none
    else some { name := target, port, priority := prio.toNat, weight := weight.toNat }
  | _ => none

def srvTargets (ans : List Rr) : List Target := (ans.filterMap Rr.target).take srvMaxAddr

def swapTargets (srv : List Target) (i j : Nat) : List Target :=
  match srv[i]?, srv[j]? with
  | some a, some b => (srv.set i b).set j a
  | _, _ => srv

def priorityAt (srv : List Target) (i : Nat) : Nat := (srv[i]?.map Target.priority).getD 0

/- Its first pass: the entry of the least priority from i on comes to i. -/
def leastPriority (srv : List Target) (i : Nat) : Nat :=
  (List.range' (i + 1) (srv.length - (i + 1))).foldl (fun min j => if priorityAt srv j < priorityAt srv min then j else min) i

def orderByPriority (srv : List Target) : List Target :=
  (List.range (srv.length - 1)).foldl (fun srv i => swapTargets srv i (leastPriority srv i)) srv

/- Its second pass: among the entries of one priority, one is drawn by weight. -/
def runningSums : Nat → List Target → List Target
  | _, [] => []
  | sum, target :: rest => { target with sum := sum + target.weight } :: runningSums (sum + target.weight) rest

def elect (rand : Nat → Nat) (srv : List Target) (i : Nat) : List Target :=
  let group := (srv.drop i).takeWhile (fun target => target.priority = priorityAt srv i)
  let summed := runningSums 0 group
  let srv := srv.take i ++ summed ++ srv.drop (i + group.length)
  if 1 < group.length then
    let r := rand i % ((group.map Target.weight).sum + 1)
    swapTargets srv i (i + summed.findIdx (fun target => r ≤ target.sum))
  else srv

def electAll (rand : Nat → Nat) (srv : List Target) : List Target :=
  (List.range srv.length).foldl (elect rand) srv

/- What pj_inet_pton makes of a name. -/
structure Inet where
  pton4 : List Char → Option UInt32
  pton6 : List Char → Option (List UInt8)

/- An address of a target becomes known while the entries are built. Only its first one counts. -/
def Job.addAddr (job : Job) (host : Nat) (target : Target) (ip : Ip) : Job :=
  let job := if target.addr.length = 0 then job.count host else job
  job.modify host fun target => { target with addr := target.addr ++ [ip] }

/- The additional records. -/
def Rr.ip (rr : Rr) (option : Options) : Option Ip :=
  match rr.rdata with
  | .a addr => if option.aaaaOnly then none else some (.v4 addr)
  | .aaaa addr => if option.resolveAaaa then some (.v6 addr) else none
  | _ => none

/- What pj_stricmp compares of a name: its length, and its characters up to a NUL. -/
def lowerName (name : List Char) : Nat × List Char := (name.length, (name.takeWhile (·.toNat ≠ 0)).map Char.toLower)

def Rr.isFor (rr : Rr) (target : Target) : Bool :=
  decide (lowerName rr.name = lowerName target.name ∧ target.addr.length < addrMaxCount)

def Job.addAdditional (job : Job) (rr : Rr) : Job :=
  match rr.ip job.option, job.srv.findIdx? rr.isFor with
  | some ip, some host =>
    match job.srv[host]? with
    | some target => job.addAddr host target ip
    | none => job
  | _, _ => job

/- Targets that are addresses themselves. -/
def Target.literal (target : Target) (inet : Inet) (option : Options) : Option Ip :=
  match (if option.aaaaOnly then none else inet.pton4 target.name) with
  | some addr => some (.v4 addr)
  | none => if option.resolveAaaa then (inet.pton6 target.name).map Ip.v6 else none

def Job.addLiteral (inet : Inet) (job : Job) (host : Nat) : Job :=
  match job.srv[host]? with
  | none => job
  | some target =>
    if target.addr.length ≠ 0 then job
    else
      match target.literal inet job.option with
      | some ip => job.addAddr host target ip
      | none => job

def Job.buildServerEntries (job : Job) (inet : Inet) (rand : Nat → Nat) (pkt : SrvPacket) : Job :=
  let job := { job with srv := srvTargets pkt.ans }
  if job.srv.length = 0 then job
  else
    let job := { job with srv := electAll rand (orderByPriority job.srv) }
    let job := pkt.arr.foldl Job.addAdditional job
    (List.range job.srv.length).foldl (Job.addLiteral inet) job

/- pj_dns_srv_cancel_query without a notification, and the end of dns_callback on an error. -/
def Job.cancelQuery (job : Job) : Job :=
  { job with qSrv := false, srv := job.srv.map fun target => { target with qA := .null, qAaaa := .null } }

def Job.onError (job : Job) (status : Status) : Job :=
  if status = success then job else job.cancelQuery.callback status none

/- The end of dns_callback when all hosts are resolved. -/
def Target.entry (target : Target) : Entry :=
  ⟨target.priority,target.weight,target.port,target.name,target.cname,target.addr⟩

def Job.entries (job : Job) : List Entry :=
  ((job.srv.filter fun target => 0 < target.addr.length).map Target.entry).take srvMaxAddr

def Job.finish (job : Job) : Job :=
  let status := if 0 < job.entries.length then success
    else if job.lastError = success then ednsNoAnswerRec else job.lastError
  job.callback status (some job.entries)

def Job.checkResolved (job : Job) : Job :=
  if job.hostResolved = job.srv.length then job.finish else job

/- resolve_hostnames goes on to the next host without an address, or returns. The dummy keeps the answer to the A query from
completing the host before its AAAA query is started. -/
def Target.prepare (target : Target) (option : Options) : Target :=
  { target with qA := .null, qAaaa := if !option.aaaaOnly && option.resolveAaaa then .dummy else .null }

def Job.nextHost (job : Job) (host errCnt : Nat) (err : Status) : Job :=
  match (List.range' host (job.srv.length - host)).find? fun i => (job.srv[i]?.map (·.addr.length)) = some 0 with
  | some host =>
    { job.modify host (·.prepare job.option) with loop := some ⟨host,job.option.aaaaOnly,errCnt,err⟩ }
  | none =>
    let job := { job with loop := none }
    if errCnt = job.srv.length then job.onError err else job

/- The part of dns_callback for an SRV response. -/
def Job.fallback (job : Job) : Job :=
  if job.srv.length = 0 ∧ 0 < job.domainPart.length then
    { job with srv := [{ name := job.domainPart, port := job.defPort }], option := job.option.onFallback }
  else job

def Job.resolveHosts (job : Job) : Job :=
  if job.hostResolved ≠ job.srv.length then job.nextHost 0 0 success else job.checkResolved

def Job.srvCallback (job : Job) (inet : Inet) (rand : Nat → Nat) (status : Status) (pkt : SrvPacket) : Job :=
  let job := { job with qSrv := false }
  if status = success then
    if pkt.tc then { job with lastError := eignored }.onError eignored
    else
      let job := if pkt.ans.length ≠ 0 then job.buildServerEntries inet rand pkt else job
      job.fallback.resolveHosts
  else
    let job := { job with lastError := status }
    if !job.option.fallbackA && !job.option.fallbackAaaa then job.onError status
    else job.fallback.resolveHosts

/- What the callback of a host query is given: the status, how many answers the packet has, and what
pj_dns_parse_addr_response makes of it. -/
structure AddrRecord where
  aliasName : List Char
  addr : List Ip
  deriving DecidableEq

structure Answer where
  status : Status
  anscount : Nat
  parsed : Except Status AddrRecord

def Answer.outcome (ans : Answer) : Except Status (Option AddrRecord) :=
  if ans.status = success then
    if ans.anscount ≠ 0 then ans.parsed.map some else .ok none
  else .error ans.status

def Target.takeAnswer (target : Target) (aaaa : Bool) (record : AddrRecord) : Target :=
  { target with
    cname := if target.cname.length = 0 then record.aliasName else target.cname
    addr := target.addr ++ (record.addr.filter (·.isV6 = aaaa)).take (addrMaxCount - target.addr.length) }

def Job.takeOutcome (job : Job) (host : Nat) (aaaa : Bool) : Except Status (Option AddrRecord) → Job
  | .ok (some record) => job.modify host (·.takeAnswer aaaa record)
  | .ok none => job
  | .error status => { job with lastError := status }

/- The part of dns_callback for an A or AAAA response. -/
def Job.hostCallback (job : Job) (host : Nat) (aaaa : Bool) (ans : Answer) : Job :=
  match job.srv[host]? with
  | none => job
  | some target =>
    let srvCompleted := target.handle (!aaaa) = .null
    let job := job.setHandle host aaaa .null
    let job := job.takeOutcome host aaaa ans.outcome
    let job := if srvCompleted then job.count host else job
    job.checkResolved

/- How start_query returns: its arguments are refused, nothing could be sent, a cached answer was passed to the callback before, or
the query is pending. -/
inductive Outcome where
  | refused (status : Status)
  | notSent (status : Status)
  | cached (ans : Answer)
  | pending

def Outcome.fails : Outcome → Bool
  | .refused _ | .notSent _ => true
  | _ => false

/- resolve_hostnames after a query was started. -/
def Job.started (job : Job) (loop : Loop) : Job :=
  if !loop.aaaa && job.option.resolveAaaa then { job with loop := some { loop with aaaa := true } }
  else job.nextHost (loop.host + 1) loop.errCnt loop.err

def Job.failed (job : Job) (loop : Loop) (status : Status) : Job :=
  (job.count loop.host).nextHost (loop.host + 1) (loop.errCnt + 1) status

def Job.startQuery (job : Job) (loop : Loop) : Outcome → Job
  | .refused status => job.failed loop status
  | .notSent status => (job.setHandle loop.host loop.aaaa .null).failed loop status
  | .cached ans => (job.hostCallback loop.host loop.aaaa ans).started loop
  | .pending => (job.setHandle loop.host loop.aaaa .pending).started loop

/- pj_dns_srv_resolve. -/
def srvResolve (option : Options) (domainPart : List Char) (defPort : UInt16) : Job :=
  { option, domainPart, defPort }

inductive Step where
  | srvAnswer (inet : Inet) (rand : Nat → Nat) (status : Status) (pkt : SrvPacket)
  | start (loop : Loop) (outcome : Outcome)
  | answer (host : Nat) (aaaa : Bool) (ans : Answer)

def Job.hostName (job : Job) (host : Nat) : List Char := (job.srv[host]?.map Target.name).getD []

/- start_query refuses a name exactly when it is empty or too long, and an error has a status. -/
def Outcome.possible (name : List Char) : Outcome → Prop
  | .refused status => status ≠ success ∧ ¬ (0 < name.length ∧ name.length < maxHostname)
  | .notSent status => status ≠ success ∧ 0 < name.length ∧ name.length < maxHostname
  | _ => 0 < name.length ∧ name.length < maxHostname

def Step.possible (job : Job) : Step → Prop
  | .srvAnswer .. => job.qSrv = true
  | .start loop outcome => job.loop = some loop ∧ outcome.possible (job.hostName loop.host)
  | .answer host aaaa _ => ∃ target, job.srv[host]? = some target ∧ target.handle aaaa = .pending

def Job.step (job : Job) : Step → Job
  | .srvAnswer inet rand status pkt => job.srvCallback inet rand status pkt
  | .start loop outcome => job.startQuery loop outcome
  | .answer host aaaa ans => job.hostCallback host aaaa ans

end Pjproject.Srv
