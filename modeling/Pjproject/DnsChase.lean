import Pjproject.DnsPacket
import Pjproject.PjString

/-! The addresses in a DNS response, as pj_dns_parse_addr_response and pj_dns_parse_a_response of resolver.c find them behind
CNAME records. A response is given after pj_dns_parse_packet: the counts of its header are the lengths of its lists. -/
namespace Pjproject.DnsChase
open DnsPacket (Name Rr typeA typeAaaa typeCname)
open Stun (stricmpZero)
open PjString (folded stricmpFolded)

inductive Status where
  | rcode (code : Nat)
  | dnsInAnswer
  | dnsNoAnswerRec
  | nameTooLong
  deriving DecidableEq, Repr

structure Response where
  flags : UInt16
  q : List Name
  ans : List Rr

def Response.rcode (pkt : Response) : Nat := (pkt.flags &&& 0x0f).toNat

inductive Ip where
  | v4 (addr : List UInt8)
  | v6 (addr : List UInt8)
  deriving DecidableEq, Repr

/- pj_dns_addr_record and pj_dns_a_record, by the type of their addresses. -/
structure Record (α : Type) where
  name : Name
  aliasName : Name
  addr : List α
  deriving DecidableEq, Repr

def maxSearch : Nat := 20
def maxIpInARec : Nat := 8
def bufSize : Nat := 128

def named (name : Name) (rr : Rr) : Bool := stricmpZero rr.name name

/- The first record of a name, whatever its type. -/
def firstNamed (ans : List Rr) (name : Name) : Option Rr := ans.find? (named name)

/- rdata.cname.name and rdata.a.ip_addr or rdata.aaaa.ip_addr. -/
def target (rr : Rr) : Name :=
  match rr.rdata with
  | .name name => name
  | _ => []

def address (rr : Rr) : List UInt8 :=
  match rr.rdata with
  | .a ipAddr => ipAddr
  | .aaaa ipAddr => ipAddr
  | _ => []

/- Where the loop over CNAME records ends, with the iterations that were left then. -/
structure Chased where
  left : Nat
  rr : Rr
  resname : Name
  aliasName : Name

def chase (ans : List Rr) : Nat → Rr → Name → Name → Except Status Chased
  | 0, rr, resname, aliasName => .ok ⟨0,rr,resname,aliasName⟩
  | left + 1, rr, resname, aliasName =>
    if rr.type = typeCname then
      match firstNamed ans (target rr) with
      | none => .error .dnsNoAnswerRec
      | some next => chase ans left next (target rr) (if aliasName = [] then target rr else aliasName)
    else .ok ⟨left + 1,rr,resname,aliasName⟩

def search (pkt : Response) : Except Status (Name × Chased) :=
  if pkt.rcode ≠ 0 then .error (.rcode pkt.rcode)
  else
    match pkt.q with
    | [] => .error .dnsInAnswer
    | hostname :: _ =>
      if pkt.ans = [] then .error .dnsNoAnswerRec
      else if bufSize < hostname.length then .error .nameTooLong
      else
        match firstNamed pkt.ans hostname with
        | none => .error .dnsNoAnswerRec
        | some rr => (chase pkt.ans maxSearch rr hostname []).map (hostname, ·)

def ipOf (rr : Rr) : Ip := if rr.type = typeA then .v4 (address rr) else .v6 (address rr)

def parseAddrResponse (pkt : Response) : Except Status (Record Ip) := do
  let (hostname, found) ← search pkt
  if found.left = 0 then .error .dnsInAnswer
  else if found.rr.type ≠ typeA ∧ found.rr.type ≠ typeAaaa then .error .dnsInAnswer
  else if bufSize - hostname.length < found.aliasName.length then .error .nameTooLong
  else
    let addr := ((pkt.ans.filter fun rr => (rr.type = typeA || rr.type = typeAaaa) && named found.resname rr).map ipOf).take maxIpInARec
    if addr = [] then .error .dnsNoAnswerRec else .ok ⟨hostname,found.aliasName,addr⟩

def parseAResponse (pkt : Response) : Except Status (Record (List UInt8)) := do
  let (hostname, found) ← search pkt
  if found.left = 0 then .error .dnsInAnswer
  else if found.rr.type ≠ typeA then .error .dnsInAnswer
  else if bufSize - hostname.length < found.aliasName.length then .error .nameTooLong
  else
    let addr := ((pkt.ans.filter fun rr => rr.type = typeA && named found.resname rr).map address).take maxIpInARec
    if addr = [] then .error .dnsNoAnswerRec else .ok ⟨hostname,found.aliasName,addr⟩

/- CNAME records that lead from one name to another. -/
inductive Chain (ans : List Rr) : Name → List Rr → Name → Prop where
  | here (name : Name) : Chain ans name [] name
  | follow {name last : Name} {rr : Rr} {rest : List Rr} (member : rr ∈ ans) (is : named name rr = true)
      (cname : rr.type = typeCname) (onward : Chain ans (target rr) rest last) : Chain ans name (rr :: rest) last

/- The first addresses of the name where a chain from the queried name ends, in their order, and an alias only as the first
record of the chain has it. -/
def LedTo (pkt : Response) (rec : Record Ip) : Prop :=
  pkt.q.head? = some rec.name ∧ ∃ chain last, Chain pkt.ans rec.name chain last ∧
    rec.addr = ((pkt.ans.filter fun rr => (rr.type = typeA || rr.type = typeAaaa) && named last rr).map ipOf).take maxIpInARec ∧
    (rec.aliasName = [] ∨ ∃ rr, chain.head? = some rr ∧ target rr = rec.aliasName)

/- A name leads to the root, which leads on to where no record of the name leads itself. -/
def BehindRoot (ans : List Rr) (name : Name) : Prop :=
  ∃ first second, firstNamed ans name = some first ∧ first.type = typeCname ∧ target first = [] ∧
    firstNamed ans [] = some second ∧ second.type = typeCname ∧
    ∀ rr ∈ ans, rr.type = typeCname → named name rr = true → target rr ≠ target second

section Chase
variable {ans : List Rr} {rr : Rr} {name aliasName : Name} {left : Nat} {found : Chased}

theorem firstNamedIs (first : firstNamed ans name = some rr) : rr ∈ ans ∧ named name rr = true :=
  ⟨List.mem_of_find?_eq_some first,List.find?_some first⟩

theorem chaseChain (first : firstNamed ans name = some rr) (ends : chase ans left rr name aliasName = .ok found) :
    ∃ chain, Chain ans name chain found.resname ∧ (aliasName ≠ [] → found.aliasName = aliasName) := by
  induction left generalizing rr name aliasName with
  | zero =>
    cases ends
    exact ⟨[],.here name,fun _ => rfl⟩
  | succ left ih =>
    unfold chase at ends
    split at ends
    next cname =>
      split at ends
      · cases ends
      · next second next_ =>
        obtain ⟨chain,leads,kept⟩ := ih next_ ends
        obtain ⟨member,is⟩ := firstNamedIs first
        refine ⟨rr :: chain,.follow member is cname leads,fun some => ?_⟩
        rw [if_neg some] at kept
        exact kept some
    next =>
      cases ends
      exact ⟨[],.here name,fun _ => rfl⟩

theorem chaseMember (member : rr ∈ ans) (ends : chase ans left rr name aliasName = .ok found) : found.rr ∈ ans := by
  induction left generalizing rr name aliasName with
  | zero =>
    cases ends
    exact member
  | succ left ih =>
    unfold chase at ends
    split at ends
    · split at ends
      · cases ends
      next next_ => exact ih (firstNamedIs next_).1 ends
    · cases ends
      exact member

theorem chaseCircles (first : firstNamed ans name = some rr) (cname : rr.type = typeCname) (circle : target rr = name)
    (ends : chase ans left rr name aliasName = .ok found) : found.left = 0 := by
  induction left generalizing aliasName with
  | zero =>
    cases ends
    rfl
  | succ left ih =>
    rw [chase,if_pos cname,circle,first] at ends
    exact ih ends

end Chase

section Responses
variable {pkt : Response} {rec : Record Ip}

theorem searchFound {hostname : Name} {found : Chased} (ok : search pkt = .ok (hostname, found)) :
    pkt.q.head? = some hostname ∧
      ∃ first, firstNamed pkt.ans hostname = some first ∧ chase pkt.ans maxSearch first hostname [] = .ok found := by
  unfold search at ok
  split at ok
  · cases ok
  · split at ok
    · cases ok
    next queried =>
      split at ok
      · cases ok
      · split at ok
        · cases ok
        · split at ok
          · cases ok
          next first firstIs =>
            cases chased : chase pkt.ans maxSearch first _ [] with
            | error =>
              rw [chased] at ok
              cases ok
            | ok =>
              rw [chased] at ok
              cases ok
              exact ⟨congrArg List.head? queried,first,firstIs,chased⟩

structure Parsed (pkt : Response) (rec : Record Ip) (first : Rr) (found : Chased) : Prop where
  queried : pkt.q.head? = some rec.name
  firstIs : firstNamed pkt.ans rec.name = some first
  chased : chase pkt.ans maxSearch first rec.name [] = .ok found
  settled : found.left ≠ 0
  aliasName : rec.aliasName = found.aliasName
  addr : rec.addr =
    ((pkt.ans.filter fun rr => (rr.type = typeA || rr.type = typeAaaa) && named found.resname rr).map ipOf).take maxIpInARec

theorem parsedFrom (ok : parseAddrResponse pkt = .ok rec) : ∃ first found, Parsed pkt rec first found := by
  unfold parseAddrResponse at ok
  cases searched : search pkt with
  | error =>
    rw [searched] at ok
    cases ok
  | ok result =>
    obtain ⟨hostname,found⟩ := result
    rw [searched] at ok
    change (if found.left = 0 then _ else _) = _ at ok
    split at ok
    · cases ok
    next settled =>
      split at ok
      · cases ok
      · split at ok
        · cases ok
        · dsimp only at ok
          split at ok
          · cases ok
          · cases ok
            obtain ⟨queried,first,firstIs,chased⟩ := searchFound searched
            exact ⟨first,found,queried,firstIs,chased,settled,rfl,rfl⟩

theorem parsedLedTo {first : Rr} {found : Chased} (parsed : Parsed pkt rec first found) :
    LedTo pkt rec ↔ ¬BehindRoot pkt.ans rec.name := by
  obtain ⟨queried,firstIs,chased,settled,aliasIs,addrIs⟩ := parsed
  obtain ⟨member,is⟩ := firstNamedIs firstIs
  rw [show maxSearch = 19 + 1 from rfl,chase] at chased
  have behind : BehindRoot pkt.ans rec.name → first.type = typeCname ∧ target first = [] := by
    rintro ⟨other,_,same,cname,root,_⟩
    cases firstIs.symm.trans same
    exact ⟨cname,root⟩
  split at chased
  next cname =>
    split at chased
    · cases chased
    next second next_ =>
      rw [if_pos rfl] at chased
      obtain ⟨chain,leads,kept⟩ := chaseChain next_ chased
      by_cases root : target first = []
      · rw [root] at next_ chased leads kept
        rw [show 19 = 18 + 1 from rfl,chase] at chased
        split at chased
        next again =>
          split at chased
          · cases chased
          next third beyond =>
            rw [if_pos rfl] at chased
            obtain ⟨chain,leads,kept⟩ := chaseChain beyond chased
            have some : target second ≠ [] := by
              intro circle
              rw [circle] at beyond chased
              cases next_.symm.trans beyond
              exact settled (chaseCircles next_ again circle chased)
            have aliasSecond : rec.aliasName = target second := aliasIs.trans (kept some)
            constructor
            · rintro ⟨_,chain',last,leads',_,head⟩ ⟨first',second',firstIs',_,_,secondIs',_,others⟩
              cases firstIs.symm.trans firstIs'
              cases next_.symm.trans secondIs'
              rcases head with none | ⟨rr,headIs,same⟩
              · exact some (aliasSecond.symm.trans none)
              · cases leads' with
                | here => cases headIs
                | follow member' is' cname' =>
                  cases headIs
                  exact others _ member' cname' is' (same.trans aliasSecond)
            · intro elsewhere
              obtain ⟨rr,among,alsoCname,alsoIs,same⟩ : ∃ rr ∈ pkt.ans, rr.type = typeCname ∧ named rec.name rr = true ∧
                  target rr = target second := by
                by_contra none
                exact elsewhere ⟨first,second,firstIs,cname,root,next_,again,
                  fun rr among alsoCname alsoIs same => none ⟨rr,among,alsoCname,alsoIs,same⟩⟩
              refine ⟨queried,rr :: chain,found.resname,.follow among alsoIs alsoCname (same ▸ leads),addrIs,.inr ⟨rr,rfl,?_⟩⟩
              exact same.trans aliasSecond.symm
        next ends =>
          cases chased
          refine ⟨fun _ beyond => ?_,fun _ => ?_⟩
          · obtain ⟨_,second',_,_,_,secondIs,cname',_⟩ := beyond
            cases next_.symm.trans secondIs
            exact ends cname'
          · exact ⟨queried,[first],[],.follow member is cname (root ▸ .here _),addrIs,.inl aliasIs⟩
      · refine iff_of_true ?_ fun beyond => root (behind beyond).2
        exact ⟨queried,first :: chain,found.resname,.follow member is cname leads,addrIs,
          .inr ⟨first,rfl,(aliasIs.trans (kept root)).symm⟩⟩
  next ends =>
    cases chased
    refine iff_of_true ?_ fun beyond => ends (behind beyond).1
    exact ⟨queried,[],rec.name,.here _,addrIs,.inl aliasIs⟩

/- Without AAAA records the addresses are those of the A records. -/
def Record.widen (rec : Record (List UInt8)) : Record Ip := ⟨rec.name,rec.aliasName,rec.addr.map .v4⟩

theorem parseAgrees (plain : ∀ rr ∈ pkt.ans, rr.type ≠ typeAaaa) :
    parseAddrResponse pkt = (parseAResponse pkt).map Record.widen := by
  unfold parseAddrResponse parseAResponse
  cases searched : search pkt with
  | error => rfl
  | ok result =>
    obtain ⟨hostname,found⟩ := result
    obtain ⟨_,first,firstIs,chased⟩ := searchFound searched
    have type := plain _ (chaseMember (firstNamedIs firstIs).1 chased)
    have filtered : (pkt.ans.filter fun rr => (rr.type = typeA || rr.type = typeAaaa) && named found.resname rr) =
        pkt.ans.filter fun rr => rr.type = typeA && named found.resname rr := by
      refine List.filter_congr fun rr member => ?_
      rw [decide_eq_false (plain rr member),Bool.or_false]
    have mapped : ((pkt.ans.filter fun rr => rr.type = typeA && named found.resname rr).map ipOf) =
        ((pkt.ans.filter fun rr => rr.type = typeA && named found.resname rr).map address).map .v4 := by
      rw [List.map_map]
      refine List.map_congr_left fun rr member => ?_
      have isA := (Bool.and_eq_true_iff.mp (List.mem_filter.mp member).2).1
      exact if_pos (of_decide_eq_true isA)
    change (if found.left = 0 then _ else _) = Except.map Record.widen (if found.left = 0 then _ else _)
    dsimp only
    rw [filtered,mapped,← List.map_take]
    by_cases ended : found.left = 0
    · rw [if_pos ended,if_pos ended]
      rfl
    · rw [if_neg ended,if_neg ended]
      by_cases isA : found.rr.type = typeA
      · rw [if_neg (fun both => both.1 isA),if_neg (not_not_intro isA)]
        split
        · rfl
        · simp only [List.map_eq_nil_iff]
          split <;> rfl
      · rw [if_pos ⟨isA,type⟩,if_pos isA]
        rfl

/- A success is led to from the queried name, unless the alias comes from behind the root; and the function for A records
agrees wherever there are no others. -/
theorem addressesLedTo (pkt : Response) :
    (∀ rec, parseAddrResponse pkt = .ok rec → (LedTo pkt rec ↔ ¬BehindRoot pkt.ans rec.name)) ∧
      ((∀ rr ∈ pkt.ans, rr.type ≠ typeAaaa) → parseAddrResponse pkt = (parseAResponse pkt).map Record.widen) := by
  refine ⟨fun rec ok => ?_,parseAgrees⟩
  obtain ⟨first,found,parsed⟩ := parsedFrom ok
  exact parsedLedTo parsed

/- A name whose CNAME is the root, behind which another CNAME stands: the alias is the second one's. -/
def behindRoot : Response :=
  let cname (name onto : Name) : Rr := ⟨name,typeCname,1,60,0,.name onto⟩
  ⟨0,[[97]],[cname [97] [],cname [] [98],⟨[98],typeA,1,60,4,.a [1,2,3,4]⟩]⟩

theorem aliasBehindRoot : parseAddrResponse behindRoot = .ok ⟨[97],[98],[.v4 [1,2,3,4]]⟩ ∧
    ¬LedTo behindRoot ⟨[97],[98],[.v4 [1,2,3,4]]⟩ := by
  refine ⟨by decide +kernel,fun led => ?_⟩
  have ok : parseAddrResponse behindRoot = .ok ⟨[97],[98],[.v4 [1,2,3,4]]⟩ := by decide +kernel
  obtain ⟨first,found,parsed⟩ := parsedFrom ok
  refine (parsedLedTo parsed).mp led ⟨_,_,rfl,rfl,rfl,rfl,rfl,?_⟩
  intro rr member
  rcases List.mem_cons.mp member with rfl | member
  · decide
  · rcases List.mem_cons.mp member with rfl | member
    · decide
    · rw [List.mem_singleton.mp member]
      decide

end Responses

end Pjproject.DnsChase
