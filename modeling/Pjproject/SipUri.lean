import Pjproject.PjString
import Pjproject.Lib.Assoc

/-! SIP and SIPS URIs of sip_uri.c, and when one compares equal to another. A string without text is an empty one, and
a status code of success is 0. -/
namespace Pjproject.Uri
open Stun (stricmpZero)
open PjString (folded stricmpFolded)
open Lib.Assoc

structure Param where
  name : List UInt8
  value : List UInt8
  deriving DecidableEq

/- secure tells which of the two function tables the URI has. -/
structure SipUri where
  secure : Bool := false
  user : List UInt8 := []
  passwd : List UInt8 := []
  host : List UInt8
  port : Int := 0
  userParam : List UInt8 := []
  methodParam : List UInt8 := []
  transportParam : List UInt8 := []
  ttlParam : Int := -1
  lrParam : Int := 0
  maddrParam : List UInt8 := []
  otherParam : List Param := []
  headerParam : List Param := []
  deriving DecidableEq

inductive UriContext where
  | inReqUri | inFromtoHdr | inContactHdr | inRoutingHdr | inOther
  deriving DecidableEq

inductive CmpStatus where
  | success | ecmpScheme | ecmpUser | ecmpPasswd | ecmpHost | ecmpPort | ecmpTransportPrm | ecmpTtlParam
  | ecmpUserParam | ecmpMethodParam | ecmpMaddrParam | ecmpOtherParam | ecmpHeaderParam
  deriving DecidableEq

def paramFind (paramList : List Param) (name : List UInt8) : Option Param :=
  paramList.find? fun p => stricmpZero p.name name

/- Whether pjsip_param_cmp gives 0. Only the first list is walked. -/
def paramCmpLoop (igNf : Bool) (paramList2 : List Param) : List Param → Bool
  | [] => true
  | p1 :: rest =>
    match paramFind paramList2 p1.name with
    | some p2 => if stricmpZero p1.value p2.value then paramCmpLoop igNf paramList2 rest else false
    | none => if igNf then paramCmpLoop igNf paramList2 rest else false

def paramCmp (paramList1 paramList2 : List Param) (igNf : Bool) : Bool :=
  if igNf = false ∧ paramList1.length ≠ paramList2.length then false else paramCmpLoop igNf paramList2 paramList1

def headerLoop (header2 : List Param) : List Param → CmpStatus
  | [] => .success
  | p1 :: rest =>
    match paramFind header2 p1.name with
    | some p2 => if stricmpZero p1.value p2.value then headerLoop header2 rest else .ecmpHeaderParam
    | none => .ecmpHeaderParam

def urlCompare (context : UriContext) (url1 url2 : SipUri) : CmpStatus :=
  if url1.secure ≠ url2.secure then .ecmpScheme
  else if url1.user ≠ url2.user then .ecmpUser
  else if url1.passwd ≠ url2.passwd then .ecmpPasswd
  else if stricmpZero url1.host url2.host = false then .ecmpHost
  -- Port and transport are not allowed in a From or To header, nor is maddr below.
  else if context ≠ .inFromtoHdr ∧ url1.port ≠ url2.port then .ecmpPort
  else if context ≠ .inFromtoHdr ∧ stricmpZero url1.transportParam url2.transportParam = false then .ecmpTransportPrm
  else if (context ≠ .inFromtoHdr ∧ context ≠ .inRoutingHdr) ∧ url1.ttlParam ≠ url2.ttlParam then .ecmpTtlParam
  else if stricmpZero url1.userParam url2.userParam = false then .ecmpUserParam
  else if context = .inOther ∧ stricmpZero url1.methodParam url2.methodParam = false then .ecmpMethodParam
  else if context ≠ .inFromtoHdr ∧ stricmpZero url1.maddrParam url2.maddrParam = false then .ecmpMaddrParam
  else if paramCmp url1.otherParam url2.otherParam true = false then .ecmpOtherParam
  else headerLoop url2.headerParam url1.headerParam

/- The parts that a context compares, in a form where equal is equal. -/
structure Parts where
  secure : Bool
  user : List UInt8
  passwd : List UInt8
  host : List UInt8
  port : Option Int
  transportParam : Option (List UInt8)
  ttlParam : Option Int
  userParam : List UInt8
  methodParam : Option (List UInt8)
  maddrParam : Option (List UInt8)
  deriving DecidableEq

def parts (context : UriContext) (url : SipUri) : Parts where
  secure := url.secure
  user := url.user
  passwd := url.passwd
  host := folded url.host
  port := if context ≠ .inFromtoHdr then some url.port else none
  transportParam := if context ≠ .inFromtoHdr then some (folded url.transportParam) else none
  ttlParam := if context ≠ .inFromtoHdr ∧ context ≠ .inRoutingHdr then some url.ttlParam else none
  userParam := folded url.userParam
  methodParam := if context = .inOther then some (folded url.methodParam) else none
  maddrParam := if context ≠ .inFromtoHdr then some (folded url.maddrParam) else none

def entry (p : Param) : List UInt8 × List UInt8 := (folded p.name, folded p.value)

def others (url : SipUri) : List (List UInt8 × List UInt8) := url.otherParam.map entry

def headers (url : SipUri) : List (List UInt8 × List UInt8) := url.headerParam.map entry

theorem findEntry (paramList : List Param) (name : List UInt8) :
    (paramList.map entry).lookup (folded name) = (paramFind paramList name).map (folded ·.value) := by
  induction paramList with
  | nil => rfl
  | cons p rest ih =>
    unfold paramFind at ih ⊢
    rw [List.map_cons,entry,List.lookup_cons,List.find?_cons]
    by_cases same : stricmpZero p.name name = true
    · have alike := (stricmpFolded _ _).mp same
      rw [same,← alike,beq_self_eq_true]
      rfl
    · have differs : (folded name == folded p.name) = false :=
        beq_eq_false_iff_ne.mpr (fun alike => same ((stricmpFolded _ _).mpr alike.symm))
      rw [Bool.eq_false_iff.mpr same,differs]
      exact ih

theorem paramCmpCompatible (paramList1 paramList2 : List Param) :
    paramCmp paramList1 paramList2 true = true ↔ Compatible (paramList1.map entry) (paramList2.map entry) := by
  unfold paramCmp
  rw [if_neg (fun both => absurd both.1 (by decide))]
  induction paramList1 with
  | nil => exact ⟨fun _ e member => absurd member List.not_mem_nil,fun _ => rfl⟩
  | cons p1 rest ih =>
    unfold paramCmpLoop
    unfold Compatible at ih ⊢
    rw [List.map_cons,List.forall_mem_cons,← ih]
    have looked := findEntry paramList2 p1.name
    cases found : paramFind paramList2 p1.name with
    | none =>
      rw [found] at looked
      simp [entry,looked]
    | some =>
      rw [found] at looked
      simp [entry,looked,stricmpFolded]

theorem headerCovered (header1 header2 : List Param) :
    headerLoop header2 header1 = .success ↔ Covered (header1.map entry) (header2.map entry) := by
  induction header1 with
  | nil => exact ⟨fun _ e member => absurd member List.not_mem_nil,fun _ => rfl⟩
  | cons p1 rest ih =>
    unfold headerLoop
    unfold Covered at ih ⊢
    rw [List.map_cons,List.forall_mem_cons,← ih]
    have looked := findEntry header2 p1.name
    cases found : paramFind header2 p1.name with
    | none =>
      rw [found] at looked
      simp [entry,looked]
    | some p2 =>
      rw [found] at looked
      by_cases same : stricmpZero p1.value p2.value = true
      · have alike := (stricmpFolded _ _).mp same
        simp [entry,looked,same,alike]
      · have differs : folded p2.value ≠ folded p1.value := fun alike => same ((stricmpFolded _ _).mpr alike.symm)
        simp [entry,looked,same,differs]

theorem checkPassed {refused : Prop} [Decidable refused] {rest : CmpStatus} (status : CmpStatus)
    (fails : status ≠ .success) : (if refused then status else rest) = .success ↔ ¬ refused ∧ rest = .success := by
  split
  next holds => exact ⟨fun same => absurd same fails,fun both => absurd holds both.1⟩
  next passed => exact ⟨fun same => ⟨passed,same⟩,fun both => both.2⟩

theorem compareSuccess (context : UriContext) (url1 url2 : SipUri) :
    urlCompare context url1 url2 = .success ↔ parts context url1 = parts context url2 ∧
      Compatible (others url1) (others url2) ∧ Covered (headers url1) (headers url2) := by
  rw [others,others,← paramCmpCompatible,headers,headers,← headerCovered,parts,parts,Parts.mk.injEq]
  unfold urlCompare
  rw [checkPassed .ecmpScheme (by decide),checkPassed .ecmpUser (by decide),checkPassed .ecmpPasswd (by decide),
    checkPassed .ecmpHost (by decide),checkPassed .ecmpPort (by decide),checkPassed .ecmpTransportPrm (by decide),
    checkPassed .ecmpTtlParam (by decide),checkPassed .ecmpUserParam (by decide),
    checkPassed .ecmpMethodParam (by decide),checkPassed .ecmpMaddrParam (by decide),
    checkPassed .ecmpOtherParam (by decide)]
  simp only [← stricmpFolded,Bool.not_eq_false,not_not,and_assoc]
  cases context <;> simp [← stricmpFolded]

/- What one comparison reads alike in both directions: the parts, and the first values of the names both have. -/
structure Alike (context : UriContext) (a b : SipUri) : Prop where
  parts : parts context a = parts context b
  others : Agree (others a) (others b)
  headers : Agree (headers a) (headers b)

/- Repeats of a name carry its first value, and neither URI has headers that only the other direction would miss. -/
structure Exchangeable (context : UriContext) (a b : SipUri) : Prop where
  others : Single (others a)
  headers : Single (headers a)
  names : Alike context a b → (keys (Uri.headers a) ⊆ keys (Uri.headers b) ↔
    keys (Uri.headers b) ⊆ keys (Uri.headers a) ∧ Single (Uri.headers b) ∧ SingleIn (Uri.others a) (Uri.others b))

theorem compareSelf (context : UriContext) (a : SipUri) :
    urlCompare context a a = .success ↔ Single (others a) ∧ Single (headers a) := by
  rw [compareSuccess,compatibleSelf]
  exact ⟨fun all => all.2,fun both => ⟨rfl,both⟩⟩

theorem compareAlike (context : UriContext) (a b : SipUri) :
    urlCompare context a b = .success ↔ Alike context a b ∧
      keys (headers a) ⊆ keys (headers b) ∧ Single (headers a) ∧ SingleIn (others b) (others a) := by
  rw [compareSuccess,compatibleIff,coveredIff]
  constructor
  · rintro ⟨same,⟨agree,repeats⟩,names,values,single⟩
    exact ⟨⟨same,agree,values⟩,names,single,repeats⟩
  · rintro ⟨⟨same,agree,values⟩,names,single,repeats⟩
    exact ⟨same,⟨agree,repeats⟩,names,values,single⟩

theorem Alike.symm {context : UriContext} {a b : SipUri} (alike : Alike context a b) : Alike context b a :=
  ⟨alike.parts.symm,alike.others.symm,alike.headers.symm⟩

theorem equivalenceExactly (context : UriContext) (a b : SipUri) :
    (urlCompare context a a = .success ∧
      (urlCompare context a b = .success ↔ urlCompare context b a = .success)) ↔ Exchangeable context a b := by
  have same : Alike context a b ↔ Alike context b a := ⟨Alike.symm,Alike.symm⟩
  constructor
  · rintro ⟨self,both⟩
    obtain ⟨others,headers⟩ := (compareSelf context a).mp self
    refine ⟨others,headers,fun alike => ⟨fun names => ?_,fun reverse => ?_⟩⟩
    · have forward := (compareAlike context a b).mpr ⟨alike,names,headers,fun e member _ => others e member⟩
      exact ((compareAlike context b a).mp (both.mp forward)).2
    · have backward := (compareAlike context b a).mpr ⟨same.mp alike,reverse⟩
      exact ((compareAlike context a b).mp (both.mpr backward)).2.1
  · rintro ⟨others,headers,names⟩
    refine ⟨(compareSelf context a).mpr ⟨others,headers⟩,fun forward => ?_,fun backward => ?_⟩
    · obtain ⟨alike,covered,_⟩ := (compareAlike context a b).mp forward
      exact (compareAlike context b a).mpr ⟨same.mp alike,(names alike).mp covered⟩
    · obtain ⟨alike,reverse⟩ := (compareAlike context b a).mp backward
      have covered := (names alike.symm).mpr reverse
      exact (compareAlike context a b).mpr ⟨alike.symm,covered,headers,fun e member _ => others e member⟩

/- sip:a against sip:a?s=1. -/
theorem extraHeaderIgnored :
    ¬ ∀ context a b, urlCompare context a a = .success ∧
      (urlCompare context a b = .success ↔ urlCompare context b a = .success) := by
  intro exchanged
  have both := (exchanged .inOther { host := [97] } { host := [97], headerParam := [⟨[115],[49]⟩] }).2
  exact absurd (both.mp (by decide)) (by decide)

end Pjproject.Uri
