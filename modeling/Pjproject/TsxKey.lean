import Pjproject.TsxModel

/-! The keys transactions are found by, of pjsip_tsx_create_key, and when two requests get the same one. Text is
a list of characters, one for each byte. -/
namespace Pjproject.TsxKey

open Pjproject.Tsx (Role)

abbrev Text := List Char

inductive Method where
  | invite | cancel | ack | bye | register | options
  | other (name : Text)
  deriving DecidableEq

def Method.name : Method → Text
  | .invite => ['I','N','V','I','T','E']
  | .cancel => ['C','A','N','C','E','L']
  | .ack => ['A','C','K']
  | .bye => ['B','Y','E']
  | .register => ['R','E','G','I','S','T','E','R']
  | .options => ['O','P','T','I','O','N','S']
  | .other name => name

def separator : Char := '$'

/- The parts of a received request that go into a key. A method name is read as a token and has no separator
in it; a branch may have one, written %24. -/
structure Request where
  method : Method
  branch : Text
  sentByHost : Text
  sentByPort : Nat
  cseq : Nat
  fromTag : Text
  callId : Text
  token : separator ∉ method.name

def lower (text : Text) : Text := text.map Char.toLower

/- PJSIP_RFC3261_BRANCH_ID. -/
def cookie : Text := ['z','9','h','G','4','b','K']

/- pj_strnicmp against the cookie. -/
def hasCookie (branch : Text) : Prop := lower (branch.take 7) = lower cookie

instance (branch : Text) : Decidable (hasCookie branch) := inferInstanceAs (Decidable (_ = _))

def rolePart : Role → Text
  | .uac => ['c',separator]
  | .uas => ['s',separator]

/- The method is left out for INVITE and ACK. -/
def methodPart (method : Method) : Text :=
  if method ≠ .invite ∧ method ≠ .ack then method.name ++ [separator] else []

def createTsxKey2543 (role : Role) (method : Method) (rdata : Request) : Text :=
  rolePart role ++ methodPart method ++ Nat.toDigits 10 rdata.cseq ++ [separator] ++ rdata.fromTag ++ [separator] ++
    rdata.callId ++ [separator] ++ rdata.sentByHost ++ [':'] ++ Nat.toDigits 10 rdata.sentByPort ++ [separator,'\x00']

def createTsxKey3261 (role : Role) (method : Method) (branch : Text) : Text :=
  rolePart role ++ methodPart method ++ branch

/- pjsip_tsx_create_key for the method of the request itself. -/
def pjsipTsxCreateKey (role : Role) (rdata : Request) : Text :=
  if hasCookie rdata.branch then createTsxKey3261 role rdata.method rdata.branch
  else createTsxKey2543 role rdata.method rdata

/- How the table of transactions compares keys: pj_hash_get_lower takes letters without their case. -/
def sameKey (role : Role) (a b : Request) : Prop :=
  lower (pjsipTsxCreateKey role a) = lower (pjsipTsxCreateKey role b)

/- The matching rules: a branch without regard to case, the sent-by, and the method as pjsip_method_cmp
compares it, with ACK for INVITE. -/
def sameBranch (a b : Request) : Prop := lower a.branch = lower b.branch

def sameSentBy (a b : Request) : Prop := lower a.sentByHost = lower b.sentByHost ∧ a.sentByPort = b.sentByPort

def group : Method → Option Text
  | .invite => none
  | .ack => none
  | method => some method.name

def sameMethod (a b : Request) : Prop := group a.method = group b.method

/- Methods that a key does not tell apart. -/
def alikeMethod (a b : Request) : Prop := (group a.method).map lower = (group b.method).map lower

/- An INVITE or ACK whose branch reads like the method and the branch of the other request. -/
def Overlaps (a b : Request) : Prop :=
  group a.method = none ∧ ∃ name, group b.method = some name ∧ lower a.branch = lower (name ++ separator :: b.branch)

theorem methodPartNone {method : Method} (none : group method = none) : methodPart method = [] := by
  cases method <;> simp_all [group,methodPart]

theorem methodPartSome {method : Method} {name : Text} (some : group method = some name) :
    methodPart method = name ++ [separator] ∧ method.name = name := by
  cases method <;> simp_all [group,methodPart,Method.name]

theorem lowerAppend (a b : Text) : lower (a ++ b) = lower a ++ lower b := List.map_append

theorem lowerSeparator (rest : Text) : lower (separator :: rest) = separator :: lower rest := rfl

theorem lowerIsSeparator {c : Char} (same : c.toLower = separator) : c = separator := by
  unfold Char.toLower at same
  split at same
  · rename_i upper
    have low : 65 ≤ c.val.toNat := UInt32.le_iff_toNat_le.mp upper.1
    have high : c.val.toNat ≤ 90 := UInt32.le_iff_toNat_le.mp upper.2
    have value := congrArg (fun c : Char => c.val.toNat) same
    have wrapped : (c.val.toNat + 32) % 4294967296 = 36 := by simpa [separator] using value
    omega
  · exact same

theorem lowerKeeps {text : Text} (free : separator ∉ text) : separator ∉ lower text := by
  intro inside
  obtain ⟨c,member,same⟩ := List.mem_map.mp inside
  exact free (lowerIsSeparator same ▸ member)

theorem splitUnique {a b rest rest' : Text} (freeA : separator ∉ a) (freeB : separator ∉ b)
    (same : a ++ separator :: rest = b ++ separator :: rest') : a = b ∧ rest = rest' := by
  induction a generalizing b with
  | nil =>
    cases b with
    | nil => exact ⟨rfl,(List.cons.inj same).2⟩
    | cons c =>
      have first : separator = c := (List.cons.inj same).1
      exact absurd (first ▸ List.mem_cons_self) freeB
  | cons c a ih =>
    cases b with
    | nil =>
      have first : c = separator := (List.cons.inj same).1
      exact absurd (first ▸ List.mem_cons_self) freeA
    | cons =>
      obtain ⟨first,later⟩ := List.cons.inj same
      obtain ⟨names,tails⟩ := ih (fun inside => freeA (List.mem_cons_of_mem _ inside))
        (fun inside => freeB (List.mem_cons_of_mem _ inside)) later
      exact ⟨by rw [first,names],tails⟩

variable {role : Role} {r a b : Request}

theorem keyBody (magic : hasCookie r.branch) :
    lower (pjsipTsxCreateKey role r) = lower (rolePart role) ++ lower (methodPart r.method ++ r.branch) := by
  unfold pjsipTsxCreateKey createTsxKey3261
  rw [if_pos magic,List.append_assoc,lowerAppend]

theorem sameKeyBody (magicA : hasCookie a.branch) (magicB : hasCookie b.branch) :
    sameKey role a b ↔ lower (methodPart a.method ++ a.branch) = lower (methodPart b.method ++ b.branch) := by
  unfold sameKey
  rw [keyBody magicA,keyBody magicB]
  exact List.append_right_inj _

theorem namedBody {name : Text} (named : group r.method = some name) :
    lower (methodPart r.method ++ r.branch) = lower name ++ separator :: lower r.branch ∧
      separator ∉ lower name := by
  obtain ⟨part,same⟩ := methodPartSome named
  refine ⟨?_,lowerKeeps (same ▸ r.token)⟩
  rw [part,List.append_assoc,lowerAppend]
  rfl

theorem bareBody (bare : group r.method = none) : lower (methodPart r.method ++ r.branch) = lower r.branch := by
  rw [methodPartNone bare]
  rfl

theorem sameKeyExactly (magicA : hasCookie a.branch) (magicB : hasCookie b.branch) :
    sameKey role a b ↔ (sameBranch a b ∧ alikeMethod a b) ∨ Overlaps a b ∨ Overlaps b a := by
  rw [sameKeyBody magicA magicB]
  unfold sameBranch alikeMethod Overlaps
  cases one : group a.method with
  | none =>
    rw [bareBody one]
    cases two : group b.method with
    | none =>
      rw [bareBody two]
      simp
    | some =>
      rw [(namedBody two).1]
      simp [lowerAppend,lowerSeparator]
  | some name =>
    rw [(namedBody one).1]
    cases two : group b.method with
    | none =>
      rw [bareBody two]
      simp [lowerAppend,lowerSeparator,eq_comm]
    | some name' =>
      rw [(namedBody two).1]
      constructor
      · intro same
        obtain ⟨names,branches⟩ := splitUnique (namedBody one).2 (namedBody two).2 same
        exact .inl ⟨branches,by rw [Option.map_some,Option.map_some,names]⟩
      · rintro (⟨branches,names⟩ | ⟨none,-⟩ | ⟨none,-⟩)
        · have names' : lower name = lower name' := by simpa using names
          rw [names',branches]
        · cases none
        · cases none

/- What is asked of the keys of two requests: for a server the rules of matching, for a client the branch and the
method. -/
def Matched (a b : Request) : Prop :=
  (sameKey .uas a b ↔ sameBranch a b ∧ sameSentBy a b ∧ sameMethod a b) ∧
    (sameKey .uac a b ↔ sameBranch a b ∧ sameMethod a b)

theorem sameMethodAlike (same : sameMethod a b) : alikeMethod a b := congrArg (Option.map lower) same

/- The keys match exactly the requests they should unless two requests with one branch and methods alike differ in
the sent-by or in the case of the method, or the branch of one holds the method and branch of the other. -/
theorem keysMatchedExactly (a b : Request) (magicA : hasCookie a.branch) (magicB : hasCookie b.branch) :
    Matched a b ↔
      (sameBranch a b → alikeMethod a b → sameSentBy a b ∧ sameMethod a b) ∧ ¬ Overlaps a b ∧ ¬ Overlaps b a := by
  have apart : ∀ {x y : Request}, Overlaps x y → ¬ group x.method = group y.method := by
    rintro x y ⟨none,name,named,-⟩ same
    rw [none,named] at same
    cases same
  unfold Matched
  rw [sameKeyExactly magicA magicB,sameKeyExactly magicA magicB]
  constructor
  · rintro ⟨server,-⟩
    refine ⟨fun branch alike => (server.mp (.inl ⟨branch,alike⟩)).2,fun overlap => ?_,fun overlap => ?_⟩
    · exact apart overlap (server.mp (.inr (.inl overlap))).2.2
    · exact apart overlap (server.mp (.inr (.inr overlap))).2.2.symm
  · rintro ⟨plain,left,right⟩
    have only : (sameBranch a b ∧ alikeMethod a b) ∨ Overlaps a b ∨ Overlaps b a ↔
        sameBranch a b ∧ alikeMethod a b := by
      simp [left,right]
    rw [only]
    refine ⟨⟨fun both => ⟨both.1,plain both.1 both.2⟩,fun all => ⟨all.1,sameMethodAlike all.2.2⟩⟩,?_⟩
    exact ⟨fun both => ⟨both.1,(plain both.1 both.2).2⟩,fun all => ⟨all.1,sameMethodAlike all.2⟩⟩

/- Two proxies that use one branch for an OPTIONS request. -/
def fromHost (host : Text) : Request where
  method := .options
  branch := cookie ++ ['1']
  sentByHost := host
  sentByPort := 5060
  cseq := 1
  fromTag := ['t']
  callId := ['c']
  token := by decide

theorem sentByIgnored :
    hasCookie (fromHost ['a']).branch ∧ hasCookie (fromHost ['b']).branch ∧
      sameKey .uas (fromHost ['a']) (fromHost ['b']) ∧ ¬ sameSentBy (fromHost ['a']) (fromHost ['b']) ∧
      ¬ Matched (fromHost ['a']) (fromHost ['b']) := by
  have differ : ¬ sameSentBy (fromHost ['a']) (fromHost ['b']) := by
    unfold sameSentBy
    decide
  refine ⟨by decide,by decide,rfl,differ,fun matched => ?_⟩
  exact differ (matched.1.mp rfl).2.1

/- A request and its retransmission. -/
theorem retransmissionMatched : Matched (fromHost ['a']) (fromHost ['a']) := by
  refine (keysMatchedExactly _ _ (by decide) (by decide)).mpr ⟨fun _ _ => ⟨⟨rfl,rfl⟩,rfl⟩,?_,?_⟩
  · rintro ⟨none,-⟩
    cases none
  · rintro ⟨none,-⟩
    cases none

end Pjproject.TsxKey
