import Pjproject.HashTable
import Pjproject.Lib.Tally

/-! The hash table against a finite map. Keys of the case-insensitive calls count as their lower case, all others as they
are; every entry lies in the chain that its hash value picks, and a call changes at most that chain. -/
namespace Pjproject.HashTable
open Stun (lower strnicmpZero)
open Lib.LinkedList
open Lib.Tally

variable {V : Type}

/- Which keys, in lower case, are used without regard to case. -/
variable (lowers : List UInt8 → Bool)

def canon (key : List UInt8) : List UInt8 := if lowers (toLower key) then toLower key else key

/- The finite map, and what the calls do to it. -/
def mapCall (m : List UInt8 → Option V) : Call V → (List UInt8 → Option V) × Option (Option V)
  | .set _ key keylen _ value _ => (Function.update m (canon lowers (keyOf key keylen)) value, none)
  | .get key keylen _ _ => (m, some (m (canon lowers (keyOf key keylen))))

def mapRun : (List UInt8 → Option V) → List (Call V) → (List UInt8 → Option V) × List (Option V)
  | m, [] => (m, [])
  | m, call :: calls =>
    let next := mapCall lowers m call
    let rest := mapRun next.1 calls
    (rest.1, next.2.toList ++ rest.2)

/- A key is used in its own way, without a NUL where case does not matter, and with the hash value of the table or none. -/
structure Keyed (key : List UInt8) (hval : UInt32) (isLower : Bool) : Prop where
  kind : isLower = lowers (toLower key)
  text : isLower = true → 0 ∉ key
  hval : hval = 0 ∨ hval = computed isLower key

/- The memory for a new entry is not that of an entry in the table. -/
def Supplied (ht : Table V) : Source → Prop
  | .pool => True
  | .buffer none => False
  | .buffer (some n) => ∀ visited ∈ visit ht ht.count (hashFirst ht), .buf n ∉ visited

def Proper (ht : Table V) (m : List UInt8 → Option V) : Call V → Prop
  | .set source key keylen hval value isLower =>
    Keyed lowers (keyOf key keylen) hval isLower ∧
      (value.isSome → m (canon lowers (keyOf key keylen)) = none → Supplied ht source)
  | .get key keylen hval isLower => Keyed lowers (keyOf key keylen) hval isLower

def ProperRun : Table V → (List UInt8 → Option V) → List (Call V) → Prop
  | _, _, [] => True
  | ht, m, call :: calls =>
    Proper lowers ht m call ∧ ∀ next ∈ ht.call call, ProperRun next.1 (mapCall lowers m call).1 calls

theorem lowerAgain (c : UInt8) : lower (lower c) = lower c := by
  unfold lower
  split
  next capital =>
    rw [if_neg]
    intro again
    have low : (65 : Nat) ≤ c.toNat ∧ c.toNat ≤ 90 := capital
    have high : (c + 32).toNat ≤ 90 := again.2
    rw [UInt8.toNat_add] at high
    have small : (c.toNat + (32 : UInt8).toNat) % 2 ^ 8 = c.toNat + 32 := Nat.mod_eq_of_lt (by simp; omega)
    omega
  next => rfl

theorem toLowerAgain (key : List UInt8) : toLower (toLower key) = toLower key := by
  unfold toLower
  rw [List.map_map]
  exact List.map_congr_left (fun c _ => lowerAgain c)

theorem strnicmpText {left right : List UInt8} (long : left.length = right.length) (text : 0 ∉ right) :
    strnicmpZero left right = true ↔ toLower left = toLower right := by
  induction left generalizing right with
  | nil =>
    cases right with
    | nil => exact ⟨fun _ => rfl,fun _ => rfl⟩
    | cons => cases long
  | cons a left ih =>
    cases right with
    | nil => cases long
    | cons b =>
      have rest := ih (Nat.succ.inj long) (fun zero => text (List.mem_cons_of_mem b zero))
      have apart : lower a = lower b → a ≠ 0 := by
        rintro same rfl
        refine text (List.mem_cons.mpr (.inl ?_))
        have zero : lower b = 0 := same.symm
        unfold lower at zero
        split at zero <;> grind
      simp only [strnicmpZero,toLower,List.map_cons,List.cons.injEq,Bool.and_eq_true,Bool.or_eq_true,beq_iff_eq] at rest ⊢
      exact ⟨fun both => ⟨both.1,rest.mp (both.2.resolve_left (apart both.1))⟩,fun both => ⟨both.1,.inr (rest.mpr both.2)⟩⟩

variable {lowers}

theorem computedCanon {key : List UInt8} {isLower : Bool} (kind : isLower = lowers (toLower key)) :
    computed isLower key = hashCalc (canon lowers key) := by
  unfold computed canon
  rw [← kind]

theorem matchingCanon {key : List UInt8} {hval : UInt32} {isLower : Bool} (keyed : Keyed lowers key hval isLower)
    {entry : Entry V} (hash : entry.hash = hashCalc (canon lowers entry.key)) :
    matching isLower (computed isLower key) key entry = true ↔ canon lowers entry.key = canon lowers key := by
  unfold matching
  rw [computedCanon keyed.kind,hash]
  simp only [Bool.and_eq_true,beq_iff_eq]
  have same : toLower entry.key = toLower key → lowers (toLower entry.key) = isLower := fun alike =>
    (congrArg lowers alike).trans keyed.kind.symm
  cases kind : isLower with
  | true =>
    subst kind
    have mine : canon lowers key = toLower key := if_pos keyed.kind.symm
    rw [if_pos rfl,mine]
    constructor
    · rintro ⟨⟨_,long⟩,alike⟩
      have folded := (strnicmpText long (keyed.text rfl)).mp alike
      exact (if_pos (same folded)).trans folded
    · intro alike
      have folded : toLower entry.key = toLower key := by
        unfold canon at alike
        split at alike
        · exact alike
        · rw [alike,toLowerAgain]
      have long : entry.key.length = key.length := by
        have lengths := congrArg List.length folded
        simpa [toLower] using lengths
      exact ⟨⟨congrArg hashCalc alike,long⟩,(strnicmpText long (keyed.text rfl)).mpr folded⟩
  | false =>
    subst kind
    have mine : canon lowers key = key := if_neg (by rw [← keyed.kind]; exact Bool.false_ne_true)
    rw [if_neg Bool.false_ne_true,mine,beq_iff_eq]
    constructor
    · rintro ⟨_,alike⟩
      rw [alike,mine]
    · intro alike
      have itself : entry.key = key := by
        unfold canon at alike
        split at alike
        next other =>
          have folded : toLower entry.key = toLower key := by rw [← alike,toLowerAgain]
          exact absurd (other.symm.trans (same folded)) (by decide)
        · exact alike
      exact ⟨⟨congrArg hashCalc alike,congrArg List.length itself⟩,itself⟩

def info (entry : Entry V) : List UInt8 × UInt32 × V := (entry.key, entry.hash, entry.value)

def Table.info (ht : Table V) (a : Addr) : Option (List UInt8 × UInt32 × V) := (ht.entries a).map HashTable.info

def rowOf (ht : Table V) (key : List UInt8) : Nat := (hashCalc key &&& ht.rows).toNat

variable (lowers)

/- One row: its chain holds the keys of the map whose hash values pick the row. -/
structure Row (ht : Table V) (m : List UInt8 → Option V) (row : Nat) (chain : List Addr) : Prop where
  linked : ∃ head, ht.table[row]? = some head ∧ Linked Entry.next ht.entries head chain
  distinct : chain.Nodup
  place : ∀ a ∈ chain, ∀ key hash value, ht.info a = some (key, hash, value) →
    hash = hashCalc (canon lowers key) ∧ rowOf ht (canon lowers key) = row
  keys : ∀ a ∈ chain, ∀ b ∈ chain, ∀ key hash value key' hash' value', ht.info a = some (key, hash, value) →
    ht.info b = some (key', hash', value') → canon lowers key = canon lowers key' → a = b
  present : ∀ k v, rowOf ht k = row → (m k = some v ↔
    ∃ a ∈ chain, ∃ key hash, ht.info a = some (key, hash, v) ∧ canon lowers key = k)

structure Held (ht : Table V) (m : List UInt8 → Option V) (chains : List (List Addr)) : Prop where
  size : chains.length = ht.rows.toNat + 1
  rows : ∀ row chain, chains[row]? = some chain → Row lowers ht m row chain
  count : ht.count = chains.flatten.length
  pool : ∀ n, .pool n ∈ chains.flatten → n < ht.allocated

variable {lowers}

variable {chains : List (List Addr)} {a : Addr} {ht : Table V} {m : List UInt8 → Option V} {row : Nat} {chain : List Addr}

theorem memberFlatten :
    a ∈ chains.flatten ↔ ∃ (row : Nat) (chain : List Addr), chains[row]? = some chain ∧ a ∈ chain := by
  rw [List.mem_flatten]
  constructor
  · rintro ⟨chain,inside,member⟩
    obtain ⟨row,place⟩ := List.getElem?_of_mem inside
    exact ⟨row,chain,place,member⟩
  · rintro ⟨row,chain,place,member⟩
    exact ⟨chain,List.mem_of_getElem? place,member⟩

theorem rowInside (ht : Table V) (key : List UInt8) : rowOf ht key < ht.rows.toNat + 1 := by
  have below : (hashCalc key &&& ht.rows).toNat ≤ ht.rows.toNat := by
    rw [UInt32.toNat_and]
    exact Nat.and_le_right
  exact Nat.lt_succ_of_le below

theorem Row.infoOf (held : Row lowers ht m row chain) (member : a ∈ chain) :
    ∃ key hash value, ht.info a = some (key, hash, value) := by
  obtain ⟨head,_,linked⟩ := held.linked
  obtain ⟨entry,here⟩ := linked.held member
  exact ⟨entry.key,entry.hash,entry.value,by rw [Table.info,here]; rfl⟩

theorem Held.apart (held : Held lowers ht m chains)
    {other : Nat} {chain' : List Addr} (first : chains[row]? = some chain) (second : chains[other]? = some chain')
    (member : a ∈ chain) (also : a ∈ chain') : row = other := by
  obtain ⟨key,hash,value,here⟩ := (held.rows row chain first).infoOf member
  have one := ((held.rows row chain first).place a member key hash value here).2
  have two := ((held.rows other chain' second).place a also key hash value here).2
  exact one.symm.trans two

theorem Row.frame {ht' : Table V} {m' : List UInt8 → Option V}
    (held : Row lowers ht m row chain) (rows : ht'.rows = ht.rows) (heads : ht'.table[row]? = ht.table[row]?)
    (entries : ∀ a ∈ chain, ht'.entries a = ht.entries a) (same : ∀ k, rowOf ht k = row → m' k = m k) :
    Row lowers ht' m' row chain := by
  have infos : ∀ a ∈ chain, ht'.info a = ht.info a := by
    intro a member
    rw [Table.info,entries a member,Table.info]
  have places : ∀ k, rowOf ht' k = rowOf ht k := by
    intro k
    rw [rowOf,rows,rowOf]
  obtain ⟨head,here,linked⟩ := held.linked
  refine ⟨⟨head,heads.trans here,linked.congr entries⟩,held.distinct,?_,?_,?_⟩
  · intro a member key hash value told
    rw [places]
    exact held.place a member key hash value (infos a member ▸ told)
  · intro a member b also key hash value key' hash' value' told told' alike
    exact held.keys a member b also _ _ _ _ _ _ (infos a member ▸ told) (infos b also ▸ told') alike
  · intro k v inRow
    rw [places] at inRow
    rw [same k inRow,held.present k v inRow]
    constructor
    · rintro ⟨a,member,key,hash,told,alike⟩
      exact ⟨a,member,key,hash,(infos a member).trans told,alike⟩
    · rintro ⟨a,member,key,hash,told,alike⟩
      exact ⟨a,member,key,hash,(infos a member).symm.trans told,alike⟩

theorem Held.set {ht' : Table V} {m' : List UInt8 → Option V}
    (held : Held lowers ht m chains) {chain' : List Addr} (here : chains[row]? = some chain)
    (rewritten : Row lowers ht' m' row chain') (rows : ht'.rows = ht.rows)
    (others : ∀ other chain'', other ≠ row → chains[other]? = some chain'' → Row lowers ht' m' other chain'')
    (count : ht'.count + chain.length = ht.count + chain'.length)
    (pool : ∀ n, .pool n ∈ chains.flatten ∨ .pool n ∈ chain' → n < ht'.allocated) :
    Held lowers ht' m' (chains.set row chain') := by
  have inside := (List.getElem?_eq_some_iff.mp here).1
  have placed : ∀ other chain'', (chains.set row chain')[other]? = some chain'' →
      other = row ∧ chain'' = chain' ∨ other ≠ row ∧ chains[other]? = some chain'' := by
    intro other chain'' there
    by_cases same : other = row
    · rw [same,List.getElem?_set_self inside] at there
      exact .inl ⟨same,(Option.some.inj there).symm⟩
    · rw [List.getElem?_set_ne (Ne.symm same)] at there
      exact .inr ⟨same,there⟩
  refine ⟨?_,?_,?_,?_⟩
  · rw [List.length_set,held.size,rows]
  · intro other chain'' there
    rcases placed other chain'' there with ⟨rfl,rfl⟩ | ⟨apart,before⟩
    · exact rewritten
    · exact others other chain'' apart before
  · have sums := sumSet List.length here chain'
    have counted := held.count
    rw [List.length_flatten] at counted ⊢
    omega
  · intro n member
    obtain ⟨other,chain'',there,listed⟩ := memberFlatten.mp member
    rcases placed other chain'' there with ⟨_,rfl⟩ | ⟨_,before⟩
    · exact pool n (.inr listed)
    · exact pool n (.inl (memberFlatten.mpr ⟨other,chain'',before,listed⟩))

end Pjproject.HashTable
