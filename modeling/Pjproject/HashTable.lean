import Pjproject.StunAuth
import Pjproject.Lib.LinkedList

/-! The hash table of pj/hash.c: entries in chains, written through pointers to their links. Entries are allocated from a
pool or lie in buffers of the caller. A function returns none where the code would run for ever or follow a wrong pointer. -/
namespace Pjproject.HashTable
open Stun (lower strnicmpZero)
open Lib.LinkedList

/- Where an entry lies. -/
inductive Addr where
  | pool (n : Nat)
  | buf (n : Nat)
  deriving DecidableEq

/- struct pj_hash_entry; keylen is the length of the key. -/
structure Entry (V : Type) where
  next : Option Addr
  key : List UInt8
  hash : UInt32
  value : V

/- struct pj_hash_table_t, with the memory of the entries and the number of entries taken from pools so far. count is kept
without its modulus. -/
structure Table (V : Type) where
  table : List (Option Addr)
  count : Nat
  rows : UInt32
  entries : Addr → Option (Entry V)
  allocated : Nat

variable {V : Type}

def hashMultiplier : UInt32 := 33

def toLower (key : List UInt8) : List UInt8 := key.map lower

def hashCalc (key : List UInt8) : UInt32 := key.foldl (fun hash c => hash * hashMultiplier + c.toUInt32) 0

/- The hash value that find_entry computes. -/
def computed (isLower : Bool) (key : List UInt8) : UInt32 := hashCalc (if isLower then toLower key else key)

/- The loop of pj_hash_create that doubles the size. -/
def doubleSize (size : UInt32) : Nat → UInt32 → Option UInt32
  | 0, _ => none
  | fuel + 1, tableSize =>
    let tableSize := tableSize <<< 1
    if tableSize < size then doubleSize size fuel tableSize else some tableSize

/- After 32 rounds the size is zero and stays zero. -/
def hashCreate (size : UInt32) : Option (Table V) :=
  (doubleSize size 32 8).map fun tableSize =>
    { table := List.replicate tableSize.toNat none, count := 0, rows := tableSize - 1, entries := fun _ => none, allocated := 0 }

/- The key of a call: keylen bytes, or up to the first NUL for PJ_HASH_KEY_STRING. -/
def keyOf (key : List UInt8) : Option Nat → List UInt8
  | some keylen => key.take keylen
  | none => key.takeWhile (· ≠ 0)

def matching (isLower : Bool) (hash : UInt32) (key : List UInt8) (entry : Entry V) : Bool :=
  entry.hash == hash && entry.key.length == key.length &&
    (if isLower then strnicmpZero entry.key key else entry.key == key)

/- A pointer to the pointer to an entry: the head of a row, or the link of an entry in it. -/
structure PEntry where
  row : Nat
  place : Option Addr

def Table.deref (ht : Table V) (p : PEntry) : Option (Option Addr) :=
  match p.place with
  | none => ht.table[p.row]?
  | some a => (ht.entries a).map Entry.next

def link (next : Option Addr) (entry : Entry V) : Entry V := { entry with next }

def Table.write (ht : Table V) (p : PEntry) (target : Option Addr) : Table V :=
  { ht with
    table := match p.place with
      | none => ht.table.set p.row target
      | some _ => ht.table
    entries := relink link p.place target ht.entries }

/- Where a new entry is put: into the buffer of the caller, or into memory from the pool. -/
inductive Source where
  | pool
  | buffer (entryBuf : Option Nat)
  deriving DecidableEq

def Table.newEntry (ht : Table V) : Source → Option (Addr × Table V)
  | .pool => some (.pool ht.allocated, { ht with allocated := ht.allocated + 1 })
  | .buffer (some n) => some (.buf n, ht)
  | .buffer none => none

structure Found (V : Type) where
  ht : Table V
  pEntry : PEntry
  hval : UInt32

def findEntry (source : Source) (ht : Table V) (key : List UInt8) (keylen : Option Nat) (val : Option V) (hval : UInt32)
    (isLower : Bool) : Option (Found V) := do
  let key := keyOf key keylen
  let hash := if hval ≠ 0 then hval else computed isLower key
  let row := (hash &&& ht.rows).toNat
  let head ← ht.table[row]?
  let (place, entry) ← scan Entry.next ht.entries (matching isLower hash key) ht.count none head
  match entry, val with
  | none, some val =>
    let (a, ht) ← ht.newEntry source
    let ht := { ht with entries := Function.update ht.entries a (some ⟨none,key,hash,val⟩) }
    let ht := ht.write ⟨row,place⟩ (some a)
    some ⟨{ ht with count := ht.count + 1 },⟨row,place⟩,hash⟩
  | _, _ => some ⟨ht,⟨row,place⟩,hash⟩

/- pj_hash_get and pj_hash_get_lower: the value, NULL as none, and the hash value reported back. -/
def hashGet (ht : Table V) (key : List UInt8) (keylen : Option Nat) (hval : UInt32) (isLower : Bool) :
    Option (Option V × UInt32) := do
  let found ← findEntry (.buffer none) ht key keylen none hval isLower
  match ← found.ht.deref found.pEntry with
  | none => some (none, found.hval)
  | some a =>
    let entry ← found.ht.entries a
    some (some entry.value, found.hval)

def hashSet (source : Source) (ht : Table V) (key : List UInt8) (keylen : Option Nat) (hval : UInt32) (value : Option V)
    (isLower : Bool) : Option (Table V) := do
  let found ← findEntry source ht key keylen value hval isLower
  let ht := found.ht
  match ← ht.deref found.pEntry with
  | none => some ht
  | some a =>
    let entry ← ht.entries a
    match value with
    | none =>
      let ht := ht.write found.pEntry entry.next
      some { ht with count := ht.count - 1 }
    | some value => some { ht with entries := Function.update ht.entries a (some { entry with value := value }) }

def hashCount (ht : Table V) : UInt32 := UInt32.ofNat ht.count

structure Iterator where
  index : Nat
  entry : Addr
  deriving DecidableEq

/- The loop of pj_hash_first and pj_hash_next over the rows from one on. -/
def nextRow (ht : Table V) : Nat → Nat → Option Iterator
  | 0, _ => none
  | fuel + 1, index =>
    if index ≤ ht.rows.toNat then
      match ht.table[index]?.join with
      | some a => some ⟨index,a⟩
      | none => nextRow ht fuel (index + 1)
    else none

def hashFirst (ht : Table V) : Option Iterator := nextRow ht (ht.rows.toNat + 1) 0

def hashNext (ht : Table V) (it : Iterator) : Option Iterator :=
  match (ht.entries it.entry).bind Entry.next with
  | some a => some ⟨it.index,a⟩
  | none => nextRow ht (ht.rows.toNat + 1) (it.index + 1)

/- The loop that a caller runs over them, for at most as many rounds as there is fuel. -/
def visit (ht : Table V) : Nat → Option Iterator → Option (List Addr)
  | _, none => some []
  | 0, some _ => none
  | fuel + 1, some it => (visit ht fuel (hashNext ht it)).map (it.entry :: ·)

inductive Call (V : Type) where
  | set (source : Source) (key : List UInt8) (keylen : Option Nat) (hval : UInt32) (value : Option V) (isLower : Bool)
  | get (key : List UInt8) (keylen : Option Nat) (hval : UInt32) (isLower : Bool)

/- A call of pj_hash_set and its variants, or of pj_hash_get and its variant, with what the latter returns. -/
def Table.call (ht : Table V) : Call V → Option (Table V × Option (Option V))
  | .set source key keylen hval value isLower => (hashSet source ht key keylen hval value isLower).map (·, none)
  | .get key keylen hval isLower => (hashGet ht key keylen hval isLower).map fun got => (ht, some got.1)

def run : Table V → List (Call V) → Option (Table V × List (Option V))
  | ht, [] => some (ht, [])
  | ht, call :: calls => do
    let (ht, got) ← ht.call call
    let (ht, results) ← run ht calls
    some (ht, got.toList ++ results)

end Pjproject.HashTable
