import Mathlib

/-! The response cache of resolver.c: a hash table of entries with reference counters, which callbacks hold while the lock is
released. Each section of code under the lock is one step; none stands for a use of freed memory. -/
namespace Pjproject.Dns

/- pj_dns_parsed_packet, as far as the resolver reads it. Times to live are those of the answers. -/
structure Packet where
  id : UInt16
  qr : Bool
  tc : Bool
  rcode : Nat
  questions : List (UInt16 × List Char)
  ttls : List Nat
  deriving DecidableEq

/- PJ_DNS_RESOLVER_INVALID_TTL. -/
def invalidTtl : Nat := 60

variable {κ : Type} [DecidableEq κ]

/- struct cached_res; times in milliseconds. `fill` is not in the source: the number of the response that was put in. -/
structure CachedRes (κ : Type) where
  key : κ
  expiryTime : Nat
  pkt : Packet
  refCnt : Nat
  fill : Nat

/- A lookup whose callback runs: the entry it holds and the packet it was given. -/
structure Use where
  cache : Nat
  pkt : Packet
  fill : Nat
  deriving DecidableEq

/- hrescache and the memory of the entries; an entry that is freed, or was never allocated, is none there. -/
structure Cache (κ : Type) where
  maxTtl : Nat
  table : κ → Option Nat := fun _ => none
  entries : Nat → Option (CachedRes κ) := fun _ => none
  fresh : Nat := 0
  fills : Nat := 0
  uses : List Use := []

def Cache.removeKey (cache : Cache κ) (key : κ) : Cache κ :=
  { cache with table := Function.update cache.table key none }

def Cache.writeEntry (cache : Cache κ) (ref : Nat) (entry : Option (CachedRes κ)) : Cache κ :=
  { cache with entries := Function.update cache.entries ref entry }

/- The counter goes down, and the entry is freed with it. -/
def Cache.release (cache : Cache κ) (ref : Nat) : Option (Cache κ) := do
  let entry ← cache.entries ref
  if entry.refCnt - 1 ≤ 0 then some (cache.writeEntry ref none)
  else some (cache.writeEntry ref (some { entry with refCnt := entry.refCnt - 1 }))

/- The same for what the table held under a key, which may be nothing. -/
def Cache.releaseFound (cache : Cache κ) : Option Nat → Option (Cache κ)
  | none => some cache
  | some ref => cache.release ref

/- What start_query finds: a packet that its callback is called with, or nothing. -/
inductive Found where
  | hit (use : Use)
  | miss

/- The cache part of pj_dns_resolver_start_query, up to the callback. -/
def Cache.lookup (cache : Cache κ) (key : κ) (now : Nat) : Option (Cache κ × Found) :=
  match cache.table key with
  | none => some (cache, .miss)
  | some ref => do
    let entry ← cache.entries ref
    if now < entry.expiryTime then
      let cache := cache.writeEntry ref (some { entry with refCnt := entry.refCnt + 1 })
      let use : Use := ⟨ref,entry.pkt,entry.fill⟩
      some ({ cache with uses := use :: cache.uses }, .hit use)
    else
      let cache ← (cache.removeKey key).release ref
      some (cache, .miss)

/- After the callback. -/
def Cache.finish (cache : Cache κ) (use : Use) : Option (Cache κ) :=
  ({ cache with uses := cache.uses.erase use }).release use.cache

/- The time to live that update_res_cache works out. -/
def ttlOf (maxTtl : Nat) (failed setExpiry : Bool) (pkt : Packet) : Nat :=
  let ttl := if setExpiry then
      if pkt.ttls = [] ∨ failed then invalidTtl else pkt.ttls.foldl min 0xFFFFFFFF
    else 0xFFFFFFFF
  if maxTtl < ttl then maxTtl else ttl

def expiryOf (now : Nat) (setExpiry : Bool) (ttl : Nat) : Nat :=
  if setExpiry then now + ttl * 1000 else 0x7FFFFFFF * 1000

/- alloc_entry, then the packet and the key. -/
def Cache.alloc (cache : Cache κ) (key : κ) (expiryTime : Nat) (pkt : Packet) : Cache κ :=
  { cache.writeEntry cache.fresh (some { key, expiryTime, pkt, refCnt := 1, fill := cache.fills }) with
    table := Function.update cache.table key (some cache.fresh)
    fresh := cache.fresh + 1
    fills := cache.fills + 1 }

/- reset_entry, then the packet and the key: the same memory with other contents, and the counter as it was. -/
def Cache.reset (cache : Cache κ) (ref refCnt : Nat) (key : κ) (expiryTime : Nat) (pkt : Packet) : Cache κ :=
  { cache.writeEntry ref (some { key, expiryTime, pkt, refCnt, fill := cache.fills }) with
    table := Function.update cache.table key (some ref)
    fills := cache.fills + 1 }

/- An unsuccessful response first clears the entry of its key. -/
def Cache.clearFailed (cache : Cache κ) (key : κ) (failed : Bool) : Option (Cache κ) :=
  if failed then (cache.removeKey key).releaseFound (cache.table key) else some cache

/- The entry under the key makes room for a response. -/
def Cache.store (cache : Cache κ) (key : κ) (expiryTime : Nat) (pkt : Packet) : Option (Cache κ) :=
  match cache.table key with
  | none => some (cache.alloc key expiryTime pkt)
  | some ref => do
    let cache := cache.removeKey key
    let entry ← cache.entries ref
    if 1 < entry.refCnt then
      -- a callback uses the entry; it is freed when the callback returns
      let cache := cache.writeEntry ref (some { entry with refCnt := entry.refCnt - 1 })
      some (cache.alloc key expiryTime pkt)
    else some (cache.reset ref entry.refCnt key expiryTime pkt)

/- update_res_cache. -/
def Cache.updateResCache (cache : Cache κ) (key : κ) (failed setExpiry : Bool) (pkt : Packet) (now : Nat) :
    Option (Cache κ) := do
  let cache ← cache.clearFailed key failed
  let ttl := ttlOf cache.maxTtl failed setExpiry pkt
  if ttl = 0 then (cache.removeKey key).releaseFound (cache.table key)
  else cache.store key (expiryOf now setExpiry ttl) pkt

inductive CacheStep (κ : Type) where
  | lookup (key : κ) (now : Nat)
  | finish (use : Use)
  | update (key : κ) (failed setExpiry : Bool) (pkt : Packet) (now : Nat)
  | settings (maxTtl : Nat)

/- Only a callback that runs can return. -/
def CacheStep.possible (cache : Cache κ) : CacheStep κ → Prop
  | .finish use => use ∈ cache.uses
  | _ => True

def Cache.step (cache : Cache κ) : CacheStep κ → Option (Cache κ)
  | .lookup key now => (cache.lookup key now).map Prod.fst
  | .finish use => cache.finish use
  | .update key failed setExpiry pkt now => cache.updateResCache key failed setExpiry pkt now
  | .settings maxTtl => some { cache with maxTtl }

end Pjproject.Dns
