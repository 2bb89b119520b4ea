import Pjproject.DnsCache

/-! The life of a cached response: who holds an entry, what its counter says, and when its memory goes. -/
namespace Pjproject.Dns

section Counters
variable {κ : Type}

/- How many running callbacks use an entry, whether the table holds it, and whether a reference to it is owed: given up, but
not yet counted off. -/
def Cache.usesOf (cache : Cache κ) (ref : Nat) : Nat := cache.uses.countP fun use => use.cache = ref

def Cache.tabled (cache : Cache κ) (key : κ) (ref : Nat) : Nat := if cache.table key = some ref then 1 else 0

def owes (owed : Option Nat) (ref : Nat) : Nat := if owed = some ref then 1 else 0

@[simp] theorem owesNone (ref : Nat) : owes none ref = 0 := if_neg nofun

@[simp] theorem owesSelf (ref : Nat) : owes (some ref) ref = 1 := if_pos rfl

variable {ref : Nat} {cache : Cache κ}

theorem owesOther {other : Nat} (apart : other ≠ ref) : owes (some ref) other = 0 :=
  if_neg fun same => apart (Option.some.inj same).symm

/- The counters while a reference may be owed. -/
structure Held (owed : Option Nat) (cache : Cache κ) : Prop where
  keyed : ∀ key ref, cache.table key = some ref → ∃ entry, cache.entries ref = some entry ∧ entry.key = key
  count : ∀ ref entry, cache.entries ref = some entry →
    entry.refCnt = cache.tabled entry.key ref + cache.usesOf ref + owes owed ref
  positive : ∀ ref entry, cache.entries ref = some entry → 0 < entry.refCnt
  kept : ∀ use ∈ cache.uses, ∃ entry, cache.entries use.cache = some entry ∧ entry.pkt = use.pkt ∧ entry.fill = use.fill
  live : ∀ ref, owed = some ref → ∃ entry, cache.entries ref = some entry
  young : ∀ ref entry, cache.entries ref = some entry → ref < cache.fresh

theorem entriesWrite (cache : Cache κ) (ref : Nat) (new : Option (CachedRes κ)) (other : Nat) :
    (cache.writeEntry ref new).entries other = if other = ref then new else cache.entries other :=
  Function.update_apply cache.entries ref new other

theorem unusedAt (unused : cache.usesOf ref = 0) {use : Use} (running : use ∈ cache.uses) : use.cache ≠ ref := by
  intro same
  exact List.countP_eq_zero.mp unused use running (decide_eq_true same)

theorem Held.recount {owed owed' : Option Nat} (held : Held owed cache)
    {entry : CachedRes κ} (here : cache.entries ref = some entry) {cnt : Nat} (positive : 0 < cnt)
    (count : cnt = cache.tabled entry.key ref + cache.usesOf ref + owes owed' ref)
    (others : ∀ other, other ≠ ref → owes owed' other = owes owed other)
    (live : ∀ other, owed' = some other → other = ref) :
    Held owed' (cache.writeEntry ref (some { entry with refCnt := cnt })) := by
  constructor
  case keyed =>
    intro key found at_
    obtain ⟨other,there,isKey⟩ := held.keyed key found at_
    by_cases same : found = ref
    · subst same
      rw [here] at there
      cases there
      exact ⟨{ entry with refCnt := cnt },by rw [entriesWrite,if_pos rfl],isKey⟩
    · exact ⟨other,by rw [entriesWrite,if_neg same,there],isKey⟩
  case count =>
    intro other found there
    rw [entriesWrite] at there
    split at there
    · rename_i same
      subst same
      cases there
      exact count
    · rename_i apart
      have before := held.count other found there
      rw [← others other apart] at before
      exact before
  case positive =>
    intro other found there
    rw [entriesWrite] at there
    split at there
    · cases there
      exact positive
    · exact held.positive other found there
  case kept =>
    intro use member
    obtain ⟨found,there,pkt⟩ := held.kept use member
    by_cases same : use.cache = ref
    · rw [same,here] at there
      cases there
      exact ⟨{ entry with refCnt := cnt },by rw [entriesWrite,if_pos same],pkt⟩
    · exact ⟨found,by rw [entriesWrite,if_neg same,there],pkt⟩
  case live =>
    intro other owed_
    exact ⟨{ entry with refCnt := cnt },by rw [entriesWrite,if_pos (live other owed_)]⟩
  case young =>
    intro other found there
    rw [entriesWrite] at there
    split at there
    · rename_i same
      exact same ▸ held.young ref entry here
    · exact held.young other found there

theorem Held.release (held : Held (some ref) cache) :
    ∃ cache', cache.release ref = some cache' ∧ Held none cache' ∧ cache'.table = cache.table ∧
      cache'.maxTtl = cache.maxTtl := by
  obtain ⟨entry,here⟩ := held.live ref rfl
  have count := held.count ref entry here
  rw [owesSelf] at count
  unfold Cache.release
  simp only [here,Option.bind_eq_bind,Option.bind_some]
  split
  · rename_i last
    have unused : cache.usesOf ref = 0 := by omega
    have untabled : cache.tabled entry.key ref = 0 := by omega
    have seen : ∀ other found, (cache.writeEntry ref none).entries other = some found →
        other ≠ ref ∧ cache.entries other = some found := by
      intro other found there
      rw [entriesWrite] at there
      split at there
      · cases there
      · rename_i apart
        exact ⟨apart,there⟩
    refine ⟨_,rfl,?_,rfl,rfl⟩
    constructor
    case keyed =>
      intro key found at_
      obtain ⟨other,there,isKey⟩ := held.keyed key found at_
      refine ⟨other,?_,isKey⟩
      rw [entriesWrite,if_neg,there]
      rintro rfl
      rw [here] at there
      cases there
      have one : cache.tabled key found = 1 := if_pos at_
      rw [isKey,one] at untabled
      cases untabled
    case count =>
      intro other found there
      obtain ⟨apart,there⟩ := seen other found there
      have before := held.count other found there
      rw [owesOther apart] at before
      exact before
    case positive => exact fun other found there => held.positive other found (seen other found there).2
    case kept =>
      intro use member
      obtain ⟨found,there,pkt⟩ := held.kept use member
      exact ⟨found,by rw [entriesWrite,if_neg (unusedAt unused member),there],pkt⟩
    case live => exact fun _ owed_ => nomatch owed_
    case young => exact fun other found there => held.young other found (seen other found there).2
  · rename_i more
    refine ⟨_,rfl,?_,rfl,rfl⟩
    refine held.recount here (by omega) ?_ ?_ nofun
    · rw [owesNone]
      omega
    · intro other apart
      rw [owesNone,owesOther apart]

theorem Held.dropUse (held : Held none cache) {use : Use} (running : use ∈ cache.uses) :
    Held (some use.cache) { cache with uses := cache.uses.erase use } := by
  obtain ⟨entry,here,_⟩ := held.kept use running
  have uses : ∀ ref, cache.usesOf ref =
      ({ cache with uses := cache.uses.erase use } : Cache κ).usesOf ref + owes (some use.cache) ref := by
    intro ref
    have parts := (List.perm_cons_erase running).countP_eq fun other : Use => decide (other.cache = ref)
    rw [List.countP_cons] at parts
    refine parts.trans ?_
    by_cases same : use.cache = ref <;> simp [same,Cache.usesOf,owes]
  constructor
  case keyed => exact held.keyed
  case count =>
    intro ref found there
    have before := held.count ref found there
    rw [owesNone,uses ref] at before
    change found.refCnt = cache.tabled found.key ref + _ + _
    omega
  case positive => exact held.positive
  case kept => exact fun other member => held.kept other (List.mem_of_mem_erase member)
  case live =>
    intro found owed
    cases owed
    exact ⟨entry,here⟩
  case young => exact held.young

/- What holds of the counters between any two sections under the lock. -/
structure Counted (cache : Cache κ) : Prop where
  tabled : ∀ key ref, cache.table key = some ref →
    ∃ entry, cache.entries ref = some entry ∧ entry.key = key ∧ entry.refCnt = 1 + cache.usesOf ref
  removed : ∀ ref entry, cache.entries ref = some entry → (∀ key, cache.table key ≠ some ref) →
    entry.refCnt = cache.usesOf ref
  freed : ∀ ref, ref < cache.fresh →
    (cache.entries ref = none ↔ (∀ key, cache.table key ≠ some ref) ∧ cache.usesOf ref = 0)
  kept : ∀ use ∈ cache.uses, ∃ entry, cache.entries use.cache = some entry ∧ entry.pkt = use.pkt ∧ entry.fill = use.fill

theorem Held.counted (held : Held none cache) : Counted cache := by
  constructor
  case tabled =>
    intro key ref at_
    obtain ⟨entry,here,isKey⟩ := held.keyed key ref at_
    have one : cache.tabled entry.key ref = 1 := if_pos (isKey ▸ at_)
    exact ⟨entry,here,isKey,by rw [held.count ref entry here,one,owesNone,Nat.add_zero]⟩
  case removed =>
    intro ref entry here nowhere
    have zero : cache.tabled entry.key ref = 0 := if_neg (nowhere entry.key)
    rw [held.count ref entry here,zero,owesNone]
    omega
  case freed =>
    intro ref _
    constructor
    · intro dead
      refine ⟨fun key at_ => ?_,List.countP_eq_zero.mpr fun use member same => ?_⟩
      · obtain ⟨entry,here,_⟩ := held.keyed key ref at_
        rw [dead] at here
        cases here
      · obtain ⟨entry,here,_⟩ := held.kept use member
        rw [of_decide_eq_true same,dead] at here
        cases here
    · rintro ⟨nowhere,unused⟩
      cases here : cache.entries ref with
      | none => rfl
      | some entry =>
        have positive := held.positive ref entry here
        have zero : cache.tabled entry.key ref = 0 := if_neg (nowhere entry.key)
        rw [held.count ref entry here,zero,unused,owesNone] at positive
        cases positive
  case kept => exact held.kept

end Counters

variable {κ : Type} [DecidableEq κ]

theorem tableRemove (cache : Cache κ) (key other : κ) :
    (cache.removeKey key).table other = if other = key then none else cache.table other :=
  Function.update_apply cache.table key none other

variable {cache : Cache κ} {key : κ}

theorem Held.removeKey (held : Held none cache) {ref : Nat}
    (tabled : cache.table key = some ref) : Held (some ref) (cache.removeKey key) := by
  obtain ⟨owner,ownerHere,ownerKey⟩ := held.keyed key ref tabled
  constructor
  case keyed =>
    intro other found here
    rw [tableRemove] at here
    split at here
    · cases here
    · exact held.keyed other found here
  case count =>
    intro other entry here
    have before := held.count other entry here
    rw [owesNone] at before
    by_cases same : other = ref
    · subst same
      cases ownerHere.symm.trans here
      have was : cache.tabled owner.key other = 1 := if_pos (ownerKey ▸ tabled)
      have now : (cache.removeKey key).tabled owner.key other = 0 := by
        refine if_neg ?_
        rw [tableRemove,if_pos ownerKey]
        nofun
      rw [owesSelf,now]
      change owner.refCnt = 0 + cache.usesOf other + 1
      omega
    · have table : (cache.removeKey key).tabled entry.key other = cache.tabled entry.key other := by
        unfold Cache.tabled
        rw [tableRemove]
        split
        · rename_i isKey
          rw [if_neg nofun,isKey,tabled,if_neg (fun at_ => same (Option.some.inj at_).symm)]
        · rfl
      rw [owesOther same,table]
      exact before
  case positive => exact held.positive
  case kept => exact held.kept
  case live =>
    intro found owed
    cases owed
    exact ⟨owner,ownerHere⟩
  case young => exact held.young

theorem Held.place {owed : Option Nat} {cache' : Cache κ} (held : Held owed cache) {ref : Nat}
    {new : CachedRes κ} (entries : ∀ other, cache'.entries other = if other = ref then some new else cache.entries other)
    (table : ∀ other, cache'.table other = if other = key then some ref else cache.table other)
    (uses : cache'.uses = cache.uses) (grows : cache.fresh ≤ cache'.fresh) (young : ref < cache'.fresh)
    (isKey : new.key = key) (single : new.refCnt = 1) (absent : cache.table key = none)
    (mine : ∀ other, other ≠ ref → owes owed other = 0) (unused : cache.usesOf ref = 0)
    (untabled : ∀ other, cache.table other ≠ some ref) : Held none cache' := by
  have usesOf : ∀ other, cache'.usesOf other = cache.usesOf other := by
    intro other
    unfold Cache.usesOf
    rw [uses]
  constructor
  case keyed =>
    intro other found at_
    rw [table] at at_
    split at at_
    · rename_i same
      cases at_
      exact ⟨new,by rw [entries,if_pos rfl],isKey.trans same.symm⟩
    · obtain ⟨entry,here,entryKey⟩ := held.keyed other found at_
      refine ⟨entry,?_,entryKey⟩
      rw [entries,if_neg (fun same : found = ref => untabled other (same ▸ at_)),here]
  case count =>
    intro other entry there
    rw [entries] at there
    rw [owesNone,usesOf]
    split at there
    · rename_i same
      subst same
      cases there
      have tabled : cache'.tabled new.key other = 1 := if_pos (by rw [table,if_pos isKey])
      rw [single,tabled,unused]
    · rename_i apart
      have before := held.count other entry there
      rw [mine other apart] at before
      have tabled : cache'.tabled entry.key other = cache.tabled entry.key other := by
        unfold Cache.tabled
        rw [table]
        split
        · rename_i same
          rw [same,absent,if_neg (fun at_ => apart (Option.some.inj at_).symm),if_neg nofun]
        · rfl
      rw [tabled]
      exact before
  case positive =>
    intro other entry there
    rw [entries] at there
    split at there
    · cases there
      rw [single]
      exact Nat.one_pos
    · exact held.positive other entry there
  case kept =>
    intro use member
    rw [uses] at member
    obtain ⟨entry,here,same⟩ := held.kept use member
    exact ⟨entry,by rw [entries,if_neg (unusedAt unused member),here],same⟩
  case live => exact fun _ owed_ => nomatch owed_
  case young =>
    intro other entry there
    rw [entries] at there
    split at there
    · rename_i same
      exact same ▸ young
    · exact Nat.lt_of_lt_of_le (held.young other entry there) grows

theorem Held.alloc (held : Held none cache) (absent : cache.table key = none)
    (expiryTime : Nat) (pkt : Packet) : Held none (cache.alloc key expiryTime pkt) := by
  have dead : cache.entries cache.fresh = none := by
    cases here : cache.entries cache.fresh with
    | none => rfl
    | some entry => exact absurd (held.young _ entry here) (Nat.lt_irrefl _)
  have unused : cache.usesOf cache.fresh = 0 := by
    refine List.countP_eq_zero.mpr fun use member same => ?_
    obtain ⟨entry,here,_⟩ := held.kept use member
    rw [of_decide_eq_true same,dead] at here
    cases here
  refine held.place (fun other => entriesWrite cache _ _ other) (fun other => Function.update_apply _ _ _ other) rfl
    (Nat.le_succ _) (Nat.lt_succ_self _) rfl rfl absent (fun _ _ => owesNone _) unused ?_
  intro other tabled
  obtain ⟨entry,here,_⟩ := held.keyed other _ tabled
  rw [dead] at here
  cases here

theorem Held.releaseFound (held : Held none cache) (key : κ) :
    ∃ cache', (cache.removeKey key).releaseFound (cache.table key) = some cache' ∧ Held none cache' ∧
      cache'.table key = none ∧ cache'.maxTtl = cache.maxTtl := by
  cases tabled : cache.table key with
  | none =>
    have same : cache.removeKey key = cache := by
      unfold Cache.removeKey
      rw [← tabled,Function.update_eq_self]
    rw [same]
    exact ⟨cache,rfl,held,tabled,rfl⟩
  | some =>
    obtain ⟨cache',released,held',table,ttl⟩ := (held.removeKey tabled).release
    refine ⟨cache',released,held',?_,ttl⟩
    rw [table,tableRemove,if_pos rfl]

theorem Held.store (held : Held none cache) (key : κ) (expiryTime : Nat) (pkt : Packet) :
    ∃ cache', cache.store key expiryTime pkt = some cache' ∧ Held none cache' := by
  unfold Cache.store
  split
  · rename_i absent
    exact ⟨_,rfl,held.alloc absent expiryTime pkt⟩
  · rename_i ref tabled
    have removed := held.removeKey tabled
    have absent : (cache.removeKey key).table key = none := by rw [tableRemove,if_pos rfl]
    obtain ⟨entry,here⟩ := removed.live ref rfl
    have count := removed.count ref entry here
    rw [owesSelf] at count
    simp only [here,Option.bind_eq_bind,Option.bind_some]
    split
    · rename_i shared
      have less : entry.refCnt - 1 =
          (cache.removeKey key).tabled entry.key ref + (cache.removeKey key).usesOf ref + owes none ref := by
        rw [owesNone]
        omega
      have counted := removed.recount here (by omega) less (fun other apart => by rw [owesNone,owesOther apart]) nofun
      exact ⟨_,rfl,counted.alloc absent expiryTime pkt⟩
    · rename_i alone
      refine ⟨_,rfl,?_⟩
      have positive := removed.positive ref entry here
      have single : entry.refCnt = 1 := by omega
      have unused : (cache.removeKey key).usesOf ref = 0 := by omega
      have untabled : (cache.removeKey key).tabled entry.key ref = 0 := by omega
      refine removed.place (fun other => entriesWrite (cache.removeKey key) _ _ other)
        (fun other => Function.update_apply _ _ _ other) rfl (Nat.le_refl _) (removed.young ref entry here) rfl single absent
        (fun _ apart => owesOther apart) unused ?_
      intro other at_
      obtain ⟨owner,there,isKey⟩ := removed.keyed other ref at_
      cases here.symm.trans there
      have one : (cache.removeKey key).tabled entry.key ref = 1 := if_pos (isKey ▸ at_)
      rw [one] at untabled
      cases untabled

theorem Held.lookup (held : Held none cache) (key : κ) (now : Nat) :
    ∃ cache' found, cache.lookup key now = some (cache', found) ∧ Held none cache' := by
  unfold Cache.lookup
  split
  · exact ⟨cache,.miss,rfl,held⟩
  · rename_i ref tabled
    obtain ⟨entry,here,isKey⟩ := held.keyed key ref tabled
    simp only [here,Option.bind_eq_bind,Option.bind_some]
    split
    · refine ⟨_,_,rfl,?_⟩
      have count := held.count ref entry here
      rw [owesNone] at count
      -- the counter first, as if a reference were owed, and then the callback that has it
      have counted : Held (some ref) (cache.writeEntry ref (some { entry with refCnt := entry.refCnt + 1 })) := by
        refine held.recount here (Nat.succ_pos _) ?_ ?_ ?_
        · rw [owesSelf]
          omega
        · intro other apart
          rw [owesNone,owesOther apart]
        · exact fun other same => (Option.some.inj same).symm
      constructor
      case keyed => exact counted.keyed
      case count =>
        intro other found there
        have before := counted.count other found there
        rw [owesNone]
        refine before.trans ?_
        change _ = _ + (List.countP _ (_ :: _)) + 0
        rw [List.countP_cons]
        unfold owes
        simp only [Option.some.injEq,decide_eq_true_eq]
        change _ = cache.tabled found.key other + (cache.usesOf other + _) + 0
        exact Nat.add_assoc _ _ _
      case positive => exact counted.positive
      case kept =>
        intro use member
        rcases List.mem_cons.mp member with rfl | member
        · exact ⟨{ entry with refCnt := entry.refCnt + 1 },by rw [entriesWrite,if_pos rfl],rfl,rfl⟩
        · exact counted.kept use member
      case live => exact fun _ owed_ => nomatch owed_
      case young => exact counted.young
    · obtain ⟨cache',released,held',_⟩ := (held.removeKey tabled).release
      exact ⟨cache',.miss,by rw [released]; rfl,held'⟩

theorem Held.updateResCache (held : Held none cache) (key : κ) (failed setExpiry : Bool)
    (pkt : Packet) (now : Nat) :
    ∃ cache', cache.updateResCache key failed setExpiry pkt now = some cache' ∧ Held none cache' := by
  unfold Cache.updateResCache
  obtain ⟨cleared,clear,held'⟩ : ∃ cleared, cache.clearFailed key failed = some cleared ∧ Held none cleared := by
    unfold Cache.clearFailed
    split
    · obtain ⟨cache',released,held',_⟩ := held.releaseFound key
      exact ⟨cache',released,held'⟩
    · exact ⟨cache,rfl,held⟩
  simp only [clear,Option.bind_eq_bind,Option.bind_some]
  split
  · obtain ⟨cache',released,held'',_⟩ := held'.releaseFound key
    exact ⟨cache',released,held''⟩
  · exact held'.store key _ pkt

theorem Held.step (held : Held none cache) {step : CacheStep κ} (possible : step.possible cache) :
    ∃ cache', cache.step step = some cache' ∧ Held none cache' := by
  cases step with
  | lookup key now =>
    obtain ⟨cache',found,looked,held'⟩ := held.lookup key now
    exact ⟨cache',by rw [Cache.step,looked]; rfl,held'⟩
  | finish =>
    obtain ⟨cache',released,held',_⟩ := (held.dropUse possible).release
    exact ⟨cache',released,held'⟩
  | update key failed setExpiry pkt now => exact held.updateResCache key failed setExpiry pkt now
  | settings =>
    exact ⟨_,rfl,held.keyed,held.count,held.positive,held.kept,held.live,held.young⟩

/- The states of a resolver's cache: new, and after every section under the lock, in whatever order they come. -/
inductive CacheReach : Cache κ → Prop where
  | new (maxTtl : Nat) : CacheReach { maxTtl }
  | next {cache cache' : Cache κ} (reached : CacheReach cache) (step : CacheStep κ) (possible : step.possible cache)
      (stepped : cache.step step = some cache') : CacheReach cache'

theorem CacheReach.held (reached : CacheReach cache) : Held none cache := by
  induction reached with
  | new =>
    exact ⟨fun _ _ here => (nomatch here),fun _ _ here => (nomatch here),fun _ _ here => (nomatch here),
      fun _ member => (nomatch member),fun _ here => (nomatch here),fun _ _ here => (nomatch here)⟩
  | next _ step possible stepped ih =>
    obtain ⟨cache'',same,held⟩ := ih.step possible
    cases stepped.symm.trans same
    exact held

/- In every state reached the counters say who holds an entry, and no step uses an entry that was freed. -/
theorem entriesCounted {cache : Cache κ} (reached : CacheReach cache) :
    Counted cache ∧ ∀ step : CacheStep κ, step.possible cache → (cache.step step).isSome := by
  refine ⟨reached.held.counted,fun step possible => ?_⟩
  obtain ⟨cache',stepped,_⟩ := reached.held.step possible
  rw [stepped]
  rfl

/- An answer is cached, looked up, and replaced while the callback runs; then the callback returns. -/
theorem replacedWhileUsed : ∃ cache : Cache Nat, CacheReach cache ∧ cache.fresh = 2 ∧ Counted cache ∧
    ∀ step : CacheStep Nat, step.possible cache → (cache.step step).isSome := by
  have new : CacheReach (κ := Nat) { maxTtl := 300 } := .new 300
  have cached := new.next (.update 7 false true ⟨1,true,false,0,[],[30]⟩ 0) trivial rfl
  have looked := cached.next (.lookup 7 1000) trivial rfl
  have replaced := looked.next (.update 7 false true ⟨2,true,false,0,[],[60]⟩ 2000) trivial rfl
  have returned := replaced.next (.finish ⟨0,⟨1,true,false,0,[],[30]⟩,0⟩) (.head _) rfl
  exact ⟨_,returned,rfl,entriesCounted returned⟩

end Pjproject.Dns
