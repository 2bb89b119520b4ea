import Pjproject.HashCalls

/-! Whole runs on a hash table: an iteration passes the chains one after another, a table of up to two to the power of 31
rows comes into being empty, and every run from there answers as the finite map does. -/
namespace Pjproject.HashTable
open Lib.LinkedList

variable {V : Type} {lowers : List UInt8 → Bool}

variable {ht : Table V} {m : List UInt8 → Option V} {chains : List (List Addr)}

theorem visitChain {row : Nat} {rest : List Addr}
    (later : ∀ fuel, rest.length ≤ fuel → visit ht fuel (nextRow ht (ht.rows.toNat + 1) (row + 1)) = some rest)
    {a : Addr} {chain : List Addr} (linked : Linked Entry.next ht.entries (some a) (a :: chain)) {fuel : Nat}
    (enough : (a :: chain).length + rest.length ≤ fuel) : visit ht fuel (some ⟨row,a⟩) = some (a :: chain ++ rest) := by
  induction chain generalizing a fuel with
  | nil =>
    obtain ⟨fuel,rfl⟩ : ∃ n, fuel = n + 1 := ⟨fuel - 1,by simp at enough; omega⟩
    have last : rest.length ≤ fuel := by
      rw [List.length_singleton] at enough
      omega
    cases linked with
    | @cell _ entry _ held tail =>
      generalize next : entry.next = p at tail
      cases tail
      have moves : hashNext ht ⟨row,a⟩ = nextRow ht (ht.rows.toNat + 1) (row + 1) := by
        simp only [hashNext,held,Option.bind_some,next]
      rw [visit,moves,later fuel last]
      rfl
  | cons b chain ih =>
    obtain ⟨fuel,rfl⟩ : ∃ n, fuel = n + 1 := ⟨fuel - 1,by simp at enough; omega⟩
    have left : (b :: chain).length + rest.length ≤ fuel := by
      rw [List.length_cons] at enough
      omega
    cases linked with
    | @cell _ entry _ held tail =>
      generalize next : entry.next = p at tail
      cases tail with
      | @cell _ second _ there behind =>
        have moves : hashNext ht ⟨row,a⟩ = some ⟨row,b⟩ := by
          simp only [hashNext,held,Option.bind_some,next]
        rw [visit,moves,ih (.cell there behind) left]
        rfl

theorem Held.visitRows
    (held : Held lowers ht m chains) (rest : List (List Addr)) {row : Nat} (behind : chains.drop row = rest) {rounds : Nat}
    (more : rest.length ≤ rounds) {fuel : Nat} (enough : rest.flatten.length ≤ fuel) :
    visit ht fuel (nextRow ht rounds row) = some rest.flatten := by
  induction rest generalizing row rounds fuel with
  | nil =>
    have past := List.drop_eq_nil_iff.mp behind
    rw [held.size] at past
    have finished : nextRow ht rounds row = none := by
      cases rounds with
      | zero => rfl
      | succ => exact if_neg (by omega)
    rw [finished]
    cases fuel <;> rfl
  | cons chain rest ih =>
    obtain ⟨rounds,rfl⟩ : ∃ n, rounds = n + 1 := ⟨rounds - 1,by simp at more; omega⟩
    have here : chains[row]? = some chain := by
      rw [← Nat.add_zero row,← List.getElem?_drop,behind]
      rfl
    have next : chains.drop (row + 1) = rest := by
      rw [← List.drop_drop,behind]
      rfl
    have inside : row ≤ ht.rows.toNat := by
      have bound := (List.getElem?_eq_some_iff.mp here).1
      rw [held.size] at bound
      omega
    have all : rest.length ≤ ht.rows.toNat + 1 := by
      rw [← next,← held.size,List.length_drop]
      exact Nat.sub_le _ _
    rw [List.flatten_cons,List.length_append] at enough
    obtain ⟨head,read,linked⟩ := (held.rows row chain here).linked
    unfold nextRow
    rw [if_pos inside,read,Option.join_some]
    cases linked with
    | done => exact ih next (Nat.le_of_succ_le_succ more) (by omega)
    | cell there tail => exact visitChain (fun _ => ih next all) (.cell there tail) enough

theorem Held.visits (held : Held lowers ht m chains) : visit ht ht.count (hashFirst ht) = some chains.flatten :=
  held.visitRows chains rfl (Nat.le_of_eq held.size) (Nat.le_of_eq held.count.symm)

theorem Held.fresh (held : Held lowers ht m chains)
    {source : Source} (supplied : Supplied ht source) : Fresh ht chains source := by
  cases source with
  | pool => exact ⟨.pool ht.allocated,_,rfl,fun member => Nat.lt_irrefl _ (held.pool _ member)⟩
  | buffer entryBuf =>
    cases entryBuf with
    | none => cases supplied
    | some n => exact ⟨.buf n,ht,rfl,supplied chains.flatten held.visits⟩

theorem Held.call (held : Held lowers ht m chains) {call : Call V} (proper : Proper lowers ht m call) :
    ∃ ht' chains', ht.call call = some (ht', (mapCall lowers m call).2) ∧ Held lowers ht' (mapCall lowers m call).1 chains' := by
  cases call with
  | set source key keylen hval value =>
    obtain ⟨keyed,supply⟩ := proper
    obtain ⟨ht',chains',sets,after⟩ :=
      setMap held keyed value (fun given missing => held.fresh (supply given missing))
    exact ⟨ht',chains',congrArg (Option.map (·, none)) sets,after⟩
  | get key keylen hval isLower =>
    have gets : hashGet ht key keylen hval isLower = _ := getMap held proper
    refine ⟨ht,chains,?_,held⟩
    show (hashGet ht key keylen hval isLower).map (fun got => (ht, some got.1)) = _
    rw [gets]
    rfl

theorem Held.run (held : Held lowers ht m chains) {calls : List (Call V)} (proper : ProperRun lowers ht m calls) :
    ∃ ht' chains', run ht calls = some (ht', (mapRun lowers m calls).2) ∧ Held lowers ht' (mapRun lowers m calls).1 chains' := by
  induction calls generalizing ht m chains with
  | nil => exact ⟨ht,chains,rfl,held⟩
  | cons call calls ih =>
    obtain ⟨mid,chains',calling,between⟩ := held.call proper.1
    obtain ⟨ht',chains'',running,after⟩ := ih between (proper.2 _ calling)
    refine ⟨ht',chains'',?_,after⟩
    unfold HashTable.run
    rw [calling]
    simp only [Option.bind_eq_bind,Option.bind_some,running]
    rfl

structure Shows (lowers : List UInt8 → Bool) (ht : Table V) (m : List UInt8 → Option V) (visited : List Addr) : Prop where
  once : visited.Nodup
  entries : ∀ a ∈ visited, ∃ entry, ht.entries a = some entry ∧ m (canon lowers entry.key) = some entry.value
  keys : ∀ k, m k ≠ none → ∃! a, a ∈ visited ∧ ∃ entry, ht.entries a = some entry ∧ canon lowers entry.key = k

theorem Held.distinct (held : Held lowers ht m chains) : chains.flatten.Nodup := by
  refine List.nodup_flatten.mpr ⟨?_,?_⟩
  · intro chain inside
    obtain ⟨row,here⟩ := List.getElem?_of_mem inside
    exact (held.rows row chain here).distinct
  · refine List.pairwise_iff_getElem.mpr ?_
    intro i j first second before a member also
    have same := held.apart (List.getElem?_eq_getElem first) (List.getElem?_eq_getElem second) member also
    omega

theorem Held.shows (held : Held lowers ht m chains) : Shows lowers ht m chains.flatten := by
  have valued : ∀ a ∈ chains.flatten, ∃ entry, ht.entries a = some entry ∧ m (canon lowers entry.key) = some entry.value := by
    intro a member
    obtain ⟨row,chain,here,listed⟩ := memberFlatten.mp member
    have inRow := held.rows row chain here
    obtain ⟨head,_,linked⟩ := inRow.linked
    obtain ⟨entry,there⟩ := linked.held listed
    have told : ht.info a = some (entry.key, entry.hash, entry.value) := by rw [Table.info,there]; rfl
    have place := (inRow.place a listed _ _ _ told).2
    exact ⟨entry,there,(inRow.present _ _ place).mpr ⟨a,listed,_,_,told,rfl⟩⟩
  refine ⟨held.distinct,valued,?_⟩
  intro k bound
  obtain ⟨v,value⟩ := Option.ne_none_iff_exists'.mp bound
  obtain ⟨chain,here⟩ := held.chain k
  obtain ⟨a,listed,key,hash,told,alike⟩ := ((held.rows _ chain here).present k v rfl).mp value
  obtain ⟨entry,there,same⟩ := Option.map_eq_some_iff.mp told
  cases same
  refine ⟨a,⟨memberFlatten.mpr ⟨_,chain,here,listed⟩,entry,there,alike⟩,?_⟩
  rintro b ⟨member,other,found,also⟩
  obtain ⟨row,chain',here',listed'⟩ := memberFlatten.mp member
  have second : ht.info b = some (other.key, other.hash, other.value) := by rw [Table.info,found]; rfl
  have place := ((held.rows row chain' here').place b listed' _ _ _ second).2
  rw [also] at place
  subst place
  cases here.symm.trans here'
  exact (held.rows _ chain here).keys b listed' a listed _ _ _ _ _ _ second told (also.trans alike.symm)

theorem Held.counts (held : Held lowers ht m chains) : ht.count = {k | m k ≠ none}.ncard := by
  have shown := held.shows
  let keyAt := fun a => canon lowers ((ht.entries a).elim [] Entry.key)
  have keyed : ∀ a ∈ chains.flatten, ∀ entry, ht.entries a = some entry → keyAt a = canon lowers entry.key := by
    intro a _ entry there
    simp only [keyAt,there,Option.elim_some]
  have bound : {k | m k ≠ none} = ((chains.flatten.map keyAt).toFinset : Set (List UInt8)) := by
    ext k
    rw [Finset.mem_coe,List.mem_toFinset,List.mem_map]
    constructor
    · intro present
      obtain ⟨a,⟨member,entry,there,alike⟩,_⟩ := shown.keys k present
      exact ⟨a,member,(keyed a member entry there).trans alike⟩
    · rintro ⟨a,member,rfl⟩ missing
      obtain ⟨entry,there,value⟩ := shown.entries a member
      rw [keyed a member entry there,value] at missing
      cases missing
  have apart : (chains.flatten.map keyAt).Nodup := by
    refine List.Nodup.map_on ?_ shown.once
    intro a first b second same
    obtain ⟨entry,there,value⟩ := shown.entries a first
    obtain ⟨other,found,_⟩ := shown.entries b second
    have present : m (keyAt a) ≠ none := by
      rw [keyed a first entry there,value]
      exact Option.some_ne_none _
    obtain ⟨c,_,only⟩ := shown.keys (keyAt a) present
    rw [only a ⟨first,entry,there,(keyed a first entry there).symm⟩]
    exact (only b ⟨second,other,found,(keyed b second other found).symm.trans same.symm⟩).symm
  rw [bound,Set.ncard_coe_finset,List.toFinset_card_of_nodup apart,List.length_map]
  exact held.count

theorem doubleSizeEnds {size : UInt32} (small : size.toNat ≤ 2 ^ 31) (fuel power : Nat) (enough : 31 ≤ power + fuel)
    (room : power ≤ 30) {tableSize : UInt32} (doubled : tableSize.toNat = 2 ^ power) :
    ∃ result, doubleSize size fuel tableSize = some result ∧ 0 < result.toNat := by
  induction fuel generalizing power tableSize with
  | zero => omega
  | succ fuel ih =>
    have next : (tableSize <<< 1).toNat = 2 ^ (power + 1) := by
      have below : 2 ^ (power + 1) < 2 ^ 32 := Nat.pow_lt_pow_right (by decide) (by omega)
      rw [UInt32.toNat_shiftLeft,doubled,Nat.shiftLeft_eq]
      show 2 ^ power * 2 ^ 1 % 2 ^ 32 = 2 ^ (power + 1)
      rw [← Nat.pow_add,Nat.mod_eq_of_lt below]
    unfold doubleSize
    dsimp only
    split
    next short =>
      have less : 2 ^ (power + 1) < 2 ^ 31 := by
        rw [← next]
        exact Nat.lt_of_lt_of_le (UInt32.lt_iff_toNat_lt.mp short) small
      have bound := (Nat.pow_lt_pow_iff_right (by decide : 1 < 2)).mp less
      exact ih (power + 1) (by omega) (by omega) next
    next => exact ⟨_,rfl,by rw [next]; exact Nat.two_pow_pos _⟩

theorem createdHeld (lowers : List UInt8 → Bool) {size : UInt32} (small : size.toNat ≤ 2 ^ 31) :
    ∃ ht, hashCreate (V := V) size = some ht ∧
      Held lowers ht (fun _ => none) (List.replicate (ht.rows.toNat + 1) []) := by
  obtain ⟨tableSize,ends,positive⟩ := doubleSizeEnds small 32 3 (by decide) (by decide) (rfl : (8 : UInt32).toNat = 2 ^ 3)
  have rows : (tableSize - 1).toNat + 1 = tableSize.toNat := by
    have one : (1 : UInt32) ≤ tableSize := UInt32.le_iff_toNat_le.mpr positive
    rw [UInt32.toNat_sub_of_le _ _ one]
    exact Nat.sub_add_cancel positive
  have nothing : (List.replicate ((tableSize - 1).toNat + 1) ([] : List Addr)).flatten = [] :=
    List.flatten_replicate_nil
  refine ⟨_,congrArg (Option.map _) ends,List.length_replicate,?_,?_,?_⟩
  · intro row chain here
    rw [List.getElem?_replicate] at here
    split at here
    next inside =>
      cases here
      refine ⟨⟨none,?_,.done⟩,List.nodup_nil,?_,?_,?_⟩
      · exact List.getElem?_replicate_of_lt (rows ▸ inside)
      · exact fun a member => (nomatch member)
      · exact fun a member => (nomatch member)
      · refine fun k v _ => ⟨fun value => (nomatch value),?_⟩
        rintro ⟨a,member,_⟩
        cases member
    next => cases here
  · rw [nothing]
    rfl
  · intro n member
    rw [nothing] at member
    cases member

theorem refinesMap (lowers : List UInt8 → Bool) (size : UInt32) (small : size.toNat ≤ 2 ^ 31) :
    ∃ created, hashCreate (V := V) size = some created ∧
      ∀ calls, ProperRun lowers created (fun _ => none) calls →
        ∃ ht visited, run created calls = some (ht, (mapRun lowers (fun _ => none) calls).2) ∧
          visit ht ht.count (hashFirst ht) = some visited ∧
          Shows lowers ht (mapRun lowers (fun _ => none) calls).1 visited ∧
          hashCount ht = UInt32.ofNat {k | (mapRun lowers (fun _ => none) calls).1 k ≠ none}.ncard := by
  obtain ⟨created,creates,empty⟩ := createdHeld (V := V) lowers small
  refine ⟨created,creates,?_⟩
  intro calls proper
  obtain ⟨ht,chains,ends,held⟩ := empty.run proper
  exact ⟨ht,chains.flatten,ends,held.visits,held.shows,congrArg UInt32.ofNat held.counts⟩

/- "a" and "q" meet in a bucket, in buffers of the caller; "A" takes the first out, "Q" finds the second. -/
def meeting : List (Call Nat) :=
  [.set (.buffer (some 0)) [97] (some 1) 0 (some 5) true,.set (.buffer (some 1)) [113] (some 1) 0 (some 6) true,
   .set .pool [65] (some 1) 0 none true,.get [81] (some 1) 0 true,.get [97] (some 1) 0 true]

theorem lowerKeyFound :
    ∃ created, hashCreate (V := Nat) 4 = some created ∧ ∃ ht visited, run created meeting = some (ht, [some 6,none]) ∧
      visit ht ht.count (hashFirst ht) = some visited ∧ visited.Nodup := by
  obtain ⟨created,creates,all⟩ := refinesMap (V := Nat) (fun _ => true) 4 (by decide)
  refine ⟨created,creates,?_⟩
  have itself : created = ⟨List.replicate 16 none,0,15,fun _ => none,0⟩ := Option.some.inj (creates.symm.trans rfl)
  subst itself
  have proper : ProperRun (V := Nat) (fun _ => true) ⟨List.replicate 16 none,0,15,fun _ => none,0⟩ (fun _ => none) meeting := by
    refine ⟨⟨⟨rfl,by decide,.inl rfl⟩,fun _ _ => ?_⟩,?_⟩
    · rintro visited ⟨⟩ member
      cases member
    rintro next ⟨⟩
    refine ⟨⟨⟨rfl,by decide,.inl rfl⟩,fun _ _ => ?_⟩,?_⟩
    · rintro visited ⟨⟩
      decide
    rintro next ⟨⟩
    refine ⟨⟨⟨rfl,by decide,.inl rfl⟩,fun none => nomatch none⟩,?_⟩
    rintro next ⟨⟩
    refine ⟨⟨rfl,by decide,.inl rfl⟩,?_⟩
    rintro next ⟨⟩
    exact ⟨⟨rfl,by decide,.inl rfl⟩,fun _ _ => trivial⟩
  obtain ⟨ht,visited,ends,visits,shown,_⟩ := all meeting proper
  exact ⟨ht,visited,ends,visits,shown.once⟩

/- "A" set without regard to case is not there for the other calls; a key never set is there when it differs behind a NUL
only; the entry of "A" is lost with its buffer; a size beyond two to the power of 31 is never reached. -/
theorem keysConfused :
    ((hashCreate 4).bind fun ht => (run ht [.set .pool [65] (some 1) 0 (some 7) true,.get [65] (some 1) 0 false]).map
      Prod.snd) = some [(none : Option Nat)] ∧
    ((hashCreate 4).bind fun ht => (run ht [.set .pool [97,0,1,34] (some 4) 0 (some 7) true,
      .get [97,0,2,1] (some 4) 0 true]).map Prod.snd) = some [some 7] ∧
    ((hashCreate 4).bind fun ht => (run ht [.set (.buffer (some 0)) [65] (some 1) 0 (some 7) false,
      .set (.buffer (some 0)) [66] (some 1) 0 (some 8) false,.get [65] (some 1) 0 false]).map Prod.snd) =
        some [(none : Option Nat)] ∧
    (hashCreate (V := Nat) 2147483649).isNone := by
  decide

end Pjproject.HashTable
