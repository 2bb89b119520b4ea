import Pjproject.HashRefine

/-! Every call on the hash table is the call on the finite map: a search ends at the entry of its key or behind the chain,
and what is written there appends, overwrites or unlinks one entry. -/
namespace Pjproject.HashTable
open Lib.LinkedList

variable {V : Type} {lowers : List UInt8 → Bool}

theorem Held.chain {ht : Table V} {m : List UInt8 → Option V} {chains : List (List Addr)} (held : Held lowers ht m chains)
    (key : List UInt8) : ∃ chain, chains[rowOf ht key]? = some chain := by
  have inside := rowInside ht key
  rw [← held.size] at inside
  exact ⟨_,List.getElem?_eq_getElem inside⟩

theorem Held.fuel {ht : Table V} {m : List UInt8 → Option V} {chains : List (List Addr)} (held : Held lowers ht m chains)
    {row : Nat} {chain : List Addr} (here : chains[row]? = some chain) : chain.length ≤ ht.count := by
  rw [held.count]
  exact (List.sublist_flatten_of_mem (List.mem_of_getElem? here)).length_le

inductive Ends (lowers : List UInt8 → Bool) (ht : Table V) (m : List UInt8 → Option V) (key : List UInt8) :
    List Addr → Option Addr × Option Addr → Prop where
  | absent {chain} (missing : m key = none) : Ends lowers ht m key chain (placeAfter none chain, none)
  | present {left a right entry} (here : ht.entries a = some entry) (alike : canon lowers entry.key = key)
      (value : m key = some entry.value) : Ends lowers ht m key (left ++ a :: right) (placeAfter none left, some a)

variable {ht : Table V} {m : List UInt8 → Option V} {chains : List (List Addr)} {row : Nat}
  {chain left right : List Addr} {key : List UInt8} {hval : UInt32} {isLower : Bool} {head : Option Addr}
  {keylen : Option Nat} {source : Source} {a : Addr} {entry : Entry V}

theorem scanEnds (held : Held lowers ht m chains) (keyed : Keyed lowers key hval isLower)
    (here : chains[rowOf ht (canon lowers key)]? = some chain) (linked : Linked Entry.next ht.entries head chain) :
    ∃ ends, scan Entry.next ht.entries (matching isLower (computed isLower key) key) ht.count none head = some ends ∧
      Ends lowers ht m (canon lowers key) chain ends := by
  have row := held.rows _ chain here
  have enough := held.fuel here
  have told : ∀ a ∈ chain, ∀ entry, ht.entries a = some entry →
      (matching isLower (computed isLower key) key entry = true ↔ canon lowers entry.key = canon lowers key) := by
    intro a member entry there
    refine matchingCanon keyed (row.place a member entry.key entry.hash entry.value ?_).1
    rw [Table.info,there]
    rfl
  have shown : ∀ v, m (canon lowers key) = some v ↔
      ∃ a ∈ chain, ∃ entry, ht.entries a = some entry ∧ canon lowers entry.key = canon lowers key ∧ entry.value = v := by
    intro v
    rw [row.present _ v rfl]
    constructor
    · rintro ⟨a,member,key',hash,there,alike⟩
      obtain ⟨entry,found,same⟩ := Option.map_eq_some_iff.mp there
      cases same
      exact ⟨a,member,entry,found,alike,rfl⟩
    · rintro ⟨a,member,entry,found,alike,rfl⟩
      exact ⟨a,member,entry.key,entry.hash,by rw [Table.info,found]; rfl,alike⟩
  cases value : m (canon lowers key) with
  | none =>
    refine ⟨_,scanMiss linked ?_ enough none,.absent value⟩
    intro a member entry there
    by_contra hit
    have alike := (told a member entry there).mp (Bool.eq_true_of_not_eq_false hit)
    rw [(shown entry.value).mpr ⟨a,member,entry,there,alike,rfl⟩] at value
    cases value
  | some v =>
    obtain ⟨a,member,entry,there,alike,rfl⟩ := (shown v).mp value
    obtain ⟨left,right,rfl⟩ := List.append_of_mem member
    refine ⟨_,scanHit linked ?_ there ((told a member entry there).mpr alike) enough none,.present there alike value⟩
    -- no entry in front has the key as well
    intro b before other found
    by_contra hit
    have inside : b ∈ left ++ a :: right := List.mem_append_left _ before
    have also := (told b inside other found).mp (Bool.eq_true_of_not_eq_false hit)
    have same : b = a := by
      refine row.keys b inside a member other.key other.hash other.value entry.key entry.hash entry.value ?_ ?_
        (also.trans alike.symm)
      · rw [Table.info,found]; rfl
      · rw [Table.info,there]; rfl
    have apart := (List.nodup_append.mp row.distinct).2.2 b before a List.mem_cons_self
    exact apart same

theorem hashOf (keyed : Keyed lowers key hval isLower) :
    (if hval ≠ 0 then hval else computed isLower key) = computed isLower key := by
  rcases keyed.hval with zero | same
  · rw [if_neg (not_not_intro zero)]
  · rw [same,ite_id]

theorem derefAt (here : ht.table[row]? = some head)
    (place : Option Addr) : ht.deref ⟨row,place⟩ = readAt Entry.next ht.entries head place := by
  cases place with
  | none => exact here
  | some => rfl

theorem writeLinked {q : Option Addr} {right' : List Addr}
    (here : ht.table[row]? = some head) (linked : Linked Entry.next ht.entries head (left ++ right))
    (tail : Linked Entry.next ht.entries q right') (distinct : (left ++ right').Nodup) :
    ∃ head', (ht.write ⟨row,placeAfter none left⟩ q).table[row]? = some head' ∧
      Linked Entry.next (ht.write ⟨row,placeAfter none left⟩ q).entries head' (left ++ right') := by
  have spliced := linked.splice (fun q (entry : Entry V) => (rfl : (link q entry).next = q)) tail distinct
  refine ⟨rehead (placeAfter none left) q head,?_,spliced⟩
  have inside := (List.getElem?_eq_some_iff.mp here).1
  cases place : placeAfter none left with
  | none => exact List.getElem?_set_self inside
  | some => exact here

theorem writeInfo (ht : Table V) (p : PEntry) (q : Option Addr) (a : Addr) : (ht.write p q).info a = ht.info a :=
  relinkMap link (fun _ _ => rfl) p.place q ht.entries a

theorem writeOthers (ht : Table V) {other : Nat} (apart : other ≠ row) (place q : Option Addr) :
    (ht.write ⟨row,place⟩ q).table[other]? = ht.table[other]? := by
  cases place with
  | none => exact List.getElem?_set_ne (Ne.symm apart)
  | some => rfl

theorem findStays (keyed : Keyed lowers (keyOf key keylen) hval isLower)
    (here : ht.table[rowOf ht (canon lowers (keyOf key keylen))]? = some head) {ends : Option Addr × Option Addr}
    (found : scan Entry.next ht.entries (matching isLower (computed isLower (keyOf key keylen)) (keyOf key keylen)) ht.count
      none head = some ends) {value : Option V} (stays : ends.2 ≠ none ∨ value = none) (source : Source) :
    findEntry source ht key keylen value hval isLower =
      some ⟨ht,⟨rowOf ht (canon lowers (keyOf key keylen)),ends.1⟩,computed isLower (keyOf key keylen)⟩ := by
  unfold findEntry
  rw [rowOf,← computedCanon keyed.kind] at here
  simp only [hashOf keyed,here,found,Option.bind_eq_bind,Option.bind_some,rowOf,← computedCanon keyed.kind]
  obtain ⟨place,entry⟩ := ends
  cases entry with
  | some => rfl
  | none =>
    obtain rfl := stays.resolve_left (fun other => other rfl)
    rfl

theorem findCreates
    (keyed : Keyed lowers (keyOf key keylen) hval isLower) {place : Option Addr}
    (here : ht.table[rowOf ht (canon lowers (keyOf key keylen))]? = some head)
    (found : scan Entry.next ht.entries (matching isLower (computed isLower (keyOf key keylen)) (keyOf key keylen)) ht.count
      none head = some (place, none)) (value : V) {supplied : Table V}
    (entry : ht.newEntry source = some (a, supplied)) :
    findEntry source ht key keylen (some value) hval isLower =
      some ⟨{ ({ supplied with
          entries := Function.update supplied.entries a
            (some ⟨none,keyOf key keylen,computed isLower (keyOf key keylen),value⟩) } : Table V).write
              ⟨rowOf ht (canon lowers (keyOf key keylen)),place⟩ (some a) with
        count := supplied.count + 1 },⟨rowOf ht (canon lowers (keyOf key keylen)),place⟩,
        computed isLower (keyOf key keylen)⟩ := by
  unfold findEntry
  rw [rowOf,← computedCanon keyed.kind] at here
  simp only [hashOf keyed,here,found,entry,Option.bind_eq_bind,Option.bind_some,rowOf,← computedCanon keyed.kind]
  rfl

theorem getMap (held : Held lowers ht m chains) (keyed : Keyed lowers (keyOf key keylen) hval isLower) :
    hashGet ht key keylen hval isLower =
      some (m (canon lowers (keyOf key keylen)), computed isLower (keyOf key keylen)) := by
  obtain ⟨chain,placed⟩ := held.chain (canon lowers (keyOf key keylen))
  obtain ⟨head,here,linked⟩ := (held.rows _ chain placed).linked
  obtain ⟨ends,found,ended⟩ := scanEnds held keyed placed linked
  have stays := findStays keyed here found (.inr (rfl : (none : Option V) = none)) (.buffer none)
  unfold hashGet
  rw [stays]
  simp only [Option.bind_eq_bind,Option.bind_some,derefAt here]
  cases ended with
  | absent missing =>
    rw [← List.append_nil chain] at linked
    obtain ⟨q,read,rest⟩ := linked.readAfter
    cases rest
    rw [read,missing]
    rfl
  | present there alike value =>
    obtain ⟨q,read,rest⟩ := linked.readAfter
    cases rest with
    | cell =>
      simp only [read,Option.bind_some,there,value]

/- The three ways in which a chain changes. -/

theorem Row.unlinked (row : Row lowers ht m (rowOf ht key) (left ++ a :: right)) (here : ht.entries a = some entry)
    (alike : canon lowers entry.key = key) :
    Row lowers (ht.write ⟨rowOf ht key,placeAfter none left⟩ entry.next) (Function.update m key none) (rowOf ht key)
      (left ++ right) := by
  obtain ⟨head,there,linked⟩ := row.linked
  have shorter : (left ++ right).Sublist (left ++ a :: right) :=
    List.Sublist.append_left (List.sublist_cons_self a right) left
  have told : ht.info a = some (entry.key, entry.hash, entry.value) := by rw [Table.info,here]; rfl
  have middle : a ∈ left ++ a :: right := List.mem_append_right left List.mem_cons_self
  have gone : a ∉ left ++ right := by
    have distinct := List.nodup_middle.mp row.distinct
    exact (List.nodup_cons.mp distinct).1
  refine ⟨writeLinked there linked (linked.behind here) (row.distinct.sublist shorter),
    row.distinct.sublist shorter,?_,?_,?_⟩
  · intro b member key' hash value other
    rw [writeInfo] at other
    exact row.place b (shorter.subset member) key' hash value other
  · intro b member c also key₁ hash₁ value₁ key₂ hash₂ value₂ first second same
    rw [writeInfo] at first second
    exact row.keys b (shorter.subset member) c (shorter.subset also) _ _ _ _ _ _ first second same
  · intro k v inRow
    have elsewhere : ∀ b ∈ left ++ right, ∀ key' hash, ht.info b = some (key', hash, v) → canon lowers key' ≠ key := by
      intro b member key' hash other same
      have itself := row.keys b (shorter.subset member) a middle _ _ _ _ _ _ other told (same.trans alike.symm)
      exact gone (itself ▸ member)
    rw [Function.update_apply]
    split
    next same =>
      subst same
      refine ⟨fun nothing => (by cases nothing),?_⟩
      rintro ⟨b,member,key',hash,other,same⟩
      rw [writeInfo] at other
      exact absurd same (elsewhere b member key' hash other)
    next apart =>
      rw [row.present k v inRow]
      constructor
      · rintro ⟨b,member,key',hash,other,same⟩
        refine ⟨b,?_,key',hash,(writeInfo _ _ _ b).trans other,same⟩
        rcases List.mem_append.mp member with before | later
        · exact List.mem_append_left right before
        · rcases List.mem_cons.mp later with rfl | behind
          · cases told.symm.trans other
            exact absurd (same.symm.trans alike) apart
          · exact List.mem_append_right left behind
      · rintro ⟨b,member,key',hash,other,same⟩
        exact ⟨b,shorter.subset member,key',hash,(writeInfo _ _ _ b).symm.trans other,same⟩

def overwrite (ht : Table V) (a : Addr) (entry : Entry V) (value : V) : Table V :=
  { ht with entries := Function.update ht.entries a (some { entry with value := value }) }

theorem Row.overwritten
    (row : Row lowers ht m (rowOf ht key) (left ++ a :: right)) (here : ht.entries a = some entry)
    (alike : canon lowers entry.key = key) (value : V) :
    Row lowers (overwrite ht a entry value) (Function.update m key (some value)) (rowOf ht key) (left ++ a :: right) := by
  obtain ⟨head,there,linked⟩ := row.linked
  have told : ht.info a = some (entry.key, entry.hash, entry.value) := by rw [Table.info,here]; rfl
  have middle : a ∈ left ++ a :: right := List.mem_append_right left List.mem_cons_self
  have now : (overwrite ht a entry value).info a = some (entry.key, entry.hash, value) := by
    simp only [Table.info,overwrite,Function.update_self]
    rfl
  have others : ∀ b, b ≠ a → (overwrite ht a entry value).info b = ht.info b := by
    intro b apart
    simp only [Table.info,overwrite,Function.update_of_ne apart]
  -- keys and hash values are what they were
  have before : ∀ b key' hash v, (overwrite ht a entry value).info b = some (key', hash, v) →
      ∃ v', ht.info b = some (key', hash, v') := by
    intro b key' hash v other
    by_cases same : b = a
    · subst same
      cases now.symm.trans other
      exact ⟨entry.value,told⟩
    · exact ⟨v,(others b same).symm.trans other⟩
  refine ⟨⟨head,there,linked.congrNext fun b _ => ?_⟩,row.distinct,?_,?_,?_⟩
  · by_cases same : b = a
    · subst same
      simp only [overwrite,Function.update_self,here,Option.map_some]
    · simp only [overwrite,Function.update_of_ne same]
  · intro b member key' hash v other
    obtain ⟨v',first⟩ := before b key' hash v other
    exact row.place b member key' hash v' first
  · intro b member c also key₁ hash₁ value₁ key₂ hash₂ value₂ first second same
    obtain ⟨_,first⟩ := before b _ _ _ first
    obtain ⟨_,second⟩ := before c _ _ _ second
    exact row.keys b member c also _ _ _ _ _ _ first second same
  · intro k v inRow
    rw [Function.update_apply]
    split
    next same =>
      subst same
      constructor
      · rintro ⟨⟩
        exact ⟨a,middle,entry.key,entry.hash,now,alike⟩
      · rintro ⟨b,member,key',hash,other,same⟩
        obtain ⟨_,first⟩ := before b _ _ _ other
        obtain rfl := row.keys b member a middle _ _ _ _ _ _ first told (same.trans alike.symm)
        cases now.symm.trans other
        rfl
    next apart =>
      rw [row.present k v inRow]
      constructor
      · rintro ⟨b,member,key',hash,other,same⟩
        refine ⟨b,member,key',hash,(others b ?_).trans other,same⟩
        rintro rfl
        cases told.symm.trans other
        exact apart (same.symm.trans alike)
      · rintro ⟨b,member,key',hash,other,same⟩
        refine ⟨b,member,key',hash,(others b ?_).symm.trans other,same⟩
        rintro rfl
        cases now.symm.trans other
        exact apart (same.symm.trans alike)

/- An entry as it is created, before it is linked. -/
def created (ht : Table V) (a : Addr) (key : List UInt8) (hash : UInt32) (value : V) : Table V :=
  { ht with entries := Function.update ht.entries a (some ⟨none,key,hash,value⟩) }

theorem Row.appended (row : Row lowers ht m (rowOf ht (canon lowers key)) chain) (fresh : a ∉ chain)
    (missing : m (canon lowers key) = none) (value : V) : Row lowers
      ((created ht a key (hashCalc (canon lowers key)) value).write
        ⟨rowOf ht (canon lowers key),placeAfter none chain⟩ (some a))
      (Function.update m (canon lowers key) (some value)) (rowOf ht (canon lowers key)) (chain ++ [a]) := by
  obtain ⟨head,there,linked⟩ := row.linked
  have apart : ∀ b ∈ chain, b ≠ a := by
    rintro b member rfl
    exact fresh member
  have distinct : (chain ++ [a]).Nodup := by
    rw [List.nodup_append]
    exact ⟨row.distinct,List.nodup_singleton a,fun b member c last => List.mem_singleton.mp last ▸ apart b member⟩
  have still : Linked Entry.next (created ht a key (hashCalc (canon lowers key)) value).entries head (chain ++ []) := by
    rw [List.append_nil]
    exact linked.congr fun b member => Function.update_of_ne (apart b member) _ _
  have alone : Linked Entry.next (created ht a key (hashCalc (canon lowers key)) value).entries (some a) [a] :=
    .cell (Function.update_self a _ _) .done
  have now : ((created ht a key (hashCalc (canon lowers key)) value).write
      ⟨rowOf ht (canon lowers key),placeAfter none chain⟩ (some a)).info a =
        some (key, hashCalc (canon lowers key), value) := by
    rw [writeInfo]
    simp only [Table.info,created,Function.update_self]
    rfl
  have others : ∀ b ∈ chain, ((created ht a key (hashCalc (canon lowers key)) value).write
      ⟨rowOf ht (canon lowers key),placeAfter none chain⟩ (some a)).info b = ht.info b := by
    intro b member
    rw [writeInfo]
    simp only [Table.info,created,Function.update_of_ne (apart b member)]
  have before : ∀ b ∈ chain, ∀ key' hash v, ht.info b = some (key', hash, v) →
      canon lowers key' ≠ canon lowers key := by
    intro b member key' hash v other same
    rw [(row.present _ v rfl).mpr ⟨b,member,key',hash,other,same⟩] at missing
    cases missing
  refine ⟨writeLinked there still alone distinct,distinct,?_,?_,?_⟩
  · intro b member key' hash v other
    rcases List.mem_append.mp member with first | last
    · rw [others b first] at other
      exact row.place b first key' hash v other
    · obtain rfl := List.mem_singleton.mp last
      cases now.symm.trans other
      exact ⟨rfl,rfl⟩
  · intro b member c also key₁ hash₁ value₁ key₂ hash₂ value₂ first second same
    rcases List.mem_append.mp member with one | last
    · rw [others b one] at first
      rcases List.mem_append.mp also with two | last
      · rw [others c two] at second
        exact row.keys b one c two _ _ _ _ _ _ first second same
      · obtain rfl := List.mem_singleton.mp last
        cases now.symm.trans second
        exact absurd same (before b one _ _ _ first)
    · obtain rfl := List.mem_singleton.mp last
      cases now.symm.trans first
      rcases List.mem_append.mp also with two | last
      · rw [others c two] at second
        exact absurd same.symm (before c two _ _ _ second)
      · exact (List.mem_singleton.mp last).symm
  · intro k v inRow
    rw [Function.update_apply]
    split
    next same =>
      subst same
      constructor
      · rintro ⟨⟩
        exact ⟨a,List.mem_append_right chain List.mem_cons_self,key,_,now,rfl⟩
      · rintro ⟨b,member,key',hash,other,same⟩
        rcases List.mem_append.mp member with first | last
        · rw [others b first] at other
          exact absurd same (before b first _ _ _ other)
        · obtain rfl := List.mem_singleton.mp last
          cases now.symm.trans other
          rfl
    next elsewhere =>
      rw [row.present k v inRow]
      constructor
      · rintro ⟨b,member,key',hash,other,same⟩
        exact ⟨b,List.mem_append_left _ member,key',hash,(others b member).trans other,same⟩
      · rintro ⟨b,member,key',hash,other,same⟩
        rcases List.mem_append.mp member with first | last
        · exact ⟨b,first,key',hash,(others b first).symm.trans other,same⟩
        · obtain rfl := List.mem_singleton.mp last
          cases now.symm.trans other
          exact absurd same.symm elsewhere

theorem Held.otherRows {ht' : Table V} {m' : List UInt8 → Option V}
    (held : Held lowers ht m chains) (here : chains[row]? = some chain)
    (rows : ht'.rows = ht.rows) (heads : ∀ other, other ≠ row → ht'.table[other]? = ht.table[other]?)
    (entries : ∀ b, b ∉ chain → b ∈ chains.flatten → ht'.entries b = ht.entries b)
    (same : ∀ k, rowOf ht k ≠ row → m' k = m k) (other : Nat) (chain' : List Addr) (apart : other ≠ row)
    (there : chains[other]? = some chain') : Row lowers ht' m' other chain' := by
  refine (held.rows other chain' there).frame rows (heads other apart) ?_ ?_
  · intro b member
    refine entries b (fun also => apart ?_) (memberFlatten.mpr ⟨other,chain',there,member⟩)
    exact held.apart there here member also
  · intro k inRow
    exact same k (inRow ▸ apart)

theorem writeEntries (ht : Table V) (row : Nat) (q : Option Addr) {b : Addr} (outside : b ∉ left) :
    (ht.write ⟨row,placeAfter none left⟩ q).entries b = ht.entries b :=
  relinkOther link fun place => outside (placeAfterMember place)

/- A source gives memory that no entry of the table uses. -/
def Fresh (ht : Table V) (chains : List (List Addr)) (source : Source) : Prop :=
  ∃ a supplied, ht.newEntry source = some (a, supplied) ∧ a ∉ chains.flatten

theorem newEntryKeeps {supplied : Table V}
    (new : ht.newEntry source = some (a, supplied)) :
    ∃ allocated, supplied = { ht with allocated := allocated } ∧ ht.allocated ≤ allocated ∧
      ∀ n, a = .pool n → n < allocated := by
  unfold Table.newEntry at new
  split at new
  · cases new
    refine ⟨_,rfl,Nat.le_succ _,?_⟩
    rintro n ⟨⟩
    exact Nat.lt_succ_self _
  · cases new
    exact ⟨_,rfl,Nat.le_refl _,fun n same => nomatch same⟩
  · cases new

theorem Held.supplied (held : Held lowers ht m chains) {allocated : Nat} (more : ht.allocated ≤ allocated) :
    Held lowers { ht with allocated := allocated } m chains :=
  ⟨held.size,fun row chain placed => (held.rows row chain placed).frame rfl rfl (fun _ _ => rfl) (fun _ _ => rfl),
    held.count,fun n member => Nat.lt_of_lt_of_le (held.pool n member) more⟩

theorem Held.deleted (held : Held lowers ht m chains)
    (placed : chains[rowOf ht key]? = some (left ++ a :: right)) (here : ht.entries a = some entry)
    (alike : canon lowers entry.key = key) :
    Held lowers { ht.write ⟨rowOf ht key,placeAfter none left⟩ entry.next with count := ht.count - 1 }
      (Function.update m key none) (chains.set (rowOf ht key) (left ++ right)) := by
  have row := (held.rows _ _ placed).unlinked here alike
  have fuel := held.fuel placed
  rw [List.length_append,List.length_cons] at fuel
  refine held.set placed (row.frame rfl rfl (fun _ _ => rfl) (fun _ _ => rfl)) rfl ?_ ?_ ?_
  · refine held.otherRows placed rfl (fun other apart => writeOthers ht apart _ _) ?_ ?_
    · exact fun b outside _ => writeEntries ht _ _ (fun member => outside (List.mem_append_left _ member))
    · intro k elsewhere
      refine Function.update_of_ne ?_ _ _
      rintro rfl
      exact elsewhere rfl
  · show ht.count - 1 + (left ++ a :: right).length = ht.count + (left ++ right).length
    rw [List.length_append,List.length_append,List.length_cons]
    omega
  · rintro n (member | member)
    · exact held.pool n member
    · refine held.pool n (memberFlatten.mpr ⟨_,_,placed,?_⟩)
      exact (List.Sublist.append_left (List.sublist_cons_self a right) left).subset member

theorem Held.overwritten (held : Held lowers ht m chains)
    (placed : chains[rowOf ht key]? = some (left ++ a :: right)) (here : ht.entries a = some entry)
    (alike : canon lowers entry.key = key) (value : V) :
    Held lowers (overwrite ht a entry value) (Function.update m key (some value))
      (chains.set (rowOf ht key) (left ++ a :: right)) := by
  refine held.set placed ((held.rows _ _ placed).overwritten here alike value) rfl ?_ rfl ?_
  · refine held.otherRows placed rfl (fun _ _ => rfl) ?_ ?_
    · intro b outside _
      refine Function.update_of_ne ?_ _ _
      rintro rfl
      exact outside (List.mem_append_right left List.mem_cons_self)
    · intro k elsewhere
      refine Function.update_of_ne ?_ _ _
      rintro rfl
      exact elsewhere rfl
  · rintro n (member | member)
    · exact held.pool n member
    · exact held.pool n (memberFlatten.mpr ⟨_,_,placed,member⟩)

theorem Held.created (held : Held lowers ht m chains)
    (placed : chains[rowOf ht (canon lowers key)]? = some chain)
    (fresh : a ∉ chains.flatten) (own : ∀ n, a = .pool n → n < ht.allocated) (missing : m (canon lowers key) = none)
    (value : V) :
    Held lowers
      { (created ht a key (hashCalc (canon lowers key)) value).write
          ⟨rowOf ht (canon lowers key),placeAfter none chain⟩ (some a) with count := ht.count + 1 }
      (Function.update m (canon lowers key) (some value)) (chains.set (rowOf ht (canon lowers key)) (chain ++ [a])) := by
  have outside : a ∉ chain := fun member => fresh (memberFlatten.mpr ⟨_,_,placed,member⟩)
  have row := (held.rows _ _ placed).appended outside missing value
  refine held.set placed (row.frame rfl rfl (fun _ _ => rfl) (fun _ _ => rfl)) rfl ?_ ?_ ?_
  · refine held.otherRows placed rfl (fun other apart => writeOthers _ apart _ _) ?_ ?_
    · intro b apart inside
      refine (writeEntries (HashTable.created ht a key _ value) _ _ apart).trans (Function.update_of_ne ?_ _ _)
      rintro rfl
      exact fresh inside
    · intro k elsewhere
      refine Function.update_of_ne ?_ _ _
      rintro rfl
      exact elsewhere rfl
  · show ht.count + 1 + chain.length = ht.count + (chain ++ [a]).length
    rw [List.length_append,List.length_singleton]
    omega
  · rintro n (member | member)
    · exact held.pool n member
    · rcases List.mem_append.mp member with before | last
      · exact held.pool n (memberFlatten.mpr ⟨_,_,placed,before⟩)
      · exact own n (List.mem_singleton.mp last).symm

theorem overwriteSame (here : ht.entries a = some entry) : overwrite ht a entry entry.value = ht := by
  unfold overwrite
  rw [← here,Function.update_eq_self]

theorem setStores {value : V} {found : Found V}
    (finds : findEntry source ht key keylen (some value) hval isLower = some found)
    (read : found.ht.deref found.pEntry = some (some a)) (here : found.ht.entries a = some entry) :
    hashSet source ht key keylen hval (some value) isLower = some (overwrite found.ht a entry value) := by
  unfold hashSet
  rw [finds]
  simp only [Option.bind_eq_bind,Option.bind_some,read,here]
  rfl

theorem setMap (held : Held lowers ht m chains)
    (keyed : Keyed lowers (keyOf key keylen) hval isLower) (value : Option V)
    (supply : value.isSome → m (canon lowers (keyOf key keylen)) = none → Fresh ht chains source) :
    ∃ ht' chains', hashSet source ht key keylen hval value isLower = some ht' ∧
      Held lowers ht' (Function.update m (canon lowers (keyOf key keylen)) value) chains' := by
  obtain ⟨chain,placed⟩ := held.chain (canon lowers (keyOf key keylen))
  obtain ⟨head,here,linked⟩ := (held.rows _ chain placed).linked
  obtain ⟨ends,found,ended⟩ := scanEnds held keyed placed linked
  cases ended with
  | absent missing =>
    cases value with
    | none =>
      have stays := findStays keyed here found (.inr (rfl : (none : Option V) = none)) source
      rw [← List.append_nil chain] at linked
      obtain ⟨q,read,rest⟩ := linked.readAfter
      cases rest
      refine ⟨ht,chains,?_,?_⟩
      · unfold hashSet
        rw [stays]
        simp only [Option.bind_eq_bind,Option.bind_some,derefAt here,read]
      · rw [← missing,Function.update_eq_self]
        exact held
    | some v =>
      obtain ⟨a,supplied,new,fresh⟩ := supply rfl missing
      have creates := findCreates keyed here found v new
      obtain ⟨allocated,rfl,more,own⟩ := newEntryKeeps new
      have result := (held.supplied more).created placed fresh own missing v
      refine ⟨_,_,?_,result⟩
      have outside : a ∉ chain := fun member => fresh (memberFlatten.mpr ⟨_,_,placed,member⟩)
      obtain ⟨_,there,linked'⟩ := (((held.supplied more).rows _ _ placed).appended outside missing v).linked
      obtain ⟨q,read,rest⟩ := linked'.readAfter
      cases rest with
      | cell same _ =>
        have stored : ((created { ht with allocated := allocated } a (keyOf key keylen)
            (hashCalc (canon lowers (keyOf key keylen))) v).write
              ⟨rowOf ht (canon lowers (keyOf key keylen)),placeAfter none chain⟩ (some a)).entries a =
                some ⟨none,keyOf key keylen,hashCalc (canon lowers (keyOf key keylen)),v⟩ :=
          (writeEntries _ _ _ outside).trans (Function.update_self a _ _)
        rw [computedCanon keyed.kind] at creates
        rw [setStores creates ((derefAt there _).trans read) stored]
        exact congrArg some (overwriteSame stored)
  | @present left a right entry there alike present =>
    have stays : ∀ value : Option V, findEntry source ht key keylen value hval isLower = _ :=
      fun value => findStays keyed here found (.inl (by simp)) source
    obtain ⟨q,read,rest⟩ := linked.readAfter
    cases rest with
    | cell same =>
      cases there.symm.trans same
      cases value with
      | none =>
        refine ⟨_,_,?_,held.deleted placed there alike⟩
        unfold hashSet
        rw [stays]
        simp only [Option.bind_eq_bind,Option.bind_some,derefAt here,read,there]
        rfl
      | some v =>
        refine ⟨_,_,?_,held.overwritten placed there alike v⟩
        exact setStores (stays (some v)) ((derefAt here _).trans read) there

end Pjproject.HashTable
