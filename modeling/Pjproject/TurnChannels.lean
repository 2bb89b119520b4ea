import Pjproject.TurnServers

/-! The channels of a TURN session. Every record is found by its peer address from the start and by its number once a
ChannelBind request for it was answered; neither key changes. -/
namespace Pjproject.Turn
open Stun (Msg)

/- The records agree with the table, with the requests sent and with the bindings that were confirmed. -/
structure Bound (c : Client) : Prop where
  byAddr : ∀ p i, (Key.addr p, i) ∈ c.chTable ↔ ∃ (ch : Channel), c.chs[i]? = some ch ∧ ch.addr = p
  byNum : ∀ n i, (Key.num n, i) ∈ c.chTable ↔ ∃ (ch : Channel), c.chs[i]? = some ch ∧ ch.bound = true ∧ ch.num = n
  addrs : ∀ (i j : Nat) (a b : Channel), c.chs[i]? = some a → c.chs[j]? = some b → a.addr = b.addr → i = j
  nums : ∀ (i j : Nat) (a b : Channel), c.chs[i]? = some a → c.chs[j]? = some b → a.num = b.num →
    a.num ≠ invalidChannel → i = j
  range : ∀ (i : Nat) (ch : Channel), c.chs[i]? = some ch → ch.num ≠ invalidChannel → ch.num < c.nextCh
  valid : ∀ (i : Nat) (ch : Channel), c.chs[i]? = some ch → ch.bound = true → ch.num ≠ invalidChannel
  next : c.nextCh ≤ channelMax + 1
  binds : ∀ b ∈ c.binds, ∃ ch : Channel, c.chs[b.record]? = some ch ∧ ch.addr = b.peer ∧ ch.num = b.num ∧
    b.num ≠ invalidChannel
  confirmed : ∀ p n, (p, n) ∈ c.confirmed ↔ ∃ (i : Nat) (ch : Channel), c.chs[i]? = some ch ∧ ch.bound = true ∧
    ch.addr = p ∧ ch.num = n

/- The records stay; what is set in them stays too. -/
structure Grows (c out : Client) : Prop where
  kept : ∀ (i : Nat) (ch : Channel), c.chs[i]? = some ch → ∃ d, out.chs[i]? = some d ∧ d.addr = ch.addr ∧
    (ch.num ≠ invalidChannel → d.num = ch.num)

theorem growsRefl (c : Client) : Grows c c := ⟨fun _ ch here => ⟨ch,here,rfl,fun _ => rfl⟩⟩

theorem Grows.trans {a b c : Client} (first : Grows a b) (rest : Grows b c) : Grows a c := by
  refine ⟨fun i ch here => ?_⟩
  obtain ⟨d,there,addr,num⟩ := first.kept i ch here
  obtain ⟨e,last,addr',num'⟩ := rest.kept i d there
  refine ⟨e,last,addr'.trans addr,fun valid => ?_⟩
  have same := num valid
  rw [num' (by rw [same]; exact valid),same]

def Client.numberOf (c : Client) (peer : Peer) : Option Nat :=
  ((c.lookupChByAddr peer).bind (fun i => c.chs[i]?)).bind (fun ch =>
    if ch.num = invalidChannel then none else some ch.num)

section Lookups

variable {c out : Client}

theorem hashGetMember {key : Key} {i : Nat} (found : c.hashGet key = some i) : (key, i) ∈ c.chTable := by
  obtain ⟨e,here,rfl⟩ := Option.map_eq_some_iff.mp found
  have same : e.1 = key := by simpa using List.find?_some here
  rw [← same]
  exact List.mem_of_find?_eq_some here

theorem hashGetUnique {key : Key} {i : Nat} (member : (key, i) ∈ c.chTable)
    (unique : ∀ j, (key, j) ∈ c.chTable → j = i) : c.hashGet key = some i := by
  cases found : c.hashGet key with
  | none =>
    have missing := List.find?_eq_none.mp (Option.map_eq_none_iff.mp found) (key, i) member
    simp at missing
  | some j => rw [unique j (hashGetMember found)]

theorem Bound.lookupAddr (bound : Bound c) (p : Peer) (i : Nat) :
    c.lookupChByAddr p = some i ↔ ∃ ch, c.chs[i]? = some ch ∧ ch.addr = p := by
  rw [← bound.byAddr]
  refine ⟨hashGetMember,fun member => hashGetUnique member (fun j other => ?_)⟩
  obtain ⟨a,left,rfl⟩ := (bound.byAddr p i).mp member
  obtain ⟨b,right,same⟩ := (bound.byAddr _ j).mp other
  exact bound.addrs j i b a right left same

theorem Bound.lookupNum (bound : Bound c) (n i : Nat) :
    c.lookupChByChnum n = some i ↔ ∃ ch, c.chs[i]? = some ch ∧ ch.bound = true ∧ ch.num = n := by
  rw [← bound.byNum]
  refine ⟨hashGetMember,fun member => hashGetUnique member (fun j other => ?_)⟩
  obtain ⟨a,left,isBound,rfl⟩ := (bound.byNum n i).mp member
  obtain ⟨b,right,_,same⟩ := (bound.byNum _ j).mp other
  exact (bound.nums i j a b left right same.symm (bound.valid i a left isBound)).symm

theorem Bound.numberIff (bound : Bound c) (p : Peer) (n : Nat) :
    c.numberOf p = some n ↔ ∃ (i : Nat) (ch : Channel), c.chs[i]? = some ch ∧ ch.addr = p ∧ ch.num = n ∧ n ≠ invalidChannel := by
  unfold Client.numberOf
  constructor
  · intro found
    obtain ⟨ch,there,value⟩ := Option.bind_eq_some_iff.mp found
    obtain ⟨i,known,here⟩ := Option.bind_eq_some_iff.mp there
    obtain ⟨d,again,addr⟩ := (bound.lookupAddr p i).mp known
    obtain rfl := Option.some.inj (here.symm.trans again)
    split at value
    · contradiction
    · rename_i valid
      obtain rfl := Option.some.inj value
      exact ⟨i,ch,here,addr,rfl,valid⟩
  · rintro ⟨i,ch,here,addr,rfl,valid⟩
    rw [(bound.lookupAddr p i).mpr ⟨ch,here,addr⟩,Option.bind_some,here,Option.bind_some,if_neg valid]

theorem Bound.numberKept (bound : Bound c) (later : Bound out) (grows : Grows c out) {p : Peer} {n : Nat}
    (has : c.numberOf p = some n) : out.numberOf p = some n := by
  obtain ⟨i,ch,here,rfl,rfl,valid⟩ := (bound.numberIff p n).mp has
  obtain ⟨d,there,addr,num⟩ := grows.kept i ch here
  exact (later.numberIff _ _).mpr ⟨i,d,there,addr,num valid,valid⟩

theorem Bound.delivers (bound : Bound c) (p : Peer) (n : Nat) :
    c.rxChannelData n = some p ↔ (p, n) ∈ c.confirmed := by
  rw [bound.confirmed]
  unfold Client.rxChannelData
  constructor
  · intro delivered
    cases known : c.lookupChByChnum n with
    | none =>
      rw [known] at delivered
      contradiction
    | some i =>
      obtain ⟨ch,here,isBound,num⟩ := (bound.lookupNum n i).mp known
      rw [known,Option.bind_some,here] at delivered
      dsimp only at delivered
      rw [if_pos isBound] at delivered
      exact ⟨i,ch,here,isBound,Option.some.inj delivered,num⟩
  · rintro ⟨i,ch,here,isBound,addr,num⟩
    rw [(bound.lookupNum n i).mpr ⟨ch,here,isBound,num⟩,Option.bind_some,here]
    dsimp only
    rw [if_pos isBound,addr]

end Lookups

section Steps

variable {c out : Client}

theorem Bound.same (bound : Bound c) (chs : out.chs = c.chs) (table : out.chTable = c.chTable)
    (nextCh : out.nextCh = c.nextCh) (binds : out.binds = c.binds) (confirmed : out.confirmed = c.confirmed) :
    Bound out := by
  refine ⟨?_,?_,?_,?_,?_,?_,?_,?_,?_⟩
  · rw [table,chs]
    exact bound.byAddr
  · rw [table,chs]
    exact bound.byNum
  · rw [chs]
    exact bound.addrs
  · rw [chs]
    exact bound.nums
  · rw [chs,nextCh]
    exact bound.range
  · rw [chs]
    exact bound.valid
  · rw [nextCh]
    exact bound.next
  · rw [binds,chs]
    exact bound.binds
  · rw [confirmed,chs]
    exact bound.confirmed

theorem growsSame (chs : out.chs = c.chs) : Grows c out :=
  ⟨fun _ ch here => ⟨ch,chs ▸ here,rfl,fun _ => rfl⟩⟩

theorem appendedAt {list : List Channel} {new ch : Channel} {i : Nat} (here : (list ++ [new])[i]? = some ch) :
    list[i]? = some ch ∨ (i = list.length ∧ ch = new) := by
  by_cases within : i < list.length
  · rw [List.getElem?_append_left within] at here
    exact .inl here
  · have outside := Nat.le_of_not_lt within
    rw [List.getElem?_append_right outside] at here
    obtain ⟨first,value⟩ := List.getElem?_eq_some_iff.mp here
    rw [List.length_singleton] at first
    exact .inr ⟨by omega,by simpa using value.symm⟩

theorem modifiedAt {list : List Channel} {f : Channel → Channel} {ch : Channel} {i : Nat} (here : list[i]? = some ch)
    (j : Nat) (d : Channel) :
    (list.modify i f)[j]? = some d ↔ (j ≠ i ∧ list[j]? = some d) ∨ (j = i ∧ d = f ch) := by
  by_cases same : i = j
  · subst same
    rw [List.getElem?_modify_eq,here,Option.map_eq_map,Option.map_some,Option.some.injEq]
    constructor
    · rintro rfl
      exact .inr ⟨rfl,rfl⟩
    · rintro (⟨other,_⟩ | ⟨_,value⟩)
      · exact absurd rfl other
      · exact value.symm
  · rw [List.getElem?_modify_ne _ _ same]
    constructor
    · intro there
      exact .inl ⟨Ne.symm same,there⟩
    · rintro (⟨_,there⟩ | ⟨other,_⟩)
      · exact there
      · exact absurd other.symm same

theorem Bound.recordOf (bound : Bound c) (p : Peer) : Bound (c.recordOf p).2 ∧ Grows c (c.recordOf p).2 ∧
      ∃ ch, (c.recordOf p).2.chs[(c.recordOf p).1]? = some ch ∧ ch.addr = p := by
  unfold Client.recordOf
  cases known : c.lookupChByAddr p with
  | some i => exact ⟨bound,growsRefl c,(bound.lookupAddr p i).mp known⟩
  | none =>
    have fresh : ∀ (i : Nat) (ch : Channel), c.chs[i]? = some ch → ch.addr ≠ p := by
      intro i ch here same
      rw [(bound.lookupAddr p i).mpr ⟨ch,here,same⟩] at known
      contradiction
    have old : ∀ (i : Nat) (ch : Channel), c.chs[i]? = some ch →
        (c.chs ++ [⟨invalidChannel,false,p⟩])[i]? = some ch := by
      intro i ch here
      rw [List.getElem?_append_left (List.getElem?_eq_some_iff.mp here).1]
      exact here
    have last : (c.chs ++ [⟨invalidChannel,false,p⟩])[c.chs.length]? = some ⟨invalidChannel,false,p⟩ :=
      List.getElem?_concat_length
    refine ⟨⟨?_,?_,?_,?_,?_,?_,bound.next,?_,?_⟩,⟨fun i ch here => ⟨ch,old i ch here,rfl,fun _ => rfl⟩⟩,
      ⟨_,last,rfl⟩⟩
    · intro q i
      change (Key.addr q, i) ∈ c.chTable ++ [(.addr p, c.chs.length)] ↔ _
      rw [List.mem_append,bound.byAddr]
      constructor
      · rintro (⟨ch,here,addr⟩ | new)
        · exact ⟨ch,old i ch here,addr⟩
        · obtain ⟨same,rfl⟩ := Prod.mk.inj (List.mem_singleton.mp new)
          exact ⟨_,last,(Key.addr.inj same).symm⟩
      · rintro ⟨ch,here,addr⟩
        rcases appendedAt here with before | ⟨rfl,rfl⟩
        · exact .inl ⟨ch,before,addr⟩
        · exact .inr (by rw [← addr]; exact List.mem_singleton.mpr rfl)
    · intro n i
      change (Key.num n, i) ∈ c.chTable ++ [(.addr p, c.chs.length)] ↔ _
      rw [List.mem_append,bound.byNum]
      constructor
      · rintro (⟨ch,here,rest⟩ | new)
        · exact ⟨ch,old i ch here,rest⟩
        · exact absurd (Prod.mk.inj (List.mem_singleton.mp new)).1 nofun
      · rintro ⟨ch,here,isBound,num⟩
        rcases appendedAt here with before | ⟨rfl,rfl⟩
        · exact .inl ⟨ch,before,isBound,num⟩
        · contradiction
    · intro i j a b left right same
      rcases appendedAt left with before | ⟨rfl,rfl⟩
      · rcases appendedAt right with before' | ⟨rfl,rfl⟩
        · exact bound.addrs i j a b before before' same
        · exact absurd same (fresh i a before)
      · rcases appendedAt right with before' | ⟨rfl,rfl⟩
        · exact absurd same.symm (fresh j b before')
        · rfl
    · intro i j a b left right same valid
      rcases appendedAt left with before | ⟨rfl,rfl⟩
      · rcases appendedAt right with before' | ⟨rfl,rfl⟩
        · exact bound.nums i j a b before before' same valid
        · exact absurd same valid
      · exact absurd rfl valid
    · intro i ch here valid
      rcases appendedAt here with before | ⟨rfl,rfl⟩
      · exact bound.range i ch before valid
      · exact absurd rfl valid
    · intro i ch here isBound
      rcases appendedAt here with before | ⟨rfl,rfl⟩
      · exact bound.valid i ch before isBound
      · contradiction
    · intro b member
      obtain ⟨ch,here,rest⟩ := bound.binds b member
      exact ⟨ch,old b.record ch here,rest⟩
    · intro q n
      rw [bound.confirmed]
      constructor
      · rintro ⟨i,ch,here,rest⟩
        exact ⟨i,ch,old i ch here,rest⟩
      · rintro ⟨i,ch,here,isBound,rest⟩
        rcases appendedAt here with before | ⟨rfl,rfl⟩
        · exact ⟨i,ch,before,isBound,rest⟩
        · contradiction

theorem Bound.assignNum (bound : Bound c) {i num : Nat} (assigned : c.assignNum i = some (num, out)) :
    Bound out ∧ Grows c out ∧ num ≠ invalidChannel ∧
      ∀ ch, c.chs[i]? = some ch → ∃ d, out.chs[i]? = some d ∧ d.addr = ch.addr ∧ d.num = num := by
  unfold Client.assignNum at assigned
  split at assigned
  · contradiction
  · rename_i ch here
    split at assigned
    · rename_i valid
      obtain ⟨rfl,rfl⟩ := Prod.mk.inj (Option.some.inj assigned)
      refine ⟨bound,growsRefl c,valid,fun d there => ?_⟩
      obtain rfl := Option.some.inj (here.symm.trans there)
      exact ⟨ch,here,rfl,rfl⟩
    · rename_i invalid
      have invalid : ch.num = invalidChannel := not_not.mp invalid
      split at assigned
      · rename_i room
        obtain ⟨rfl,rfl⟩ := Prod.mk.inj (Option.some.inj assigned)
        have usable : c.nextCh ≠ invalidChannel := by
          unfold channelMax at room
          unfold invalidChannel
          omega
        have unbound : ch.bound ≠ true := fun isBound => bound.valid i ch here isBound invalid
        have set : ∀ (j : Nat) (d : Channel), (c.chs.modify i (fun ch => { ch with num := c.nextCh }))[j]? = some d →
            (j ≠ i ∧ c.chs[j]? = some d) ∨ (j = i ∧ d = { ch with num := c.nextCh }) :=
          fun j d => (modifiedAt here j d).mp
        have other : ∀ (j : Nat) (d : Channel), j ≠ i → c.chs[j]? = some d →
            (c.chs.modify i (fun ch => { ch with num := c.nextCh }))[j]? = some d :=
          fun j d differ there => (modifiedAt here j d).mpr (.inl ⟨differ,there⟩)
        have mine : (c.chs.modify i (fun ch => { ch with num := c.nextCh }))[i]? = some { ch with num := c.nextCh } :=
          (modifiedAt here i _).mpr (.inr ⟨rfl,rfl⟩)
        have below : ∀ (j : Nat) (d : Channel), c.chs[j]? = some d → d.num ≠ c.nextCh := by
          intro j d there same
          by_cases valid : d.num = invalidChannel
          · exact usable (same.symm.trans valid)
          · have bound := bound.range j d there valid
            omega
        refine ⟨⟨?_,?_,?_,?_,?_,?_,?_,?_,?_⟩,⟨fun j d there => ?_⟩,usable,fun d there => ?_⟩
        · intro q j
          rw [bound.byAddr]
          constructor
          · rintro ⟨d,there,addr⟩
            by_cases same : j = i
            · subst same
              obtain rfl := Option.some.inj (here.symm.trans there)
              exact ⟨_,mine,addr⟩
            · exact ⟨d,other j d same there,addr⟩
          · rintro ⟨d,there,addr⟩
            rcases set j d there with ⟨_,before⟩ | ⟨rfl,rfl⟩
            · exact ⟨d,before,addr⟩
            · exact ⟨ch,here,addr⟩
        · intro n j
          rw [bound.byNum]
          constructor
          · rintro ⟨d,there,isBound,num⟩
            refine ⟨d,other j d ?_ there,isBound,num⟩
            rintro rfl
            obtain rfl := Option.some.inj (here.symm.trans there)
            exact unbound isBound
          · rintro ⟨d,there,isBound,num⟩
            rcases set j d there with ⟨_,before⟩ | ⟨rfl,rfl⟩
            · exact ⟨d,before,isBound,num⟩
            · exact absurd isBound unbound
        · intro j k a b left right same
          rcases set j a left with ⟨_,before⟩ | ⟨rfl,rfl⟩
          · rcases set k b right with ⟨_,before'⟩ | ⟨rfl,rfl⟩
            · exact bound.addrs j k a b before before' same
            · exact bound.addrs j k a ch before here same
          · rcases set k b right with ⟨_,before'⟩ | ⟨rfl,rfl⟩
            · exact bound.addrs j k ch b here before' same
            · rfl
        · intro j k a b left right same valid
          rcases set j a left with ⟨_,before⟩ | ⟨rfl,rfl⟩
          · rcases set k b right with ⟨_,before'⟩ | ⟨rfl,rfl⟩
            · exact bound.nums j k a b before before' same valid
            · exact absurd same (below j a before)
          · rcases set k b right with ⟨_,before'⟩ | ⟨rfl,rfl⟩
            · exact absurd same.symm (below k b before')
            · rfl
        · intro j d there valid
          rcases set j d there with ⟨_,before⟩ | ⟨rfl,rfl⟩
          · exact Nat.lt_succ_of_lt (bound.range j d before valid)
          · exact Nat.lt_succ_self _
        · intro j d there isBound
          rcases set j d there with ⟨_,before⟩ | ⟨rfl,rfl⟩
          · exact bound.valid j d before isBound
          · exact absurd isBound unbound
        · exact Nat.succ_le_succ room
        · intro b member
          obtain ⟨d,there,addr,num,valid⟩ := bound.binds b member
          refine ⟨d,other b.record d ?_ there,addr,num,valid⟩
          rintro same
          rw [same] at there
          obtain rfl := Option.some.inj (here.symm.trans there)
          exact valid (num.symm.trans invalid)
        · intro q n
          rw [bound.confirmed]
          constructor
          · rintro ⟨j,d,there,isBound,rest⟩
            refine ⟨j,d,other j d ?_ there,isBound,rest⟩
            rintro rfl
            obtain rfl := Option.some.inj (here.symm.trans there)
            exact unbound isBound
          · rintro ⟨j,d,there,isBound,rest⟩
            rcases set j d there with ⟨_,before⟩ | ⟨rfl,rfl⟩
            · exact ⟨j,d,before,isBound,rest⟩
            · exact absurd isBound unbound
        · by_cases same : j = i
          · subst same
            obtain rfl := Option.some.inj (here.symm.trans there)
            exact ⟨_,mine,rfl,fun valid => absurd invalid valid⟩
          · exact ⟨d,other j d same there,rfl,fun _ => rfl⟩
        · obtain rfl := Option.some.inj (here.symm.trans there)
          exact ⟨_,mine,rfl,rfl⟩
      · contradiction

theorem registerNumRest (c : Client) (i : Nat) :
    (c.registerNum i).chs = c.chs ∧ (c.registerNum i).nextCh = c.nextCh ∧ (c.registerNum i).binds = c.binds ∧
      (c.registerNum i).confirmed = c.confirmed := by
  unfold Client.registerNum
  split
  · exact ⟨rfl,rfl,rfl,rfl⟩
  · split
    · exact ⟨rfl,rfl,rfl,rfl⟩
    · exact ⟨rfl,rfl,rfl,rfl⟩

theorem registerNumTable {i : Nat} {ch : Channel} (here : c.chs[i]? = some ch)
    (unique : ∀ j, (Key.num ch.num, j) ∈ c.chTable → j = i) (e : Key × Nat) :
    e ∈ (c.registerNum i).chTable ↔ e ∈ c.chTable ∨ e = (.num ch.num, i) := by
  unfold Client.registerNum
  rw [here]
  dsimp only
  split
  · rw [List.mem_append,List.mem_singleton]
  · rename_i found
    refine ⟨.inl,fun known => known.elim (fun member => member) ?_⟩
    rintro rfl
    obtain ⟨j,known⟩ := Option.ne_none_iff_exists'.mp found
    have member := hashGetMember known
    rw [unique j member] at member
    exact member

theorem Bound.boundAt (bound : Bound c) {k : Nat} {ch : Channel} (here : c.chs[k]? = some ch)
    (valid : ch.num ≠ invalidChannel)
    (chs : ∀ (j : Nat) (d : Channel), out.chs[j]? = some d ↔
      (j ≠ k ∧ c.chs[j]? = some d) ∨ (j = k ∧ d = { ch with bound := true }))
    (table : ∀ e : Key × Nat, e ∈ out.chTable ↔ e ∈ c.chTable ∨ e = (.num ch.num, k))
    (nextCh : out.nextCh = c.nextCh) (binds : out.binds = c.binds)
    (confirmed : ∀ e : Peer × Nat, e ∈ out.confirmed ↔ e ∈ c.confirmed ∨ e = (ch.addr, ch.num)) :
    Bound out ∧ Grows c out := by
  -- each record of one side has its like on the other
  have old : ∀ (j : Nat) (d : Channel), out.chs[j]? = some d →
      ∃ e : Channel, c.chs[j]? = some e ∧ e.addr = d.addr ∧ e.num = d.num ∧ (d.bound = true → j = k ∨ e.bound = true) := by
    intro j d there
    rcases (chs j d).mp there with ⟨_,before⟩ | ⟨rfl,rfl⟩
    · exact ⟨d,before,rfl,rfl,.inr⟩
    · exact ⟨ch,here,rfl,rfl,fun _ => .inl rfl⟩
  have new : ∀ (j : Nat) (d : Channel), c.chs[j]? = some d →
      ∃ e : Channel, out.chs[j]? = some e ∧ e.addr = d.addr ∧ e.num = d.num ∧ (d.bound = true ∨ j = k → e.bound = true) := by
    intro j d there
    by_cases same : j = k
    · subst same
      obtain rfl := Option.some.inj (here.symm.trans there)
      exact ⟨_,(chs _ _).mpr (.inr ⟨rfl,rfl⟩),rfl,rfl,fun _ => rfl⟩
    · exact ⟨d,(chs j d).mpr (.inl ⟨same,there⟩),rfl,rfl,fun isBound => isBound.resolve_right same⟩
  refine ⟨⟨?_,?_,?_,?_,?_,?_,?_,?_,?_⟩,⟨fun j d there => ?_⟩⟩
  · intro p i
    rw [table,bound.byAddr]
    constructor
    · rintro (⟨d,there,addr⟩ | other)
      · obtain ⟨e,after,addr',_⟩ := new i d there
        exact ⟨e,after,addr'.trans addr⟩
      · exact absurd (Prod.mk.inj other).1 nofun
    · rintro ⟨d,there,addr⟩
      obtain ⟨e,before,addr',_⟩ := old i d there
      exact .inl ⟨e,before,addr'.trans addr⟩
  · intro n i
    rw [table,bound.byNum]
    constructor
    · rintro (⟨d,there,isBound,num⟩ | mine)
      · obtain ⟨e,after,_,num',isBound'⟩ := new i d there
        exact ⟨e,after,isBound' (.inl isBound),num'.trans num⟩
      · obtain ⟨key,rfl⟩ := Prod.mk.inj mine
        obtain ⟨e,after,_,num',isBound'⟩ := new i ch here
        exact ⟨e,after,isBound' (.inr rfl),num'.trans (Key.num.inj key).symm⟩
    · rintro ⟨d,there,isBound,num⟩
      obtain ⟨e,before,_,num',isBound'⟩ := old i d there
      rcases isBound' isBound with rfl | wasBound
      · obtain rfl := Option.some.inj (here.symm.trans before)
        exact .inr (by rw [num',num])
      · exact .inl ⟨e,before,wasBound,num'.trans num⟩
  · intro i j a b left right same
    obtain ⟨d,before,addr,_⟩ := old i a left
    obtain ⟨e,before',addr',_⟩ := old j b right
    exact bound.addrs i j d e before before' (by rw [addr,addr',same])
  · intro i j a b left right same valid
    obtain ⟨d,before,_,num,_⟩ := old i a left
    obtain ⟨e,before',_,num',_⟩ := old j b right
    exact bound.nums i j d e before before' (by rw [num,num',same]) (num ▸ valid)
  · intro i d there valid
    obtain ⟨e,before,_,num,_⟩ := old i d there
    rw [nextCh,← num]
    exact bound.range i e before (num ▸ valid)
  · intro i d there isBound
    obtain ⟨e,before,_,num,isBound'⟩ := old i d there
    rw [← num]
    rcases isBound' isBound with rfl | wasBound
    · obtain rfl := Option.some.inj (here.symm.trans before)
      exact valid
    · exact bound.valid i e before wasBound
  · rw [nextCh]
    exact bound.next
  · intro b member
    rw [binds] at member
    obtain ⟨d,there,addr,num,usable⟩ := bound.binds b member
    obtain ⟨e,after,addr',num',_⟩ := new b.record d there
    exact ⟨e,after,addr'.trans addr,num'.trans num,usable⟩
  · intro p n
    rw [confirmed,bound.confirmed]
    constructor
    · rintro (⟨i,d,there,isBound,addr,num⟩ | mine)
      · obtain ⟨e,after,addr',num',isBound'⟩ := new i d there
        exact ⟨i,e,after,isBound' (.inl isBound),addr'.trans addr,num'.trans num⟩
      · obtain ⟨rfl,rfl⟩ := Prod.mk.inj mine
        obtain ⟨e,after,addr',num',isBound'⟩ := new k ch here
        exact ⟨k,e,after,isBound' (.inr rfl),addr',num'⟩
    · rintro ⟨i,d,there,isBound,addr,num⟩
      obtain ⟨e,before,addr',num',isBound'⟩ := old i d there
      rcases isBound' isBound with rfl | wasBound
      · obtain rfl := Option.some.inj (here.symm.trans before)
        exact .inr (by rw [addr',num',addr,num])
      · exact .inl ⟨i,e,before,wasBound,addr'.trans addr,num'.trans num⟩
  · obtain ⟨e,after,addr,num,_⟩ := new j d there
    exact ⟨e,after,addr,fun _ => num⟩

theorem Bound.channelBound (bound : Bound c) (id : Nat) :
    Bound (c.channelBound id) ∧ Grows c (c.channelBound id) := by
  unfold Client.channelBound
  cases asked : c.binds.find? (fun b => b.id = id) with
  | none => exact ⟨bound,growsRefl c⟩
  | some b =>
    obtain ⟨ch,here,addr,num,valid⟩ := bound.binds b (List.mem_of_find?_eq_some asked)
    dsimp only
    rw [here]
    dsimp only
    generalize now : ({ c with
      chs := c.chs.modify b.record (fun ch => { ch with bound := true })
      confirmed := c.confirmed ++ [(b.peer, b.num)] } : Client) = d
    have chs : d.chs = c.chs.modify b.record (fun ch => { ch with bound := true }) := by rw [← now]
    have table : d.chTable = c.chTable := by rw [← now]
    have nextCh : d.nextCh = c.nextCh := by rw [← now]
    have binds : d.binds = c.binds := by rw [← now]
    have confirmed : d.confirmed = c.confirmed ++ [(b.peer, b.num)] := by rw [← now]
    have known : d.recordOf ch.addr = (b.record, d) := by
      have found : d.lookupChByAddr ch.addr = some b.record := by
        unfold Client.lookupChByAddr Client.hashGet
        rw [table]
        exact (bound.lookupAddr _ _).mpr ⟨ch,here,rfl⟩
      unfold Client.recordOf
      rw [found]
    rw [known]
    dsimp only
    have at' : ∀ (j : Nat) (e : Channel), d.chs[j]? = some e ↔
        (j ≠ b.record ∧ c.chs[j]? = some e) ∨ (j = b.record ∧ e = { ch with bound := true }) := by
      intro j e
      rw [chs]
      exact modifiedAt here j e
    have mine : d.chs[b.record]? = some { ch with bound := true } := (at' _ _).mpr (.inr ⟨rfl,rfl⟩)
    obtain ⟨chs',nextCh',binds',confirmed'⟩ := registerNumRest d b.record
    have table' : ∀ e : Key × Nat,
        e ∈ (d.registerNum b.record).chTable ↔ e ∈ c.chTable ∨ e = (.num ch.num, b.record) := by
      intro e
      rw [registerNumTable mine,table]
      intro j member
      rw [table] at member
      obtain ⟨a,there,_,same⟩ := (bound.byNum _ _).mp member
      refine bound.nums j b.record a ch there here same ?_
      rw [same]
      exact num ▸ valid
    refine bound.boundAt here (num ▸ valid) (fun j e => ?_) table' (nextCh'.trans nextCh) (binds'.trans binds) (fun e => ?_)
    · rw [chs']
      exact at' j e
    · rw [confirmed',confirmed,List.mem_append,List.mem_singleton,addr,num]

theorem Bound.sendBind (bound : Bound c) {k : Nat} {ch : Channel} (here : c.chs[k]? = some ch)
    (valid : ch.num ≠ invalidChannel) : Bound (c.sendBind k ch.addr ch.num) := by
  refine { bound with binds := fun b member => ?_ }
  rcases List.mem_append.mp member with before | new
  · exact bound.binds b before
  · obtain rfl := List.mem_singleton.mp new
    exact ⟨ch,here,rfl,rfl,valid⟩

theorem Bound.bindChannel (bound : Bound c) (p : Peer) (sending : Sending) :
    Bound (c.bindChannel p sending) ∧ Grows c (c.bindChannel p sending) := by
  unfold Client.bindChannel
  split
  · exact ⟨bound,growsRefl c⟩
  · obtain ⟨made,grows,ch,here,addr⟩ := bound.recordOf p
    generalize c.recordOf p = record at made grows here
    obtain ⟨i,d⟩ := record
    dsimp only at made grows here ⊢
    cases assigned : d.assignNum i with
    | none => exact ⟨made,grows⟩
    | some result =>
      obtain ⟨num,e⟩ := result
      obtain ⟨numbered,grows',valid,has⟩ := made.assignNum assigned
      dsimp only
      split
      · exact ⟨numbered,grows.trans grows'⟩
      · obtain ⟨f,there,addr',rfl⟩ := has ch here
        obtain rfl := addr'.trans addr
        exact ⟨numbered.sendBind there valid,(grows.trans grows').trans (growsSame rfl)⟩

theorem Bound.refreshChannel (bound : Bound c) (due : Nat × Sending) :
    Bound (c.refreshChannel due) ∧ Grows c (c.refreshChannel due) := by
  unfold Client.refreshChannel
  split
  · exact ⟨bound,growsRefl c⟩
  · split
    · exact bound.bindChannel _ due.2
    · exact ⟨bound,growsRefl c⟩

theorem Bound.refreshChannels (channels : List (Nat × Sending)) : ∀ {c : Client}, Bound c →
      Bound (channels.foldl Client.refreshChannel c) ∧ Grows c (channels.foldl Client.refreshChannel c) := by
  induction channels with
  | nil => exact fun bound => ⟨bound,growsRefl _⟩
  | cons due rest ih =>
    intro c bound
    obtain ⟨first,grows⟩ := bound.refreshChannel due
    obtain ⟨last,grows'⟩ := ih first
    exact ⟨last,grows.trans grows'⟩

theorem Bound.sess (bound : Bound c) (sess : Session) :
    Bound { c with sess := sess } ∧ Grows c { c with sess := sess } :=
  ⟨bound.same rfl rfl rfl rfl rfl,growsSame rfl⟩

theorem Bound.onTimerEvent (bound : Bound c) (due : Bool) (refresh : Sending) (channels : List (Nat × Sending))
    (perms : Option Sending) :
    Bound (c.onTimerEvent due refresh channels perms) ∧ Grows c (c.onTimerEvent due refresh channels perms) := by
  unfold Client.onTimerEvent
  dsimp only
  split
  · exact bound.sess _
  · exact bound.sess _
  · split
    · exact bound.sess _
    · obtain ⟨last,grows⟩ := Bound.refreshChannels channels (bound.sess
        (if due ∧ c.sess.state = .ready then { c.sess with timer := .none }.send .refresh refresh
          else { c.sess with timer := .none })).1
      refine ⟨last.same rfl rfl rfl rfl rfl,(bound.sess _).2.trans (grows.trans ?_)⟩
      exact growsSame rfl

theorem Bound.sendTo (bound : Bound c) (p : Peer) (permitted : Bool) (pktLen : Nat) (sending : Sending) :
    Bound (c.sendTo p permitted pktLen sending).2 ∧ Grows c (c.sendTo p permitted pktLen sending).2 := by
  unfold Client.sendTo
  split
  · exact ⟨bound,growsRefl c⟩
  · split
    · exact ⟨bound,growsRefl c⟩
    · dsimp only
      split
      · exact bound.sess _
      · exact bound.sess _

theorem Bound.onRequestComplete (bound : Bound c) (req : Request) (completion : Completion) (sending : Sending) :
    Bound (c.onRequestComplete req completion sending) ∧ Grows c (c.onRequestComplete req completion sending) := by
  obtain ⟨first,grows⟩ := bound.sess ((c.sess.dropRequest req.id).onRequestComplete req.method completion sending)
  unfold Client.onRequestComplete
  dsimp only
  split
  · obtain ⟨last,grows'⟩ := first.channelBound req.id
    exact ⟨last,grows.trans grows'⟩
  · exact ⟨first,grows⟩

theorem Bound.step (bound : Bound c) (event : Event) : Bound (c.step event) ∧ Grows c (c.step event) := by
  unfold Client.step
  split
  · exact ⟨bound,growsRefl c⟩
  · cases event with
    | setServer => exact ⟨bound.same rfl rfl rfl rfl rfl,growsSame rfl⟩
    | dns =>
      dsimp only
      split
      · exact ⟨bound.same rfl rfl rfl rfl rfl,growsSame rfl⟩
      · exact ⟨bound,growsRefl c⟩
    | alloc =>
      dsimp only
      unfold Client.alloc
      split
      · exact ⟨bound.same rfl rfl rfl rfl rfl,growsSame rfl⟩
      · exact ⟨bound,growsRefl c⟩
    | setPerm => exact bound.sess _
    | sendTo peer permitted pktLen sending => exact bound.sendTo peer permitted pktLen sending
    | bindChannel peer sending => exact bound.bindChannel peer sending
    | connectionBind => exact bound.sess _
    | shutdown => exact bound.sess _
    | destroy => exact bound.sess _
    | complete id completion sending =>
      dsimp only
      split
      · exact ⟨bound,growsRefl c⟩
      · exact bound.onRequestComplete _ completion sending
    | lost => exact bound.sess _
    | timer due refresh channels perms => exact bound.onTimerEvent due refresh channels perms

theorem Bound.run (events : List Event) : ∀ {c : Client}, Bound c → Bound (c.run events) ∧ Grows c (c.run events) := by
  induction events with
  | nil => exact fun bound => ⟨bound,growsRefl _⟩
  | cons event rest ih =>
    intro c bound
    obtain ⟨first,grows⟩ := bound.step event
    obtain ⟨last,grows'⟩ := ih first
    exact ⟨last,grows.trans grows'⟩

theorem Client.Fresh.bound (fresh : c.Fresh) : Bound c := by
  have none : ∀ (i : Nat) (ch : Channel), c.chs[i]? ≠ some ch := by
    intro i ch here
    rw [fresh.chs] at here
    contradiction
  refine ⟨?_,?_,?_,?_,?_,?_,?_,?_,?_⟩
  · intro p i
    rw [fresh.chTable]
    exact ⟨nofun,fun ⟨ch,here,_⟩ => absurd here (none i ch)⟩
  · intro n i
    rw [fresh.chTable]
    exact ⟨nofun,fun ⟨ch,here,_⟩ => absurd here (none i ch)⟩
  · exact fun i _ a _ left _ _ => absurd left (none i a)
  · exact fun i _ a _ left _ _ _ => absurd left (none i a)
  · exact fun i ch here _ => absurd here (none i ch)
  · exact fun i ch here _ => absurd here (none i ch)
  · rw [fresh.nextCh]
    decide
  · rw [fresh.binds]
    exact nofun
  · intro p n
    rw [fresh.confirmed]
    exact ⟨nofun,fun ⟨i,ch,here,_⟩ => absurd here (none i ch)⟩

end Steps

/- Peers and numbers correspond, for all of a run; what is bound is found by either key, and what comes in on a number
is taken to be from the peer it was bound for. -/
theorem channelsOneToOne {c : Client} (fresh : c.Fresh) (first later : List Event) :
    (∀ p q n, (c.run first).numberOf p = some n → (c.run first).numberOf q = some n → p = q) ∧
    (∀ p n, (c.run first).numberOf p = some n → (c.run (first ++ later)).numberOf p = some n) ∧
    (∀ (i : Nat) (ch : Channel), (c.run first).chs[i]? = some ch → ch.bound = true →
      ((∀ p, (c.run first).lookupChByAddr p = some i ↔ p = ch.addr) ∧
        ∀ n, (c.run first).lookupChByChnum n = some i ↔ n = ch.num)) ∧
    (∀ n i, (c.run first).lookupChByChnum n = some i →
      ∃ ch : Channel, (c.run first).chs[i]? = some ch ∧ ch.bound = true ∧ (c.run first).numberOf ch.addr = some n) ∧
    (∀ p n, (c.run first).rxChannelData n = some p ↔ (p, n) ∈ (c.run first).confirmed) := by
  have bound := (fresh.bound.run first).1
  obtain ⟨later',grows⟩ := bound.run later
  have joined : c.run (first ++ later) = (c.run first).run later := List.foldl_append
  rw [joined]
  generalize c.run first = d at bound grows later' ⊢
  refine ⟨?_,?_,?_,?_,bound.delivers⟩
  · intro p q n left right
    obtain ⟨i,a,here,rfl,rfl,valid⟩ := (bound.numberIff p n).mp left
    obtain ⟨j,b,there,rfl,same,_⟩ := (bound.numberIff q _).mp right
    obtain rfl := bound.nums i j a b here there same.symm valid
    obtain rfl := Option.some.inj (here.symm.trans there)
    rfl
  · exact fun p n has => bound.numberKept later' grows has
  · intro i ch here isBound
    refine ⟨fun p => ?_,fun n => ?_⟩
    · rw [bound.lookupAddr]
      constructor
      · rintro ⟨e,there,rfl⟩
        obtain rfl := Option.some.inj (here.symm.trans there)
        rfl
      · rintro rfl
        exact ⟨ch,here,rfl⟩
    · rw [bound.lookupNum]
      constructor
      · rintro ⟨e,there,_,rfl⟩
        obtain rfl := Option.some.inj (here.symm.trans there)
        rfl
      · rintro rfl
        exact ⟨ch,here,isBound,rfl⟩
  · intro n i known
    obtain ⟨ch,here,isBound,num⟩ := (bound.lookupNum n i).mp known
    refine ⟨ch,here,isBound,(bound.numberIff _ _).mpr ⟨i,ch,here,rfl,num,?_⟩⟩
    exact num ▸ bound.valid i ch here isBound

/- An Allocate response, and a session that binds two peers with both requests under way; the second is answered
first. -/
def granted : Msg :=
  ⟨⟨0x0103,20,Stun.stunMagic,fun _ => 0⟩,
    [⟨attrLifetime,4,.uint 600,(by decide : Stun.findAttrDesc attrLifetime = some .uint)⟩,
      ⟨attrXorRelayedAddr,8,.sockaddr true (.ipv4 49152 fun _ => 7),
        .inr (by decide : Stun.findAttrDesc attrXorRelayedAddr = some .xoredSockaddr)⟩],by decide⟩

def twoPeers : List Event :=
  [.setServer (.found (.ipv4 3478 fun _ => 9) []),.alloc none false .sent,.complete 0 ⟨true,some granted⟩ .sent,
    .bindChannel ⟨.ipv4 1000 fun _ => 1,0⟩ .sent,.bindChannel ⟨.ipv4 1000 fun _ => 2,0⟩ .sent,
    .complete 2 ⟨true,some ⟨⟨0x0109,0,Stun.stunMagic,fun _ => 0⟩,[],by decide⟩⟩ .sent]

theorem secondPeerBound :
    (Client.run {} twoPeers).rxChannelData 0x4001 = some ⟨.ipv4 1000 fun _ => 2,0⟩ ∧
      (Client.run {} twoPeers).rxChannelData 0x4000 = none ∧
      (Client.run {} twoPeers).numberOf ⟨.ipv4 1000 fun _ => 1,0⟩ = some 0x4000 := by
  obtain ⟨_,_,_,_,delivers⟩ := channelsOneToOne (newClient .inet) twoPeers []
  refine ⟨(delivers _ _).mpr ?_,?_,?_⟩
  · decide +kernel
  · decide +kernel
  · decide +kernel

end Pjproject.Turn
