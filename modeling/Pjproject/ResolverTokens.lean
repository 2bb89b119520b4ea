import Pjproject.ResolverRoles

/-! The callbacks given to start_query: each is with one node that waits, or has been called, or was cancelled. -/
namespace Pjproject.Dns

def owner (role : Nat → Role) (n : Nat) : Nat :=
  match role n with
  | .child q => q
  | .out q => q
  | _ => n

def Waiting (role : Nat → Role) (resv : Resolver) (n : Nat) : Prop :=
  role n = .head ∨ (∃ q, role n = .child q) ∨ ∃ d ∈ resv.deliveries, n ∈ d.left

structure Tokens (role : Nat → Role) (resv : Resolver) : Prop where
  keys : ∀ n t, role n ≠ .unused → (resv.queries n).cb = some t →
    resv.asked t = some (resv.queries (owner role n)).key
  young : ∀ t, (resv.asked t).isSome → t < resv.tokens
  given : ∀ n t, (resv.queries n).cb = some t → t < resv.tokens
  held : ∀ n t, (resv.queries n).cb = some t → (resv.asked t).isSome → resv.called t ∨ Waiting role resv n
  oldCancelled : ∀ t, resv.cancelled t = true → (resv.asked t).isSome
  oldCalled : ∀ t, resv.called t → (resv.asked t).isSome
  once : (resv.calls.map Call.token).Nodup
  open_ : ∀ n t, Waiting role resv n → (resv.queries n).cb = some t → ¬ resv.called t ∧ resv.cancelled t = false
  unique : ∀ n m t, Waiting role resv n → Waiting role resv m → (resv.queries n).cb = some t →
    (resv.queries m).cb = some t → n = m
  kept : ∀ t, (resv.asked t).isSome → resv.cancelled t = false →
    resv.called t ∨ ∃ n, Waiting role resv n ∧ (resv.queries n).cb = some t

variable {role : Nat → Role} {resv resv' : Resolver} {node : Nat}

theorem leftOut (placed : Placed role resv) {d : Delivery}
    (running : d ∈ resv.deliveries) {n : Nat} (left : n ∈ d.left) : role n = .out d.query :=
  (placed.outs n d.query).mpr ⟨⟨d,running,rfl⟩,(placed.left d running).subset left⟩

theorem Waiting.used (placed : Placed role resv) {n : Nat} (waiting : Waiting role resv n) : role n ≠ .unused := by
  rcases waiting with head | ⟨q,child⟩ | ⟨d,running,left⟩
  · rw [head]
    nofun
  · rw [child]
    nofun
  · rw [leftOut placed running left]
    nofun

theorem Tokens.still {role' : Nat → Role} (tokens : Tokens role resv) (placed' : Placed role' resv')
    (used : ∀ n t, role' n ≠ .unused → (resv'.queries n).cb = some t → role n ≠ .unused ∧
      (resv.queries n).cb = some t ∧ (resv'.queries (owner role' n)).key = (resv.queries (owner role n)).key)
    (was : ∀ n t, (resv'.queries n).cb = some t → Waiting role' resv' n → Waiting role resv n)
    (will : ∀ n t, Waiting role resv n → (resv.queries n).cb = some t →
      Waiting role' resv' n ∧ (resv'.queries n).cb = some t) (all : ∀ n t, (resv'.queries n).cb = some t →
      (resv.queries n).cb = some t ∨ t = resv.tokens ∧ resv.tokens < resv'.tokens)
    (asked : resv'.asked = resv.asked) (cancelled : resv'.cancelled = resv.cancelled) (calls : resv'.calls = resv.calls)
    (count : resv.tokens ≤ resv'.tokens) : Tokens role' resv' := by
  have called : ∀ t, resv'.called t ↔ resv.called t := by
    intro t
    unfold Resolver.called
    rw [calls]
  have before : ∀ n t, Waiting role' resv' n → (resv'.queries n).cb = some t →
      Waiting role resv n ∧ (resv.queries n).cb = some t :=
    fun n t is has => ⟨was n t has is,(used n t (is.used placed') has).2.1⟩
  constructor
  case keys =>
    intro n t isUsed has
    obtain ⟨wasUsed,had,key⟩ := used n t isUsed has
    rw [asked,key]
    exact tokens.keys n t wasUsed had
  case young =>
    intro t is
    rw [asked] at is
    exact Nat.lt_of_lt_of_le (tokens.young t is) count
  case given =>
    intro n t has
    rcases all n t has with had | ⟨rfl,more⟩
    · exact Nat.lt_of_lt_of_le (tokens.given n t had) count
    · exact more
  case held =>
    intro n t has is
    rw [asked] at is
    rcases all n t has with had | ⟨rfl,_⟩
    · rcases tokens.held n t had is with was | waits
      · exact .inl ((called t).mpr was)
      · exact .inr (will n t waits had).1
    · exact absurd (tokens.young _ is) (Nat.lt_irrefl _)
  case oldCancelled => rw [cancelled,asked]; exact tokens.oldCancelled
  case oldCalled =>
    intro t is
    rw [asked]
    exact tokens.oldCalled t ((called t).mp is)
  case once => rw [calls]; exact tokens.once
  case open_ =>
    intro n t is has
    rw [called,cancelled]
    obtain ⟨isN,had⟩ := before n t is has
    exact tokens.open_ n t isN had
  case unique =>
    intro n m t isN isM hasN hasM
    obtain ⟨wasN,hadN⟩ := before n t isN hasN
    obtain ⟨wasM,hadM⟩ := before m t isM hasM
    exact tokens.unique n m t wasN wasM hadN hadM
  case kept =>
    intro t is notCancelled
    rw [asked] at is
    rw [cancelled] at notCancelled
    rcases tokens.kept t is notCancelled with was | ⟨n,isN,has⟩
    · exact .inl ((called t).mpr was)
    · exact .inr ⟨n,will n t isN has⟩

theorem Tokens.add {role' : Nat → Role} (tokens : Tokens role resv) {key : ResKey}
    (waiting : ∀ n, Waiting role' resv' n ↔ n = node ∨ Waiting role resv n) (unused : role node = .unused)
    (newCb : (resv'.queries node).cb = some resv.tokens) (newKey : (resv'.queries (owner role' node)).key = key)
    (used : ∀ n, n ≠ node → role' n ≠ .unused → role n ≠ .unused ∧
      (resv'.queries (owner role' n)).key = (resv.queries (owner role n)).key)
    (cbs : ∀ n, n ≠ node → (resv'.queries n).cb = (resv.queries n).cb)
    (placed : Placed role resv) (asked : resv'.asked = Function.update resv.asked resv.tokens (some key))
    (cancelled : resv'.cancelled = resv.cancelled) (calls : resv'.calls = resv.calls)
    (count : resv'.tokens = resv.tokens + 1) : Tokens role' resv' := by
  have called : ∀ t, resv'.called t ↔ resv.called t := by
    intro t
    unfold Resolver.called
    rw [calls]
  have unasked : resv.asked resv.tokens = none := by
    cases is : resv.asked resv.tokens with
    | none => rfl
    | some => exact absurd (tokens.young _ (by rw [is]; rfl)) (Nat.lt_irrefl _)
  have askedAt : ∀ t, resv'.asked t = if t = resv.tokens then some key else resv.asked t := by
    intro t
    rw [asked]
    exact Function.update_apply _ _ _ t
  have old : ∀ t, (resv.asked t).isSome → t ≠ resv.tokens := by
    rintro t is rfl
    rw [unasked] at is
    cases is
  have apart : ∀ n, Waiting role resv n → n ≠ node := by
    rintro n is rfl
    exact is.used placed unused
  have cb : ∀ n, Waiting role resv n → (resv'.queries n).cb = (resv.queries n).cb := by
    intro n is
    exact cbs n (apart n is)
  have tokenOld : ∀ n t, Waiting role resv n → (resv.queries n).cb = some t → t ≠ resv.tokens := by
    intro n t is has
    exact old t (by rw [tokens.keys n t (is.used placed) has]; rfl)
  constructor
  case keys =>
    intro n t isUsed has
    by_cases same : n = node
    · subst same
      rw [newCb] at has
      cases has
      rw [askedAt,if_pos rfl,newKey]
    · obtain ⟨wasUsed,sameKey⟩ := used n same isUsed
      have before := tokens.keys n t wasUsed (cbs n same ▸ has)
      rw [askedAt,if_neg (old t (by rw [before]; rfl)),before,sameKey]
  case young =>
    intro t is
    rw [askedAt] at is
    rw [count]
    split at is
    · omega
    · exact Nat.lt_succ_of_lt (tokens.young t is)
  case given =>
    intro n t has
    rw [count]
    by_cases same : n = node
    · subst same
      rw [newCb] at has
      cases has
      exact Nat.lt_succ_self _
    · exact Nat.lt_succ_of_lt (tokens.given n t (cbs n same ▸ has))
  case held =>
    intro n t has is
    by_cases same : n = node
    · exact .inr ((waiting n).mpr (.inl same))
    · have had := cbs n same ▸ has
      rw [askedAt,if_neg (Nat.ne_of_lt (tokens.given n t had))] at is
      rcases tokens.held n t had is with was | waits
      · exact .inl ((called t).mpr was)
      · exact .inr ((waiting n).mpr (.inr waits))
  case oldCancelled =>
    intro t is
    rw [cancelled] at is
    have before := tokens.oldCancelled t is
    rw [askedAt,if_neg (old t before)]
    exact before
  case oldCalled =>
    intro t is
    have before := tokens.oldCalled t ((called t).mp is)
    rw [askedAt,if_neg (old t before)]
    exact before
  case once => rw [calls]; exact tokens.once
  case open_ =>
    intro n t is has
    rw [called,cancelled]
    rcases (waiting n).mp is with rfl | was
    · rw [newCb] at has
      cases has
      refine ⟨fun is => old _ (tokens.oldCalled _ is) rfl,?_⟩
      cases is : resv.cancelled resv.tokens with
      | false => rfl
      | true => exact absurd rfl (old _ (tokens.oldCancelled _ is))
    · exact tokens.open_ n t was (cb n was ▸ has)
  case unique =>
    intro n m t isN isM hasN hasM
    rcases (waiting n).mp isN with rfl | wasN <;> rcases (waiting m).mp isM with rfl | wasM
    · rfl
    · rw [newCb] at hasN
      cases hasN
      exact absurd rfl (tokenOld m _ wasM (cb m wasM ▸ hasM))
    · rw [newCb] at hasM
      cases hasM
      exact absurd rfl (tokenOld n _ wasN (cb n wasN ▸ hasN))
    · exact tokens.unique n m t wasN wasM (cb n wasN ▸ hasN) (cb m wasM ▸ hasM)
  case kept =>
    intro t is notCancelled
    rw [askedAt] at is
    rw [cancelled] at notCancelled
    split at is
    · rename_i same
      exact .inr ⟨node,(waiting node).mpr (.inl rfl),by rw [newCb,same]⟩
    · rcases tokens.kept t is notCancelled with was | ⟨n,isN,has⟩
      · exact .inl ((called t).mpr was)
      · exact .inr ⟨n,(waiting n).mpr (.inr isN),(cb n isN).trans has⟩

theorem calledCons {call : Call} (calls : resv'.calls = call :: resv.calls) (t : Nat) :
    resv'.called t ↔ t = call.token ∨ resv.called t := by
  unfold Resolver.called
  rw [calls]
  constructor
  · rintro ⟨other,member,same⟩
    rcases List.mem_cons.mp member with rfl | member
    · exact .inl same.symm
    · exact .inr ⟨other,member,same⟩
  · rintro (same | ⟨other,member,same⟩)
    · exact ⟨call,List.mem_cons_self,same.symm⟩
    · exact ⟨other,List.mem_cons_of_mem call member,same⟩

theorem onceCons (tokens : Tokens role resv) {call : Call}
    (calls : resv'.calls = call :: resv.calls) (new : ¬ resv.called call.token) :
    (resv'.calls.map Call.token).Nodup := by
  rw [calls,List.map_cons]
  refine List.nodup_cons.mpr ⟨fun member => new ?_,tokens.once⟩
  obtain ⟨other,inside,same⟩ := List.mem_map.mp member
  exact ⟨other,inside,same⟩

theorem Tokens.answer (tokens : Tokens role resv)
    (placed : Placed role resv) {key : ResKey} {status : DnsStatus} {pkt : Option Packet}
    (queries : resv'.queries = resv.queries) (deliveries : resv'.deliveries = resv.deliveries)
    (asked : resv'.asked = Function.update resv.asked resv.tokens (some key))
    (cancelled : resv'.cancelled = resv.cancelled) (calls : resv'.calls = ⟨resv.tokens,status,pkt⟩ :: resv.calls)
    (count : resv'.tokens = resv.tokens + 1) : Tokens role resv' := by
  have waiting : ∀ n, Waiting role resv' n ↔ Waiting role resv n := by
    intro n
    unfold Waiting
    rw [deliveries]
  have called := calledCons calls
  have askedAt : ∀ t, resv'.asked t = if t = resv.tokens then some key else resv.asked t := by
    intro t
    rw [asked]
    exact Function.update_apply _ _ _ t
  have old : ∀ t, (resv.asked t).isSome → t ≠ resv.tokens := by
    rintro t is rfl
    exact absurd (tokens.young _ is) (Nat.lt_irrefl _)
  constructor
  case keys =>
    intro n t isUsed has
    rw [queries] at has ⊢
    have before := tokens.keys n t isUsed has
    rw [askedAt,if_neg (old t (by rw [before]; rfl)),before]
  case young =>
    intro t is
    rw [askedAt] at is
    rw [count]
    split at is
    · omega
    · exact Nat.lt_succ_of_lt (tokens.young t is)
  case given =>
    intro n t has
    rw [queries] at has
    rw [count]
    exact Nat.lt_succ_of_lt (tokens.given n t has)
  case held =>
    intro n t has is
    rw [queries] at has
    rw [askedAt,if_neg (Nat.ne_of_lt (tokens.given n t has))] at is
    rw [called,waiting]
    exact (tokens.held n t has is).imp .inr id
  case oldCancelled =>
    intro t is
    rw [cancelled] at is
    have before := tokens.oldCancelled t is
    rw [askedAt,if_neg (old t before)]
    exact before
  case oldCalled =>
    intro t is
    rw [askedAt]
    split
    · rfl
    · rename_i apart
      exact tokens.oldCalled t (((called t).mp is).resolve_left apart)
  case once => exact onceCons tokens calls fun is => old _ (tokens.oldCalled _ is) rfl
  case open_ =>
    intro n t is has
    rw [queries] at has
    have isN := (waiting n).mp is
    obtain ⟨notCalled,notCancelled⟩ := tokens.open_ n t isN has
    have before := tokens.keys n t (isN.used placed) has
    rw [called,cancelled]
    refine ⟨?_,notCancelled⟩
    rintro (same | was)
    · exact old t (by rw [before]; rfl) same
    · exact notCalled was
  case unique =>
    intro n m t isN isM hasN hasM
    rw [queries] at hasN hasM
    exact tokens.unique n m t ((waiting n).mp isN) ((waiting m).mp isM) hasN hasM
  case kept =>
    intro t is notCancelled
    rw [askedAt] at is
    rw [cancelled] at notCancelled
    rw [called]
    split at is
    · rename_i same
      exact .inl (.inl same)
    · rcases tokens.kept t is notCancelled with was | ⟨n,isN,has⟩
      · exact .inl (.inr was)
      · exact .inr ⟨n,(waiting n).mpr isN,by rw [queries,has]⟩

theorem Tokens.call (tokens : Tokens role resv) (placed : Placed role resv)
    {token : Nat} {status : DnsStatus} {pkt : Option Packet} (waits : Waiting role resv node)
    (has : (resv.queries node).cb = some token) (queries : resv'.queries = resv.queries)
    (waiting : ∀ n, Waiting role resv' n ↔ Waiting role resv n ∧ n ≠ node) (asked : resv'.asked = resv.asked)
    (cancelled : resv'.cancelled = resv.cancelled) (calls : resv'.calls = ⟨token,status,pkt⟩ :: resv.calls)
    (count : resv'.tokens = resv.tokens) : Tokens role resv' := by
  have called := calledCons calls
  obtain ⟨notYet,_⟩ := tokens.open_ node token waits has
  have itsKey := tokens.keys node token (waits.used placed) has
  constructor
  case keys => rw [queries,asked]; exact tokens.keys
  case young => rw [asked,count]; exact tokens.young
  case given => rw [queries,count]; exact tokens.given
  case held =>
    intro n t hasT is
    rw [queries] at hasT
    rw [asked] at is
    rw [called,waiting]
    rcases tokens.held n t hasT is with was | waitsN
    · exact .inl (.inr was)
    · by_cases same : n = node
      · rw [same,has] at hasT
        exact .inl (.inl (Option.some.inj hasT).symm)
      · exact .inr ⟨waitsN,same⟩
  case oldCancelled => rw [cancelled,asked]; exact tokens.oldCancelled
  case oldCalled =>
    intro t is
    rw [asked]
    rcases (called t).mp is with rfl | was
    · rw [itsKey]
      rfl
    · exact tokens.oldCalled t was
  case once => exact onceCons tokens calls notYet
  case open_ =>
    intro n t is hasT
    rw [queries] at hasT
    obtain ⟨isN,apart⟩ := (waiting n).mp is
    obtain ⟨notCalled,notCancelled⟩ := tokens.open_ n t isN hasT
    rw [called,cancelled]
    refine ⟨?_,notCancelled⟩
    rintro (rfl | was)
    · exact apart (tokens.unique n node _ isN waits hasT has)
    · exact notCalled was
  case unique =>
    intro n m t isN isM hasN hasM
    rw [queries] at hasN hasM
    exact tokens.unique n m t ((waiting n).mp isN).1 ((waiting m).mp isM).1 hasN hasM
  case kept =>
    intro t is notCancelled
    rw [asked] at is
    rw [cancelled] at notCancelled
    rw [called,queries]
    rcases tokens.kept t is notCancelled with was | ⟨n,isN,hasT⟩
    · exact .inl (.inr was)
    · by_cases same : n = node
      · rw [same,has] at hasT
        cases hasT
        exact .inl (.inl rfl)
      · exact .inr ⟨n,(waiting n).mpr ⟨isN,same⟩,hasT⟩

theorem Tokens.cancel (tokens : Tokens role resv)
    {token : Nat} (has : (resv.queries node).cb = some token) (isAsked : (resv.asked token).isSome)
    (notYet : ¬ resv.called token)
    (others : ∀ n, n ≠ node → resv'.queries n = resv.queries n) (gone : (resv'.queries node).cb = none)
    (keys : ∀ n, (resv'.queries n).key = (resv.queries n).key) (deliveries : resv'.deliveries = resv.deliveries)
    (asked : resv'.asked = resv.asked) (cancelled : resv'.cancelled = Function.update resv.cancelled token true)
    (calls : resv'.calls = resv.calls ∨ resv'.calls = ⟨token,.cancelled,none⟩ :: resv.calls)
    (count : resv'.tokens = resv.tokens) : Tokens role resv' := by
  have waits : Waiting role resv node := (tokens.held node token has isAsked).resolve_left notYet
  have waiting : ∀ n, Waiting role resv' n ↔ Waiting role resv n := by
    intro n
    unfold Waiting
    rw [deliveries]
  have cancelledAt : ∀ t, resv'.cancelled t = if t = token then true else resv.cancelled t := by
    intro t
    rw [cancelled]
    exact Function.update_apply _ _ _ t
  have called : ∀ t, resv'.called t → t = token ∨ resv.called t := by
    intro t is
    rcases calls with calls | calls
    · unfold Resolver.called at is
      rw [calls] at is
      exact .inr is
    · exact (calledCons calls t).mp is
  have stillCalled : ∀ t, resv.called t → resv'.called t := by
    intro t is
    rcases calls with calls | calls
    · unfold Resolver.called
      rw [calls]
      exact is
    · exact (calledCons calls t).mpr (.inr is)
  have had : ∀ n t, (resv'.queries n).cb = some t → n ≠ node ∧ (resv.queries n).cb = some t := by
    intro n t hasT
    have apart : n ≠ node := by
      rintro rfl
      rw [gone] at hasT
      cases hasT
    exact ⟨apart,others n apart ▸ hasT⟩
  constructor
  case keys =>
    intro n t isUsed hasT
    rw [asked,keys]
    exact tokens.keys n t isUsed (had n t hasT).2
  case young => rw [asked,count]; exact tokens.young
  case given =>
    intro n t hasT
    rw [count]
    exact tokens.given n t (had n t hasT).2
  case held =>
    intro n t hasT is
    rw [asked] at is
    rw [waiting]
    exact (tokens.held n t (had n t hasT).2 is).imp (stillCalled t) id
  case oldCancelled =>
    intro t is
    rw [asked]
    rw [cancelledAt] at is
    split at is
    · rename_i same
      rw [same]
      exact isAsked
    · exact tokens.oldCancelled t is
  case oldCalled =>
    intro t is
    rw [asked]
    rcases called t is with rfl | was
    · exact isAsked
    · exact tokens.oldCalled t was
  case once =>
    rcases calls with calls | calls
    · rw [calls]
      exact tokens.once
    · exact onceCons tokens calls notYet
  case open_ =>
    intro n t is hasT
    obtain ⟨apart,hadT⟩ := had n t hasT
    have isN := (waiting n).mp is
    obtain ⟨notCalled,notCancelled⟩ := tokens.open_ n t isN hadT
    have other : t ≠ token := by
      rintro rfl
      exact apart (tokens.unique n node _ isN waits hadT has)
    rw [cancelledAt,if_neg other]
    exact ⟨fun was => notCalled ((called t was).resolve_left other),notCancelled⟩
  case unique =>
    intro n m t isN isM hasN hasM
    exact tokens.unique n m t ((waiting n).mp isN) ((waiting m).mp isM) (had n t hasN).2 (had m t hasM).2
  case kept =>
    intro t is notCancelled
    rw [asked] at is
    rw [cancelledAt] at notCancelled
    split at notCancelled
    · cases notCancelled
    · rename_i other
      rcases tokens.kept t is notCancelled with was | ⟨n,isN,hasT⟩
      · exact .inl (stillCalled t was)
      · have apart : n ≠ node := by
          rintro rfl
          rw [has] at hasT
          exact other (Option.some.inj hasT).symm
        exact .inr ⟨n,(waiting n).mpr isN,by rw [others n apart,hasT]⟩

end Pjproject.Dns
