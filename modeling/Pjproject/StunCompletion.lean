import Pjproject.StunSession
import Pjproject.Lib.Keyed

/-! How often a request is reported. A request has at most one transaction that can still report, its own or that of
the request that replaced it after a challenge; together with the reports made this is one for every request. -/
namespace Pjproject.Stun
open Lib.Keyed

/- The transaction can still call on_complete. -/
def Pending.live (p : Pending) : Bool := !p.tsx.complete && p.tsx.onComplete

def Pending.counts (o : Nat) (p : Pending) : Bool := p.live && p.origin == o

def Session.weight (sess : Session) (o : Nat) : Nat := sess.completed.count o + sess.pending.countP (Pending.counts o)

structure Listed (sess : Session) : Prop where
  ids : (sess.pending.map (fun p => p.id)).Nodup
  below : ∀ p ∈ sess.pending, p.id < sess.created ∧ p.origin < sess.created
  requests : ∀ p ∈ sess.pending, isRequest p.msg.hdr.type = true
  stopped : ∀ p ∈ sess.pending, p.tsx.destroyTimer = true → p.tsx.onComplete = false
  halted : sess.isDestroying = true → ∀ p ∈ sess.pending, p.tsx.timer = false

structure Balanced (sess : Session) : Prop where
  fresh : ∀ o, sess.created ≤ o → sess.weight o = 0
  once : ∀ o, sess.weight o ≤ 1
  owed : ∀ o ∈ sess.accepted, o ∉ sess.silenced → sess.weight o = 1

variable {sess out : Session} {p : Pending}

theorem Balanced.same (balanced : Balanced sess) (weight : ∀ o, out.weight o = sess.weight o)
    (created : sess.created ≤ out.created) (accepted : out.accepted = sess.accepted)
    (silenced : out.silenced = sess.silenced) : Balanced out := by
  refine ⟨?_,?_,?_⟩
  · intro o high
    rw [weight]
    exact balanced.fresh o (Nat.le_trans created high)
  · intro o
    rw [weight]
    exact balanced.once o
  · intro o member kept
    rw [accepted] at member
    rw [silenced] at kept
    rw [weight]
    exact balanced.owed o member kept

theorem Listed.replace (listed : Listed sess) (member : p ∈ sess.pending) (q : Pending)
    (id : q.id = p.id) (origin : q.origin = p.origin) (msg : q.msg = p.msg)
    (stopped : q.tsx.destroyTimer = true → q.tsx.onComplete = false)
    (halted : sess.isDestroying = true → q.tsx.timer = false) : Listed (sess.replace q) := by
  refine ⟨?_,?_,?_,?_,?_⟩
  · have same : (sess.replace q).pending.map (fun p => p.id) = sess.pending.map (fun p => p.id) :=
      replaceKeys sess.pending q
    rw [same]
    exact listed.ids
  · intro r inside
    rcases memReplace inside with rfl | old
    · rw [id,origin]
      exact listed.below p member
    · exact listed.below r old
  · intro r inside
    rcases memReplace inside with rfl | old
    · rw [msg]
      exact listed.requests p member
    · exact listed.requests r old
  · intro r inside
    rcases memReplace inside with rfl | old
    · exact stopped
    · exact listed.stopped r old
  · intro destroying r inside
    rcases memReplace inside with rfl | old
    · exact halted destroying
    · exact listed.halted destroying r old

theorem Listed.erase (listed : Listed sess) (id : Nat) : Listed (sess.erase id) := by
  have inside : ∀ r, r ∈ (sess.erase id).pending → r ∈ sess.pending := fun r h => List.mem_of_mem_filter h
  refine ⟨?_,?_,?_,?_,?_⟩
  · exact eraseKeys listed.ids _
  · exact fun r h => listed.below r (inside r h)
  · exact fun r h => listed.requests r (inside r h)
  · exact fun r h => listed.stopped r (inside r h)
  · exact fun destroying r h => listed.halted destroying r (inside r h)

/- What an operation of a transaction reports. -/
structure Calls (tsx : ClientTsx) (called : Option TsxStatus) (out : ClientTsx) : Prop where
  onComplete : out.onComplete = tsx.onComplete
  destroyTimer : out.destroyTimer = tsx.destroyTimer
  quiet : called = none → (!out.complete && out.onComplete) = (!tsx.complete && tsx.onComplete)
  reports : called ≠ none → tsx.complete = false ∧ tsx.onComplete = true ∧ out.complete = true

variable (tsx : ClientTsx) (lib : Library)

/- What a session keeps while messages are sent. -/
structure SameBooks (sess out : Session) : Prop where
  isDestroying : out.isDestroying = sess.isDestroying
  accepted : out.accepted = sess.accepted
  silenced : out.silenced = sess.silenced
  completed : out.completed = sess.completed

/- A request is sent and waits for its response. -/
structure Enlisted (sess out : Session) (id origin : Nat) : Prop where
  books : SameBooks sess out
  alive : sess.isDestroying = false
  created : out.created = sess.created + 1
  pending : ∃ p : Pending, out.pending = p :: sess.pending ∧ p.id = id ∧ p.origin = origin ∧
    isRequest p.msg.hdr.type = true ∧ p.live = true ∧ p.tsx.destroyTimer = false

def Attempt.sends (attempt : Attempt) : Bool :=
  attempt.encoded && attempt.transport.scheduled && attempt.transport.sending = .sent

theorem liveCounts (live : p.live = true) (o : Nat) : p.counts o = (p.origin == o) := by
  unfold Pending.counts
  rw [live,Bool.true_and]

theorem Listed.enlist (listed : Listed sess) {origin : Nat}
    (enlisted : Enlisted sess out sess.created origin) (old : origin ≤ sess.created) : Listed out := by
  obtain ⟨books,alive,created,p,pending,id,isOrigin,request,_,destroyTimer⟩ := enlisted
  refine ⟨?_,?_,?_,?_,?_⟩
  · rw [pending,List.map_cons,List.nodup_cons]
    refine ⟨?_,listed.ids⟩
    intro inside
    obtain ⟨q,member,same⟩ := List.mem_map.mp inside
    have low := (listed.below q member).1
    rw [same,id] at low
    exact Nat.lt_irrefl _ low
  · intro q member
    rw [pending] at member
    rw [created]
    rcases List.mem_cons.mp member with rfl | inside
    · rw [id,isOrigin]
      exact ⟨Nat.lt_succ_self _,Nat.lt_succ_of_le old⟩
    · have low := listed.below q inside
      exact ⟨Nat.lt_succ_of_lt low.1,Nat.lt_succ_of_lt low.2⟩
  · intro q member
    rw [pending] at member
    rcases List.mem_cons.mp member with rfl | inside
    · exact request
    · exact listed.requests q inside
  · intro q member stops
    rw [pending] at member
    rcases List.mem_cons.mp member with rfl | inside
    · rw [destroyTimer] at stops
      contradiction
    · exact listed.stopped q inside stops
  · intro destroying
    rw [books.isDestroying,alive] at destroying
    contradiction

theorem enlistedWeight {id origin : Nat} (enlisted : Enlisted sess out id origin) (o : Nat) :
    out.weight o = sess.weight o + if origin == o then 1 else 0 := by
  obtain ⟨books,_,_,p,pending,_,isOrigin,_,live,_⟩ := enlisted
  unfold Session.weight
  rw [books.completed,pending,List.countP_cons,liveCounts live,isOrigin]
  omega

theorem Balanced.enlist (balanced : Balanced sess)
    (enlisted : Enlisted sess out sess.created sess.created) : Balanced out ∧ out.weight sess.created = 1 := by
  have weight := enlistedWeight enlisted
  have none := balanced.fresh sess.created (Nat.le_refl _)
  have new : out.weight sess.created = 1 := by
    rw [weight,none]
    simp
  have other : ∀ o, o ≠ sess.created → out.weight o = sess.weight o := by
    intro o different
    rw [weight,if_neg (by simpa using different.symm)]
    rfl
  refine ⟨⟨?_,?_,?_⟩,new⟩
  · intro o high
    rw [enlisted.created] at high
    rw [other o (Nat.ne_of_gt high)]
    exact balanced.fresh o (Nat.le_of_succ_le high)
  · intro o
    by_cases same : o = sess.created
    · rw [same,new]
    · rw [other o same]
      exact balanced.once o
  · intro o member kept
    rw [enlisted.books.accepted] at member
    rw [enlisted.books.silenced] at kept
    have one := balanced.owed o member kept
    by_cases same : o = sess.created
    · rw [same,none] at one
      contradiction
    · rw [other o same]
      exact one

end Pjproject.Stun
