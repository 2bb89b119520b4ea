import Mathlib

/-! Singly linked lists in a memory, walked with a pointer to the pointer that leads to the cell at hand: the head, or
the link of the cell in front. Writing through that pointer replaces the rest of the list. -/
namespace Pjproject.Lib.LinkedList

variable {α β : Type} (next : β → Option α)

inductive Linked (mem : α → Option β) : Option α → List α → Prop where
  | done : Linked mem none []
  | cell {a b l} (held : mem a = some b) (tail : Linked mem (next b) l) : Linked mem (some a) (a :: l)

/- From a pointer, and the place it was read from, to the first cell that passes a test. A place is none for the head and
some a for the link of a. -/
def scan (mem : α → Option β) (test : β → Bool) : Nat → Option α → Option α → Option (Option α × Option α)
  | _, place, none => some (place, none)
  | 0, _, some _ => none
  | fuel + 1, place, some a =>
    match mem a with
    | none => none
    | some b => if test b then some (place, some a) else scan mem test fuel (some a) (next b)

def placeAfter : Option α → List α → Option α
  | place, [] => place
  | _, a :: rest => placeAfter (some a) rest

theorem placeAfterCons (place : Option α) (a : α) (rest : List α) : ∃ b ∈ a :: rest, placeAfter place (a :: rest) = some b := by
  induction rest generalizing place a with
  | nil => exact ⟨a,List.mem_cons_self,rfl⟩
  | cons c rest ih =>
    obtain ⟨b,member,last⟩ := ih (some a) c
    exact ⟨b,List.mem_cons_of_mem a member,last⟩

variable {l left right : List α} {mem : α → Option β} {p : Option α} {a : α}

theorem placeAfterMember {b : α} (place : placeAfter none l = some b) : b ∈ l := by
  cases l with
  | nil => cases place
  | cons a rest =>
    obtain ⟨c,member,last⟩ := placeAfterCons none a rest
    cases last.symm.trans place
    exact member

def readAt (mem : α → Option β) (p : Option α) : Option α → Option (Option α)
  | none => some p
  | some a => (mem a).map next

variable {next}

theorem Linked.congrNext {other : α → Option β} (linked : Linked next mem p l)
    (same : ∀ a ∈ l, (other a).map next = (mem a).map next) : Linked next other p l := by
  induction linked with
  | done => exact .done
  | @cell a b l held tail ih =>
    have here := same a List.mem_cons_self
    rw [held,Option.map_some,Option.map_eq_some_iff] at here
    obtain ⟨c,there,alike⟩ := here
    refine .cell there (alike ▸ ih fun d member => same d (List.mem_cons_of_mem a member))

theorem Linked.congr {other : α → Option β} (linked : Linked next mem p l)
    (same : ∀ a ∈ l, other a = mem a) : Linked next other p l :=
  linked.congrNext fun a member => congrArg (Option.map next) (same a member)

theorem Linked.held (linked : Linked next mem p l) (member : a ∈ l) : ∃ b, mem a = some b := by
  induction linked with
  | done => cases member
  | @cell c b l held tail ih =>
    rcases List.mem_cons.mp member with rfl | later
    · exact ⟨b,held⟩
    · exact ih later

theorem Linked.behind {b : β}
    (linked : Linked next mem p (left ++ a :: right)) (held : mem a = some b) : Linked next mem (next b) right := by
  induction left generalizing p with
  | nil =>
    cases linked with
    | cell there tail =>
      cases held.symm.trans there
      exact tail
  | cons c left ih =>
    cases linked with
    | cell _ tail => exact ih tail

theorem Linked.readAfter (linked : Linked next mem p (left ++ right)) :
    ∃ q, readAt next mem p (placeAfter none left) = some q ∧ Linked next mem q right := by
  induction left generalizing p with
  | nil => exact ⟨p,rfl,linked⟩
  | cons a left ih =>
    cases linked with
    | @cell _ b _ held tail =>
      cases left with
      | nil => exact ⟨next b,congrArg (Option.map next) held,tail⟩
      | cons c left =>
        obtain ⟨q,read,rest⟩ := ih tail
        refine ⟨q,?_,rest⟩
        obtain ⟨last,_,place⟩ := placeAfterCons (some a) c left
        have placed : placeAfter none (c :: left) = some last := place
        have whole : placeAfter none (a :: c :: left) = some last := place
        rw [placed] at read
        rw [whole]
        exact read

theorem scanMiss {test : β → Bool} (linked : Linked next mem p l)
    (fails : ∀ a ∈ l, ∀ b, mem a = some b → test b = false) {fuel : Nat} (enough : l.length ≤ fuel) (place : Option α) :
    scan next mem test fuel place p = some (placeAfter place l, none) := by
  induction linked generalizing fuel place with
  | done => cases fuel <;> rfl
  | @cell a b l held tail ih =>
    obtain ⟨fuel,rfl⟩ : ∃ n, fuel = n + 1 := ⟨fuel - 1,by simp at enough; omega⟩
    simp only [scan,held,fails a List.mem_cons_self b held,Bool.false_eq_true,if_false]
    exact ih (fun c later => fails c (List.mem_cons_of_mem a later)) (Nat.le_of_succ_le_succ enough) (some a)

theorem scanHit {test : β → Bool} {b : β}
    (linked : Linked next mem p (left ++ a :: right)) (fails : ∀ c ∈ left, ∀ d, mem c = some d → test d = false)
    (held : mem a = some b) (passes : test b = true) {fuel : Nat} (enough : (left ++ a :: right).length ≤ fuel)
    (place : Option α) : scan next mem test fuel place p = some (placeAfter place left, some a) := by
  induction left generalizing p fuel place with
  | nil =>
    cases linked with
    | cell =>
      obtain ⟨fuel,rfl⟩ : ∃ n, fuel = n + 1 := ⟨fuel - 1,by simp at enough; omega⟩
      simp only [scan,held,passes,if_true]
      rfl
  | cons c left ih =>
    cases linked with
    | @cell _ d _ there tail =>
      obtain ⟨fuel,rfl⟩ : ∃ n, fuel = n + 1 := ⟨fuel - 1,by simp at enough; omega⟩
      simp only [scan,there,fails c List.mem_cons_self d there,Bool.false_eq_true,if_false]
      exact ih tail (fun e later => fails e (List.mem_cons_of_mem c later)) (Nat.le_of_succ_le_succ enough) (some c)

section Writing

variable [DecidableEq α] (link : Option α → β → β)

def relink (place q : Option α) (mem : α → Option β) : α → Option β :=
  match place with
  | none => mem
  | some a => Function.update mem a ((mem a).map (link q))

def rehead (place q p : Option α) : Option α :=
  match place with
  | none => q
  | some _ => p

theorem relinkOther {place q : Option α} {mem : α → Option β} {a : α} (other : place ≠ some a) :
    relink link place q mem a = mem a := by
  cases place with
  | none => rfl
  | some => exact Function.update_of_ne (fun same => other (congrArg some same.symm)) _ _

theorem relinkMap {γ : Type} {f : β → γ} (same : ∀ q b, f (link q b) = f b) (place q : Option α) (mem : α → Option β)
    (a : α) : (relink link place q mem a).map f = (mem a).map f := by
  by_cases here : place = some a
  · subst here
    rw [relink,Function.update_self,Option.map_map]
    exact congrArg (fun g => (mem a).map g) (funext fun b => same q b)
  · rw [relinkOther link here]

variable {link}

theorem Linked.splice (sets : ∀ q b, next (link q b) = q) {mem : α → Option β} {p q : Option α}
    {left right right' : List α} (linked : Linked next mem p (left ++ right)) (tail : Linked next mem q right')
    (distinct : (left ++ right').Nodup) :
    Linked next (relink link (placeAfter none left) q mem) (rehead (placeAfter none left) q p) (left ++ right') := by
  induction left generalizing p with
  | nil => exact tail
  | cons a left ih =>
    obtain ⟨apart,rest⟩ := List.nodup_cons.mp distinct
    cases linked with
    | @cell _ b _ held behind =>
      cases left with
      | nil =>
        refine .cell (b := link q b) ?_ ?_
        · exact (Function.update_self a _ mem).trans (by rw [held]; rfl)
        · rw [sets]
          refine tail.congr fun c member => Function.update_of_ne ?_ _ _
          rintro rfl
          exact apart member
      | cons c left =>
        obtain ⟨last,member,place⟩ := placeAfterCons (some a) c left
        have inner := ih behind rest
        have placed : placeAfter none (c :: left) = some last := place
        have whole : placeAfter none (a :: c :: left) = some last := place
        rw [placed] at inner
        rw [whole]
        refine .cell ((relinkOther link ?_).trans held) inner
        intro same
        cases same
        exact apart (List.mem_append_left right' member)

end Writing

end Pjproject.Lib.LinkedList
