import Mathlib

/-! Sorting by exchanges: each place in turn is exchanged with every later one whose key is smaller. The result is the
list in the order of its keys. -/
namespace Pjproject.Lib.ExchangeSort

variable {α β : Type} [LinearOrder β] (key : α → β)

/- One place against all behind it: what it holds in the end, and what is behind it then. -/
def exchange : α → List α → α × List α
  | first, [] => (first, [])
  | first, next :: rest =>
    if key next < key first then ((exchange next rest).1, first :: (exchange next rest).2)
    else ((exchange first rest).1, next :: (exchange first rest).2)

variable {key}

theorem exchangePerm (first : α) (rest : List α) :
    ((exchange key first rest).1 :: (exchange key first rest).2).Perm (first :: rest) := by
  induction rest generalizing first with
  | nil => exact .refl _
  | cons next rest ih =>
    unfold exchange
    split
    · exact (List.Perm.swap _ _ _).trans ((ih next).cons first)
    · exact ((List.Perm.swap _ _ _).trans ((ih first).cons next)).trans (List.Perm.swap _ _ _)

theorem exchangeLength (first : α) (rest : List α) : (exchange key first rest).2.length = rest.length := by
  have same := (@exchangePerm _ _ _ key first rest).length_eq
  simpa using same

theorem exchangeLeast (first : α) (rest : List α) :
    ∀ other ∈ (exchange key first rest).2, key (exchange key first rest).1 ≤ key other := by
  have least : ∀ other ∈ first :: rest, key (exchange key first rest).1 ≤ key other := by
    induction rest generalizing first with
    | nil => simp [exchange]
    | cons next rest ih =>
      unfold exchange
      split
      · next smaller =>
        obtain ⟨here,later⟩ := List.forall_mem_cons.mp (ih next)
        exact List.forall_mem_cons.mpr ⟨here.trans smaller.le,ih next⟩
      · next atLeast =>
        obtain ⟨here,later⟩ := List.forall_mem_cons.mp (ih first)
        exact List.forall_mem_cons.mpr ⟨here,List.forall_mem_cons.mpr ⟨here.trans (not_lt.mp atLeast),later⟩⟩
  intro other mem
  exact least other ((exchangePerm first rest).mem_iff.mp (List.mem_cons_of_mem _ mem))

variable (key)

def exchangeSort : List α → List α
  | [] => []
  | first :: rest => (exchange key first rest).1 :: exchangeSort (exchange key first rest).2
  termination_by l => l.length
  decreasing_by
    rw [exchangeLength]
    exact Nat.lt_succ_self _

variable {key}

theorem exchangeSortPerm (l : List α) : (exchangeSort key l).Perm l := by
  fun_induction exchangeSort key l with
  | case1 => exact .refl _
  | case2 first rest ih => exact (ih.cons _).trans (exchangePerm first rest)

theorem exchangeSortOrdered (l : List α) : (exchangeSort key l).Pairwise fun a b => key a ≤ key b := by
  fun_induction exchangeSort key l with
  | case1 => exact .nil
  | case2 first rest ih =>
    refine List.pairwise_cons.mpr ⟨?_,ih⟩
    intro other mem
    exact exchangeLeast first rest other ((exchangeSortPerm _).mem_iff.mp mem)

end Pjproject.Lib.ExchangeSort
