import Mathlib

/-! Sorting by selection: each place in turn is exchanged with the place of a greatest key from there on. After as many
rounds as there are places, less one, the keys do not increase. -/
namespace Pjproject.Lib.SelectionSort

variable {α β : Type}

def exchange (list : List α) (i j : Nat) : List α :=
  match list[i]?, list[j]? with
  | some a, some b => (list.set i b).set j a
  | _, _ => list

theorem exchangePerm (list : List α) (i j : Nat) : (exchange list i j).Perm list := by
  unfold exchange
  split
  · next a b left right =>
    obtain ⟨insideI,rfl⟩ := List.getElem?_eq_some_iff.mp left
    obtain ⟨insideJ,rfl⟩ := List.getElem?_eq_some_iff.mp right
    exact List.set_set_perm insideI insideJ
  · exact .refl list

theorem exchangeAt {list : List α} {i j : Nat} (insideI : i < list.length) (insideJ : j < list.length) (k : Nat) :
    (exchange list i j)[k]? = if k = j then list[i]? else if k = i then list[j]? else list[k]? := by
  unfold exchange
  rw [List.getElem?_eq_getElem insideI,List.getElem?_eq_getElem insideJ]
  dsimp only
  by_cases here : k = j
  · subst here
    rw [if_pos rfl,List.getElem?_set_self (by rwa [List.length_set])]
  · rw [if_neg here,List.getElem?_set_ne (Ne.symm here)]
    by_cases there : k = i
    · subst there
      rw [if_pos rfl,List.getElem?_set_self insideI]
    · rw [if_neg there,List.getElem?_set_ne (Ne.symm there)]

theorem exchangeSelf {list : List α} {i : Nat} (inside : i < list.length) : exchange list i i = list := by
  apply List.ext_getElem?
  intro k
  rw [exchangeAt inside inside]
  split
  · next here => rw [here]
  · rfl

variable [LinearOrder β] {key : α → β}

/- The first n places are done: no key behind one of them is greater. -/
def Front (key : α → β) (n : Nat) (list : List α) : Prop :=
  ∀ a b x y, a < n → a < b → list[a]? = some x → list[b]? = some y → key y ≤ key x

theorem frontNone (list : List α) : Front key 0 list := fun _ _ _ _ none => absurd none (Nat.not_lt_zero _)

theorem exchangeBehind {list : List α} {i j : Nat} (insideI : i < list.length) (insideJ : j < list.length)
    (behind : i ≤ j) {k : Nat} {y : α} (from_ : i ≤ k) (here : (exchange list i j)[k]? = some y) :
    ∃ k', i ≤ k' ∧ list[k']? = some y := by
  rw [exchangeAt insideI insideJ] at here
  split at here
  · exact ⟨i,Nat.le_refl i,here⟩
  · split at here
    · exact ⟨j,behind,here⟩
    · exact ⟨k,from_,here⟩

theorem Front.round {list : List α} {i j : Nat} (front : Front key i list) (insideJ : j < list.length)
    (behind : i ≤ j) (greatest : ∀ k y, i ≤ k → list[k]? = some y → key y ≤ key list[j]) :
    Front key (i + 1) (exchange list i j) := by
  have insideI : i < list.length := Nat.lt_of_le_of_lt behind insideJ
  intro a b x y done later left right
  rcases Nat.lt_succ_iff_lt_or_eq.mp done with before | rfl
  · have kept : list[a]? = some x := by
      rw [exchangeAt insideI insideJ,if_neg (by omega),if_neg (by omega)] at left
      exact left
    by_cases early : b < i
    · rw [exchangeAt insideI insideJ,if_neg (by omega),if_neg (by omega)] at right
      exact front a b x y before later kept right
    · obtain ⟨b',from_,there⟩ := exchangeBehind insideI insideJ behind (Nat.not_lt.mp early) right
      exact front a b' x y before (Nat.lt_of_lt_of_le before from_) kept there
  · have chosen : x = list[j] := by
      rw [exchangeAt insideI insideJ] at left
      split at left
      · next same =>
        subst same
        rw [List.getElem?_eq_getElem insideI] at left
        exact (Option.some.inj left).symm
      · rw [if_pos rfl,List.getElem?_eq_getElem insideJ] at left
        exact (Option.some.inj left).symm
    obtain ⟨b',from_,there⟩ := exchangeBehind insideI insideJ behind (Nat.le_of_lt later) right
    rw [chosen]
    exact greatest b' y from_ there

theorem Front.sorted {list : List α} (front : Front key (list.length - 1) list) :
    list.Pairwise (fun x y => key y ≤ key x) := by
  rw [List.pairwise_iff_getElem]
  intro a b insideA insideB later
  exact front a b _ _ (by omega) later (List.getElem?_eq_getElem insideA) (List.getElem?_eq_getElem insideB)

end Pjproject.Lib.SelectionSort
