import Mathlib

/-! Free lists threaded through a table: the entry of a free index names the next
free index, and the walk ends at an index that is no entry of the table. -/
namespace Pjproject.Lib.FreeList

variable {ι : Type}

inductive Chain (next : ι → ι) (stop : ι) : ι → List ι → Prop where
  | done : Chain next stop stop []
  | link {x l} (inside : x ≠ stop) (tail : Chain next stop (next x) l) : Chain next stop x (x :: l)

theorem Chain.head {next : ι → ι} {stop x l} (chain : Chain next stop x l) (nonempty : l ≠ []) :
    ∃ tail, l = x :: tail ∧ Chain next stop (next x) tail := by
  cases chain with
  | done => contradiction
  | link inside tail => exact ⟨_,rfl,tail⟩

theorem Chain.congr {next other : ι → ι} {stop x l} (chain : Chain next stop x l)
    (same : ∀ y ∈ l, other y = next y) : Chain other stop x l := by
  induction chain with
  | done => exact .done
  | link inside tail ih =>
    refine .link inside ?_
    rw [same _ (by simp)]
    exact ih fun y mem => same y (by simp [mem])

theorem Chain.unique {next : ι → ι} {stop x l m} (left : Chain next stop x l)
    (right : Chain next stop x m) : l = m := by
  induction left generalizing m with
  | done =>
    cases right with
    | done => rfl
    | link inside => exact absurd rfl inside
  | link inside tail ih =>
    cases right with
    | done => exact absurd rfl inside
    | link _ other => rw [ih other]

theorem Chain.push [DecidableEq ι] {next : ι → ι} {stop x l y} (chain : Chain next stop x l)
    (inside : y ≠ stop) (absent : y ∉ l) : Chain (Function.update next y x) stop y (y :: l) := by
  refine .link inside ?_
  rw [Function.update_self]
  refine chain.congr fun z mem => ?_
  have other : z ≠ y := by rintro rfl; exact absent mem
  exact Function.update_of_ne other _ _

theorem Chain.extend {next other : ι → ι} {stop last x l m} (chain : Chain next stop x l)
    (same : ∀ y ∈ l, other y = next y) (outside : last ∉ l) (more : Chain other last stop m) :
    Chain other last x (l ++ m) := by
  induction chain with
  | done => exact more
  | @link x l inside tail ih =>
    refine .link (fun equal => outside (by simp [equal])) ?_
    rw [same x (by simp)]
    exact ih (fun y mem => same y (by simp [mem])) (fun mem => outside (by simp [mem]))

theorem Chain.range (next : Int → Int) (count : Nat) (first : Int)
    (succ : ∀ y, first ≤ y → y < first + count → next y = y + 1) :
    Chain next (first + count) first ((List.range count).map fun i : Nat => first + (i : Int)) := by
  induction count generalizing first with
  | zero => simpa using Chain.done
  | succ count ih =>
    have tail := ih (first + 1) (fun y low high => succ y (by omega) (by omega))
    have start : next first = first + 1 := succ first (by omega) (by omega)
    have last : first + 1 + (count : Int) = first + ((count + 1 : Nat) : Int) := by omega
    have shifted : (List.range (count + 1)).map (fun i : Nat => first + (i : Int)) =
        first :: (List.range count).map fun i : Nat => first + 1 + (i : Int) := by
      rw [List.range_succ_eq_map,List.map_cons,List.map_map]
      refine List.cons_eq_cons.mpr ⟨by omega,List.map_congr_left fun i _ => ?_⟩
      simp only [Function.comp_apply]
      omega
    rw [shifted]
    rw [last] at tail
    exact .link (by omega) (start ▸ tail)

end Pjproject.Lib.FreeList
