import Mathlib

/-! Lists whose entries have distinct keys: an entry is replaced or erased by its key, and what is counted changes by
that entry alone. -/
namespace Pjproject.Lib.Keyed

variable {α κ : Type} [DecidableEq κ] {key : α → κ}

theorem replaceKeys (list : List α) (b : α) :
    (list.map (fun c => if key c = key b then b else c)).map key = list.map key := by
  rw [List.map_map]
  refine List.map_congr_left (fun c _ => ?_)
  change key (if key c = key b then b else c) = key c
  split
  · rename_i same
    exact same.symm
  · rfl

theorem memReplace {list : List α} {b c : α} (member : c ∈ list.map (fun c => if key c = key b then b else c)) :
    c = b ∨ c ∈ list := by
  obtain ⟨a,inside,isC⟩ := List.mem_map.mp member
  split at isC
  · exact Or.inl isC.symm
  · exact Or.inr (isC ▸ inside)

omit [DecidableEq κ] in
theorem eraseKeys {list : List α} (keys : (list.map key).Nodup) (p : α → Bool) : ((list.filter p).map key).Nodup :=
  List.Sublist.nodup ((List.filter_sublist).map _) keys

end Pjproject.Lib.Keyed
