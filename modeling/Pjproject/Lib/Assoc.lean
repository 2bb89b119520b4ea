import Mathlib

/-! Association lists that may repeat a key. The first entry of a key is its value; two lists are compared by looking up
the entries of one in the other, and what such a comparison says is told by keys, first values and repeats. -/
namespace Pjproject.Lib.Assoc

variable {κ ν : Type} [BEq κ]

abbrev keys (l : List (κ × ν)) : List κ := l.map Prod.fst

/- Every repeat of a key carries the value of the first one. -/
def Single (l : List (κ × ν)) : Prop := ∀ e ∈ l, l.lookup e.1 = some e.2

/- The same for the keys that another list has too. -/
def SingleIn (r l : List (κ × ν)) : Prop := ∀ e ∈ l, e.1 ∈ keys r → l.lookup e.1 = some e.2

def Agree (l r : List (κ × ν)) : Prop := ∀ k v w, l.lookup k = some v → r.lookup k = some w → v = w

/- Every entry of one list is what the other has under its key. -/
def Covered (l r : List (κ × ν)) : Prop := ∀ e ∈ l, r.lookup e.1 = some e.2

/- The same for the keys that the other list has. -/
def Compatible (l r : List (κ × ν)) : Prop := ∀ e ∈ l, ∀ w, r.lookup e.1 = some w → e.2 = w

theorem Agree.symm {l r : List (κ × ν)} (agree : Agree l r) : Agree r l :=
  fun k v w right left => (agree k w v left right).symm

variable [LawfulBEq κ]

theorem foundMember {l : List (κ × ν)} {k : κ} {v : ν} (found : l.lookup k = some v) : (k, v) ∈ l := by
  obtain ⟨left,right,rfl,_⟩ := List.lookup_eq_some_iff.mp found
  exact List.mem_append_right left List.mem_cons_self

theorem keyFound {l : List (κ × ν)} {k : κ} (key : k ∈ keys l) : ∃ v, l.lookup k = some v := by
  obtain ⟨e,member,rfl⟩ := List.mem_map.mp key
  exact Option.isSome_iff_exists.mp (List.lookup_isSome_iff.mpr ⟨e,member,beq_self_eq_true e.1⟩)

theorem foundKey {l : List (κ × ν)} {k : κ} {v : ν} (found : l.lookup k = some v) : k ∈ keys l :=
  List.mem_map.mpr ⟨(k, v),foundMember found,rfl⟩

theorem coveredIff {l r : List (κ × ν)} : Covered l r ↔ keys l ⊆ keys r ∧ Agree l r ∧ Single l := by
  constructor
  · intro covered
    refine ⟨fun k key => ?_,fun k v w left right => ?_,fun e member => ?_⟩
    · obtain ⟨e,member,rfl⟩ := List.mem_map.mp key
      exact foundKey (covered e member)
    · exact Option.some.inj ((covered (k, v) (foundMember left)).symm.trans right)
    · obtain ⟨v,first⟩ := keyFound (List.mem_map.mpr ⟨e,member,rfl⟩ : e.1 ∈ keys l)
      have same : v = e.2 := Option.some.inj ((covered (e.1, v) (foundMember first)).symm.trans (covered e member))
      rw [first,same]
  · rintro ⟨names,agree,single⟩ e member
    obtain ⟨w,found⟩ := keyFound (names (List.mem_map.mpr ⟨e,member,rfl⟩))
    rw [found,agree e.1 e.2 w (single e member) found]

theorem compatibleIff {l r : List (κ × ν)} : Compatible l r ↔ Agree l r ∧ SingleIn r l := by
  constructor
  · intro compatible
    refine ⟨fun k v w left right => compatible (k, v) (foundMember left) w right,fun e member shared => ?_⟩
    obtain ⟨v,first⟩ := keyFound (List.mem_map.mpr ⟨e,member,rfl⟩ : e.1 ∈ keys l)
    obtain ⟨w,other⟩ := keyFound shared
    have same : v = e.2 :=
      (compatible (e.1, v) (foundMember first) w other).trans (compatible e member w other).symm
    rw [first,same]
  · rintro ⟨agree,single⟩ e member w found
    exact agree e.1 e.2 w (single e member (foundKey found)) found

theorem compatibleSelf {l : List (κ × ν)} : Compatible l l ↔ Single l := by
  rw [compatibleIff]
  constructor
  · exact fun both e member => both.2 e member (List.mem_map.mpr ⟨e,member,rfl⟩)
  · exact fun single => ⟨fun k v w left right => Option.some.inj (left.symm.trans right),fun e member _ => single e member⟩

end Pjproject.Lib.Assoc
