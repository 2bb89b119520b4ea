import Pjproject.Lib.BoundedPrint

/-! Printing where what is left is asked for before a text is written. What is left sinks by what is written; a step may ask for
more than it writes, and what is printed behind it can make up for that. -/
namespace Pjproject.Lib.BoundedPrint

/- What is left, as a step counts it from the place to write at. -/
def Counted (left : Cursor → Int) : Prop :=
  ∀ p (bytes : List UInt8), bytes.length ≤ left p → left (p.put bytes) = left p - bytes.length

def checked (left : Cursor → Int) (need : Int) (bytes : List UInt8) : Step := fun p =>
  if left p < need then .error p else .ok (p.put bytes)

/- How a text is written: with the slack left behind it for certain, never without the tight, and else the first of it. -/
structure Writes (left : Int) (p : Cursor) (r : Except Cursor Cursor) (bytes : List UInt8) (tight slack : Nat) : Prop where
  goes : bytes.length + slack ≤ left → r = .ok (p.put bytes)
  within : (r = .ok (p.put bytes) ∧ bytes.length + tight ≤ left) ∨
    ∃ front : List UInt8, r = .error (p.put front) ∧ front.length ≤ left.toNat

variable {left : Cursor → Int} {p : Cursor} {f g : Step} {first second bytes : List UInt8}

theorem checkedWrites (left : Cursor → Int) {need : Int} {extra : Nat} (needs : need = bytes.length + extra) (p : Cursor) :
    Writes (left p) p (checked left need bytes p) bytes extra extra := by
  unfold checked
  by_cases short : left p < need
  · rw [if_pos short]
    exact ⟨fun room => by omega,.inr ⟨[],rfl,Nat.zero_le _⟩⟩
  · rw [if_neg short]
    exact ⟨fun _ => rfl,.inl ⟨rfl,by omega⟩⟩

theorem skipWrites {n : Int} (room : 0 ≤ n) (p : Cursor) : Writes n p (.ok p) [] 0 0 :=
  ⟨fun _ => rfl,.inl ⟨rfl,by rw [List.length_nil]; omega⟩⟩

theorem Writes.mono {n : Int} {r : Except Cursor Cursor} {t s t' s' : Nat} (writes : Writes n p r bytes t s) (less : t' ≤ t)
    (more : s ≤ s') : Writes n p r bytes t' s' := by
  refine ⟨fun room => writes.goes (by omega),?_⟩
  rcases writes.within with ⟨goes,room⟩ | stops
  · exact .inl ⟨goes,by omega⟩
  · exact .inr stops

theorem Writes.seq {t s t' s' u v : Nat} (counted : Counted left) (before : Writes (left p) p (f p) first t s)
    (after : 0 ≤ left (p.put first) → Writes (left (p.put first)) (p.put first) (g (p.put first)) second t' s')
    (needs : u ≤ t' ∨ u + second.length ≤ t) (enough : s' ≤ v) (slack : s ≤ second.length + v) :
    Writes (left p) p ((f p).bind g) (first ++ second) u v := by
  have length : (first ++ second).length = first.length + second.length := List.length_append
  constructor
  · intro room
    rw [before.goes (by omega)]
    have rest := counted p first (by omega)
    rw [putAppend]
    exact (after (by omega)).goes (by omega)
  · rcases before.within with ⟨goes,room⟩ | ⟨front,stops,fits⟩
    · rw [goes]
      have rest := counted p first (by omega)
      rcases (after (by omega)).within with ⟨goes',room'⟩ | ⟨front,stops,fits⟩
      · refine .inl ⟨?_,by omega⟩
        rw [putAppend]
        exact goes'
      · refine .inr ⟨first ++ front,?_,?_⟩
        · rw [putAppend]
          exact stops
        · rw [List.length_append]
          omega
    · refine .inr ⟨front,?_,fits⟩
      rw [stops]
      rfl

theorem Writes.returned {n : Int} {t s : Nat} (writes : Writes n p (f p) bytes t s) (bounded : n < 2 ^ 31) :
    Writes n p (returned f p) bytes t s := by
  have counted : f p = .ok (p.put bytes) → bytes.length ≤ n → BoundedPrint.returned f p = .ok (p.put bytes) := by
    intro goes fits
    have length : toInt ((p.put bytes).place - p.place) = bytes.length := by
      rw [putPlace,add_sub_cancel_left]
      exact toIntSmall (by omega)
    unfold BoundedPrint.returned
    rw [goes]
    change (if toInt ((p.put bytes).place - p.place) < 0 then _ else _) = _
    rw [length,if_neg (by omega),← putPlace]
  refine ⟨fun room => counted (writes.goes room) (by omega),?_⟩
  rcases writes.within with ⟨goes,room⟩ | ⟨front,stops,fits⟩
  · exact .inl ⟨counted goes (by omega),room⟩
  · refine .inr ⟨front,?_,fits⟩
    unfold BoundedPrint.returned
    rw [stops]
    rfl

end Pjproject.Lib.BoundedPrint
