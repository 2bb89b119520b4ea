import Pjproject.Lib.Bytes

/-! Readers that look at the memory only through what they record: two memories that agree below the reach of a run give
the same run. -/
namespace Pjproject.Lib.Bytes

variable {ε α β : Type}

def Local (f : Memory → Reads ε α) : Prop :=
  ∀ m m' : Memory, (∀ i, i < (f m).reach → m' i = m i) → f m' = f m

theorem constLocal (x : Reads ε α) : Local (fun _ => x) := fun _ _ _ => rfl

theorem bindLocal {f : Memory → Reads ε α} {g : α → Memory → Reads ε β} (first : Local f) (next : ∀ a, Local (g a)) :
    Local (fun m => f m >>= fun a => g a m) := by
  intro m m' same
  dsimp only at same ⊢
  cases found : (f m).result with
  | error =>
    rw [bindError found] at same ⊢
    have here := first m m' same
    rw [here,bindError found]
  | ok a =>
    rw [bindOk found] at same ⊢
    have here := first m m' (fun i low => same i (Nat.lt_of_lt_of_le low (Nat.le_max_left _ _)))
    have rest := next a m m' (fun i low => same i (Nat.lt_of_lt_of_le low (Nat.le_max_right _ _)))
    rw [here,bindOk found,rest]

theorem iteLocal {c : Prop} [Decidable c] {f g : Memory → Reads ε α} (yes : Local f) (no : Local g) :
    Local (fun m => if c then f m else g m) := by
  by_cases holds : c
  · simp only [if_pos holds]
    exact yes
  · simp only [if_neg holds]
    exact no

theorem readByteLocal (pos : Nat) : Local (ε := ε) (fun m => readByte m pos) := by
  intro m m' same
  unfold readByte at *
  dsimp only at same ⊢
  rw [same pos (Nat.lt_succ_self pos)]

theorem read16Local (pos : Nat) : Local (ε := ε) (fun m => read16 m pos) := by
  intro m m' same
  unfold read16 at *
  dsimp only at same ⊢
  rw [same pos (by omega),same (pos + 1) (by omega)]

theorem read32Local (pos : Nat) : Local (ε := ε) (fun m => read32 m pos) := by
  intro m m' same
  unfold read32 at *
  dsimp only at same ⊢
  rw [same pos (by omega),same (pos + 1) (by omega),same (pos + 2) (by omega),same (pos + 3) (by omega)]

theorem readArrayLocal (pos n : Nat) : Local (ε := ε) (fun m => readArray m pos n) := by
  intro m m' same
  unfold readArray at *
  dsimp only at same ⊢
  have bytes : (fun i : Fin n => m' (pos + i)) = fun i : Fin n => m (pos + i) := funext (fun i => same _ (by omega))
  rw [bytes]

theorem wordsCongr {m m' : Memory} {pos n : Nat} (same : ∀ i, i < pos + 2 * n → m' i = m i) :
    words m' pos n = words m pos n := by
  induction n generalizing pos with
  | zero => rfl
  | succ n ih =>
    rw [words,words,same pos (by omega),same (pos + 1) (by omega),ih (fun i low => same i (by omega))]

theorem readSliceLocal (pos n : Nat) : Local (ε := ε) (fun m => readSlice m pos n) := by
  intro m m' same
  unfold readSlice at *
  dsimp only at same ⊢
  have bytes : slice m' pos n = slice m pos n := by
    refine sliceCongr (fun i _ high => same i ?_)
    rw [if_neg (by omega)]
    omega
  rw [bytes]

theorem copiedLocal (pos n : Nat) {f : Memory → Reads ε α}
    (made : ∀ m m', (∀ i, pos ≤ i → i < pos + n → m' i = m i) → (∀ i, i < (f m).reach → m' i = m i) → f m' = f m) :
    Local (fun m => readSlice m pos n >>= fun _ => f m) := by
  intro m m' same
  dsimp only at same ⊢
  rw [readSliceBind] at same
  have bytes : ∀ i, pos ≤ i → i < pos + n → m' i = m i := by
    intro i _ high
    refine same i ?_
    dsimp only
    rw [if_neg (by omega)]
    omega
  have rest := made m m' bytes (fun i low => same i (Nat.lt_of_lt_of_le low (Nat.le_max_right _ _)))
  rw [readSliceBind,readSliceBind,rest]

theorem copiedWordsLocal (pos n : Nat) {f : Memory → Reads ε α}
    (made : ∀ m m', words m' pos n = words m pos n → (∀ i, i < (f m).reach → m' i = m i) → f m' = f m) :
    Local (fun m => readWords m pos n >>= fun _ => f m) := by
  intro m m' same
  dsimp only at same ⊢
  have bound : ∀ g : List UInt16 → Reads ε α, ∀ m : Memory, readWords m pos n >>= g =
      ⟨max (if n = 0 then 0 else pos + 2 * n) (g (words m pos n)).reach,(g (words m pos n)).result⟩ :=
    fun _ _ => rfl
  rw [bound] at same
  have values : words m' pos n = words m pos n := by
    by_cases none : n = 0
    · subst none
      rfl
    · refine wordsCongr (fun i high => same i ?_)
      dsimp only
      rw [if_neg none]
      omega
  have rest := made m m' values (fun i low => same i (Nat.lt_of_lt_of_le low (Nat.le_max_right _ _)))
  rw [bound,bound,rest]

end Pjproject.Lib.Bytes
