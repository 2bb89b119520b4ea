import Mathlib

/-! Loops and recursion as a machine whose state has a size. Where a step that does not stall makes the state smaller,
and one that stalls changes nothing, a run ends exactly when it comes to no state that stalls. -/
namespace Pjproject.Lib.Progress

inductive Next (σ ρ : Type) where
  | more (s : σ)
  | done (r : ρ)

variable {σ ρ : Type} {step : σ → Next σ ρ}

def run (step : σ → Next σ ρ) : Nat → Next σ ρ → Next σ ρ
  | 0, x => x
  | _ + 1, .done r => .done r
  | n + 1, .more s => run step n (step s)

def Ends (step : σ → Next σ ρ) (x : Next σ ρ) : Prop := ∃ n r, run step n x = .done r

def Reaches (step : σ → Next σ ρ) (x : Next σ ρ) (s : σ) : Prop := ∃ n, run step n x = .more s

theorem runDone (n : Nat) (r : ρ) : run step n (.done r) = .done r := by
  cases n <;> rfl

theorem reachesKeeps {Inv : σ → Prop} {x : Next σ ρ} (start : ∀ s, x = .more s → Inv s)
    (kept : ∀ s t, Inv s → step s = .more t → Inv t) {s : σ} (reached : Reaches step x s) : Inv s := by
  obtain ⟨n,reached⟩ := reached
  induction n generalizing x with
  | zero => exact start s reached
  | succ n ih =>
    cases x with
    | done => exact nomatch reached
    | more s₀ => exact ih (fun t next => kept s₀ t (start s₀ rfl) next) reached

theorem startReached (s : σ) : Reaches step (.more s) s := ⟨0,rfl⟩

theorem stuckNeverEnds {s : σ} (stuck : step s = .more s) (n : Nat) : run step n (.more s) = .more s := by
  induction n with
  | zero => rfl
  | succ n ih => exact (congrArg (run step n) stuck).trans ih

theorem runAdd (m n : Nat) (x : Next σ ρ) : run step (m + n) x = run step n (run step m x) := by
  induction m generalizing x with
  | zero => rw [Nat.zero_add,run]
  | succ m ih =>
    rw [Nat.add_right_comm]
    cases x with
    | done => rw [runDone,runDone,runDone]
    | more s => exact ih (step s)

theorem stuckBlocks {x : Next σ ρ} {s : σ} (reached : Reaches step x s) (stuck : step s = .more s) : ¬ Ends step x := by
  intro ⟨m,r,ended⟩
  obtain ⟨n,reached⟩ := reached
  have forward : run step (n + m) x = .more s := by rw [runAdd,reached,stuckNeverEnds stuck]
  have back : run step (m + n) x = .done r := by rw [runAdd,ended,runDone]
  rw [Nat.add_comm] at forward
  exact nomatch forward.symm.trans back

theorem dropsEnd {size : σ → Nat} {s : σ}
    (drops : ∀ t u, Reaches step (.more s) t → step t = .more u → size u < size t) :
    ∃ r, run step (size s + 1) (.more s) = .done r := by
  induction bound : size s using Nat.strongRecOn generalizing s with
  | ind n ih =>
    cases next : step s with
    | done r =>
      have first : run step (n + 1) (.more s) = run step n (step s) := rfl
      exact ⟨r,by rw [first,next,runDone]⟩
    | more t =>
      have less : size t < n := bound ▸ drops s t (startReached s) next
      have shifted : ∀ u, Reaches step (.more t) u → Reaches step (.more s) u := by
        intro u ⟨k,reached⟩
        exact ⟨k + 1,(congrArg (run step k) next).trans reached⟩
      obtain ⟨r,ended⟩ := ih (size t) less (fun u v reached => drops u v (shifted u reached)) rfl
      obtain ⟨extra,total⟩ := Nat.exists_eq_add_of_lt less
      have first : run step (n + 1) (.more s) = run step n (step s) := rfl
      have split : n = size t + 1 + extra := by omega
      exact ⟨r,by rw [first,next,split,runAdd,ended,runDone]⟩

end Pjproject.Lib.Progress
