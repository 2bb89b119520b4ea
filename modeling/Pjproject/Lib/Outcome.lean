import Pjproject.Lib.Progress

/-! What a machine yields in the end. A run that is known up to a state yields what that state yields; what holds of the result and
goes back over every step holds of every state that yields the result. -/
namespace Pjproject.Lib.Outcome
open Progress

variable {σ ρ : Type} {step : σ → Next σ ρ} {x y z : Next σ ρ} {s : σ} {r r' : ρ}

def Yields (step : σ → Next σ ρ) (x : Next σ ρ) (r : ρ) : Prop := ∃ n, run step n x = .done r

def Goes (step : σ → Next σ ρ) (x y : Next σ ρ) : Prop := ∃ n, run step n x = y

theorem goesSelf (x : Next σ ρ) : Goes step x x := ⟨0,rfl⟩

theorem goesStep (s : σ) : Goes step (.more s) (step s) := ⟨1,rfl⟩

theorem Goes.then (first : Goes step x y) (second : Goes step y z) : Goes step x z := by
  obtain ⟨m,first⟩ := first
  obtain ⟨n,second⟩ := second
  exact ⟨m + n,by rw [runAdd,first,second]⟩

theorem goesOn (next : step s = y) (rest : Goes step y z) : Goes step (.more s) z := by
  subst next
  exact (goesStep s).then rest

theorem yieldsDone : Yields step (.done r') r ↔ r' = r := by
  constructor
  · rintro ⟨n,ended⟩
    rw [runDone] at ended
    exact Next.done.inj ended
  · rintro rfl
    exact ⟨0,rfl⟩

theorem yieldsOnce (first : Yields step x r) (second : Yields step x r') : r = r' := by
  obtain ⟨m,first⟩ := first
  obtain ⟨n,second⟩ := second
  have one : run step (m + n) x = .done r := by rw [runAdd,first,runDone]
  have other : run step (n + m) x = .done r' := by rw [runAdd,second,runDone]
  rw [Nat.add_comm n m,one] at other
  exact Next.done.inj other

theorem goesYields (goes : Goes step x y) : Yields step x r ↔ Yields step y r := by
  obtain ⟨m,goes⟩ := goes
  constructor
  · rintro ⟨n,ended⟩
    refine ⟨n,?_⟩
    rw [← goes,← runAdd,Nat.add_comm,runAdd,ended,runDone]
  · rintro ⟨n,ended⟩
    exact ⟨m + n,by rw [runAdd,goes,ended]⟩

theorem yieldsStep : Yields step (.more s) r ↔ Yields step (step s) r := goesYields (goesStep s)

theorem yieldsBack {P : Next σ ρ → Prop} (ends : P (.done r)) (back : ∀ s, Yields step (step s) r → P (step s) → P (.more s))
    (yields : Yields step x r) : P x := by
  obtain ⟨n,ended⟩ := yields
  induction n generalizing x with
  | zero =>
    have same : x = .done r := ended
    exact same ▸ ends
  | succ n ih =>
    cases x with
    | done =>
      rw [runDone] at ended
      exact Next.done.inj ended ▸ ends
    | more s => exact back s ⟨n,ended⟩ (ih ended)

end Pjproject.Lib.Outcome
