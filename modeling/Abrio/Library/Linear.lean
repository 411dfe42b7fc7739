import Abrio.Library.Run
import Mathlib.Data.List.Induction

/-!
# Linearizability

An object is given by what an operation may do to its state and return (`effect`). The calls of
a system take effect at single steps, their points, and `history` lists the points of a run. The
system is linearizable when the history is a serial run of the object (`Serial`), which is shown
along the run (`history_induction`). Points come in the order of the steps, so a call that returned
before another began has its point before the other's.
-/

namespace Runs

variable {σ α τ κ ω ρ : Type*}

/-- The point of a call : its operation, with what the call returns. -/
structure Point (κ ω ρ : Type*) where
  call : κ
  op : ω
  result : ρ

/-- Operations one after another, each in the state that the ones before have left. -/
inductive Serial (effect : ω → τ → ρ → τ → Prop) (t₀ : τ) : List (Point κ ω ρ) → τ → Prop
  | nil : Serial effect t₀ [] t₀
  | snoc {ps : List (Point κ ω ρ)} {p : Point κ ω ρ} {t t' : τ} (before : Serial effect t₀ ps t)
      (last : effect p.op t p.result t') : Serial effect t₀ (ps ++ [p]) t'

/-- The points of a run, where `points` lists those of a step. -/
def history (step : σ → α → σ) (points : σ → α → List (Point κ ω ρ)) :
    σ → List α → List (Point κ ω ρ)
  | _, [] => []
  | s, a :: as => points s a ++ history step points (step s a) as

variable {step : σ → α → σ} {points : σ → α → List (Point κ ω ρ)}

theorem history_append (s : σ) (as bs : List α) : history step points s (as ++ bs) =
    history step points s as ++ history step points (run step s as) bs := by
  induction as generalizing s with
  | nil => rfl
  | cons a as ih => simp [history, ih]

/-- A point of a run is one of some step. -/
theorem exists_of_mem_history {s : σ} {as : List α} {p : Point κ ω ρ}
    (h : p ∈ history step points s as) :
    ∃ pre a post, as = pre ++ a :: post ∧ p ∈ points (run step s pre) a := by
  induction as generalizing s with
  | nil => cases h
  | cons a as ih =>
    rcases List.mem_append.1 h with h | h
    · exact ⟨[], a, as, rfl, h⟩
    · obtain ⟨pre, b, post, rfl, hb⟩ := ih h
      exact ⟨a :: pre, b, post, rfl, hb⟩

/-- What each step adds to a state and to the points before it holds after a run. -/
theorem history_induction {P : σ → List (Point κ ω ρ) → Prop}
    (hstep : ∀ s ps a, P s ps → P (step s a) (ps ++ points s a)) {s₀ : σ} (h : P s₀ [])
    (as : List α) : P (run step s₀ as) (history step points s₀ as) := by
  induction as using List.reverseRecOn with
  | nil => exact h
  | append_singleton as a ih =>
    rw [history_append, run_append, run_singleton, history, history, List.append_nil]
    exact hstep _ _ a ih

end Runs
