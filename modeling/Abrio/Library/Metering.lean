import Abrio.Library.Run
import Mathlib.Algebra.BigOperators.Group.List.Basic
import Mathlib.Algebra.Group.Pi.Basic
import Mathlib.Algebra.GroupWithZero.Nat
import Mathlib.Data.List.GetD

/-!
# Counters beside a system

A step of a system says what is to be added to which counters. The process that took the step
adds it later, in any order with what the others do, or dies first. `Metered.total` is what has
been added, is still to be added or will never be : a counter never exceeds it
(`Metered.counters_le`) and reaches it when nothing is open or lost (`Metered.counters_eq`). What
holds of the state and the totals along the steps of the system holds in every run
(`Metered.invariant`).
-/

namespace Runs

variable {σ α κ : Type*}

/-- What is added to a counter. -/
structure Increment (κ : Type*) where
  counter : κ
  amount : ℕ
  deriving DecidableEq

section Tally

variable [DecidableEq κ]

/-- What a list of increments adds to each counter. -/
def tally (is : List (Increment κ)) : κ → ℕ :=
  fun c => ((is.filter fun i => i.counter = c).map Increment.amount).sum

@[simp] theorem tally_nil : tally ([] : List (Increment κ)) = 0 :=
  rfl

theorem tally_append (is is' : List (Increment κ)) : tally (is ++ is') = tally is + tally is' := by
  ext c
  simp [tally]

theorem tally_cons (i : Increment κ) (is : List (Increment κ)) :
    tally (i :: is) = tally [i] + tally is :=
  tally_append [i] is

theorem tally_singleton (i : Increment κ) (c : κ) :
    tally [i] c = if i.counter = c then i.amount else 0 := by
  by_cases h : i.counter = c <;> simp [tally, h]

theorem tally_perm {is is' : List (Increment κ)} (h : is.Perm is') : tally is = tally is' := by
  ext c
  exact ((h.filter _).map _).sum_eq

/-- An increment taken out of a list. -/
theorem tally_eraseIdx {is : List (Increment κ)} {n : ℕ} {i : Increment κ} (h : is[n]? = some i) :
    tally is = tally [i] + tally (is.eraseIdx n) := by
  obtain ⟨hn, rfl⟩ := List.getElem?_eq_some_iff.1 h
  rw [← tally_cons]
  exact tally_perm (List.getElem_cons_eraseIdx_perm hn).symm

/-! ## Counting the elements of a list -/

/-- One more of `k`, in the order in which the keys came first. -/
def bump (k : κ) : List (Increment κ) → List (Increment κ)
  | [] => [⟨k, 1⟩]
  | i :: is => if i.counter = k then ⟨k, i.amount + 1⟩ :: is else i :: bump k is

/-- How often each element of a list is in it. -/
def counts (l : List κ) : List (Increment κ) :=
  l.foldl (fun is k => bump k is) []

theorem tally_bump (k : κ) (is : List (Increment κ)) :
    tally (bump k is) = tally is + tally [⟨k, 1⟩] := by
  induction is with
  | nil => simp [bump]
  | cons i is ih =>
    rw [bump]
    split_ifs with h
    · ext c
      rw [tally_cons, tally_cons i]
      simp only [Pi.add_apply, tally_singleton, h]
      split_ifs <;> omega
    · rw [tally_cons, ih, ← add_assoc, ← tally_cons]

theorem tally_counts (l : List κ) (k : κ) : tally (counts l) k = l.count k := by
  have hfold : ∀ (l : List κ) (is : List (Increment κ)),
      tally (l.foldl (fun is k => bump k is) is) k = tally is k + l.count k := by
    intro l
    induction l with
    | nil => simp
    | cons x l ih =>
      intro is
      rw [List.foldl_cons, ih, tally_bump, List.count_cons, Pi.add_apply, tally_singleton]
      simp only [beq_iff_eq]
      omega
  simpa [counts] using hfold l []

end Tally

/-! ## Metered runs -/

/-- A system with its counters. -/
structure Metered (σ κ : Type*) where
  state : σ
  counters : κ → ℕ := 0
  pending : List (Increment κ) := []
  lost : List (Increment κ) := []

/-- A step of the system, an increment made, or one that dies with its process. -/
inductive MeteredAct (α : Type*)
  | act (a : α)
  | count (n : ℕ)
  | lose (n : ℕ)

/-- The step of the system, if it is one. -/
def MeteredAct.act? : MeteredAct α → Option α
  | .act a => some a
  | _ => none

namespace Metered

variable [DecidableEq κ] (step : σ → α → σ) (emit : σ → α → List (Increment κ))

/-- One step. `n` is a place among the increments that are still to be made. -/
def next (m : Metered σ κ) : MeteredAct α → Metered σ κ
  | .act a => { m with state := step m.state a, pending := m.pending ++ emit m.state a }
  | .count n =>
    match m.pending[n]? with
    | none => m
    | some i => { m with counters := m.counters + tally [i], pending := m.pending.eraseIdx n }
  | .lose n =>
    match m.pending[n]? with
    | none => m
    | some i => { m with pending := m.pending.eraseIdx n, lost := i :: m.lost }

/-- What the counters would show had every increment been made. -/
def total (m : Metered σ κ) : κ → ℕ :=
  m.counters + tally m.pending + tally m.lost

theorem counters_le (m : Metered σ κ) (c : κ) : m.counters c ≤ m.total c := by
  simp only [total, Pi.add_apply]
  omega

theorem counters_eq {m : Metered σ κ} (hp : m.pending = []) (hl : m.lost = []) :
    m.counters = m.total := by
  simp [total, hp, hl]

variable {step emit}

theorem state_next (m : Metered σ κ) (a : MeteredAct α) :
    (m.next step emit a).state = (a.act?.map (step m.state)).getD m.state := by
  cases a with
  | act a => rfl
  | _ =>
    simp only [next]
    split <;> rfl

theorem total_next (m : Metered σ κ) (a : MeteredAct α) :
    (m.next step emit a).total =
      m.total + ((a.act?.map fun a => tally (emit m.state a)).getD 0) := by
  cases a with
  | act a =>
    simp only [next, total, tally_append, MeteredAct.act?, Option.map_some, Option.getD_some]
    ext c
    simp only [Pi.add_apply]
    omega
  | count n =>
    cases hn : m.pending[n]? with
    | none => simp [next, hn, MeteredAct.act?]
    | some i =>
      simp only [next, hn, total, tally_eraseIdx hn, MeteredAct.act?, Option.map_none,
        Option.getD_none, add_zero, add_assoc]
  | lose n =>
    cases hn : m.pending[n]? with
    | none => simp [next, hn, MeteredAct.act?]
    | some i =>
      simp only [next, hn, total, tally_eraseIdx hn, tally_cons i m.lost, MeteredAct.act?,
        Option.map_none, Option.getD_none, add_zero]
      ext c
      simp only [Pi.add_apply]
      omega

/-- What the steps preserve of the state and the totals holds after a run. -/
theorem invariant {P : σ → (κ → ℕ) → Prop} {C : α → Prop}
    (hstep : ∀ s a t, C a → P s t → P (step s a) (t + tally (emit s a))) :
    ∀ (as : List (MeteredAct α)) {m : Metered σ κ}, (∀ a ∈ as.filterMap MeteredAct.act?, C a) →
      P m.state m.total → P (run (next step emit) m as).state (run (next step emit) m as).total
  | [], _, _, h => h
  | a :: as, m, hC, h => by
    refine invariant hstep as (m := m.next step emit a) (fun a' ha' => hC a' ?_) ?_
    · rw [List.filterMap_cons]
      split
      · exact ha'
      · exact List.mem_cons_of_mem _ ha'
    · rw [state_next, total_next]
      cases ha : a.act? with
      | none => exact h
      | some a' => exact hstep _ a' _ (hC a' (by simp [ha])) h

/-- The system behind the counters takes its own steps. -/
theorem state_run (as : List (MeteredAct α)) (m : Metered σ κ) :
    (run (next step emit) m as).state = run step m.state (as.filterMap MeteredAct.act?) := by
  induction as generalizing m with
  | nil => rfl
  | cons a as ih =>
    refine (ih (m.next step emit a)).trans ?_
    rw [state_next, List.filterMap_cons]
    cases a.act? <;> rfl

end Metered

end Runs
