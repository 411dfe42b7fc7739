import Mathlib.Data.List.Basic
import Mathlib.Order.Basic

/-!
# Runs of a transition function

A run folds a step function over a list of actions. An invariant preserved by every
step holds after every run (`run_induction`); a condition asked of every step of one
run is `AllSteps`, and an invariant preserved by the steps that meet it holds along
that run (`AllSteps.invariant`). `Reaches` says that some such run leads from one state to
another, and a variant that falls on the way shows that it does (`Reaches.of_variant`).
`bind_eq_ok` peels one computation off a sequence that succeeded.
-/

namespace Runs

variable {σ α : Type*} (step : σ → α → σ)

/-- The state after the actions `as`, taken in order from `s`. -/
def run (s : σ) (as : List α) : σ :=
  as.foldl step s

@[simp] theorem run_nil (s : σ) : run step s [] = s :=
  rfl

@[simp] theorem run_cons (s : σ) (a : α) (as : List α) :
    run step s (a :: as) = run step (step s a) as :=
  rfl

theorem run_append (s : σ) (as bs : List α) :
    run step s (as ++ bs) = run step (run step s as) bs :=
  List.foldl_append

theorem run_singleton (s : σ) (a : α) : run step s [a] = step s a :=
  rfl

/-- What holds at the start and is preserved by every step holds after every run. -/
theorem run_induction {step : σ → α → σ} {P : σ → Prop} (hstep : ∀ s a, P s → P (step s a)) :
    ∀ (as : List α) {s : σ}, P s → P (run step s as)
  | [], _, h => h
  | a :: as, _, h => run_induction hstep as (hstep _ a h)

/-- Every step of the run of `as` from `s` meets `C` at the state it is taken in. -/
def AllSteps (C : σ → α → Prop) : σ → List α → Prop
  | _, [] => True
  | s, a :: as => C s a ∧ AllSteps C (step s a) as

namespace AllSteps

variable {step} {C : σ → α → Prop}

instance decidable [h : ∀ s a, Decidable (C s a)] : ∀ s as, Decidable (AllSteps step C s as)
  | _, [] => .isTrue trivial
  | s, a :: as => @instDecidableAnd _ _ (h s a) (decidable (step s a) as)

theorem append {s : σ} {as bs : List α} :
    AllSteps step C s (as ++ bs) ↔ AllSteps step C s as ∧ AllSteps step C (run step s as) bs := by
  induction as generalizing s with
  | nil => simp [AllSteps]
  | cons a as ih => simp [AllSteps, ih, and_assoc]

/-- What holds at the start and is preserved by the steps that meet `C` holds after a
run all of whose steps meet `C`. -/
theorem invariant {P : σ → Prop} (hstep : ∀ s a, C s a → P s → P (step s a)) :
    ∀ (as : List α) {s : σ}, AllSteps step C s as → P s → P (run step s as)
  | [], _, _, h => h
  | _ :: as, _, hC, h => invariant hstep as hC.2 (hstep _ _ hC.1 h)

/-- Steps that meet `C` meet whatever follows from `C` and an invariant of theirs. -/
theorem imp_of_invariant {D : σ → α → Prop} {P : σ → Prop}
    (hstep : ∀ s a, C s a → P s → P (step s a)) (hD : ∀ s a, C s a → P s → D s a) :
    ∀ (as : List α) {s : σ}, AllSteps step C s as → P s → AllSteps step D s as
  | [], _, _, _ => trivial
  | _ :: as, _, hC, h =>
    ⟨hD _ _ hC.1 h, imp_of_invariant hstep hD as hC.2 (hstep _ _ hC.1 h)⟩

theorem and {D : σ → α → Prop} {s : σ} {as : List α} (hC : AllSteps step C s as)
    (hD : AllSteps step D s as) : AllSteps step (fun s a => C s a ∧ D s a) s as := by
  induction as generalizing s with
  | nil => trivial
  | cons a as ih => exact ⟨⟨hC.1, hD.1⟩, ih hC.2 hD.2⟩

/-- Two conditions that agree at every step of a run are met by it together. -/
theorem congr {D : σ → α → Prop} {s : σ} {as : List α}
    (h : AllSteps step (fun s a => C s a ↔ D s a) s as) :
    AllSteps step C s as ↔ AllSteps step D s as := by
  induction as generalizing s with
  | nil => exact Iff.rfl
  | cons a as ih => exact and_congr h.1 (ih h.2)

theorem of_forall (h : ∀ s a, C s a) : ∀ (as : List α) {s : σ}, AllSteps step C s as
  | [], _ => trivial
  | _ :: as, _ => ⟨h _ _, of_forall h as⟩

end AllSteps

/-- Some run from `s` whose steps meet `C` ends in `t`. -/
def Reaches (C : σ → α → Prop) (s t : σ) : Prop :=
  ∃ as, AllSteps step C s as ∧ run step s as = t

namespace Reaches

variable {step} {C : σ → α → Prop} {s t u : σ}

theorem refl (s : σ) : Reaches step C s s :=
  ⟨[], trivial, rfl⟩

theorem single {a : α} (h : C s a) : Reaches step C s (step s a) :=
  ⟨[a], ⟨h, trivial⟩, rfl⟩

theorem trans (h : Reaches step C s t) (h' : Reaches step C t u) : Reaches step C s u := by
  obtain ⟨as, ha, rfl⟩ := h
  obtain ⟨bs, hb, rfl⟩ := h'
  exact ⟨as ++ bs, AllSteps.append.2 ⟨ha, hb⟩, run_append step s as bs⟩

theorem preserves {P : σ → Prop} (h : Reaches step C s t) (hstep : ∀ s a, P s → P (step s a))
    (hs : P s) : P t := by
  obtain ⟨as, -, rfl⟩ := h
  exact run_induction hstep as hs

/-- Where `P` holds a run leads to `Q`, or to `P` again with a smaller `m`; then one leads
to `Q`. -/
theorem of_variant {P Q : σ → Prop} (m : σ → ℕ)
    (h : ∀ s, P s → (∃ t, Reaches step C s t ∧ Q t) ∨ ∃ t, Reaches step C s t ∧ P t ∧ m t < m s)
    (hs : P s) : ∃ t, Reaches step C s t ∧ Q t := by
  induction hn : m s using Nat.strongRecOn generalizing s with
  | ind n ih =>
    subst hn
    rcases h s hs with hq | ⟨t, hst, ht, hlt⟩
    · exact hq
    · obtain ⟨u, htu, hu⟩ := ih (m t) hlt ht rfl
      exact ⟨u, hst.trans htu, hu⟩

end Reaches

/-- An entry of a log that has got one more entry is that one, or was there before. -/
theorem split_of_append_singleton {β : Type*} {l l₁ l₂ : List β} {b x : β}
    (h : l ++ [b] = l₁ ++ x :: l₂) :
    (l = l₁ ∧ b = x ∧ l₂ = []) ∨ ∃ l₃, l₂ = l₃ ++ [b] ∧ l = l₁ ++ x :: l₃ := by
  rcases List.eq_nil_or_concat l₂ with rfl | ⟨l₃, y, rfl⟩
  · obtain ⟨rfl, hx⟩ := List.append_inj' h rfl
    exact Or.inl ⟨rfl, List.singleton_inj.1 hx, rfl⟩
  · rw [List.concat_eq_append, ← List.cons_append, ← List.append_assoc] at h
    obtain ⟨rfl, hy⟩ := List.append_inj' h rfl
    exact Or.inr ⟨l₃, by rw [List.singleton_inj.1 hy, List.concat_eq_append], rfl⟩

universe u v w

/-- A computation followed by another succeeds when both succeed. -/
theorem bind_eq_ok {ε : Type u} {β γ : Type v} {x : Except ε β} {f : β → Except ε γ} {c : γ} :
    (x >>= f) = .ok c ↔ ∃ b, x = .ok b ∧ f b = .ok c := by
  rcases x with e | b
  · constructor
    · intro h
      cases h
    · rintro ⟨_, h, _⟩
      cases h
  · constructor
    · exact fun h => ⟨b, rfl, h⟩
    · rintro ⟨_, ⟨⟩, h⟩
      exact h

/-- A function of a result is a result when the computation succeeds. -/
theorem map_eq_ok {ε : Type u} {β γ : Type v} {x : Except ε β} {f : β → γ} {c : γ} :
    x.map f = .ok c ↔ ∃ b, x = .ok b ∧ f b = c := by
  cases x <;> simp [Except.map]

/-- A computation followed by another raises what the first one raises, or the second. -/
theorem bind_eq_error {ε : Type u} {β γ : Type v} {x : Except ε β} {f : β → Except ε γ} {e : ε} :
    (x >>= f) = .error e ↔ x = .error e ∨ ∃ b, x = .ok b ∧ f b = .error e := by
  rcases x with e' | b
  · constructor
    · exact fun h => Or.inl (congrArg Except.error (Except.error.inj h))
    · rintro (h | ⟨_, ⟨⟩, _⟩)
      exact congrArg Except.error (Except.error.inj h)
  · constructor
    · exact fun h => Or.inr ⟨b, rfl, h⟩
    · rintro (⟨⟨⟩⟩ | ⟨_, ⟨⟩, h⟩)
      exact h

/-- After a computation that succeeds it is the other one that raises. -/
theorem error_of_bind {ε : Type u} {β γ : Type v} {x : Except ε β} {f : β → Except ε γ} {b : β}
    {e : ε} (hx : x = .ok b) (h : (x >>= f) = .error e) : f b = .error e := by
  subst hx
  exact h

/-- What a computation raises. -/
def errorOf {ε : Type u} {β : Type v} : Except ε β → Option ε
  | .ok _ => none
  | .error e => some e

theorem errorOf_eq_some {ε : Type u} {β : Type v} {x : Except ε β} {e : ε} :
    errorOf x = some e ↔ x = .error e := by
  cases x <;> simp [errorOf]

/-- A loop that raises has got as far as some element, and raises there. -/
theorem exists_of_foldlM_eq_error {ε : Type u} {β : Type v} {γ : Type w} {f : β → γ → Except ε β}
    {b : β} {l : List γ} {e : ε} (h : l.foldlM f b = .error e) :
    ∃ pre c post b', l = pre ++ c :: post ∧ pre.foldlM f b = .ok b' ∧ f b' c = .error e := by
  induction l generalizing b with
  | nil => cases h
  | cons c l ih =>
    rw [List.foldlM_cons] at h
    rcases bind_eq_error.1 h with hc | ⟨b₁, hc, hl⟩
    · exact ⟨[], c, l, b, rfl, rfl, hc⟩
    · obtain ⟨pre, c', post, b', rfl, hpre, hc'⟩ := ih hl
      refine ⟨c :: pre, c', post, b', rfl, ?_, hc'⟩
      rw [List.foldlM_cons, hc]
      exact hpre

/-- A check of every element passes when each passes. -/
theorem forM_eq_ok {ε : Type u} {β : Type v} {f : β → Except ε PUnit} {l : List β} {u : PUnit} :
    forM l f = .ok u ↔ ∀ b ∈ l, f b = .ok ⟨⟩ := by
  induction l with
  | nil => simp [pure, Except.pure]
  | cons b l ih =>
    rw [List.forM_cons, bind_eq_ok]
    constructor
    · rintro ⟨⟨⟩, hb, hl⟩
      simpa [hb] using ih.1 hl
    · intro h
      exact ⟨⟨⟩, h b (by simp), ih.2 fun c hc => h c (by simp [hc])⟩

theorem forM_congr {ε : Type u} {β : Type v} {f g : β → Except ε PUnit} {l : List β}
    (h : ∀ b ∈ l, f b = g b) : forM l f = forM l g := by
  induction l with
  | nil => rfl
  | cons b l ih =>
    rw [List.forM_cons, List.forM_cons, h b (by simp), ih fun c hc => h c (by simp [hc])]

/-- A check that fails fails for one of the elements. -/
theorem exists_of_forM_eq_error {ε : Type u} {β : Type v} {f : β → Except ε PUnit} {l : List β}
    {e : ε} (h : forM l f = .error e) : ∃ b ∈ l, f b = .error e := by
  induction l with
  | nil => cases h
  | cons b l ih =>
    rw [List.forM_cons] at h
    cases hb : f b with
    | error e' =>
      rw [hb] at h
      cases h
      exact ⟨b, by simp, hb⟩
    | ok =>
      rw [hb] at h
      obtain ⟨c, hc, hf⟩ := ih h
      exact ⟨c, by simp [hc], hf⟩

end Runs
