import Abrio.Library.Table

/-!
# Views

What one party has of a system. `Table.restrict` keeps the rows of a table that have a property,
and each statement on the table that stays within these rows, or away from them, is the same
statement on what is kept, or none.

A party sees an act of the system as an act of its own, or not at all (`seenActs`). Where every
step is, for the view of the party, the step it sees, the view after a run is that of a run of
what was seen (`view_run`), and so are the answers on the way (`answers_run`) : two runs in which
the party sees the same end in the same view, with the same answers. There is then no other way
for the rest of the system to have an effect on it.
-/

namespace Relational

namespace Table

variable {ρ κ : Type*} {key : ρ → κ}

/-- The rows with a property. -/
def restrict (p : ρ → Bool) (t : Table key) : Table key where
  rows := t.rows.filter p
  nodup := t.nodup.sublist (List.filter_sublist.map key)

variable {p : ρ → Bool} {t t' : Table key} {r : ρ}

theorem mem_restrict : r ∈ t.restrict p ↔ r ∈ t ∧ p r = true := by
  rw [mem_def, restrict, List.mem_filter, mem_def]

/-- Rows without the property at the end. -/
theorem restrict_append {rs : List ρ} (h : t'.rows = t.rows ++ rs) (hp : ∀ r ∈ rs, p r = false) :
    t'.restrict p = t.restrict p := by
  have hnil : rs.filter p = [] := List.filter_eq_nil_iff.2 fun r hr => by simp [hp r hr]
  refine Table.ext ?_
  show t'.rows.filter p = t.rows.filter p
  rw [h, List.filter_append, hnil, List.append_nil]

/-- An update that keeps the property. -/
theorem restrict_updateWhere {q : ρ → Bool} {f : ρ → ρ}
    {hf : ∀ r, q r = true → key (f r) = key r} (h : ∀ r ∈ t, q r = true → p (f r) = p r) :
    (t.updateWhere q f hf).restrict p = (t.restrict p).updateWhere q f hf := by
  refine Table.ext ?_
  show (t.rows.map fun r => if q r then f r else r).filter p =
    (t.rows.filter p).map fun r => if q r then f r else r
  rw [List.filter_map]
  congr 1
  refine List.filter_congr fun r hr => ?_
  by_cases hq : q r = true
  · simp [hq, h r hr hq]
  · simp [hq]

/-- An update that may be of other rows without the property. -/
theorem updateWhere_restrict {q q' : ρ → Bool} {f : ρ → ρ}
    {hf : ∀ r, q r = true → key (f r) = key r} {hf' : ∀ r, q' r = true → key (f r) = key r}
    (h : ∀ r ∈ t, p r = true → q r = q' r) :
    (t.restrict p).updateWhere q f hf = (t.restrict p).updateWhere q' f hf' := by
  refine Table.ext (List.map_congr_left fun r hr => ?_)
  obtain ⟨hmem, hp⟩ := mem_restrict.1 hr
  rw [h r hmem hp]

variable [DecidableEq κ]

/-- A look-up of a key that only a row with the property can have. -/
theorem find?_restrict {k : κ} (h : ∀ r ∈ t, key r = k → p r = true) :
    (t.restrict p).find? k = t.find? k := by
  cases hf : t.find? k with
  | some r =>
    obtain ⟨hr, rfl⟩ := find?_eq_some.1 hf
    exact find?_key (mem_restrict.2 ⟨hr, h r hr rfl⟩)
  | none =>
    rw [find?_eq_none] at hf ⊢
    exact fun r hr => hf r (mem_restrict.1 hr).1

theorem restrict_put (hr : p r = true) (h : ∀ x ∈ t, key x = key r → p x = true) :
    (t.put r).restrict p = (t.restrict p).put r :=
  restrict_updateWhere fun x hx hk => hr.trans (h x hx (of_decide_eq_true hk)).symm

/-- A row without the property is written over another one. -/
theorem restrict_put_of_not (hr : p r = false) (h : ∀ x ∈ t, key x = key r → p x = false) :
    (t.put r).restrict p = t.restrict p := by
  have hput : (t.put r).restrict p = (t.restrict p).put r :=
    restrict_updateWhere fun x hx hk => hr.trans (h x hx (of_decide_eq_true hk)).symm
  rw [hput]
  refine Table.ext ((List.map_congr_left fun x hx => ?_).trans (List.map_id _))
  obtain ⟨hmem, hp⟩ := mem_restrict.1 hx
  have hk : key x ≠ key r := fun hk => by simp [h x hmem hk] at hp
  simp [hk]

theorem restrict_insert (hr : p r = true) (h : ∀ x ∈ t, key x = key r → p x = true) :
    (t.restrict p).insert r = (t.insert r).map (restrict p) := by
  cases hi : t.insert r with
  | none =>
    obtain ⟨x, hx, hk⟩ := insert_eq_none.1 hi
    exact insert_eq_none.2 ⟨x, mem_restrict.2 ⟨hx, h x hx hk⟩, hk⟩
  | some t' =>
    obtain ⟨t'', hi'⟩ := exists_insert (t := t.restrict p) (r := r) fun x hx =>
      key_ne_of_insert hi (mem_restrict.1 hx).1
    rw [hi', Option.map_some]
    refine congrArg some (Table.ext ?_)
    show t''.rows = t'.rows.filter p
    rw [rows_insert hi', rows_insert hi, List.filter_append, List.filter_singleton, hr]
    rfl

section InsertRow

variable {ε : Type*} {check : ρ → Except ε Unit} {pkey : ε} {same : ρ → ρ → Bool} {unique : ε}

/-- Neither the key of a new row nor what it is unique by is that of a row without the property. -/
structure Apart (same : ρ → ρ → Bool) (p : ρ → Bool) (t : Table key) (r : ρ) : Prop where
  own : p r = true
  key : ∀ x ∈ t, key x = key r → p x = true
  same : ∀ x ∈ t, same x r = true → p x = true

theorem restrict_insertRow (h : Apart same p t r) :
    (t.restrict p).insertRow check pkey same unique r =
      (t.insertRow check pkey same unique r).map (restrict p) := by
  have hany : ((t.restrict p).rows.any fun x => same x r) = t.rows.any fun x => same x r := by
    rw [Bool.eq_iff_iff, List.any_eq_true, List.any_eq_true]
    constructor
    · rintro ⟨x, hx, hs⟩
      exact ⟨x, (mem_restrict.1 hx).1, hs⟩
    · rintro ⟨x, hx, hs⟩
      exact ⟨x, mem_restrict.2 ⟨hx, h.same x hx hs⟩, hs⟩
  unfold insertRow
  cases check r with
  | error e => rfl
  | ok =>
    rw [restrict_insert h.own h.key, hany]
    cases t.insert r with
    | none => rfl
    | some t' =>
      simp only [Option.map_some]
      split_ifs <;> rfl

theorem Apart.insertRow {r' : ρ} (h : Apart same p t r) (hr' : p r' = true)
    (hi : t.insertRow check pkey same unique r' = .ok t') : Apart same p t' r := by
  have hmem : ∀ x ∈ t', x ∈ t ∨ p x = true := by
    intro x hx
    rw [mem_def, (insertRow_ok.1 hi).2.2, List.mem_append, List.mem_singleton] at hx
    exact hx.imp id fun he : x = r' => he ▸ hr'
  exact ⟨h.own, fun x hx hk => (hmem x hx).elim (fun hx => h.key x hx hk) id,
    fun x hx hs => (hmem x hx).elim (fun hx => h.same x hx hs) id⟩

theorem restrict_foldlM_insertRow {rs : List ρ} (h : ∀ r ∈ rs, Apart same p t r) :
    rs.foldlM (Table.insertRow check pkey same unique) (t.restrict p) =
      (rs.foldlM (Table.insertRow check pkey same unique) t).map (restrict p) := by
  induction rs generalizing t with
  | nil => rfl
  | cons r rs ih =>
    obtain ⟨hr, hrs⟩ := List.forall_mem_cons.1 h
    rw [List.foldlM_cons, List.foldlM_cons, restrict_insertRow hr]
    cases hi : t.insertRow check pkey same unique r with
    | error e => rfl
    | ok t' => exact ih fun x hx => (hrs x hx).insertRow hr.own hi

end InsertRow

end Table

end Relational

namespace Runs

variable {σ α τ β ω : Type*} (step : σ → α → σ) (seen : σ → α → Option β)

/-- What a party sees of the acts of a run. -/
def seenActs : σ → List α → List β
  | _, [] => []
  | s, a :: as => (seen s a).toList ++ seenActs (step s a) as

/-- What the steps of a run answer to a party. -/
def answers (answer : σ → β → ω) : σ → List α → List ω
  | _, [] => []
  | s, a :: as => ((seen s a).map (answer s)).toList ++ answers answer (step s a) as

/-- The answers to acts that are taken one after another. -/
def answersTo (step' : τ → β → τ) (answer' : τ → β → ω) : τ → List β → List ω
  | _, [] => []
  | t, b :: bs => answer' t b :: answersTo step' answer' (step' t b) bs

variable {step seen} (view : σ → τ) {step' : τ → β → τ} {C : σ → α → Prop} {P : σ → Prop}

/-- For the view of a party every step is the one it sees. -/
theorem view_run (hP : ∀ s a, C s a → P s → P (step s a))
    (hview : ∀ s a, C s a → P s → view (step s a) = run step' (view s) (seen s a).toList) :
    ∀ {as : List α} {s : σ}, AllSteps step C s as → P s →
      view (run step s as) = run step' (view s) (seenActs step seen s as)
  | [], _, _, _ => rfl
  | a :: as, s, hC, hs => by
    rw [run_cons, view_run hP hview hC.2 (hP s a hC.1 hs), hview s a hC.1 hs, seenActs, run_append]

/-- What a party sees of a run meets what each step it sees meets for its view. -/
theorem allSteps_seenActs {C' : τ → β → Prop} (hP : ∀ s a, C s a → P s → P (step s a))
    (hview : ∀ s a, C s a → P s → view (step s a) = run step' (view s) (seen s a).toList)
    (hC' : ∀ s a b, C s a → P s → seen s a = some b → C' (view s) b) :
    ∀ {as : List α} {s : σ}, AllSteps step C s as → P s →
      AllSteps step' C' (view s) (seenActs step seen s as)
  | [], _, _, _ => trivial
  | a :: as, s, hC, hs => by
    have ih := allSteps_seenActs hP hview hC' hC.2 (hP s a hC.1 hs)
    rw [hview s a hC.1 hs] at ih
    rw [seenActs, AllSteps.append]
    refine ⟨?_, ih⟩
    cases hseen : seen s a with
    | none => trivial
    | some b => exact ⟨hC' s a b hC.1 hs hseen, trivial⟩

theorem answers_run {answer : σ → β → ω} {answer' : τ → β → ω}
    (hP : ∀ s a, C s a → P s → P (step s a))
    (hview : ∀ s a, C s a → P s → view (step s a) = run step' (view s) (seen s a).toList)
    (hanswer : ∀ s a b, C s a → P s → seen s a = some b → answer s b = answer' (view s) b) :
    ∀ {as : List α} {s : σ}, AllSteps step C s as → P s →
      answers step seen answer s as = answersTo step' answer' (view s) (seenActs step seen s as)
  | [], _, _, _ => rfl
  | a :: as, s, hC, hs => by
    have ih := answers_run hP hview hanswer hC.2 (hP s a hC.1 hs)
    rw [hview s a hC.1 hs] at ih
    rw [answers, ih, seenActs]
    cases hseen : seen s a with
    | none => rfl
    | some b => simp [answersTo, hanswer s a b hC.1 hs hseen, run]

end Runs
