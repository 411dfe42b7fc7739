import Abrio.Attempts

/-!
# The two retry budgets

`retry_count` counts failed publications and `delivery_attempts` failed deliveries, so that
a broker that is down does not use deliveries up. What happens on the publication side keeps
to that, with one exception that is meant : a sweep counts an attempt of every job it
recovers, of a published one as well, though no worker may have claimed it. So the counter
rises with a temporary failure that the worker in charge records and with a sweep, by one
each, and with nothing else (`separate_budgets`). Where a sweep's late writes find the rows
it selected, it is covered by the claims of workers and the recoveries of the published job,
and so is the limit when a job fails for its attempts.
-/

open Relational Runs

namespace Abrio

open DispatchJobRepository DispatchUseCase

/-- A sweep has recovered a published job. -/
def Event.isRecovery : Event → Bool
  | .reclaimed j => j.status = .published
  | _ => false

/-- How often a sweep has recovered the job while it was published. -/
def System.recoveries (sys : System) (id : UUID) : ℕ :=
  (sys.jobLog id).countP Event.isRecovery

namespace Interleaved

variable (s : Settings) (id : UUID) (f : Interleaved) (a : Time × InterleavedAct)

/-- If the step changes the delivery attempts of job `id`, it raises them by one, and is the
recording of the worker that has the job in delivery or the sweep of the job. -/
def CountsAttempts : Prop :=
  ∀ j j', f.db.jobs.find? id = some j → (f.step s a).db.jobs.find? id = some j' →
    j'.deliveryAttempts ≠ j.deliveryAttempts →
      j'.deliveryAttempts = j.deliveryAttempts + 1 ∧
        ((∃ w jitter, a.2 = .act (.record w jitter) ∧ j.status = .dispatching ∧
            j.lockedBy = some w) ∨ j ∈ f.swept a)

/-- A sweep changes jobs in flight only. -/
def SweepsInFlight : Prop :=
  ∀ j ∈ f.swept a, j.status = .published ∨ j.status = .dispatching

variable {s id f a}

theorem countsAttempts : f.CountsAttempts s id a := by
  intro j j' hj hj' hne
  obtain ⟨now, a⟩ := a
  obtain ⟨es, -, hm⟩ := step_moves s f (now, a) id
  rw [hj, hj'] at hm
  generalize hrow : some j = row at hm
  generalize hrow' : some j' = row' at hm
  cases hm with
  | same =>
    cases hrow
    cases hrow'
    exact absurd rfl hne
  | write selected job =>
    cases hrow
    cases hrow'
    subst job
    exact ⟨rfl, Or.inr (mem_swept_write selected hj)⟩
  | act move =>
    cases move with
    | same =>
      cases hrow
      cases hrow'
      exact absurd rfl hne
    | sent =>
      cases hrow
      cases hrow'
      exact absurd rfl hne
    | created storable => cases hrow
    | row hmove =>
      cases hrow
      cases hrow'
      cases hmove with
      | reclaimed taken => exact ⟨rfl, Or.inr taken⟩
      | recorded dispatching locked_by outcome storable =>
        cases outcome with
        | providerTemporaryFailure failed attempts in_time =>
          exact ⟨rfl, Or.inl ⟨_, _, rfl, dispatching, locked_by⟩⟩
        | _ => exact absurd rfl hne
      | _ => exact absurd rfl hne

theorem inFlight_of_stale {t : Time} {j : DispatchJob} (h : staleInflight t j = true) :
    j.status = .published ∨ j.status = .dispatching :=
  (staleInflight_iff.1 h).imp And.left And.left

/-- Every version that has been selected was in flight. -/
def SelectedInFlight (f : Interleaved) : Prop :=
  ∀ sel ∈ f.selected, sel.seen.status = .published ∨ sel.seen.status = .dispatching

theorem selectedInFlight_step (h : f.SelectedInFlight) (a : Time × InterleavedAct) :
    (f.step s a).SelectedInFlight := by
  obtain ⟨now, a⟩ := a
  cases a with
  | act b => exact h
  | select p scan =>
    intro sel hsel
    rcases List.mem_append.1 hsel with hsel | hsel
    · exact h sel hsel
    · obtain ⟨j, hj, rfl⟩ := List.mem_map.1 hsel
      exact inFlight_of_stale (mem_staleJobs hj).2.2
  | write i =>
    simp only [step, write]
    split
    · exact h
    · exact fun sel hsel => h sel (List.mem_of_mem_eraseIdx hsel)

theorem sweepsInFlight (h : f.SelectedInFlight) (hu : f.undisturbed a = true) :
    f.SweepsInFlight a := by
  intro j hj
  obtain ⟨now, a⟩ := a
  cases a with
  | act b =>
    cases b with
    | reap p scan => exact inFlight_of_stale (mem_staleJobs hj).2.2
    | _ => cases hj
  | select p scan => cases hj
  | write i =>
    simp only [swept, Option.mem_toList, Option.map_eq_some_iff] at hj
    obtain ⟨⟨sel, row⟩, ht, rfl⟩ := hj
    obtain ⟨k, -, hsel, hrow⟩ := target_eq_some.1 ht
    obtain rfl : row = sel.seen := by simpa [undisturbed, ht] using hu
    exact h sel (List.mem_of_getElem? hsel)

end Interleaved

/-! ## The budget -/

/-- The attempts that a log accounts for : claims by workers, and recoveries of the published
job. -/
def budget (log : List Event) : ℕ :=
  log.countP Event.isClaim + log.countP Event.isRecovery

theorem budget_append (l l' : List Event) : budget (l ++ l') = budget l + budget l' := by
  simp only [budget, List.countP_append]
  omega

/-- What the log of job `id` says of its attempts. -/
structure BudgetInv (s : Settings) (id : UUID) (row : Option DispatchJob) (log : List Event) :
    Prop where
  attempts : ∀ j, row = some j →
    j.deliveryAttempts + (if j.status = .dispatching then 1 else 0) ≤ budget log
  reached : ∀ w m, .recorded id w m .maxDeliveryAttemptsReached ∈ log →
    s.maxDeliveryAttempts ≤ budget log

namespace BudgetInv

variable {s : Settings} {id : UUID} {row row' : Option DispatchJob} {log e : List Event}

/-- A move that ends in no delivery, and raises the attempts by what it adds to the budget or
by the delivery it ends. -/
theorem keep (h : BudgetInv s id row log)
    (ha : ∀ j', row' = some j' → j'.status ≠ .dispatching ∧ (j'.deliveryAttempts = 0 ∨
      ∃ j, row = some j ∧ j'.deliveryAttempts ≤
        j.deliveryAttempts + (if j.status = .dispatching then 1 else 0) + budget e))
    (he : ∀ w m, .recorded id w m .maxDeliveryAttemptsReached ∈ e → ∃ j, row = some j ∧
      j.status = .dispatching ∧ s.maxDeliveryAttempts ≤ j.deliveryAttempts + 1) :
    BudgetInv s id row' (log ++ e) := by
  have hadd := budget_append log e
  refine ⟨fun j' hj' => ?_, fun w m hm => ?_⟩
  · obtain ⟨hd, hz | ⟨j, hj, hattempts⟩⟩ := ha j' hj'
    · simp [hd, hz]
    · have hj := h.attempts j hj
      simp only [hd, if_false]
      omega
  · rcases List.mem_append.1 hm with hm | hm
    · have hlog := h.reached w m hm
      omega
    · obtain ⟨j, hj, hd, hmax⟩ := he w m hm
      have hj := h.attempts j hj
      simp only [hd, if_true] at hj
      omega

/-- A move of a row that is no recording at the limit. -/
theorem keep_row {j j' : DispatchJob} (h : BudgetInv s id (some j) log)
    (hd : j'.status ≠ .dispatching)
    (ha : j'.deliveryAttempts ≤
      j.deliveryAttempts + (if j.status = .dispatching then 1 else 0) + budget e)
    (he : ∀ w m, .recorded id w m .maxDeliveryAttemptsReached ∉ e) :
    BudgetInv s id (some j') (log ++ e) := by
  refine h.keep (fun k hk => ?_) fun w m hm => absurd hm (he w m)
  obtain rfl := Option.some.inj hk
  exact ⟨hd, Or.inr ⟨j, rfl, ha⟩⟩

/-- A publication-side write of the row. -/
theorem publication {j j' : DispatchJob} (h : BudgetInv s id (some j) log)
    (hd : j'.status ≠ .dispatching) (ha : j'.deliveryAttempts = j.deliveryAttempts) :
    BudgetInv s id (some j') (log ++ []) :=
  h.keep_row hd (by rw [ha]; exact Nat.le_add_right_of_le (Nat.le_add_right _ _)) (by simp)

/-- A sweep of a job in flight : the delivery it ends was claimed, or it is a recovery of the
published job. -/
theorem swept {j : DispatchJob} (h : BudgetInv s id (some j) log) (now : Time)
    (hj : j.status = .published ∨ j.status = .dispatching) :
    BudgetInv s id (some (reclaimRow now j)) (log ++ [.reclaimed j]) := by
  refine h.keep_row (by simp [reclaimRow]) ?_ (by simp)
  rcases hj with hs | hs
  · simp [reclaimRow, hs, budget, Event.isClaim, Event.isRecovery]
  · simp [reclaimRow, hs]

/-- A claim for delivery. -/
theorem claimed {j j' : DispatchJob} (h : BudgetInv s id (some j) log)
    (ha : j'.deliveryAttempts = j.deliveryAttempts) (id' : UUID) (w : OwnerId) (t : Time) :
    BudgetInv s id (some j') (log ++ [.claimed id' w t]) := by
  have hadd : budget (log ++ [.claimed id' w t]) = budget log + 1 := budget_append _ _
  refine ⟨fun k hk => ?_, fun w m hm => ?_⟩
  · cases hk
    have hj := h.attempts j rfl
    split_ifs <;> omega
  · have hlog := h.reached w m (by simpa using hm)
    omega

end BudgetInv

namespace Interleaved

variable {s : Settings} {id : UUID} {f : Interleaved} {a : Time × InterleavedAct}

/-- Every undisturbed move keeps the invariant. -/
theorem budgetInv_move (hsel : f.SelectedInFlight) (hu : f.undisturbed a = true)
    {row' : Option DispatchJob} {es : List Event}
    (hm : InterleavedMove s f id a.1 a.2 (f.db.jobs.find? id) es row')
    (h : BudgetInv s id (f.db.jobs.find? id) (f.jobLog id)) :
    BudgetInv s id row' (f.jobLog id ++ es) := by
  obtain ⟨now, a⟩ := a
  have hflight := sweepsInFlight hsel hu
  generalize hrow : f.db.jobs.find? id = row at hm h
  cases hm with
  | same => simpa using h
  | write selected job =>
    subst job
    cases row with
    | none => exact h.keep (by simp) (by simp)
    | some j =>
      have hj := hflight j (mem_swept_write selected hrow)
      obtain rfl := eq_seen_of_undisturbed selected hrow hu
      exact h.swept _ hj
  | act move =>
    cases move with
    | same => simpa using h
    | @sent w result id' row =>
      have hsame : budget (f.jobLog id ++ [.sent id' w]) = budget (f.jobLog id) :=
        budget_append _ _
      refine ⟨fun j hj => hsame ▸ h.attempts j hj, fun w m hm => hsame ▸ h.reached w m ?_⟩
      simpa using hm
    | created storable =>
      refine h.keep (fun j' hj' => ?_) (by simp)
      cases hj'
      exact ⟨by simp [MessageUseCase.newJob, create], Or.inl rfl⟩
    | row hmove =>
      rename_i j j'
      obtain ⟨-, rfl⟩ := Table.find?_eq_some.1 hrow
      cases hmove with
      | locked due =>
        exact h.publication (not_dispatching_of_publishable (eligible_iff.1 due).2.1) rfl
      | published isOpen locked_by => exact h.publication (by simp [publishedRow]) rfl
      | publishRetry isOpen locked_by => exact h.publication (by simp [publishRetryRow]) rfl
      | reclaimed taken => exact h.swept now (hflight j taken)
      | expired not_terminal claimable storable =>
        exact h.keep_row (by simp [markFailed])
          (Nat.le_add_right_of_le (Nat.le_add_right _ _)) (by simp)
      | claimed not_terminal claimable storable =>
        refine h.claimed ?_ _ _ _
        rfl
      | recorded dispatching locked_by outcome storable =>
        refine h.keep (fun k hk => ?_) fun w m hm => ?_
        · cases hk
          refine ⟨outcome.not_dispatching, Or.inr ⟨j, rfl, ?_⟩⟩
          rw [if_pos dispatching]
          refine Nat.le_add_right_of_le ?_
          cases outcome <;> simp [markCompleted, markFailed, markDeliveryRetry]
        · cases outcome with
          | maxDeliveryAttemptsReached failed attempts => exact ⟨j, rfl, dispatching, attempts⟩
          | _ => simp at hm

theorem run_selectedInFlight (s : Settings) {acts : List (Time × InterleavedAct)}
    (h : AllSteps (step s) (fun f a => f.undisturbed a = true) {} acts) :
    AllSteps (step s) (fun f a => f.SelectedInFlight ∧ f.undisturbed a = true) {} acts :=
  AllSteps.imp_of_invariant (P := SelectedInFlight)
    (fun _ a _ h => selectedInFlight_step h a) (fun _ _ hu h => ⟨h, hu⟩) acts h
    (by simp [SelectedInFlight])

theorem run_budgetInv (s : Settings) (id : UUID) {acts : List (Time × InterleavedAct)}
    (h : AllSteps (step s) (fun f a => f.undisturbed a = true) {} acts) :
    BudgetInv s id ((after s acts).db.jobs.find? id) ((after s acts).jobLog id) :=
  job_invariant (P := BudgetInv s id)
    (fun _ _ _ _ hu hm h => budgetInv_move hu.1 hu.2 hm h) acts (run_selectedInFlight s h)
    ⟨fun _ hj => (by cases hj), by simp [System.jobLog]⟩

end Interleaved

/-- In every run the delivery attempts of a job change only with a temporary failure that the
worker in charge records, or with a sweep of the job. Where the writes of sweeps find the rows
that were selected, only jobs in flight are swept, the attempts are covered by the claims of
workers and the recoveries of the published job, and so is the limit when it fails for them. -/
theorem separate_budgets (s : Settings) (id : UUID) (acts : List (Time × InterleavedAct)) :
    let f := Interleaved.after s acts
    AllSteps (Interleaved.step s) (fun f a => f.CountsAttempts s id a) {} acts ∧
    (AllSteps (Interleaved.step s) (fun f a => f.undisturbed a = true) {} acts →
      AllSteps (Interleaved.step s) Interleaved.SweepsInFlight {} acts ∧
      (∀ j, f.db.jobs.find? id = some j →
        j.deliveryAttempts ≤ f.claims id + f.recoveries id) ∧
      ∀ w m, .recorded id w m .maxDeliveryAttemptsReached ∈ f.log →
        s.maxDeliveryAttempts ≤ f.claims id + f.recoveries id) := by
  intro f
  refine ⟨AllSteps.of_forall (fun _ _ => Interleaved.countsAttempts) acts, fun h => ?_⟩
  have hinv := Interleaved.run_budgetInv s id h
  refine ⟨?_, fun j hj => (Nat.le_add_right _ _).trans (hinv.attempts j hj), fun w m hm => ?_⟩
  · exact AllSteps.imp_of_invariant (P := fun _ => True) (fun _ _ _ _ => trivial)
      (fun _ _ hu _ => Interleaved.sweepsInFlight hu.1 hu.2) acts
      (Interleaved.run_selectedInFlight s h) trivial
  · exact hinv.reached w m (List.mem_filter.2 ⟨hm, by simp [Event.jobId]⟩)

/-- A published task waits in the broker for longer than the lease, and the first delivery
fails. -/
def backlogSample : List (Time × InterleavedAct) :=
  publishedSample.map (fun a => (a.1, .act a.2)) ++ [(seconds 121, .select .normal .stored),
    (seconds 121, .write 0), (seconds 121, .act (.relayClaim 3 .normal {})),
    (seconds 121, .act (.publish 3 (fun _ => true) fun _ => true)),
    (seconds 121, .act (.relayRecord 3 "" 0)), (seconds 122, .act (.claim 5 20)),
    (seconds 122, .act (.send 5 ⟨.temporaryFailure, none, none⟩)),
    (seconds 122, .act (.record 5 0))]

theorem separate_budgets_sample :
    let f := Interleaved.after { maxDeliveryAttempts := 2 } backlogSample
    .recorded 20 5 10 .maxDeliveryAttemptsReached ∈ f.log ∧ 2 ≤ f.claims 20 + f.recoveries 20 := by
  intro f
  have hm : .recorded 20 5 10 .maxDeliveryAttemptsReached ∈ f.log := by decide +kernel
  obtain ⟨-, h⟩ := separate_budgets { maxDeliveryAttempts := 2 } 20 backlogSample
  exact ⟨hm, (h (by decide +kernel)).2.2 5 10 hm⟩

/-- The recovery of the published job has counted as an attempt : with two allowed the first
delivery is the last. -/
theorem budgets_not_separate :
    let s : Settings := { maxDeliveryAttempts := 2 }
    ((Interleaved.after s (backlogSample.take 7)).db.jobs.find? 20).map
        (fun j => (j.status, j.deliveryAttempts)) = some (.published, 0) ∧
      ((Interleaved.after s (backlogSample.take 8)).db.jobs.find? 20).map
        (fun j => (j.status, j.deliveryAttempts)) = some (.retry, 1) ∧
      .recorded 20 5 10 .maxDeliveryAttemptsReached ∈ (Interleaved.after s backlogSample).log ∧
        (Interleaved.after s backlogSample).claims 20 = 1 := by
  decide +kernel

end Abrio
