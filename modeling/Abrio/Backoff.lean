import Abrio.Attempts
import Abrio.Publications

/-!
# The backoff is kept

A delivery that fails for the time being, or a publication the broker refuses, leaves the job
waiting until its `available_at`. Where transactions are atomic nothing in the system touches a job
that waits before it is due (`waits_until_due`) : a relay's claim asks for `available_at`, a worker
takes a waiting job only from a relay, the reaper and the bookkeeping of the relays pass it over.
The late update of a sweep that selected the job before it waited is not atomic, and shortens the
wait.

So on a clock that does not go back the deliveries of a job are apart (`backoff_kept`). After a
temporary failure no worker claims the job before `min(60, 2 ** n)` seconds have passed since the
claim that failed, `n` counting the failures and the sweeps of the job so far.
-/

open Relational Runs

namespace Abrio

open DispatchJobRepository DispatchUseCase

/-- The delay before retry `n`, without its jitter. -/
def baseDelay (n : ℕ) : Time :=
  seconds (min 60 (2 ^ min n 6))

theorem baseDelay_le (n : ℕ) (jitter : Jitter) : baseDelay n ≤ calculateBackoff n jitter :=
  Int.le_add_of_nonneg_right (Int.natCast_nonneg _)

/-! ## Jobs that wait -/

/-- The job waits to be published and nobody holds it. -/
structure DispatchJob.AtRest (j : DispatchJob) : Prop where
  isOpen : publishable j = true
  lockedAt : j.lockedAt = none
  lockedBy : j.lockedBy = none

namespace DispatchJob.AtRest

variable {j : DispatchJob} {now : Time} (h : j.AtRest)

include h

theorem not_claimable (s : Settings) : isClaimable s.dispatchConfig now j = false := by
  rcases publishable_iff.1 h.isOpen with hs | hs <;> simp [isClaimable, hs, h.lockedAt]

theorem not_stale (staleBefore : Time) : staleInflight staleBefore j = false := by
  rcases publishable_iff.1 h.isOpen with hs | hs <;> simp [staleInflight, hs]

theorem not_dispatching : j.status ≠ .dispatching :=
  not_dispatching_of_publishable h.isOpen

/-- Only a relay that finds the job due writes to it. -/
theorem locked {s : Settings} {sys : System} {a : Act} {es : List Event} {j' : DispatchJob}
    (hm : RowMove s sys now j a es j') : es = [] ∧
      eligible j.priority now (now - seconds leaseSeconds) j = true ∧
      ∃ r p scans, a = .relayClaim r p scans := by
  cases hm with
  | locked due => exact ⟨rfl, due, _, _, _, rfl⟩
  | published _ locked_by => cases h.lockedBy.symm.trans locked_by
  | publishRetry _ locked_by => cases h.lockedBy.symm.trans locked_by
  | reclaimed taken =>
    have hstale := (mem_staleJobs taken).2.2
    rw [h.not_stale] at hstale
    cases hstale
  | expired _ claimable =>
    rw [h.not_claimable] at claimable
    cases claimable
  | claimed _ claimable =>
    rw [h.not_claimable] at claimable
    cases claimable
  | recorded dispatching => exact absurd dispatching h.not_dispatching

end DispatchJob.AtRest

/-- The retries leave the job at rest. -/
theorem markDeliveryRetry_atRest (error : String) (delay now : Time) (j : DispatchJob) :
    (markDeliveryRetry error delay now j).AtRest :=
  ⟨rfl, rfl, rfl⟩

/-! ## One job along a run -/

/-- The event counts as a delivery attempt. -/
def Event.raises : Event → Bool
  | .recorded _ _ _ .providerTemporaryFailure => true
  | .reclaimed _ => true
  | _ => false

/-- No worker claims the job before `bound`, by its log since and its row now. -/
structure NotBefore (id : UUID) (bound clock : Time) (row : Option DispatchJob)
    (log : List Event) : Prop where
  claims : ∀ w t, .claimed id w t ∈ log → bound ≤ t
  waits : bound ≤ clock ∨ ∃ j, row = some j ∧ j.AtRest ∧ bound ≤ j.availableAt

/-- What the log of job `id` says of its retries. -/
structure BackoffInv (id : UUID) (clock : Time) (row : Option DispatchJob) (log : List Event) :
    Prop where
  fresh : row = none → log.countP Event.raises = 0
  attempts : ∀ j, row = some j → j.deliveryAttempts = log.countP Event.raises
  time : ∀ w t, .claimed id w t ∈ log → t ≤ clock
  apart : ∀ l₁ w m l₂, log = l₁ ++ .recorded id w m .providerTemporaryFailure :: l₂ →
    ∀ w₀ t₀, .claimed id w₀ t₀ ∈ l₁ →
      NotBefore id (t₀ + baseDelay (l₁.countP Event.raises + 1)) clock row l₂

namespace BackoffInv

variable {id : UUID} {clock now : Time} {row row' : Option DispatchJob} {log : List Event}
  {s : Settings} {j : DispatchJob}

theorem start (clock : Time) : BackoffInv id clock none [] where
  fresh _ := rfl
  attempts := by simp
  time := by simp
  apart := by simp

/-- A move that logs nothing. A job at rest stays so, or is due. -/
theorem quiet (h : BackoffInv id clock row log) (hc : clock ≤ now)
    (hfresh : row' = none → row = none)
    (hattempts : ∀ j', row' = some j' → j'.deliveryAttempts = log.countP Event.raises)
    (hrest : ∀ j, row = some j → j.AtRest → row' = some j ∨ j.availableAt ≤ now) :
    BackoffInv id now row' (log ++ []) := by
  rw [List.append_nil]
  refine ⟨fun hn => h.fresh (hfresh hn), hattempts, fun w t hm => (h.time w t hm).trans hc,
    fun l₁ w m l₂ hl w₀ t₀ hm => ?_⟩
  have hbefore := h.apart l₁ w m l₂ hl w₀ t₀ hm
  refine ⟨hbefore.claims, ?_⟩
  rcases hbefore.waits with hb | ⟨j, hj, hrests, hb⟩
  · exact Or.inl (hb.trans hc)
  · rcases hrest j hj hrests with hj' | hdue
    · exact Or.inr ⟨j, hj', hrests, hb⟩
    · exact Or.inl (hb.trans hdue)

/-- A move that logs one event. A job at rest is not written, and not claimed. -/
theorem event (h : BackoffInv id clock row log) (hc : clock ≤ now) {e : Event}
    (hfresh : row' = none → (log ++ [e]).countP Event.raises = 0)
    (hattempts : ∀ j', row' = some j' →
      j'.deliveryAttempts = (log ++ [e]).countP Event.raises)
    (hrest : ∀ j, row = some j → j.AtRest → row' = some j ∧ ∀ w t, e ≠ .claimed id w t)
    (hclaim : ∀ w t, e = .claimed id w t → t = now)
    (hfail : ∀ w m, e = .recorded id w m .providerTemporaryFailure → ∃ j', row' = some j' ∧
      j'.AtRest ∧ now + baseDelay (log.countP Event.raises + 1) ≤ j'.availableAt) :
    BackoffInv id now row' (log ++ [e]) := by
  refine ⟨hfresh, hattempts, fun w t hm => ?_, fun l₁ w m l₂ hl w₀ t₀ hm => ?_⟩
  · rcases List.mem_append.1 hm with hm | hm
    · exact (h.time w t hm).trans hc
    · exact (hclaim w t (List.mem_singleton.1 hm).symm).le
  rcases split_of_append_singleton hl with ⟨rfl, he, rfl⟩ | ⟨l₃, rfl, hlog⟩
  · obtain ⟨j', hj', hrests, hav⟩ := hfail w m he
    have ht₀ := h.time w₀ t₀ hm
    exact ⟨fun _ _ hn => absurd hn List.not_mem_nil, Or.inr ⟨j', hj', hrests, by linarith⟩⟩
  · have hbefore := h.apart l₁ w m l₃ hlog w₀ t₀ hm
    refine ⟨fun w' t' hm' => ?_, ?_⟩
    · rcases List.mem_append.1 hm' with hm' | hm'
      · exact hbefore.claims w' t' hm'
      have he := (List.mem_singleton.1 hm').symm
      rcases hbefore.waits with hb | ⟨j, hj, hrests, -⟩
      · exact (hb.trans hc).trans (hclaim w' t' he).ge
      · exact absurd he ((hrest j hj hrests).2 w' t')
    · rcases hbefore.waits with hb | ⟨j, hj, hrests, hb⟩
      · exact Or.inl (hb.trans hc)
      · exact Or.inr ⟨j, (hrest j hj hrests).1, hrests, hb⟩

/-- A job that is not at rest is written, with an event that is no temporary failure. -/
theorem written (h : BackoffInv id clock (some j) log) (hc : clock ≤ now) {e : Event}
    {j' : DispatchJob} (hrest : ¬j.AtRest) (hclaim : ∀ w t, e = .claimed id w t → t = now)
    (hfail : ∀ w m, e ≠ .recorded id w m .providerTemporaryFailure)
    (hattempts : j'.deliveryAttempts = j.deliveryAttempts + if e.raises then 1 else 0) :
    BackoffInv id now (some j') (log ++ [e]) := by
  refine h.event hc (by simp) (fun k hk => ?_) (fun k hk hk' => ?_) hclaim fun w m he =>
    absurd he (hfail w m)
  · obtain rfl := Option.some.inj hk
    rw [hattempts, h.attempts j rfl, List.countP_append, List.countP_singleton]
  · obtain rfl := Option.some.inj hk
    exact absurd hk' hrest

/-- Every move keeps the invariant. -/
theorem move {sys : System} {a : Act} {es : List Event} (hc : clock ≤ now)
    (hid : ∀ j, row = some j → j.id = id) (hm : JobMove s sys now a row es row')
    (h : BackoffInv id clock row log) : BackoffInv id now row' (log ++ es) := by
  cases hm with
  | same => exact h.quiet hc (fun hn => hn) h.attempts fun j hj _ => Or.inl hj
  | sent =>
    refine h.event hc (fun hn => ?_) (fun j hj => ?_) (fun j hj _ => ⟨hj, by simp⟩) (by simp)
      (by simp)
    · rw [List.countP_append, h.fresh hn]
      rfl
    · rw [List.countP_append, h.attempts j hj]
      rfl
  | created storable =>
    refine h.quiet hc (by simp) (fun j hj => ?_) (by simp)
    obtain rfl := Option.some.inj hj
    exact (h.fresh rfl).symm
  | @row _ j j' _ move =>
    have hattempts := h.attempts j rfl
    have hrest : es ≠ [] → ¬j.AtRest := fun hne hr => hne (hr.locked move).1
    obtain rfl := hid j rfl
    cases move with
    | locked due =>
      refine h.quiet hc (by simp) (fun k hk => ?_) fun k hk _ => ?_
      · obtain rfl := Option.some.inj hk
        exact hattempts
      · obtain rfl := Option.some.inj hk
        exact Or.inr (eligible_iff.1 due).2.2.1
    | published isOpen locked_by =>
      refine h.quiet hc (by simp) (fun k hk => ?_) fun k hk hr => ?_
      · obtain rfl := Option.some.inj hk
        exact hattempts
      · obtain rfl := Option.some.inj hk
        cases hr.lockedBy.symm.trans locked_by
    | publishRetry isOpen locked_by =>
      refine h.quiet hc (by simp) (fun k hk => ?_) fun k hk hr => ?_
      · obtain rfl := Option.some.inj hk
        exact hattempts
      · obtain rfl := Option.some.inj hk
        cases hr.lockedBy.symm.trans locked_by
    | reclaimed => exact h.written hc (hrest (by simp)) (by simp) (by simp) rfl
    | expired => exact h.written hc (hrest (by simp)) (by simp) (by simp) rfl
    | claimed =>
      refine h.written hc (hrest (by simp)) (fun w t he => ?_) (by simp) rfl
      cases he
      rfl
    | recorded _ _ outcome =>
      cases outcome with
      | providerTemporaryFailure failed attempts in_time =>
        refine h.event hc (by simp) (fun k hk => ?_) (fun k hk hr => ?_) (by simp)
          fun w m _ => ⟨_, rfl, markDeliveryRetry_atRest _ _ _ _, ?_⟩
        · obtain rfl := Option.some.inj hk
          rw [List.countP_append, ← hattempts]
          rfl
        · obtain rfl := Option.some.inj hk
          exact absurd hr (hrest (by simp))
        · rw [← hattempts]
          exact Int.add_le_add_left (baseDelay_le _ _) now
      | _ => exact h.written hc (hrest (by simp)) (by simp) (by simp) rfl

end BackoffInv

namespace System

variable {s : Settings}

theorem run_backoffInv (s : Settings) (id : UUID) {acts : List (Time × Act)}
    (h : AllSteps (step s) OnTime {} acts) :
    BackoffInv id (after s acts).clock ((after s acts).db.jobs.find? id)
      ((after s acts).jobLog id) :=
  job_invariant (P := BackoffInv id) (fun _ _ _ _ ht hm h =>
    h.move ht (fun _ hj => (Table.find?_eq_some.1 hj).2) hm) acts h (.start 0)

/-- A job at rest is left alone until it is due. Of what is logged of it meanwhile, all are calls
to the provider by workers that claimed it before. -/
theorem waits_until_due {sys : System} {id : UUID} {j : DispatchJob}
    (hj : sys.db.jobs.find? id = some j) (hrest : j.AtRest) {later : List (Time × Act)}
    (hdue : ∀ a ∈ later, a.1 < j.availableAt) :
    (run (step s) sys later).db.jobs.find? id = some j ∧ ∃ es,
      (run (step s) sys later).jobLog id = sys.jobLog id ++ es ∧ ∀ e ∈ es, e.isSend = true := by
  induction later generalizing sys with
  | nil => exact ⟨hj, [], (List.append_nil _).symm, by simp⟩
  | cons a later ih =>
    rw [List.forall_mem_cons] at hdue
    have hstep : (sys.step s a).db.jobs.find? id = some j ∧ ∃ es,
        (sys.step s a).jobLog id = sys.jobLog id ++ es ∧ ∀ e ∈ es, e.isSend = true := by
      obtain ⟨es, hlog, hmove⟩ := step_moves s sys a id
      rw [hj] at hmove
      generalize hrow : (sys.step s a).db.jobs.find? id = row' at hmove
      obtain ⟨now, a⟩ := a
      cases hmove with
      | same => exact ⟨rfl, [], hlog, by simp⟩
      | sent => exact ⟨rfl, _, hlog, by simp [Event.isSend]⟩
      | row move =>
        have hdue' := (eligible_iff.1 (hrest.locked move).2.1).2.2.1
        exact absurd hdue' (not_le.2 hdue.1)
    obtain ⟨hj', es, hlog, hes⟩ := hstep
    obtain ⟨hrun, es', hlog', hes'⟩ := ih hj' hdue.2
    refine ⟨hrun, es ++ es', ?_, fun e he => ?_⟩
    · exact hlog'.trans (by rw [hlog, List.append_assoc])
    · exact (List.mem_append.1 he).elim (hes e) (hes' e)

end System

/-- The backoff is kept in every run of atomic transactions. A job that waits is left alone until it
is due; and where the clock does not go back, a worker that claims a job after a temporary failure
does so no earlier than the delay of that retry after the claim that failed, or any claim before. -/
theorem backoff_kept (s : Settings) (acts : List (Time × Act)) (id : UUID) :
    let sys := System.after s acts
    (∀ j, sys.db.jobs.find? id = some j → j.AtRest → ∀ later : List (Time × Act),
      (∀ a ∈ later, a.1 < j.availableAt) →
        (run (System.step s) sys later).db.jobs.find? id = some j ∧ ∃ es,
          (run (System.step s) sys later).jobLog id = sys.jobLog id ++ es ∧
            ∀ e ∈ es, e.isSend = true) ∧
      (AllSteps (System.step s) System.OnTime {} acts → ∀ l₁ w m l₂,
        sys.jobLog id = l₁ ++ .recorded id w m .providerTemporaryFailure :: l₂ →
          ∀ w₀ t₀ w₁ t₁, .claimed id w₀ t₀ ∈ l₁ → .claimed id w₁ t₁ ∈ l₂ →
            t₀ + baseDelay (l₁.countP Event.raises + 1) ≤ t₁) := by
  intro sys
  refine ⟨fun j hj hrest later hdue => System.waits_until_due hj hrest hdue, ?_⟩
  intro ht l₁ w m l₂ hl w₀ t₀ w₁ t₁ h₀ h₁
  exact ((System.run_backoffInv s id ht).apart l₁ w m l₂ hl w₀ t₀ h₀).claims w₁ t₁ h₁

/-- A delivery fails for the time being, and the job is delivered again once it is due. -/
def retriedSample : List (Time × Act) :=
  lastAttemptSample ++ [(seconds 3, .relayClaim 3 .normal {}),
    (seconds 3, .publish 3 (fun _ => true) fun _ => true), (seconds 3, .relayRecord 3 "" 0),
    (seconds 4, .claim 6 20)]

theorem backoff_kept_sample :
    let sys := System.after {} retriedSample
    sys.jobLog 20 = [.claimed 20 5 0, .sent 20 5, .recorded 20 5 10 .providerTemporaryFailure,
      .claimed 20 6 (seconds 4)] ∧ 0 + baseDelay 1 ≤ seconds 4 := by
  intro sys
  have hlog : sys.jobLog 20 = [.claimed 20 5 0, .sent 20 5] ++
      .recorded 20 5 10 .providerTemporaryFailure :: [.claimed 20 6 (seconds 4)] := by
    decide +kernel
  exact ⟨hlog, (backoff_kept {} retriedSample 20).2 (by decide +kernel) _ 5 10 _ hlog 5 0 6 _
    (by simp) (by simp)⟩

end Abrio
