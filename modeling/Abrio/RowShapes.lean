import Abrio.Attempts
import Abrio.Contents
import Abrio.Publications

/-!
# The shape of the rows

What the columns of a stored job and of a stored message say, in every run of atomic transactions
that read the clock once each, `now()` of the database included. The columns of a job go with its
status (`DispatchJob.ColumnsAgree`) : a job in delivery is locked and a published one or one that is
over is not, it has an end and an id of the provider when it should, and an error when it failed
last. Where the clock does not go back the times of a row are in order (`DispatchJob.InOrder`), so
that the `CHECK`s `updated_at >= created_at` of both tables, which the statements of the model leave
out, refuse no write; and no job is put off for more than 61 seconds.
-/

open Relational Runs

namespace Abrio

open DispatchJobRepository DispatchUseCase MessageUseCase

/-! ## The columns of a job -/

/-- What the columns of a job say for its status. -/
structure DispatchJob.ColumnsAgree (j : DispatchJob) : Prop where
  lock : j.lockedAt.isSome = j.lockedBy.isSome
  delivering : j.status = .dispatching → j.lockedAt.isSome = true
  released : j.status = .published ∨ j.status.terminal = true → j.lockedAt = none
  published : j.status = .published → j.publishedAt.isSome = true
  completed : j.completedAt.isSome = j.status.terminal
  delivered : j.providerMessageId.isSome = decide (j.status = .completed)
  error : j.lastError.isSome = decide (j.status = .retry ∨ j.status = .failed)
  error_short : ∀ e, j.lastError = some e → e.toList.length ≤ 2000
  untried : j.status = .pending →
    j.retryCount = 0 ∧ j.deliveryAttempts = 0 ∧ j.publishedAt = none

theorem length_truncateError (error : String) : (truncateError error).toList.length ≤ 2000 := by
  rw [truncateError, String.toList_ofList]
  exact List.length_take_le _ _

namespace DispatchJob.ColumnsAgree

variable {s : Settings} {sys : System} {now : Time} {j j' : DispatchJob} {a : Act}
  {es : List Event}

/-- An open job has no end and no id of the provider. -/
theorem of_open (h : j.ColumnsAgree) (ht : j.status.terminal = false) :
    j.completedAt = none ∧ j.providerMessageId = none := by
  have hc := h.completed
  have hd := h.delivered
  have hs : j.status ≠ .completed := fun hs => by simp [hs, DispatchJobStatus.terminal] at ht
  rw [ht] at hc
  rw [decide_eq_false hs] at hd
  exact ⟨by simpa using hc, by simpa using hd⟩

theorem newJob (s : Settings) (sub : Submission) : (newJob s sub).ColumnsAgree := by
  refine ⟨rfl, ?_, fun _ => rfl, ?_, rfl, rfl, rfl, ?_, fun _ => ⟨rfl, rfl, rfl⟩⟩ <;>
    simp [MessageUseCase.newJob, DispatchJobRepository.create]

theorem lockRow (h : j.ColumnsAgree) (hopen : publishable j = true) (r : OwnerId) (now : Time) :
    (lockRow r now j).ColumnsAgree := by
  refine ⟨rfl, fun _ => rfl, fun hs => ?_, h.published, h.completed, h.delivered, h.error,
    h.error_short, h.untried⟩
  exfalso
  rcases publishable_iff.1 hopen with hp | hp <;>
    simp [DispatchJobRepository.lockRow, hp, DispatchJobStatus.terminal] at hs

theorem publishedRow (h : j.ColumnsAgree) (ht : j.status.terminal = false) (now : Time) :
    (publishedRow now j).ColumnsAgree := by
  obtain ⟨hc, hp⟩ := h.of_open ht
  refine ⟨rfl, ?_, fun _ => rfl, fun _ => rfl, ?_, ?_, rfl, ?_, ?_⟩ <;>
    simp [DispatchJobRepository.publishedRow, hc, hp, DispatchJobStatus.terminal]

/-- The job waits again, with an error. -/
theorem retried (h : j.ColumnsAgree) (ht : j.status.terminal = false) {error : String}
    (he : error.toList.length ≤ 2000) (hs : j'.status = .retry) (hl : j'.lockedAt = none)
    (hb : j'.lockedBy = none) (hc : j'.completedAt = j.completedAt)
    (hp : j'.providerMessageId = j.providerMessageId) (herror : j'.lastError = some error) :
    j'.ColumnsAgree := by
  obtain ⟨hc', hp'⟩ := h.of_open ht
  rw [hc'] at hc
  rw [hp'] at hp
  refine ⟨by rw [hl, hb]; rfl, ?_, fun _ => hl, ?_, ?_, ?_, ?_, fun e h' => ?_, ?_⟩ <;>
    simp_all [DispatchJobStatus.terminal]

theorem markDispatching (h : j.ColumnsAgree) (ht : j.status.terminal = false) (w : OwnerId)
    (now : Time) : (markDispatching w now j).ColumnsAgree := by
  obtain ⟨hc, hp⟩ := h.of_open ht
  refine ⟨rfl, fun _ => rfl, ?_, ?_, ?_, ?_, rfl, ?_, ?_⟩ <;>
    simp [DispatchJobRepository.markDispatching, hc, hp, DispatchJobStatus.terminal]

theorem markCompleted (j : DispatchJob) (providerMessageId : String) (now : Time) :
    (markCompleted providerMessageId now j).ColumnsAgree := by
  refine ⟨rfl, ?_, fun _ => rfl, ?_, rfl, rfl, rfl, ?_, ?_⟩ <;>
    simp [DispatchJobRepository.markCompleted]

theorem markFailed (h : j.ColumnsAgree) (ht : j.status.terminal = false) (error : String)
    (now : Time) : (markFailed error now j).ColumnsAgree := by
  obtain ⟨-, hp⟩ := h.of_open ht
  refine ⟨rfl, ?_, fun _ => rfl, ?_, rfl, ?_, rfl, fun e he => ?_, ?_⟩
  · simp [DispatchJobRepository.markFailed]
  · simp [DispatchJobRepository.markFailed]
  · simp [DispatchJobRepository.markFailed, hp]
  · obtain rfl := Option.some.inj he
    exact length_truncateError error
  · simp [DispatchJobRepository.markFailed]

/-- Every write of a row keeps its columns in agreement. -/
theorem move (h : j.ColumnsAgree) (hm : RowMove s sys now j a es j') : j'.ColumnsAgree := by
  cases hm with
  | locked due => exact h.lockRow (eligible_iff.1 due).2.1 _ _
  | published isOpen => exact h.publishedRow (not_terminal_of_publishable isOpen) _
  | publishRetry isOpen =>
    exact h.retried (not_terminal_of_publishable isOpen) (length_truncateError _) rfl rfl rfl rfl
      rfl rfl
  | reclaimed taken =>
    exact h.retried (not_terminal_of_stale (mem_staleJobs taken).2.2) (by decide) rfl rfl rfl rfl
      rfl rfl
  | expired not_terminal => exact h.markFailed not_terminal _ _
  | claimed not_terminal => exact h.markDispatching not_terminal _ _
  | recorded dispatching _ outcome =>
    have ht : j.status.terminal = false := by rw [dispatching]; rfl
    cases outcome with
    | succeeded => exact markCompleted j _ _
    | providerTemporaryFailure =>
      exact h.retried ht (length_truncateError _) rfl rfl rfl rfl rfl rfl
    | _ => exact h.markFailed ht _ _

end DispatchJob.ColumnsAgree

/-! ## The times of a job -/

/-- The times of a job, at a reading of the clock. -/
structure DispatchJob.InOrder (clock : Time) (j : DispatchJob) : Prop where
  created : j.createdAt ≤ j.updatedAt
  updated : j.updatedAt ≤ clock
  locked : ∀ t, j.lockedAt = some t → j.createdAt ≤ t ∧ t ≤ j.updatedAt
  published : ∀ t, j.publishedAt = some t → j.createdAt ≤ t ∧ t ≤ j.updatedAt
  completed : ∀ t, j.completedAt = some t → j.createdAt ≤ t ∧ t ≤ j.updatedAt
  available : j.createdAt ≤ j.availableAt ∧ j.availableAt ≤ j.updatedAt + seconds 61

theorem calculateBackoff_le (retryCount : ℕ) (jitter : Jitter) :
    calculateBackoff retryCount jitter ≤ seconds 61 := by
  have hmin : min 60 (2 ^ min retryCount 6) ≤ (60 : ℤ) := min_le_left _ _
  have hjitter : ((jitter : ℕ) : ℤ) ≤ 1000000 := by
    have := jitter.isLt
    omega
  unfold calculateBackoff seconds
  linarith

namespace DispatchJob.InOrder

variable {s : Settings} {sys : System} {clock now : Time} {j j' : DispatchJob} {a : Act}
  {es : List Event}

theorem later (h : j.InOrder clock) (hc : clock ≤ now) : j.InOrder now :=
  { h with updated := h.updated.trans hc }

theorem newJob (s : Settings) {sub : Submission} (hnow : sub.now = now) :
    (newJob s sub).InOrder now := by
  subst hnow
  refine ⟨le_rfl, le_rfl, ?_, ?_, ?_, le_rfl, ?_⟩
  · simp [MessageUseCase.newJob, DispatchJobRepository.create]
  · simp [MessageUseCase.newJob, DispatchJobRepository.create]
  · simp [MessageUseCase.newJob, DispatchJobRepository.create]
  · show sub.now ≤ sub.now + seconds 61
    simp [seconds]

/-- A write at `now` that sets times to `now`, or to a delay from it. -/
theorem write (h : j.InOrder clock) (hc : clock ≤ now) (hcreated : j'.createdAt = j.createdAt)
    (hupdated : j'.updatedAt = now)
    (hlocked : ∀ t, j'.lockedAt = some t → t = now)
    (hpublished : ∀ t, j'.publishedAt = some t → t = now ∨ j.publishedAt = some t)
    (hcompleted : ∀ t, j'.completedAt = some t → t = now ∨ j.completedAt = some t)
    (havailable : j'.availableAt = j.availableAt ∨
      now ≤ j'.availableAt ∧ j'.availableAt ≤ now + seconds 61) : j'.InOrder now := by
  have hnow : j.createdAt ≤ now := h.created.trans (h.updated.trans hc)
  have hup : j.updatedAt ≤ now := h.updated.trans hc
  have htime : ∀ {old : Option Time} {t : Time},
      (∀ t, old = some t → j.createdAt ≤ t ∧ t ≤ j.updatedAt) → t = now ∨ old = some t →
        j'.createdAt ≤ t ∧ t ≤ j'.updatedAt := by
    rintro old t hold (rfl | ht) <;> rw [hcreated, hupdated]
    · exact ⟨hnow, le_rfl⟩
    · exact ⟨(hold t ht).1, (hold t ht).2.trans hup⟩
  refine ⟨by rw [hcreated, hupdated]; exact hnow, hupdated.le, fun t ht => ?_, fun t ht => ?_,
    fun t ht => ?_, ?_⟩
  · exact htime h.locked (Or.inl (hlocked t ht))
  · exact htime h.published (hpublished t ht)
  · exact htime h.completed (hcompleted t ht)
  · rw [hcreated, hupdated]
    rcases havailable with ha | ⟨hle, hlt⟩
    · rw [ha]
      exact ⟨h.available.1, h.available.2.trans (Int.add_le_add_right hup _)⟩
    · exact ⟨hnow.trans hle, hlt⟩

/-- The bookkeeping of a relay. -/
theorem recordPublications {db : Db} (hdb : ∀ j ∈ db.jobs, j.InOrder clock) (hc : clock ≤ now)
    (r : OwnerId) (published : List UUID) (failed : List ClaimedJob) (error : String)
    (jitter : Jitter) :
    ∀ j ∈ (Relay.recordPublications r published failed error jitter now db).jobs,
      j.InOrder now := by
  intro j' hj'
  have hfind := Relay.find?_recordPublications r published failed error jitter now db j'.id
  rw [Table.find?_key hj'] at hfind
  obtain ⟨j, hj, he⟩ := Option.map_eq_some_iff.1 hfind.symm
  have h := hdb j (Table.find?_eq_some.1 hj).1
  split_ifs at he <;> subst he
  · exact h.write hc rfl rfl (by simp [publishedRow]) (fun t ht => Or.inl (Option.some.inj ht).symm)
      (fun _ => Or.inr) (Or.inl rfl)
  · have hpos := Relay.calculateBackoff_pos (Relay.highestRetryCount failed) jitter
    exact h.write hc rfl rfl (by simp [publishRetryRow]) (fun _ => Or.inr) (fun _ => Or.inr)
      (Or.inr ⟨(Int.le_add_of_nonneg_right hpos.le),
        Int.add_le_add_left (calculateBackoff_le _ _) now⟩)
  · exact h.later hc

/-- Every write of a row but those of that bookkeeping. -/
theorem move (h : j.InOrder clock) (hc : clock ≤ now) (hm : RowMove s sys now j a es j')
    (ha : ∀ r error jitter, a ≠ .relayRecord r error jitter) : j'.InOrder now := by
  have hnow : ∀ t, some now = some t → t = now := fun t ht => (Option.some.inj ht).symm
  cases hm with
  | locked => exact h.write hc rfl rfl hnow (fun _ => Or.inr) (fun _ => Or.inr) (Or.inl rfl)
  | published => exact absurd rfl (ha _ _ _)
  | publishRetry => exact absurd rfl (ha _ _ _)
  | reclaimed =>
    refine h.write hc rfl rfl (by simp [reclaimRow]) (fun _ => Or.inr) (fun _ => Or.inr)
      (Or.inr ⟨le_rfl, ?_⟩)
    show now ≤ now + seconds 61
    simp [seconds]
  | expired =>
    exact h.write hc rfl rfl (by simp [markFailed]) (fun _ => Or.inr)
      (fun t ht => Or.inl (hnow t ht)) (Or.inl rfl)
  | claimed =>
    exact h.write hc rfl rfl hnow (fun _ => Or.inr) (fun _ => Or.inr) (Or.inl rfl)
  | recorded _ _ outcome =>
    cases outcome with
    | succeeded =>
      exact h.write hc rfl rfl (by simp [markCompleted]) (fun _ => Or.inr)
        (fun t ht => Or.inl (hnow t ht)) (Or.inl rfl)
    | providerTemporaryFailure =>
      have hpos := Relay.calculateBackoff_pos (j.deliveryAttempts + 1)
      exact h.write hc rfl rfl (by simp [markDeliveryRetry]) (fun _ => Or.inr) (fun _ => Or.inr)
        (Or.inr ⟨Int.le_add_of_nonneg_right (hpos _).le,
          Int.add_le_add_left (calculateBackoff_le _ _) now⟩)
    | _ =>
      exact h.write hc rfl rfl (by simp [markFailed]) (fun _ => Or.inr)
        (fun t ht => Or.inl (hnow t ht)) (Or.inl rfl)

end DispatchJob.InOrder

/-! ## Runs -/

namespace System

variable {s : Settings} {sys : System}

/-- A job that a request creates is created now. -/
theorem created_now {now : Time} {t : ApiTxn} {j : DispatchJob}
    (hj : j ∈ (t.apply s now sys.db).jobs) :
    j ∈ sys.db.jobs ∨ ∃ sub, sub.now = now ∧ j = newJob s sub := by
  rcases t.rows s now sys.db with ⟨-, hjobs⟩ | ⟨u, -, accepted⟩
  · exact Or.inl (hjobs ▸ hj)
  · rcases accepted.mem_jobs.1 hj with hj | ⟨sub, hsub, rfl⟩
    · exact Or.inl hj
    · exact Or.inr ⟨sub, submissions_now hsub, rfl⟩

/-- The row of a job before a step that does not create it. -/
theorem step_row {a : Time × Act} {j' : DispatchJob} (hj' : j' ∈ (sys.step s a).db.jobs) :
    j' ∈ sys.db.jobs ∨ (∃ t sub, a.2 = .api t ∧ j' = newJob s sub) ∨
      ∃ j ∈ sys.db.jobs, ∃ es, RowMove s sys a.1 j a.2 es j' := by
  obtain ⟨es, -, hmove⟩ := step_moves s sys a j'.id
  rw [Table.find?_key hj'] at hmove
  generalize hrow : sys.db.jobs.find? j'.id = row at hmove
  obtain ⟨now, a⟩ := a
  cases hmove with
  | same => exact Or.inl (Table.find?_eq_some.1 hrow).1
  | sent => exact Or.inl (Table.find?_eq_some.1 hrow).1
  | @created t sub _ => exact Or.inr (Or.inl ⟨t, sub, rfl, rfl⟩)
  | row move => exact Or.inr (Or.inr ⟨_, (Table.find?_eq_some.1 hrow).1, _, move⟩)

theorem step_columnsAgree (h : ∀ j ∈ sys.db.jobs, j.ColumnsAgree) (a : Time × Act) :
    ∀ j ∈ (sys.step s a).db.jobs, j.ColumnsAgree := by
  intro j' hj'
  rcases step_row hj' with hj | ⟨t, sub, -, rfl⟩ | ⟨j, hj, es, hm⟩
  · exact h j' hj
  · exact .newJob s sub
  · exact (h j hj).move hm

theorem step_inOrder {a : Time × Act} (ht : sys.OnTime a)
    (h : ∀ j ∈ sys.db.jobs, j.InOrder sys.clock) :
    ∀ j ∈ (sys.step s a).db.jobs, j.InOrder (sys.step s a).clock := by
  intro j' hj'
  obtain ⟨now, a⟩ := a
  show j'.InOrder now
  by_cases ha : ∀ r error jitter, a ≠ .relayRecord r error jitter
  · rcases step_row hj' with hj | ⟨t, sub, rfl, -⟩ | ⟨j, hj, es, hm⟩
    · exact (h j' hj).later ht
    · rcases created_now hj' with hj | ⟨sub, hnow, rfl⟩
      · exact (h j' hj).later ht
      · exact .newJob s hnow
    · exact (h j hj).move ht hm ha
  · obtain ⟨r, error, jitter, rfl⟩ : ∃ r error jitter, a = .relayRecord r error jitter := by
      simpa using ha
    replace hj' : j' ∈ (sys.relayRecord now r error jitter).db.jobs := hj'
    rcases sys.relayRecord_cases now r error jitter with hc | ⟨published, failed, _, hc⟩ <;>
      rw [hc] at hj'
    · exact (h j' hj').later ht
    · exact DispatchJob.InOrder.recordPublications h ht r published failed error jitter j' hj'

/-- The times of a message stay in order. -/
theorem step_messages {a : Time × Act} (ht : sys.OnTime a)
    (h : ∀ m ∈ sys.db.messages, m.createdAt ≤ m.updatedAt ∧ m.updatedAt ≤ sys.clock) :
    ∀ m ∈ (sys.step s a).db.messages,
      m.createdAt ≤ m.updatedAt ∧ m.updatedAt ≤ (sys.step s a).clock := by
  obtain ⟨es, hmove, -⟩ := step_moved s sys a
  show ∀ m ∈ (sys.step s a).db.messages, m.createdAt ≤ m.updatedAt ∧ m.updatedAt ≤ a.1
  have hlater : ∀ m ∈ sys.db.messages, m.createdAt ≤ m.updatedAt ∧ m.updatedAt ≤ a.1 :=
    fun m hm => ⟨(h m hm).1, (h m hm).2.trans ht⟩
  generalize (sys.step s a).db = db' at hmove ⊢
  obtain ⟨now, a⟩ := a
  cases hmove with
  | @api t =>
    intro m hm
    rcases t.rows s now sys.db with ⟨hmsg, -⟩ | ⟨u, -, accepted⟩
    · exact hlater m (hmsg ▸ hm)
    · rcases accepted.mem_messages.1 hm with hm | ⟨sub, hsub, rfl⟩
      · exact hlater m hm
      · obtain rfl := submissions_now hsub
        exact ⟨le_rfl, le_rfl⟩
  | jobs moved => exact hlater
  | @worker _ _ op job job' message message' db' written write =>
    rw [write.messages]
    refine Table.forall_mem_put hlater ?_
    obtain ⟨-, hm, -⟩ := written.found
    have hcreated : message'.createdAt = message.createdAt :=
      (congrArg Message.createdAt written.moved.message_original :)
    have hnow : message.createdAt ≤ now := (hlater message hm).1.trans (hlater message hm).2
    rw [hcreated]
    cases written with
    | claimed claimable in_time =>
      dsimp only [MessageRepository.markDispatching]
      split_ifs
      -- a worker that takes over leaves the row as it is
      · exact hlater message hm
      · exact ⟨hnow, le_rfl⟩
    | expired => exact ⟨hnow, le_rfl⟩
    | recorded held outcome =>
      have hupdated : message'.updatedAt = now := by
        cases outcome <;> rfl
      rw [hupdated]
      exact ⟨hnow, le_rfl⟩

end System

/-- The shape of the rows, in every run of atomic transactions with one reading of the clock each.
The columns of each job go with its status; and where the clock does not go back the times of each
row are in order, so that no write of the run violates `updated_at >= created_at`. -/
theorem rows_shaped (s : Settings) (acts : List (Time × Act)) :
    let sys := System.after s acts
    (∀ j ∈ sys.db.jobs, j.ColumnsAgree) ∧
      (AllSteps (System.step s) System.OnTime {} acts → (∀ j ∈ sys.db.jobs, j.InOrder sys.clock) ∧
        ∀ m ∈ sys.db.messages, m.createdAt ≤ m.updatedAt ∧ m.updatedAt ≤ sys.clock) := by
  intro sys
  refine ⟨?_, fun ht => ⟨?_, ?_⟩⟩
  · exact run_induction (P := fun sys : System => ∀ j ∈ sys.db.jobs, j.ColumnsAgree)
      (fun _ a h => System.step_columnsAgree h a) acts
      fun j hj => absurd hj (Table.not_mem_empty j)
  · exact AllSteps.invariant (P := fun sys : System => ∀ j ∈ sys.db.jobs, j.InOrder sys.clock)
      (fun _ _ ht h => System.step_inOrder ht h) acts ht
      fun j hj => absurd hj (Table.not_mem_empty j)
  · exact AllSteps.invariant (P := fun sys : System => ∀ m ∈ sys.db.messages,
      m.createdAt ≤ m.updatedAt ∧ m.updatedAt ≤ sys.clock)
      (fun _ _ ht h => System.step_messages ht h) acts ht
      fun m hm => absurd hm (Table.not_mem_empty m)

theorem rows_shaped_sample :
    let sys := System.after {} lastAttemptSample
    (sys.db.jobs.find? 20).isSome = true ∧ ∀ j ∈ sys.db.jobs, j.ColumnsAgree ∧ j.InOrder 1 := by
  intro sys
  have hshaped := rows_shaped {} lastAttemptSample
  exact ⟨by decide +kernel, fun j hj =>
    ⟨hshaped.1 j hj, (hshaped.2 (by decide +kernel)).1 j hj⟩⟩

end Abrio
