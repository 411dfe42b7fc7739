import Abrio.Dispatch
import Abrio.Statements

/-!
# What the worker's transactions do

Both transactions of a worker end in one write of a message, its job and, for a recorded
outcome that ends the delivery, one balance operation (`DeliveryWrite`). `Claimed` lists
the two ways phase 1 writes and `Outcome` the five ways phase 3 does;
`claimForDelivery_ok` and `recordOutcome_ok` say that the transactions commit exactly
these. The invariants of the later modules read nothing else of `DispatchUseCase`.
-/

open Relational Runs

namespace Abrio

/-- The balance after an operation of a worker on a message of the given cost. -/
def BalanceOp.apply (cost : Cents) (b : Balance) : BalanceOp → Balance
  | .settle =>
    { b with reservedCredits := b.reservedCredits - cost, credits := b.credits - cost }
  | .release => { b with reservedCredits := b.reservedCredits - cost }

@[simp] theorem BalanceOp.apply_userId (cost : Cents) (b : Balance) (op : BalanceOp) :
    (op.apply cost b).userId = b.userId := by
  cases op <;> rfl

@[simp] theorem BalanceOp.apply_reservedCredits (cost : Cents) (b : Balance) (op : BalanceOp) :
    (op.apply cost b).reservedCredits = b.reservedCredits - cost := by
  cases op <;> rfl

/-- The balances after a worker's operation, if any, for `message`. -/
inductive BalanceWritten (message : Message) (balances : Table Balance.userId) :
    Option BalanceOp → Table Balance.userId → Prop
  | none : BalanceWritten message balances none balances
  | some (op : BalanceOp) (b : Balance) (cost_pos : 0 < message.cost)
      (found : balances.find? message.userId = .some b)
      (constrained : (op.apply message.cost b).Constrained) :
      BalanceWritten message balances (.some op) (balances.put (op.apply message.cost b))

/-- The state after a worker's write : one balance operation or none, `message` and
`job` over the rows with their ids, and nothing else. -/
structure DeliveryWrite (db : Db) (op : Option BalanceOp) (message : Message) (job : DispatchJob)
    (db' : Db) : Prop where
  users : db'.users = db.users
  balances : BalanceWritten message db.balances op db'.balances
  messages : db'.messages = db.messages.put message
  jobs : db'.jobs = db.jobs.put job
  storable : job.storable = true

namespace DeliveryWrite

variable {db db' : Db} {op : Option BalanceOp} {message : Message} {job : DispatchJob}

theorem of_op {o : BalanceOp} :
    DeliveryWrite db (some o) message job db' ↔ 0 < message.cost ∧
      ∃ b, db.balances.find? message.userId = some b ∧ (o.apply message.cost b).Constrained ∧
        job.storable = true ∧
        db' = { db with
          balances := db.balances.put (o.apply message.cost b)
          messages := db.messages.put message
          jobs := db.jobs.put job } := by
  constructor
  · rintro ⟨hu, hb, hm, hj, hs⟩
    generalize hdb : db'.balances = balances at hb
    rcases hb with _ | ⟨_, b, hc, hf, hcon⟩
    exact ⟨hc, b, hf, hcon, hs, Db.ext hu hdb hm hj⟩
  · rintro ⟨hc, b, hf, hcon, hs, rfl⟩
    exact ⟨rfl, .some o b hc hf hcon, rfl, rfl, hs⟩

theorem of_none :
    DeliveryWrite db none message job db' ↔ job.storable = true ∧
      db' = { db with messages := db.messages.put message, jobs := db.jobs.put job } := by
  constructor
  · rintro ⟨hu, hb, hm, hj, hs⟩
    generalize hdb : db'.balances = balances at hb
    cases hb
    exact ⟨hs, Db.ext hu hdb hm hj⟩
  · rintro ⟨hs, rfl⟩
    exact ⟨rfl, .none, rfl, rfl, hs⟩

end DeliveryWrite

namespace DispatchUseCase

open MessageRepository DispatchJobRepository

variable {cfg : DispatchConfig} {db db' : Db} {job : DispatchJob} {message : Message} {now : Time}

theorem permanentlyFail_ok {error : String} :
    permanentlyFail job message error now db = .ok db' ↔
      DeliveryWrite db (some .release) (markPermanentFailure now message)
        (markFailed error now job) db' := by
  simp only [permanentlyFail, bind_eq_ok, BalanceRepository.releaseCredits_ok, Db.writeBalance_ok,
    Db.writeJob_ok, DeliveryWrite.of_op]
  constructor
  · rintro ⟨_, ⟨hc, b, hf, rfl⟩, _, ⟨hcon, rfl⟩, hs, rfl⟩
    exact ⟨hc, b, hf, hcon, hs, rfl⟩
  · rintro ⟨hc, b, hf, hcon, hs, rfl⟩
    exact ⟨_, ⟨hc, b, hf, rfl⟩, _, ⟨hcon, rfl⟩, hs, rfl⟩

theorem recordSuccess_ok {providerMessageId : String} :
    recordSuccess job message providerMessageId now db = .ok db' ↔
      DeliveryWrite db (some .settle) (markSent now message)
        (markCompleted providerMessageId now job) db' := by
  simp only [recordSuccess, bind_eq_ok, BalanceRepository.settle_ok, Db.writeBalance_ok,
    Db.writeJob_ok, DeliveryWrite.of_op]
  constructor
  · rintro ⟨_, ⟨hc, b, hf, rfl⟩, _, ⟨hcon, rfl⟩, hs, rfl⟩
    exact ⟨hc, b, hf, hcon, hs, rfl⟩
  · rintro ⟨hc, b, hf, hcon, hs, rfl⟩
    exact ⟨_, ⟨hc, b, hf, rfl⟩, _, ⟨hcon, rfl⟩, hs, rfl⟩

theorem recordRetry_ok {error : String} {delay : Time} :
    recordRetry job message error delay now db = .ok db' ↔
      DeliveryWrite db none (markRetryableFailure now message)
        (markDeliveryRetry error delay now job) db' := by
  rw [recordRetry, Db.writeJob_ok, DeliveryWrite.of_none, Db.writeMessage]

/-! ## Phase 1 -/

/-- A job that phase 1 goes on with, with its message. -/
structure Claimable (cfg : DispatchConfig) (db : Db) (jobId : UUID) (now : Time)
    (job : DispatchJob) (message : Message) : Prop where
  job_found : db.jobs.find? jobId = some job
  not_terminal : job.status.terminal = false
  claimable : isClaimable cfg now job = true
  message_found : db.messages.find? job.messageId = some message
  reserved : message.paymentStatus = .reserved

/-- What phase 1 writes. -/
inductive Claimed (cfg : DispatchConfig) (workerId : OwnerId) (now : Time) (job : DispatchJob)
    (message : Message) : Claim → Option BalanceOp → Message → DispatchJob → Prop
  | expired (exceeded : expressDeadlineExceeded cfg now message 0 = true) :
      Claimed cfg workerId now job message (.expired message.id) (some .release)
        (markPermanentFailure now message)
        (markFailed "Express delivery deadline exceeded" now job)
  | delivery (in_time : expressDeadlineExceeded cfg now message 0 = false) :
      Claimed cfg workerId now job message
        (.delivery ⟨message.id, message.recipient, message.body, message.priority⟩) none
        (MessageRepository.markDispatching now message)
        (DispatchJobRepository.markDispatching workerId now job)

/-- Phase 1 commits nothing, or one of the writes of `Claimed` for a claimable job. -/
theorem claimForDelivery_ok {jobId : UUID} {workerId : OwnerId} {claim : Claim}
    (h : claimForDelivery cfg jobId workerId now db = .ok (db', claim)) :
    (claim = .nothing ∧ db' = db) ∨
      ∃ job message op message' job', Claimable cfg db jobId now job message ∧
        Claimed cfg workerId now job message claim op message' job' ∧
        DeliveryWrite db op message' job' db' := by
  unfold claimForDelivery at h
  cases hj : db.jobs.find? jobId with
  | none =>
    simp only [hj, Except.ok.injEq, Prod.mk.injEq] at h
    exact Or.inl ⟨h.2.symm, h.1.symm⟩
  | some job =>
    simp only [hj] at h
    split_ifs at h with ht hc
    · cases h
      exact Or.inl ⟨rfl, rfl⟩
    · cases h
      exact Or.inl ⟨rfl, rfl⟩
    · obtain ⟨message, hm, h⟩ := bind_eq_ok.1 h
      rw [MessageRepository.getForUpdate_ok] at hm
      split_ifs at h with hp hx
      · obtain ⟨db₁, hw, h⟩ := bind_eq_ok.1 h
        cases h
        exact Or.inr ⟨job, message, _, _, _,
          ⟨hj, by simpa using ht, by simpa using hc, hm, by simpa using hp⟩, .expired hx,
          permanentlyFail_ok.1 hw⟩
      · obtain ⟨db₁, hw, h⟩ := bind_eq_ok.1 h
        cases h
        exact Or.inr ⟨job, message, _, _, _,
          ⟨hj, by simpa using ht, by simpa using hc, hm, by simpa using hp⟩,
          .delivery (by simpa using hx), DeliveryWrite.of_none.2 (Db.writeJob_ok.1 hw)⟩

/-- For a claimable job phase 1 commits the write of `Claimed` that applies. -/
theorem claimForDelivery_of_claimable {jobId : UUID} {workerId : OwnerId} {claim : Claim}
    {op : Option BalanceOp} {message' : Message} {job' : DispatchJob}
    (hc : Claimable cfg db jobId now job message)
    (hw : Claimed cfg workerId now job message claim op message' job')
    (h : DeliveryWrite db op message' job' db') :
    claimForDelivery cfg jobId workerId now db = .ok (db', claim) := by
  have hm := MessageRepository.getForUpdate_ok.2 hc.message_found
  unfold claimForDelivery
  simp only [hc.job_found, hc.not_terminal, hc.claimable, hm]
  cases hw with
  | expired hx =>
    simp [bind, Except.bind, hc.reserved, hx, permanentlyFail_ok.2 h, pure, Except.pure]
  | delivery hx =>
    have hj : (db.writeMessage (MessageRepository.markDispatching now message)).writeJob
        (DispatchJobRepository.markDispatching workerId now job) = .ok db' :=
      Db.writeJob_ok.2 (DeliveryWrite.of_none.1 h)
    simp [bind, Except.bind, hc.reserved, hx, hj, pure, Except.pure]

/-! ## Phase 3 -/

/-- What phase 3 writes. -/
inductive Outcome (cfg : DispatchConfig) (result : ProviderResult) (jitter : Jitter) (now : Time)
    (job : DispatchJob) (message : Message) : Recorded → Message → DispatchJob → Prop
  | succeeded (providerMessageId : String) (success : result.outcome = .success)
      (provider_id : result.providerMessageId = some providerMessageId) :
      Outcome cfg result jitter now job message .succeeded (markSent now message)
        (markCompleted providerMessageId now job)
  | providerPermanentFailure (failed : result.outcome = .permanentFailure) :
      Outcome cfg result jitter now job message .providerPermanentFailure
        (markPermanentFailure now message)
        (markFailed (result.errorOr "Permanent provider failure") now job)
  | maxDeliveryAttemptsReached (failed : result.outcome = .temporaryFailure)
      (attempts : cfg.maxDeliveryAttempts ≤ job.deliveryAttempts + 1) :
      Outcome cfg result jitter now job message .maxDeliveryAttemptsReached
        (markPermanentFailure now message)
        (markFailed (result.errorOr "Maximum delivery attempts reached") now job)
  | expressDeadlineExceeded (failed : result.outcome = .temporaryFailure)
      (attempts : job.deliveryAttempts + 1 < cfg.maxDeliveryAttempts)
      (exceeded : expressDeadlineExceeded cfg now message
        (calculateBackoff (job.deliveryAttempts + 1) jitter) = true) :
      Outcome cfg result jitter now job message .expressDeadlineExceeded
        (markPermanentFailure now message)
        (markFailed "Express delivery deadline would be exceeded before next retry" now job)
  | providerTemporaryFailure (failed : result.outcome = .temporaryFailure)
      (attempts : job.deliveryAttempts + 1 < cfg.maxDeliveryAttempts)
      (in_time : expressDeadlineExceeded cfg now message
        (calculateBackoff (job.deliveryAttempts + 1) jitter) = false) :
      Outcome cfg result jitter now job message .providerTemporaryFailure
        (markRetryableFailure now message)
        (markDeliveryRetry (result.errorOr "Temporary provider failure")
          (calculateBackoff (job.deliveryAttempts + 1) jitter) now job)

theorem recordTemporaryFailure_ok {result : ProviderResult} {jitter : Jitter} {recorded : Recorded}
    (hr : result.outcome = .temporaryFailure)
    (h : recordTemporaryFailure cfg job message result jitter now db = .ok (db', recorded)) :
    ∃ message' job', Outcome cfg result jitter now job message recorded message' job' ∧
      DeliveryWrite db recorded.balanceOp message' job' db' := by
  unfold recordTemporaryFailure at h
  dsimp only at h
  split_ifs at h with ha hx
  · obtain ⟨db₁, hw, h⟩ := bind_eq_ok.1 h
    cases h
    exact ⟨_, _, .maxDeliveryAttemptsReached hr ha, permanentlyFail_ok.1 hw⟩
  · obtain ⟨db₁, hw, h⟩ := bind_eq_ok.1 h
    cases h
    exact ⟨_, _, .expressDeadlineExceeded hr (not_le.1 ha) hx, permanentlyFail_ok.1 hw⟩
  · obtain ⟨db₁, hw, h⟩ := bind_eq_ok.1 h
    cases h
    exact ⟨_, _, .providerTemporaryFailure hr (not_le.1 ha) (by simpa using hx),
      recordRetry_ok.1 hw⟩

theorem recordHeld_ok {result : ProviderResult} {jitter : Jitter} {recorded : Recorded}
    (h : recordHeld cfg job message result jitter now db = .ok (db', recorded)) :
    ∃ message' job', Outcome cfg result jitter now job message recorded message' job' ∧
      DeliveryWrite db recorded.balanceOp message' job' db' := by
  unfold recordHeld at h
  cases hr : result.outcome with
  | success =>
    simp only [hr] at h
    cases hp : result.providerMessageId with
    | none => simp [hp] at h
    | some providerMessageId =>
      simp only [hp] at h
      obtain ⟨db₁, hw, h⟩ := bind_eq_ok.1 h
      cases h
      exact ⟨_, _, .succeeded _ hr hp, recordSuccess_ok.1 hw⟩
  | permanentFailure =>
    simp only [hr] at h
    obtain ⟨db₁, hw, h⟩ := bind_eq_ok.1 h
    cases h
    exact ⟨_, _, .providerPermanentFailure hr, permanentlyFail_ok.1 hw⟩
  | temporaryFailure =>
    simp only [hr] at h
    exact recordTemporaryFailure_ok hr h

/-- A job whose delivery lease `workerId` holds, with its message. -/
structure Held (db : Db) (jobId : UUID) (workerId : OwnerId) (job : DispatchJob)
    (message : Message) : Prop where
  job_found : db.jobs.find? jobId = some job
  dispatching : job.status = .dispatching
  locked_by : job.lockedBy = some workerId
  message_found : db.messages.find? job.messageId = some message

/-- Phase 3 commits nothing, or one of the writes of `Outcome` for a job it holds. -/
theorem recordOutcome_ok {jobId : UUID} {workerId : OwnerId} {result : ProviderResult}
    {jitter : Jitter} {recorded : Option (UUID × Recorded)}
    (h : recordOutcome cfg jobId workerId result jitter now db = .ok (db', recorded)) :
    (recorded = none ∧ db' = db) ∨
      ∃ job message r message' job', recorded = some (message.id, r) ∧
        Held db jobId workerId job message ∧
        Outcome cfg result jitter now job message r message' job' ∧
        DeliveryWrite db r.balanceOp message' job' db' := by
  unfold recordOutcome at h
  cases hj : db.jobs.find? jobId with
  | none =>
    simp only [hj, Except.ok.injEq, Prod.mk.injEq] at h
    exact Or.inl ⟨h.2.symm, h.1.symm⟩
  | some job =>
    simp only [hj] at h
    split_ifs at h with hl
    · cases h
      exact Or.inl ⟨rfl, rfl⟩
    · rw [not_or, not_not, not_not] at hl
      obtain ⟨message, hm, h⟩ := bind_eq_ok.1 h
      obtain ⟨⟨db₁, r⟩, hr, h⟩ := bind_eq_ok.1 h
      cases h
      obtain ⟨message', job', ho, hw⟩ := recordHeld_ok hr
      exact Or.inr ⟨job, message, r, message', job', rfl,
        ⟨hj, hl.1, hl.2, MessageRepository.getForUpdate_ok.1 hm⟩, ho, hw⟩

/-- For a job that is held phase 3 commits the write of `Outcome` that applies. -/
theorem recordOutcome_of_outcome {jobId : UUID} {workerId : OwnerId} {result : ProviderResult}
    {jitter : Jitter} {r : Recorded} {message' : Message} {job' : DispatchJob}
    (hh : Held db jobId workerId job message)
    (ho : Outcome cfg result jitter now job message r message' job')
    (h : DeliveryWrite db r.balanceOp message' job' db') :
    recordOutcome cfg jobId workerId result jitter now db = .ok (db', some (message.id, r)) := by
  have hm := MessageRepository.getForUpdate_ok.2 hh.message_found
  unfold recordOutcome
  simp only [hh.job_found, hh.dispatching, hh.locked_by, hm]
  cases ho with
  | succeeded providerMessageId success provider_id =>
    simp [bind, Except.bind, recordHeld, success, provider_id, recordSuccess_ok.2 h, pure,
      Except.pure]
  | providerPermanentFailure failed =>
    simp [bind, Except.bind, recordHeld, failed, permanentlyFail_ok.2 h, pure, Except.pure]
  | maxDeliveryAttemptsReached failed attempts =>
    simp [bind, Except.bind, recordHeld, recordTemporaryFailure, failed, attempts,
      permanentlyFail_ok.2 h, pure, Except.pure]
  | expressDeadlineExceeded failed attempts exceeded =>
    simp [bind, Except.bind, recordHeld, recordTemporaryFailure, failed, not_le.2 attempts,
      exceeded, permanentlyFail_ok.2 h, pure, Except.pure]
  | providerTemporaryFailure failed attempts in_time =>
    simp [bind, Except.bind, recordHeld, recordTemporaryFailure, failed, not_le.2 attempts,
      in_time, recordRetry_ok.2 h, pure, Except.pure]

end DispatchUseCase

end Abrio
