import Abrio.Balances
import Abrio.Jobs

/-!
# Delivery

The two transactions of `DispatchUseCase.process`. `claimForDelivery` is phase 1 and
`recordOutcome` is phase 3; between them the worker calls the provider. Each takes one
clock reading. What they return beside the state is what the worker goes on with : the
delivery context, or the outcome it counts in its metrics.
-/

open Relational Runs

namespace Abrio

/-! ## The provider -/

/-- How a provider answers. -/
inductive ProviderOutcome
  | success
  | temporaryFailure
  | permanentFailure
  deriving DecidableEq, Repr

/-- An answer of a provider. -/
structure ProviderResult where
  outcome : ProviderOutcome
  providerMessageId : Option String := none
  error : Option String := none
  deriving DecidableEq

/-- `result.error or fallback`. -/
def ProviderResult.errorOr (result : ProviderResult) (fallback : String) : String :=
  match result.error with
  | some error => if error.toList.isEmpty then fallback else error
  | none => fallback

/-- `_DeliveryContext` : what the provider call needs. -/
structure DeliveryContext where
  messageId : UUID
  recipient : String
  body : String
  priority : MessagePriority
  deriving DecidableEq

/-- What the outcome transaction recorded, by the `error_type` it logs. -/
inductive Recorded
  | succeeded
  | providerPermanentFailure
  | maxDeliveryAttemptsReached
  | expressDeadlineExceeded
  | providerTemporaryFailure
  deriving DecidableEq, Repr

/-- The balance operations of the worker. -/
inductive BalanceOp
  | settle
  | release
  deriving DecidableEq, Repr

/-- The balance operation of a recorded outcome. -/
def Recorded.balanceOp : Recorded → Option BalanceOp
  | .succeeded => some .settle
  | .providerTemporaryFailure => none
  | _ => some .release

/-- What phase 1 ends with : nothing to deliver, a message finalised as expired, or a
delivery to make. -/
inductive Claim
  | nothing
  | expired (messageId : UUID)
  | delivery (context : DeliveryContext)
  deriving DecidableEq

/-! ## The use case -/

/-- What a worker is configured with. Only express workers have a deadline. -/
structure DispatchConfig where
  maxDeliveryAttempts : ℕ := 5
  expressTtlSeconds : Option ℕ := none
  workerLeaseSeconds : ℤ := Abrio.workerLeaseSeconds

/-- The use case as `process_dispatch_job` builds it. -/
def Settings.dispatchConfig (s : Settings) : DispatchConfig where
  maxDeliveryAttempts := s.maxDeliveryAttempts
  expressTtlSeconds := some s.expressTtlSeconds

namespace DispatchUseCase

variable (cfg : DispatchConfig)

/-- `_is_claimable` : the lease of a delivery has run out, the job is published, or a relay has
locked it and its task came before the bookkeeping. -/
def isClaimable (now : Time) (job : DispatchJob) : Bool :=
  match job.status with
  | .dispatching => !job.lockedAt.any fun t => now - seconds cfg.workerLeaseSeconds < t
  | .published => true
  | .pending => job.lockedAt.isSome && job.lockedBy.isSome
  | .retry => job.lockedAt.isSome && job.lockedBy.isSome
  | _ => false

/-- `_express_deadline_exceeded`, `ahead` from now. -/
def expressDeadlineExceeded (now : Time) (message : Message) (ahead : Time) : Bool :=
  match cfg.expressTtlSeconds with
  | none => false
  | some ttl => message.priority = .express && seconds ttl < now - message.createdAt + ahead

/-- `_permanently_fail` with the flush of the commit. -/
def permanentlyFail (job : DispatchJob) (message : Message) (error : String) (now : Time)
    (db : Db) : Except Exn Db := do
  let balance ← BalanceRepository.releaseCredits db message.userId message.cost
  let db ← db.writeBalance balance
  let db := db.writeMessage (MessageRepository.markPermanentFailure now message)
  db.writeJob (DispatchJobRepository.markFailed error now job)

/-- `_claim_for_delivery`. -/
def claimForDelivery (jobId : UUID) (workerId : OwnerId) (now : Time) (db : Db) :
    Except Exn (Db × Claim) :=
  match db.jobs.find? jobId with
  | none => .ok (db, .nothing)
  | some job =>
    if job.status.terminal then .ok (db, .nothing)
    else if !isClaimable cfg now job then .ok (db, .nothing)
    else do
      let message ← MessageRepository.getForUpdate db job.messageId
      if message.paymentStatus ≠ .reserved then
        .error (.runtime .paymentNotReserved)
      else if expressDeadlineExceeded cfg now message 0 then
        let db ← permanentlyFail job message "Express delivery deadline exceeded" now db
        return (db, .expired message.id)
      else
        let db := db.writeMessage (MessageRepository.markDispatching now message)
        let db ← db.writeJob (DispatchJobRepository.markDispatching workerId now job)
        return (db, .delivery
          { messageId := message.id
            recipient := message.recipient
            body := message.body
            priority := message.priority })

/-- The success branch of `_record_outcome`. -/
def recordSuccess (job : DispatchJob) (message : Message) (providerMessageId : String)
    (now : Time) (db : Db) : Except Exn Db := do
  let balance ← BalanceRepository.settle db message.userId message.cost
  let db ← db.writeBalance balance
  let db := db.writeMessage (MessageRepository.markSent now message)
  db.writeJob (DispatchJobRepository.markCompleted providerMessageId now job)

/-- The retry branch of `_record_outcome`. -/
def recordRetry (job : DispatchJob) (message : Message) (error : String) (delay now : Time)
    (db : Db) : Except Exn Db :=
  let db := db.writeMessage (MessageRepository.markRetryableFailure now message)
  db.writeJob (DispatchJobRepository.markDeliveryRetry error delay now job)

/-- The temporary-failure branch of `_record_outcome`. -/
def recordTemporaryFailure (job : DispatchJob) (message : Message) (result : ProviderResult)
    (jitter : Jitter) (now : Time) (db : Db) : Except Exn (Db × Recorded) :=
  let nextAttempt := job.deliveryAttempts + 1
  if cfg.maxDeliveryAttempts ≤ nextAttempt then do
    let error := result.errorOr "Maximum delivery attempts reached"
    let db ← permanentlyFail job message error now db
    return (db, .maxDeliveryAttemptsReached)
  else
    let delay := calculateBackoff nextAttempt jitter
    if expressDeadlineExceeded cfg now message delay then do
      let error := "Express delivery deadline would be exceeded before next retry"
      let db ← permanentlyFail job message error now db
      return (db, .expressDeadlineExceeded)
    else do
      let error := result.errorOr "Temporary provider failure"
      let db ← recordRetry job message error delay now db
      return (db, .providerTemporaryFailure)

/-- `_record_outcome` once the lease is known to be held. -/
def recordHeld (job : DispatchJob) (message : Message) (result : ProviderResult)
    (jitter : Jitter) (now : Time) (db : Db) : Except Exn (Db × Recorded) :=
  match result.outcome with
  | .success =>
    match result.providerMessageId with
    | none => .error (.runtime .noProviderMessageId)
    | some providerMessageId => do
      let db ← recordSuccess job message providerMessageId now db
      return (db, .succeeded)
  | .permanentFailure => do
    let error := result.errorOr "Permanent provider failure"
    let db ← permanentlyFail job message error now db
    return (db, .providerPermanentFailure)
  | .temporaryFailure => recordTemporaryFailure cfg job message result jitter now db

/-- `_record_outcome` : the recorded outcome with the message it is about, or `none` when
the lease was lost and nothing is written. -/
def recordOutcome (jobId : UUID) (workerId : OwnerId) (result : ProviderResult) (jitter : Jitter)
    (now : Time) (db : Db) : Except Exn (Db × Option (UUID × Recorded)) :=
  match db.jobs.find? jobId with
  | none => .ok (db, none)
  | some job =>
    if job.status ≠ .dispatching ∨ job.lockedBy ≠ some workerId then .ok (db, none)
    else do
      let message ← MessageRepository.getForUpdate db job.messageId
      let (db, recorded) ← recordHeld cfg job message result jitter now db
      return (db, some (message.id, recorded))

end DispatchUseCase

end Abrio
