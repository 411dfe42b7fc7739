import Abrio.Library.Query
import Abrio.Messages

/-!
# The dispatch job repository

Row functions and statements on `dispatch_jobs`. The two queries of `claim_batch` take the
rows that other open transactions have locked, which `SKIP LOCKED` passes over; run as one
transaction on its own, `claimBatch` has none. The reaper's statement is its sub-select
(`staleJobs`) followed by an update of the selected ids.
-/

open Relational

namespace Abrio

namespace DispatchJobRepository

/-- `create`, with the defaults of the columns that it leaves out. -/
def create (id : UUID) (now : Time) (messageId : UUID) (priority : MessagePriority)
    (payload : MessageDict) : DispatchJob where
  id := id
  messageId := messageId
  userId := payload.userId
  payload :=
    { messageId := messageId
      userId := payload.userId
      recipient := payload.recipient
      body := payload.body
      priority := priority
      cost := payload.cost }
  priority := priority
  availableAt := now
  createdAt := now

/-! ## Claiming -/

/-- `status IN (PENDING, RETRY)`. -/
def publishable (j : DispatchJob) : Bool :=
  j.status = .pending ∨ j.status = .retry

/-- `_eligible_clause`. -/
def eligible (priority : MessagePriority) (now staleBefore : Time) (j : DispatchJob) : Bool :=
  j.priority = priority && publishable j && j.availableAt ≤ now &&
    j.lockedAt.all fun t => t < staleBefore

/-- `ORDER BY available_at, created_at`. -/
def dueLE (j k : DispatchJob) : Prop :=
  j.availableAt < k.availableAt ∨ (j.availableAt = k.availableAt ∧ j.createdAt ≤ k.createdAt)

instance : DecidableRel dueLE := fun _ _ => inferInstanceAs (Decidable (_ ∨ _))

/-- `ORDER BY rn, id`. -/
def rankLE (a b : DispatchJob × ℕ) : Prop :=
  a.2 < b.2 ∨ (a.2 = b.2 ∧ a.1.id ≤ b.1.id)

instance : DecidableRel rankLE := fun _ _ => inferInstanceAs (Decidable (_ ∨ _))

/-- The scans of the three queries of `claim_batch` whose order has ties. -/
structure ClaimScans where
  ranked : Scan DispatchJob := .stored
  fair : Scan DispatchJob := .stored
  topup : Scan DispatchJob := .stored

/-- The ids of the fairness pass : each user's due jobs numbered by age, at most
`perUserLimit` of each, every user's oldest first. -/
def fairIds (elig : DispatchJob → Bool) (limit perUserLimit : ℕ) (scan : Scan DispatchJob)
    (rows : List DispatchJob) : List UUID :=
  let ranked := rowNumbers DispatchJob.userId [] (orderBy dueLE scan (rows.filter elig))
  (((ranked.filter fun a => a.2 ≤ perUserLimit).insertionSort rankLE).take limit).map (·.1.id)

/-- The fairness pass, which checks the clause again on the rows it locks. -/
def fairQuery (elig : DispatchJob → Bool) (ids locked : List UUID) (scan : Scan DispatchJob)
    (rows : List DispatchJob) : List DispatchJob :=
  orderBy dueLE scan (rows.filter fun j => j.id ∈ ids && elig j && j.id ∉ locked)

/-- The top-up pass : the oldest due jobs that are not claimed yet. -/
def topupQuery (elig : DispatchJob → Bool) (claimed locked : List UUID) (remaining : ℕ)
    (scan : Scan DispatchJob) (rows : List DispatchJob) : List DispatchJob :=
  (orderBy dueLE scan (rows.filter fun j => elig j && j.id ∉ claimed && j.id ∉ locked)).take
    remaining

/-- The rows `claim_batch` returns, before it locks them. -/
def claimRows (priority : MessagePriority) (limit perUserLimit : ℕ) (leaseSeconds : ℤ)
    (scans : ClaimScans) (now : Time) (rows : List DispatchJob) : List DispatchJob :=
  let elig := eligible priority now (now - seconds leaseSeconds)
  let fair := fairQuery elig (fairIds elig limit perUserLimit scans.ranked rows) [] scans.fair rows
  fair ++ topupQuery elig (fair.map (·.id)) [] (limit - fair.length) scans.topup rows

/-- A claimed job : locked by the relay from now on. -/
def lockRow (relayId : OwnerId) (now : Time) (j : DispatchJob) : DispatchJob :=
  { j with lockedAt := some now, lockedBy := some relayId, updatedAt := now }

/-- `claim_batch` : the jobs are locked for the relay, and returned as they then are. -/
def claimBatch (priority : MessagePriority) (relayId : OwnerId) (limit : ℕ) (leaseSeconds : ℤ)
    (perUserLimit : ℕ) (scans : ClaimScans) (now : Time) (db : Db) : Db × List DispatchJob :=
  let jobs := claimRows priority limit perUserLimit leaseSeconds scans now db.jobs.rows
  ({ db with
      jobs := db.jobs.updateWhere (fun j => j.id ∈ jobs.map (·.id)) (lockRow relayId now)
        fun _ _ => rfl },
    jobs.map (lockRow relayId now))

/-! ## Reaping -/

/-- The clause of the reaper's sub-select. -/
def staleInflight (staleBefore : Time) (j : DispatchJob) : Bool :=
  (j.status = .published && j.publishedAt.any fun t => t < staleBefore) ||
    (j.status = .dispatching && j.lockedAt.any fun t => t < staleBefore)

/-- The reaper's sub-select, which fixes no order. -/
def staleJobs (priority : MessagePriority) (leaseSeconds : ℤ) (limit : ℕ)
    (scan : Scan DispatchJob) (now : Time) (rows : List DispatchJob) : List DispatchJob :=
  ((scan.visit rows).filter fun j =>
    j.priority = priority && staleInflight (now - seconds leaseSeconds) j).take limit

/-- The values the reaper's update sets. -/
def reclaimRow (now : Time) (j : DispatchJob) : DispatchJob :=
  { j with
    status := .retry
    deliveryAttempts := j.deliveryAttempts + 1
    availableAt := now
    lockedAt := none
    lockedBy := none
    lastError := some "reclaimed: stale in-flight lease expired"
    updatedAt := now }

/-- The reaper's `UPDATE … WHERE id IN ids`. -/
def reclaimIds (ids : List UUID) (now : Time) (db : Db) : Db :=
  { db with jobs := db.jobs.updateWhere (fun j => j.id ∈ ids) (reclaimRow now) fun _ _ => rfl }

/-- `reclaim_stale_inflight`, with the number of its jobs. -/
def reclaimStaleInflight (priority : MessagePriority) (leaseSeconds : ℤ) (limit : ℕ)
    (scan : Scan DispatchJob) (now : Time) (db : Db) : Db × ℕ :=
  let stale := staleJobs priority leaseSeconds limit scan now db.jobs.rows
  (reclaimIds (stale.map (·.id)) now db, stale.length)

/-! ## Publication bookkeeping -/

/-- `id IN ids`, locked by the relay, and not yet past the broker. -/
def heldBy (ids : List UUID) (relayId : OwnerId) (j : DispatchJob) : Bool :=
  j.id ∈ ids && j.lockedBy = some relayId && publishable j

/-- What the bookkeeping makes of a job that the broker has taken. -/
def publishedRow (now : Time) (j : DispatchJob) : DispatchJob :=
  { j with
    status := .published
    publishedAt := some now
    lockedAt := none
    lockedBy := none
    lastError := none
    updatedAt := now }

/-- `mark_published`, of the jobs the relay still holds. -/
def markPublished (ids : List UUID) (relayId : OwnerId) (now : Time) (db : Db) : Db :=
  if ids.isEmpty then db
  else { db with
    jobs := db.jobs.updateWhere (heldBy ids relayId) (publishedRow now) fun _ _ => rfl }

/-- `error[:2000]`. -/
def truncateError (error : String) : String :=
  String.ofList (error.toList.take 2000)

/-- What it makes of a job that the broker has refused. -/
def publishRetryRow (now delay : Time) (error : String) (j : DispatchJob) : DispatchJob :=
  { j with
    status := .retry
    retryCount := j.retryCount + 1
    availableAt := now + delay
    lockedAt := none
    lockedBy := none
    lastError := some (truncateError error)
    updatedAt := now }

/-- `mark_publish_retry`, of the jobs the relay still holds. -/
def markPublishRetry (ids : List UUID) (relayId : OwnerId) (error : String) (delay now : Time)
    (db : Db) : Db :=
  if ids.isEmpty then db
  else { db with
    jobs := db.jobs.updateWhere (heldBy ids relayId) (publishRetryRow now delay error)
      fun _ _ => rfl }

/-! ## Delivery bookkeeping -/

/-- `mark_dispatching` : the lease of the worker begins. -/
def markDispatching (workerId : OwnerId) (now : Time) (j : DispatchJob) : DispatchJob :=
  { j with
    status := .dispatching
    lockedAt := some now
    lockedBy := some workerId
    lastError := none
    updatedAt := now }

/-- `mark_completed`. -/
def markCompleted (providerMessageId : String) (now : Time) (j : DispatchJob) : DispatchJob :=
  { j with
    status := .completed
    providerMessageId := some providerMessageId
    completedAt := some now
    lockedAt := none
    lockedBy := none
    lastError := none
    updatedAt := now }

/-- `mark_delivery_retry` : one attempt more, and the job waits for `delay`. -/
def markDeliveryRetry (error : String) (delay now : Time) (j : DispatchJob) : DispatchJob :=
  { j with
    status := .retry
    deliveryAttempts := j.deliveryAttempts + 1
    availableAt := now + delay
    lockedAt := none
    lockedBy := none
    lastError := some (truncateError error)
    updatedAt := now }

/-- `mark_failed`. It does not count an attempt. -/
def markFailed (error : String) (now : Time) (j : DispatchJob) : DispatchJob :=
  { j with
    status := .failed
    completedAt := some now
    lockedAt := none
    lockedBy := none
    lastError := some (truncateError error)
    updatedAt := now }

end DispatchJobRepository

end Abrio
