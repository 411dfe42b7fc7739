import Abrio.Jobs

/-!
# The relay

What a relay process does between its two transactions, and the transactions themselves :
the reaper's sweep, the claim of a batch, and the bookkeeping after the publications.
-/

open Relational

namespace Abrio

/-- `PriorityConfig`, with the bounds `Settings` validates. -/
structure PriorityConfig where
  priority : MessagePriority
  batchSize : ℕ
  perUserLimit : ℕ
  batchSize_pos : 0 < batchSize
  perUserLimit_pos : 0 < perUserLimit

/-- `_build_priority_configs`. -/
def Settings.priorityConfig (s : Settings) : MessagePriority → PriorityConfig
  | .express => ⟨.express, s.relayExpressBatchSize, s.relayExpressPerUserLimit,
      s.relayExpressBatchSize_pos, s.relayExpressPerUserLimit_pos⟩
  | .normal => ⟨.normal, s.relayNormalBatchSize, s.relayNormalPerUserLimit,
      s.relayNormalBatchSize_pos, s.relayNormalPerUserLimit_pos⟩

@[simp] theorem Settings.priority_priorityConfig (s : Settings) (p : MessagePriority) :
    (s.priorityConfig p).priority = p := by
  cases p <;> rfl

/-- What a relay keeps of a job it claimed. -/
structure ClaimedJob where
  id : UUID
  retryCount : ℕ
  deriving DecidableEq

namespace Relay

/-- `reclaim_stale_inflight`. -/
def reclaimStaleInflight (config : PriorityConfig) (scan : Scan DispatchJob) (now : Time)
    (db : Db) : Db × ℕ :=
  DispatchJobRepository.reclaimStaleInflight config.priority inflightLeaseSeconds reapLimit scan
    now db

/-- `claim_jobs`. -/
def claimJobs (config : PriorityConfig) (relayId : OwnerId)
    (scans : DispatchJobRepository.ClaimScans) (now : Time) (db : Db) : Db × List ClaimedJob :=
  let (db, jobs) := DispatchJobRepository.claimBatch config.priority relayId config.batchSize
    leaseSeconds config.perUserLimit scans now db
  (db, jobs.map fun job => ⟨job.id, job.retryCount⟩)

/-- The publication loop of `publish_claimed_jobs` : it stops at the first job the broker
does not accept, and that job and the rest have failed. -/
def publishLoop (accepts : UUID → Bool) : List ClaimedJob → List UUID × List ClaimedJob
  | [] => ([], [])
  | job :: jobs =>
    if accepts job.id then
      let (published, failed) := publishLoop accepts jobs
      (job.id :: published, failed)
    else ([], job :: jobs)

/-- `max(job.retry_count for job in failed_jobs)`. -/
def highestRetryCount (failed : List ClaimedJob) : ℕ :=
  (failed.map ClaimedJob.retryCount).foldl max 0

/-- The transaction of `publish_claimed_jobs`. -/
def recordPublications (relayId : OwnerId) (published : List UUID) (failed : List ClaimedJob)
    (error : String) (jitter : Jitter) (now : Time) (db : Db) : Db :=
  let db := DispatchJobRepository.markPublished published relayId now db
  if failed.isEmpty then db
  else DispatchJobRepository.markPublishRetry (failed.map ClaimedJob.id) relayId error
    (calculateBackoff (highestRetryCount failed) jitter) now db

end Relay

end Abrio
