import Abrio.Library.Metering
import Abrio.MessageLifecycle
import Abrio.PaymentMonitor
import Abrio.Publications

/-!
# The counters

What the processes add to the counters of `core/metrics.py`, and when : always after the commit
of the transaction an increment is about. A process may die between the commit and its
increments, and other processes go on meanwhile (`Runs.Metered`).

`counters_exact` says what the counters are worth. With what is still to be added or was lost with
a process, the submissions counted are the messages in the table, the outcomes those sent and
those given up, and the delivery retries the attempts the jobs have stored, each by priority. The
publication retries are at least those the jobs have stored : a relay counts a job it has tried,
also one another relay has taken from it.
-/

open Relational Runs

namespace Abrio

open DispatchJobRepository DispatchUseCase MessageUseCase

/-! ## Labels -/

/-- `SUBMISSION_TYPES`. -/
inductive SubmissionType
  | single
  | batch
  deriving DecidableEq, Repr

/-- `REJECTION_REASONS`. -/
inductive RejectionReason
  | rateLimited
  | globalRateLimited
  | systemRateLimited
  | insufficientBalance
  | invalidRequest
  | idempotencyConflict
  | databaseError
  deriving DecidableEq, Repr

/-- `OUTCOMES`. -/
inductive DeliveryOutcome
  | success
  | temporaryFailure
  | permanentFailure
  | unexpectedFailure
  deriving DecidableEq, Repr

/-- `RETRY_TYPES`. -/
inductive RetryType
  | publication
  | delivery
  deriving DecidableEq, Repr

/-- The counters of the messages, with their labels. -/
inductive Counter
  | messagesSubmitted (priority : MessagePriority) (submissionType : SubmissionType)
  | messageSubmissionRejected (reason : RejectionReason) (submissionType : SubmissionType)
  | idempotentReplays (submissionType : SubmissionType)
  | relayJobsPublished (priority : MessagePriority)
  | relayPublishFailures (priority : MessagePriority)
  | deliveryAttempts (priority : MessagePriority) (outcome : DeliveryOutcome)
  | dispatchRetries (priority : MessagePriority) (retryType : RetryType)
  deriving DecidableEq, Repr

/-! ## What is recorded -/

namespace Metrics

/-- `counter.inc(count)`, unless `count <= 0`. -/
def inc (counter : Counter) (count : ℕ) : List (Increment Counter) :=
  if count = 0 then [] else [⟨counter, count⟩]

/-- `record_messages_submitted`. -/
def recordMessagesSubmitted (priority : MessagePriority) (submissionType : SubmissionType)
    (count : ℕ) : List (Increment Counter) :=
  inc (.messagesSubmitted priority submissionType) count

/-- `record_submission_rejected`. -/
def recordSubmissionRejected (reason : RejectionReason) (submissionType : SubmissionType) :
    List (Increment Counter) :=
  [⟨.messageSubmissionRejected reason submissionType, 1⟩]

/-- `record_idempotent_replay`. -/
def recordIdempotentReplay (submissionType : SubmissionType) : List (Increment Counter) :=
  [⟨.idempotentReplays submissionType, 1⟩]

/-- `record_relay_publish`. -/
def recordRelayPublish (priority : MessagePriority) (count : ℕ) : List (Increment Counter) :=
  inc (.relayJobsPublished priority) count

/-- `record_relay_publish_failure`. -/
def recordRelayPublishFailure (priority : MessagePriority) (count : ℕ) :
    List (Increment Counter) :=
  inc (.relayPublishFailures priority) count

/-- `record_dispatch_retry`, for deliveries and for publications. -/
def recordDispatchRetry (priority : MessagePriority) (retryType : RetryType) (count : ℕ) :
    List (Increment Counter) :=
  inc (.dispatchRetries priority retryType) count

/-- `record_delivery_outcome`. The time since the submission is not modelled. -/
def recordDeliveryOutcome (priority : MessagePriority) (outcome : DeliveryOutcome) :
    List (Increment Counter) :=
  [⟨.deliveryAttempts priority outcome, 1⟩]

theorem tally_inc (counter c : Counter) (count : ℕ) :
    tally (inc counter count) c = if counter = c then count else 0 := by
  unfold inc
  split_ifs with h₀ h h
  · exact h₀.symm
  · rfl
  · rw [tally_singleton, if_pos h]
  · rw [tally_singleton, if_neg h]

end Metrics

open Metrics

namespace MessageUseCase

/-- What `create_message` records, by how its transaction ends. Only an `IntegrityError` is
caught, and a replay is counted once its message is read. -/
def createMessageRecords (payload : MessageRequest) (db : Db) :
    Except Exn (Db × Message) → List (Increment Counter)
  | .ok _ => recordMessagesSubmitted payload.priority .single 1
  | .error (.db (.uniqueViolation _)) =>
    match MessageRepository.getUserMessageByIdempotencyKey db payload.userId
      payload.idempotencyKey with
    | .ok _ => recordIdempotentReplay .single
    | .error _ => []
  | .error (.db (.foreignKeyViolation _)) => recordSubmissionRejected .invalidRequest .single
  | .error (.db (.checkViolation .checkCreditsGeReservedCredits)) =>
    recordSubmissionRejected .insufficientBalance .single
  | .error (.db (.checkViolation _)) => recordSubmissionRejected .databaseError .single
  | .error _ => []

/-- What `batch_create_message` records once its keys are distinct. -/
def batchCreateMessageTxRecords (payload : BatchMessageRequest) :
    Except Exn (Db × List Message) → List (Increment Counter)
  | .ok _ => (counts (payload.messages.map (·.priority))).flatMap fun i =>
    recordMessagesSubmitted i.counter .batch i.amount
  | .error (.db (.uniqueViolation _)) => recordSubmissionRejected .idempotencyConflict .batch
  | .error (.db (.foreignKeyViolation _)) => recordSubmissionRejected .invalidRequest .batch
  | .error (.db (.checkViolation .checkCreditsGeReservedCredits)) =>
    recordSubmissionRejected .insufficientBalance .batch
  | .error (.db (.checkViolation _)) => recordSubmissionRejected .databaseError .batch
  | .error _ => []

/-- What `batch_create_message` records. -/
def batchCreateMessageRecords (s : Settings) (payload : BatchMessageRequest) (ids : ℕ → Ids)
    (now : Time) (db : Db) : List (Increment Counter) :=
  match checkDuplicateIdempotencyKeys [] payload.messages with
  | some _ => recordSubmissionRejected .idempotencyConflict .batch
  | none => batchCreateMessageTxRecords payload (batchCreateMessageTx s payload ids now db)

end MessageUseCase

/-- What a request records. -/
def ApiTxn.records (s : Settings) (now : Time) (db : Db) : ApiTxn → List (Increment Counter)
  | .createMessage payload ids =>
    createMessageRecords payload db (createMessageTx s payload ids now db)
  | .batchCreateMessage payload ids => batchCreateMessageRecords s payload ids now db
  | _ => []

/-- What `publish_claimed_jobs` records. -/
def Relay.publicationRecords (priority : MessagePriority) (published : List UUID)
    (failed : List ClaimedJob) : List (Increment Counter) :=
  recordRelayPublish priority published.length ++
    recordRelayPublishFailure priority failed.length ++
    recordDispatchRetry priority .publication failed.length

/-- The label a recorded outcome is counted under. -/
def Recorded.outcome : Recorded → DeliveryOutcome
  | .succeeded => .success
  | .providerTemporaryFailure => .temporaryFailure
  | _ => .permanentFailure

/-- What a worker records of an outcome it has committed, for a message of the given priority. -/
def Recorded.records (priority : MessagePriority) (r : Recorded) : List (Increment Counter) :=
  recordDeliveryOutcome priority r.outcome ++
    match r with
    | .providerTemporaryFailure => recordDispatchRetry priority .delivery 1
    | _ => []

/-- What a worker records of what its transaction has done. -/
def Event.records (db : Db) : Event → List (Increment Counter)
  | .expired _ _ messageId =>
    match db.messages.find? messageId with
    | some message => recordDeliveryOutcome message.priority .permanentFailure
    | none => []
  | .recorded _ _ messageId r =>
    match db.messages.find? messageId with
    | some message => r.records message.priority
    | none => []
  | _ => []

namespace System

variable (s : Settings) (sys : System) (a : Time × Act)

/-- What a step adds to the log. -/
def newEvents : List Event :=
  (sys.step s a).log.drop sys.log.length

/-- What the process that takes a step records of it. A relay has one priority, which
`relayPriority` says. -/
def records (relayPriority : OwnerId → MessagePriority) : List (Increment Counter) :=
  match a.2 with
  | .api t => t.records s a.1 sys.db
  | .reap priority scan => recordDispatchRetry priority .delivery
    (Relay.reclaimStaleInflight (s.priorityConfig priority) scan a.1 sys.db).2
  | .relayRecord relayId _ _ =>
    match sys.publications.find? relayId with
    | some ⟨_, _, some (published, failed)⟩ =>
      Relay.publicationRecords (relayPriority relayId) published failed
    | _ => []
  | .claim _ _ => (sys.newEvents s a).flatMap (Event.records sys.db)
  | .record _ _ => (sys.newEvents s a).flatMap (Event.records sys.db)
  | _ => []

end System

/-! ## What the counters follow -/

namespace Db

variable (db : Db) (p : MessagePriority)

/-- The messages of a priority. -/
def submitted : ℕ :=
  db.messages.rows.countP fun m => m.priority = p

/-- The messages of a priority that have a status. -/
def withStatus (status : MessageStatus) : ℕ :=
  db.messages.rows.countP fun m => m.priority = p && m.status = status

/-- The sum of a column over the jobs of a priority. -/
def jobTotal (g : DispatchJob → ℕ) : ℕ :=
  (db.jobs.rows.map fun j => if j.priority = p then g j else 0).sum

end Db

/-- What is counted is what the tables say. -/
structure Tallied (db : Db) (t : Counter → ℕ) : Prop where
  submitted : ∀ p, t (.messagesSubmitted p .single) + t (.messagesSubmitted p .batch) =
    db.submitted p
  succeeded : ∀ p, t (.deliveryAttempts p .success) = db.withStatus p .sent
  permanentlyFailed : ∀ p,
    t (.deliveryAttempts p .permanentFailure) = db.withStatus p .permanentFailed
  unexpected : ∀ p, t (.deliveryAttempts p .unexpectedFailure) = 0
  retried : ∀ p, t (.dispatchRetries p .delivery) = db.jobTotal p DispatchJob.deliveryAttempts
  temporarilyFailed : ∀ p,
    t (.deliveryAttempts p .temporaryFailure) ≤ t (.dispatchRetries p .delivery)
  publishRetried : ∀ p,
    db.jobTotal p DispatchJob.retryCount ≤ t (.dispatchRetries p .publication)
  publishFailed : ∀ p, t (.relayPublishFailures p) = t (.dispatchRetries p .publication)

theorem tallied_empty : Tallied Db.empty 0 where
  submitted _ := rfl
  succeeded _ := rfl
  permanentlyFailed _ := rfl
  unexpected _ := rfl
  retried _ := rfl
  temporarilyFailed _ := le_rfl
  publishRetried _ := le_rfl
  publishFailed _ := rfl

/-- A step changes the tables by what its records say. -/
structure Adds (db db' : Db) (d : Counter → ℕ) : Prop where
  submitted : ∀ p, db'.submitted p =
    db.submitted p + (d (.messagesSubmitted p .single) + d (.messagesSubmitted p .batch))
  succeeded : ∀ p, db'.withStatus p .sent =
    db.withStatus p .sent + d (.deliveryAttempts p .success)
  permanentlyFailed : ∀ p, db'.withStatus p .permanentFailed =
    db.withStatus p .permanentFailed + d (.deliveryAttempts p .permanentFailure)
  unexpected : ∀ p, d (.deliveryAttempts p .unexpectedFailure) = 0
  retried : ∀ p, db'.jobTotal p DispatchJob.deliveryAttempts =
    db.jobTotal p DispatchJob.deliveryAttempts + d (.dispatchRetries p .delivery)
  temporarilyFailed : ∀ p,
    d (.deliveryAttempts p .temporaryFailure) ≤ d (.dispatchRetries p .delivery)
  publishRetried : ∀ p, db'.jobTotal p DispatchJob.retryCount ≤
    db.jobTotal p DispatchJob.retryCount + d (.dispatchRetries p .publication)
  publishFailed : ∀ p, d (.relayPublishFailures p) = d (.dispatchRetries p .publication)

theorem Tallied.adds {db db' : Db} {t d : Counter → ℕ} (h : Tallied db t) (hd : Adds db db' d) :
    Tallied db' (t + d) := by
  refine ⟨fun p => ?_, fun p => ?_, fun p => ?_, fun p => ?_, fun p => ?_, fun p => ?_, fun p => ?_,
    fun p => ?_⟩ <;> simp only [Pi.add_apply]
  · have := h.submitted p
    have := hd.submitted p
    omega
  · rw [h.succeeded, hd.succeeded]
  · rw [h.permanentlyFailed, hd.permanentlyFailed]
  · rw [h.unexpected, hd.unexpected]
  · rw [h.retried, hd.retried]
  · exact add_le_add (h.temporarilyFailed p) (hd.temporarilyFailed p)
  · exact (hd.publishRetried p).trans (Nat.add_le_add_right (h.publishRetried p) _)
  · rw [h.publishFailed, hd.publishFailed]

namespace Adds

variable {s : Settings} {now : Time} {db db' : Db} {d : Counter → ℕ}

/-- The rows stay, and nothing is recorded that follows them. -/
theorem of_same (hm : db'.messages = db.messages) (hj : db'.jobs = db.jobs)
    (hd : ∀ c, (∀ r t, c ≠ .messageSubmissionRejected r t) → (∀ t, c ≠ .idempotentReplays t) →
      d c = 0) : Adds db db' d := by
  have hzero := fun p => And.intro (hd (.messagesSubmitted p .single) (by simp) (by simp))
    (hd (.messagesSubmitted p .batch) (by simp) (by simp))
  refine ⟨fun p => ?_, fun p => ?_, fun p => ?_, fun p => ?_, fun p => ?_, fun p => ?_, fun p => ?_,
    fun p => ?_⟩
  · rw [(hzero p).1, (hzero p).2, Db.submitted, hm]
    rfl
  · rw [hd _ (by simp) (by simp), Db.withStatus, hm]
    rfl
  · rw [hd _ (by simp) (by simp), Db.withStatus, hm]
    rfl
  · exact hd _ (by simp) (by simp)
  · rw [hd _ (by simp) (by simp), Db.jobTotal, hj]
    rfl
  · rw [hd _ (by simp) (by simp)]
    exact Nat.zero_le _
  · rw [Db.jobTotal, hj]
    exact Nat.le_add_right _ _
  · rw [hd _ (by simp) (by simp), hd _ (by simp) (by simp)]

theorem refl (db : Db) : Adds db db 0 :=
  of_same rfl rfl fun _ _ _ => rfl

theorem rejected (db : Db) (r : RejectionReason) (t : SubmissionType) :
    Adds db db (tally (recordSubmissionRejected r t)) :=
  of_same rfl rfl fun c hc _ => by
    rw [recordSubmissionRejected, tally_singleton, if_neg fun h => hc r t h.symm]

theorem replayed (db : Db) (t : SubmissionType) : Adds db db (tally (recordIdempotentReplay t)) :=
  of_same rfl rfl fun c _ hc => by
    rw [recordIdempotentReplay, tally_singleton, if_neg fun h => hc t h.symm]

/-! ## Requests -/

/-- Submissions are new messages that are queued, with jobs that nobody has tried. -/
theorem accepted {u : UserId} {subs : List Submission} (h : Accepted s u subs db db')
    (hs : ∀ p, d (.messagesSubmitted p .single) + d (.messagesSubmitted p .batch) =
      subs.countP fun sub => sub.request.priority = p)
    (hd : ∀ c, (∀ p t, c ≠ .messagesSubmitted p t) → d c = 0) : Adds db db' d := by
  have hstatus : ∀ p status, status ≠ .queued →
      db'.withStatus p status = db.withStatus p status := by
    intro p status hne
    rw [Db.withStatus, h.messages, List.countP_append, List.countP_map]
    refine add_eq_left.2 (List.countP_eq_zero.2 fun sub _ => ?_)
    simp [newMessage, MessageRepository.createMessage, hne.symm]
  have htotal : ∀ p (g : DispatchJob → ℕ), (∀ sub, g (newJob s sub) = 0) →
      db'.jobTotal p g = db.jobTotal p g := by
    intro p g hg
    rw [Db.jobTotal, h.jobs, List.map_append, List.sum_append, List.map_map]
    refine add_eq_left.2 (List.sum_eq_zero fun n hn => ?_)
    obtain ⟨sub, -, rfl⟩ := List.mem_map.1 hn
    simp [hg]
  refine ⟨fun p => ?_, fun p => ?_, fun p => ?_, fun p => ?_, fun p => ?_, fun p => ?_, fun p => ?_,
    fun p => ?_⟩
  · rw [hs, Db.submitted, h.messages, List.countP_append, List.countP_map]
    rfl
  · rw [hd _ (by simp), hstatus p _ (by simp), add_zero]
  · rw [hd _ (by simp), hstatus p _ (by simp), add_zero]
  · exact hd _ (by simp)
  · rw [hd _ (by simp), htotal p _ fun _ => rfl, add_zero]
  · rw [hd _ (by simp)]
    exact Nat.zero_le _
  · rw [htotal p _ fun _ => rfl]
    exact Nat.le_add_right _ _
  · rw [hd _ (by simp), hd _ (by simp)]

end Adds

theorem tally_batchSubmitted (is : List (Increment MessagePriority)) (p : MessagePriority)
    (t : SubmissionType) :
    tally (is.flatMap fun i => recordMessagesSubmitted i.counter .batch i.amount)
      (.messagesSubmitted p t) = if t = .batch then tally is p else 0 := by
  induction is with
  | nil => simp
  | cons i is ih =>
    rw [List.flatMap_cons, tally_append, Pi.add_apply, ih, recordMessagesSubmitted, tally_inc,
      tally_cons, Pi.add_apply, tally_singleton]
    cases t <;> simp

theorem tally_batchSubmitted_of_ne (is : List (Increment MessagePriority)) {c : Counter}
    (hc : ∀ p t, c ≠ .messagesSubmitted p t) :
    tally (is.flatMap fun i => recordMessagesSubmitted i.counter .batch i.amount) c = 0 := by
  induction is with
  | nil => simp
  | cons i is ih =>
    rw [List.flatMap_cons, tally_append, Pi.add_apply, ih, recordMessagesSubmitted, tally_inc,
      if_neg fun h => hc _ _ h.symm]

theorem createMessage_adds (s : Settings) (now : Time) (db : Db) (payload : MessageRequest)
    (ids : Ids) : Adds db ((ApiTxn.createMessage payload ids).apply s now db)
      (tally ((ApiTxn.createMessage payload ids).records s now db)) := by
  simp only [ApiTxn.apply, ApiTxn.records, createMessage]
  cases hc : createMessageTx s payload ids now db with
  | ok result =>
    refine .accepted (createMessageTx_ok.1 hc).2 (fun p => ?_) fun c hc => ?_
    · simp only [createMessageRecords, recordMessagesSubmitted, tally_inc]
      by_cases h : payload.priority = p <;> simp [h]
    · simp only [createMessageRecords, recordMessagesSubmitted, tally_inc]
      exact if_neg fun h => hc _ _ h.symm
  | error e =>
    simp only [createMessageRecords]
    split
    · cases ‹Except.error _ = Except.ok _›
    · split
      · exact .replayed db .single
      · exact .refl db
    all_goals first | exact .rejected db _ _ | exact .refl db

theorem batchCreateMessage_adds (s : Settings) (now : Time) (db : Db)
    (payload : BatchMessageRequest) (ids : ℕ → Ids) :
    Adds db ((ApiTxn.batchCreateMessage payload ids).apply s now db)
      (tally ((ApiTxn.batchCreateMessage payload ids).records s now db)) := by
  simp only [ApiTxn.apply, ApiTxn.records, batchCreateMessage, batchCreateMessageRecords]
  cases checkDuplicateIdempotencyKeys [] payload.messages with
  | some key => exact .rejected db _ _
  | none =>
    cases hc : batchCreateMessageTx s payload ids now db with
    | ok result =>
      refine .accepted (batchCreateMessageTx_ok.1 hc).2 (fun p => ?_) fun c hc => ?_
      · have hsubs := congrArg (List.countP fun r => decide (r.priority = p))
          (map_request_batchSubmissions payload ids now)
        rw [List.countP_map, List.countP_map] at hsubs
        simp only [batchCreateMessageTxRecords, tally_batchSubmitted, tally_counts, if_true,
          List.count, List.countP_map]
        exact (zero_add _).trans hsubs.symm
      · exact tally_batchSubmitted_of_ne _ hc
    | error e =>
      simp only [batchCreateMessageTxRecords]
      split
      · cases ‹Except.error _ = Except.ok _›
      all_goals first | exact .rejected db _ _ | exact .refl db

theorem ApiTxn.adds (s : Settings) (now : Time) (db : Db) (t : ApiTxn) :
    Adds db (t.apply s now db) (tally (t.records s now db)) := by
  cases t with
  | createUser id name =>
    rcases (ApiTxn.createUser id name).rows s now db with ⟨hm, hj⟩ | ⟨u, -, accepted⟩
    · exact .of_same hm hj fun _ _ _ => rfl
    · exact absurd accepted.cost_pos (lt_irrefl 0)
  | topupUserCredits userId amount =>
    rcases (ApiTxn.topupUserCredits userId amount).rows s now db with ⟨hm, hj⟩ | ⟨u, -, accepted⟩
    · exact .of_same hm hj fun _ _ _ => rfl
    · exact absurd accepted.cost_pos (lt_irrefl 0)
  | createMessage payload ids => exact createMessage_adds s now db payload ids
  | batchCreateMessage payload ids => exact batchCreateMessage_adds s now db payload ids

/-! ## The relay and the reaper -/

section Jobs

variable {db : Db} {q : DispatchJob → Bool} {f : DispatchJob → DispatchJob}
  {hf : ∀ j, q j = true → (f j).id = j.id}

/-- An update that adds `n j` to a column of the jobs it takes. -/
theorem Db.jobTotal_update {g : DispatchJob → ℕ} (n : DispatchJob → ℕ) (p : MessagePriority)
    (h : ∀ j ∈ db.jobs, q j = true → (f j).priority = j.priority ∧ g (f j) = g j + n j) :
    ({ db with jobs := db.jobs.updateWhere q f hf } : Db).jobTotal p g = db.jobTotal p g +
      ((db.jobs.rows.filter q).map fun j => if j.priority = p then n j else 0).sum := by
  refine @Table.sum_updateWhere _ _ _ _ _ _ db.jobs q f hf _ fun j hj hq => ?_
  obtain ⟨hp, hg⟩ := h j hj hq
  rw [hp]
  split_ifs
  · exact hg
  · rfl

/-- An update that leaves a column of the jobs it takes. -/
theorem Db.jobTotal_same {g : DispatchJob → ℕ} (p : MessagePriority)
    (h : ∀ j ∈ db.jobs, q j = true → (f j).priority = j.priority ∧ g (f j) = g j) :
    ({ db with jobs := db.jobs.updateWhere q f hf } : Db).jobTotal p g = db.jobTotal p g := by
  refine (Db.jobTotal_update (fun _ => 0) p h).trans (add_eq_left.2 ?_)
  refine List.sum_eq_zero fun n hn => ?_
  obtain ⟨j, -, rfl⟩ := List.mem_map.1 hn
  exact ite_self 0

end Jobs

namespace Adds

variable {db db' : Db} {d : Counter → ℕ}

/-- A step that writes jobs alone, and records what it adds to their counts. -/
theorem of_jobs (hm : db'.messages = db.messages)
    (hd : ∀ c, (∀ p, c ≠ .relayJobsPublished p) → (∀ p, c ≠ .relayPublishFailures p) →
      (∀ p t, c ≠ .dispatchRetries p t) → d c = 0)
    (hdelivery : ∀ p, db'.jobTotal p DispatchJob.deliveryAttempts =
      db.jobTotal p DispatchJob.deliveryAttempts + d (.dispatchRetries p .delivery))
    (hpublication : ∀ p, db'.jobTotal p DispatchJob.retryCount ≤
      db.jobTotal p DispatchJob.retryCount + d (.dispatchRetries p .publication))
    (hfailures : ∀ p, d (.relayPublishFailures p) = d (.dispatchRetries p .publication)) :
    Adds db db' d := by
  refine ⟨fun p => ?_, fun p => ?_, fun p => ?_, fun p => hd _ (by simp) (by simp) (by simp),
    hdelivery, fun p => ?_, hpublication, hfailures⟩
  · rw [hd _ (by simp) (by simp) (by simp), hd _ (by simp) (by simp) (by simp), Db.submitted, hm]
    rfl
  · rw [hd _ (by simp) (by simp) (by simp), Db.withStatus, hm]
    rfl
  · rw [hd _ (by simp) (by simp) (by simp), Db.withStatus, hm]
    rfl
  · rw [hd _ (by simp) (by simp) (by simp)]
    exact Nat.zero_le _

end Adds

/-- The rows a sweep takes, one for each id. -/
theorem filter_staleJobs (p : MessagePriority) (scan : Scan DispatchJob) (now : Time) (db : Db) :
    let stale := staleJobs p inflightLeaseSeconds reapLimit scan now db.jobs.rows
    (db.jobs.rows.filter fun j => j.id ∈ stale.map (·.id)).Perm stale := by
  intro stale
  have hn : (stale.map (·.id)).Nodup := nodup_staleJobs
  refine (List.perm_ext_iff_of_nodup (db.jobs.nodup.of_map.filter _) hn.of_map).2 fun j => ?_
  rw [List.mem_filter, decide_eq_true_eq]
  constructor
  · rintro ⟨hj, hid⟩
    obtain ⟨k, hk, hi⟩ := List.mem_map.1 hid
    obtain rfl : k = j := Table.eq_of_key_eq (mem_staleJobs hk).1 hj hi
    exact hk
  · exact fun hj => ⟨(mem_staleJobs hj).1, List.mem_map_of_mem hj⟩

/-- The sum over rows that all have one priority. -/
theorem sum_of_priority {l : List DispatchJob} {p : MessagePriority} (h : ∀ j ∈ l, j.priority = p)
    (p' : MessagePriority) :
    (l.map fun j => if j.priority = p' then 1 else 0).sum = if p = p' then l.length else 0 := by
  by_cases hp : p = p'
  · rw [List.map_congr_left fun j hj => if_pos ((h j hj).trans hp)]
    simp [hp]
  · rw [List.map_congr_left fun j hj => if_neg (h j hj ▸ hp)]
    simp [hp]

theorem reap_adds (s : Settings) (now : Time) (db : Db) (p : MessagePriority)
    (scan : Scan DispatchJob) :
    Adds db (Relay.reclaimStaleInflight (s.priorityConfig p) scan now db).1
      (tally (recordDispatchRetry p .delivery
        (Relay.reclaimStaleInflight (s.priorityConfig p) scan now db).2)) := by
  rw [Relay.reclaimStaleInflight, Settings.priority_priorityConfig]
  set stale := staleJobs p inflightLeaseSeconds reapLimit scan now db.jobs.rows with hstale
  show Adds db (reclaimIds (stale.map (·.id)) now db)
    (tally (recordDispatchRetry p .delivery stale.length))
  have htally : ∀ c, tally (recordDispatchRetry p .delivery stale.length) c =
      if Counter.dispatchRetries p .delivery = c then stale.length else 0 :=
    fun c => tally_inc _ c _
  have htotal : ∀ p' (g n : DispatchJob → ℕ), (∀ j, g (reclaimRow now j) = g j + n j) →
      (reclaimIds (stale.map (·.id)) now db).jobTotal p' g = db.jobTotal p' g +
        (stale.map fun j => if j.priority = p' then n j else 0).sum := by
    intro p' g n hg
    rw [← ((filter_staleJobs p scan now db).map _).sum_eq]
    exact Db.jobTotal_update n p' fun j _ _ => ⟨rfl, hg j⟩
  refine .of_jobs rfl (fun c _ _ hc => ?_) (fun p' => ?_) (fun p' => ?_) fun p' => ?_
  · rw [htally, if_neg fun h => hc p .delivery h.symm]
  · rw [htally, htotal p' _ (fun _ => 1) fun _ => rfl,
      sum_of_priority fun j hj => (mem_staleJobs (hstale ▸ hj)).2.1]
    simp
  · rw [htotal p' DispatchJob.retryCount (fun _ => 0) fun _ => rfl]
    simp
  · rw [htally, htally, if_neg (by simp), if_neg (by simp)]

theorem claimBatch_adds (p : MessagePriority) (r : OwnerId) (limit : ℕ) (lease : ℤ)
    (perUserLimit : ℕ) (scans : ClaimScans) (now : Time) (db : Db) :
    Adds db (claimBatch p r limit lease perUserLimit scans now db).1 0 := by
  have htotal : ∀ p' (g : DispatchJob → ℕ), (∀ j, g (lockRow r now j) = g j) →
      (claimBatch p r limit lease perUserLimit scans now db).1.jobTotal p' g = db.jobTotal p' g :=
    fun p' g hg => Db.jobTotal_same p' fun j _ _ => ⟨rfl, hg j⟩
  exact .of_jobs rfl (fun _ _ _ _ => rfl) (fun p' => htotal p' _ fun _ => rfl)
    (fun p' => (htotal p' _ fun _ => rfl).le) fun _ => rfl

theorem jobTotal_markPublished (ids : List UUID) (r : OwnerId) (now : Time) (db : Db)
    (p : MessagePriority) {g : DispatchJob → ℕ} (hg : ∀ j, g (publishedRow now j) = g j) :
    (markPublished ids r now db).jobTotal p g = db.jobTotal p g := by
  unfold markPublished
  split_ifs
  · rfl
  · exact Db.jobTotal_same p fun j _ _ => ⟨rfl, hg j⟩

theorem jobTotal_markPublishRetry (ids : List UUID) (r : OwnerId) (error : String)
    (delay now : Time) (db : Db) (p : MessagePriority) {g : DispatchJob → ℕ} (n : ℕ)
    (hg : ∀ j, g (publishRetryRow now delay error j) = g j + n) :
    (markPublishRetry ids r error delay now db).jobTotal p g = db.jobTotal p g +
      ((db.jobs.rows.filter (heldBy ids r)).map fun j => if j.priority = p then n else 0).sum := by
  unfold markPublishRetry
  split_ifs with h
  · have hnil : db.jobs.rows.filter (heldBy ids r) = [] :=
      List.filter_eq_nil_iff.2 fun j _ => by simp [heldBy, List.isEmpty_iff.1 h]
    rw [hnil]
    rfl
  · exact Db.jobTotal_update (fun _ => n) p fun j _ _ => ⟨rfl, hg j⟩

theorem tally_publicationRecords (p : MessagePriority) (published : List UUID)
    (failed : List ClaimedJob) (c : Counter) :
    tally (Relay.publicationRecords p published failed) c =
      (if Counter.relayJobsPublished p = c then published.length else 0) +
        (if Counter.relayPublishFailures p = c then failed.length else 0) +
        if Counter.dispatchRetries p .publication = c then failed.length else 0 := by
  simp only [Relay.publicationRecords, tally_append, Pi.add_apply, recordRelayPublish,
    recordRelayPublishFailure, recordDispatchRetry, tally_inc]

/-- The rows that a retry is recorded in are at most the jobs that failed. -/
theorem sum_heldBy_le (db : Db) (ids : List UUID) (r : OwnerId) (p' : MessagePriority)
    {p : MessagePriority} (hp : ∀ j ∈ db.jobs, j.id ∈ ids → j.priority = p) :
    ((db.jobs.rows.filter (heldBy ids r)).map fun j => if j.priority = p' then 1 else 0).sum ≤
      if p = p' then ids.length else 0 := by
  have hmem : ∀ j ∈ db.jobs.rows.filter (heldBy ids r), j.priority = p := by
    intro j hj
    obtain ⟨hj, hh⟩ := List.mem_filter.1 hj
    simp only [heldBy, Bool.and_eq_true, decide_eq_true_eq] at hh
    exact hp j hj hh.1.1
  rw [sum_of_priority hmem]
  split_ifs
  · rw [← List.countP_eq_length_filter]
    refine (List.countP_mono_left fun j _ hh => ?_).trans (db.jobs.countP_key_le ids)
    simp only [heldBy, Bool.and_eq_true] at hh
    exact hh.1.1
  · exact le_rfl

/-- No jobs that failed are no retry to record. -/
theorem Relay.recordPublications_eq (r : OwnerId) (published : List UUID)
    (failed : List ClaimedJob) (error : String) (jitter : Jitter) (now : Time) (db : Db) :
    recordPublications r published failed error jitter now db =
      markPublishRetry (failed.map ClaimedJob.id) r error
        (calculateBackoff (highestRetryCount failed) jitter) now
        (markPublished published r now db) := by
  cases failed <;> rfl

theorem recordPublications_adds (r : OwnerId) (published : List UUID) (failed : List ClaimedJob)
    (error : String) (jitter : Jitter) (now : Time) (db : Db) {p : MessagePriority}
    (hp : ∀ j ∈ db.jobs, j.id ∈ failed.map ClaimedJob.id → j.priority = p) :
    Adds db (Relay.recordPublications r published failed error jitter now db)
      (tally (Relay.publicationRecords p published failed)) := by
  have hmessages : (Relay.recordPublications r published failed error jitter now db).messages =
      db.messages := by
    obtain ⟨jobs, move, he, -⟩ :=
      JobsMoved.recordPublications r published failed error jitter now db
    rw [he]
  have hpublished : ∀ j ∈ (markPublished published r now db).jobs,
      j.id ∈ failed.map ClaimedJob.id → j.priority = p := by
    obtain ⟨jobs, move, he, hm⟩ := JobsMoved.markPublished published r now db
    intro j hj hid
    rw [he, Table.mem_def, hm.rows] at hj
    obtain ⟨j₀, hj₀, rfl⟩ := List.mem_map.1 hj
    rw [DispatchJob.id_eq (hm.original j₀)] at hid
    rw [DispatchJob.priority_eq (hm.original j₀)]
    exact hp j₀ hj₀ hid
  refine .of_jobs hmessages (fun c h₁ h₂ h₃ => ?_) (fun p' => ?_) (fun p' => ?_) fun p' => ?_
  · rw [tally_publicationRecords, if_neg fun h => h₁ p h.symm, if_neg fun h => h₂ p h.symm,
      if_neg fun h => h₃ p _ h.symm]
  · rw [Relay.recordPublications_eq, jobTotal_markPublishRetry _ _ _ _ _ _ _ 0 fun _ => rfl,
      jobTotal_markPublished _ _ _ _ _ fun _ => rfl, tally_publicationRecords]
    simp
  · rw [Relay.recordPublications_eq, jobTotal_markPublishRetry _ _ _ _ _ _ _ 1 fun _ => rfl,
      jobTotal_markPublished _ _ _ _ _ fun _ => rfl, tally_publicationRecords]
    refine Nat.add_le_add_left ((sum_heldBy_le _ _ _ p' hpublished).trans ?_) _
    simp
  · rw [tally_publicationRecords, tally_publicationRecords]
    simp

/-! ## The workers -/

section Worker

variable {s : Settings} {now : Time} {db db' : Db} {job job' : DispatchJob}
  {message message' : Message} {a : Act} {es : List Event} {op : Option BalanceOp}

/-- The counts of messages after a worker's write. -/
theorem withStatus_write (write : DeliveryWrite db op message' job' db')
    (hm : message ∈ db.messages) (ho : message'.original = message.original)
    (p : MessagePriority) {status : MessageStatus} (hne : message.status ≠ status) :
    db'.withStatus p status = db.withStatus p status +
      if message.priority = p ∧ message'.status = status then 1 else 0 := by
  have h := Table.countP_put hm (Message.id_eq ho).symm
    fun m => decide (m.priority = p) && decide (m.status = status)
  rw [Message.priority_eq ho] at h
  simpa [Db.withStatus, write.messages, hne] using h

theorem submitted_write (write : DeliveryWrite db op message' job' db')
    (hm : message ∈ db.messages) (ho : message'.original = message.original)
    (p : MessagePriority) : db'.submitted p = db.submitted p := by
  have h := Table.countP_put hm (Message.id_eq ho).symm fun m => decide (m.priority = p)
  rw [Message.priority_eq ho, ← write.messages] at h
  exact Nat.add_right_cancel h

/-- A column of the jobs after a worker's write that adds `n` to it. -/
theorem jobTotal_write (write : DeliveryWrite db op message' job' db') (hj : job ∈ db.jobs)
    (ho : job'.original = job.original) (p : MessagePriority) {g : DispatchJob → ℕ} {n : ℕ}
    (hn : g job' = g job + n) :
    db'.jobTotal p g = db.jobTotal p g + if job.priority = p then n else 0 := by
  have h := Table.sum_put (fun j => if j.priority = p then g j else 0) hj
    (DispatchJob.id_eq ho).symm
  rw [← write.jobs, DispatchJob.priority_eq ho, hn] at h
  simp only [Db.jobTotal]
  split_ifs at h ⊢ <;> omega

/-- What a worker's write is counted as, if it is. -/
structure CountedAs (db : Db) (es : List Event) (job job' : DispatchJob)
    (message message' : Message) (outcome : Option DeliveryOutcome) : Prop where
  recorded : ∀ c, tally (es.flatMap (Event.records db)) c =
    (if outcome.map (Counter.deliveryAttempts message.priority) = some c then 1 else 0) +
      if Counter.dispatchRetries message.priority .delivery = c ∧
        outcome = some .temporaryFailure then 1 else 0
  expected : outcome ≠ some .unexpectedFailure
  sent : message'.status = .sent ↔ outcome = some .success
  permanentFailed : message'.status = .permanentFailed ↔ outcome = some .permanentFailure
  attempts : job'.deliveryAttempts =
    job.deliveryAttempts + if outcome = some .temporaryFailure then 1 else 0
  retryCount : job'.retryCount = job.retryCount

theorem Recorded.tally_records (p : MessagePriority) (r : Recorded) (c : Counter) :
    tally (r.records p) c = (if Counter.deliveryAttempts p r.outcome = c then 1 else 0) +
      if Counter.dispatchRetries p .delivery = c ∧ r.outcome = .temporaryFailure then 1 else 0 := by
  unfold Recorded.records
  rw [tally_append, Pi.add_apply, recordDeliveryOutcome, tally_singleton]
  congr 1
  cases r with
  | providerTemporaryFailure => simp [recordDispatchRetry, tally_inc, Recorded.outcome]
  | _ => simp [Recorded.outcome]

theorem WorkerWrite.countedAs (written : WorkerWrite s now db job message a es op job' message') :
    ∃ outcome, CountedAs db es job job' message message' outcome := by
  obtain ⟨-, hm, -⟩ := written.found
  have hfind := Table.find?_key hm
  cases written with
  | expired =>
    refine ⟨some .permanentFailure, fun c => ?_, by simp, ?_, ?_, rfl, rfl⟩
    · simp [Event.records, hfind, recordDeliveryOutcome, tally_singleton]
    · simp [MessageRepository.markPermanentFailure]
    · simp [MessageRepository.markPermanentFailure]
  | claimed =>
    refine ⟨none, fun c => ?_, by simp, ?_, ?_, rfl, rfl⟩
    · simp
    · simp [MessageRepository.markDispatching]
    · simp [MessageRepository.markDispatching]
  | @recorded w jitter jobId _ _ result r held outcome =>
    refine ⟨some r.outcome, fun c => ?_, ?_, ?_, ?_, ?_, ?_⟩
    · simp [Event.records, hfind, r.tally_records]
    · cases r <;> simp [Recorded.outcome]
    · cases outcome <;> simp [Recorded.outcome, MessageRepository.markSent,
        MessageRepository.markPermanentFailure, MessageRepository.markRetryableFailure]
    · cases outcome <;> simp [Recorded.outcome, MessageRepository.markSent,
        MessageRepository.markPermanentFailure, MessageRepository.markRetryableFailure]
    · cases outcome <;> rfl
    · cases outcome <;> rfl

/-- What a worker writes is what it records. -/
theorem WorkerWrite.adds (written : WorkerWrite s now db job message a es op job' message')
    (write : DeliveryWrite db op message' job' db') (pair : StatusPair job message)
    (hp : job.priority = message.priority) :
    Adds db db' (tally (es.flatMap (Event.records db))) := by
  obtain ⟨hj, hm, -⟩ := written.found
  have hmo := written.moved.message_original
  have hjo := written.moved.job_original
  obtain ⟨outcome, h⟩ := written.countedAs
  have hopen : message.status ≠ .sent ∧ message.status ≠ .permanentFailed := by
    rcases pair.of_open written.isOpen with hs | hs | hs <;> simp [hs]
  refine ⟨fun p => ?_, fun p => ?_, fun p => ?_, fun p => ?_, fun p => ?_, fun p => ?_,
    fun p => ?_, fun p => ?_⟩
  · rw [submitted_write write hm hmo, h.recorded, h.recorded]
    simp
  · rw [withStatus_write write hm hmo p hopen.1, h.recorded]
    simp [h.sent, and_comm]
  · rw [withStatus_write write hm hmo p hopen.2, h.recorded]
    simp [h.permanentFailed, and_comm]
  · rw [h.recorded]
    simp [h.expected]
  · rw [jobTotal_write write hj hjo p h.attempts, h.recorded, hp]
    simp [← ite_and]
  · rw [h.recorded, h.recorded]
    simp [and_comm]
  · rw [jobTotal_write write hj hjo p (n := 0) h.retryCount]
    simp
  · rw [h.recorded, h.recorded]
    simp

end Worker

/-! ## Metered runs -/

/-- A relay claims jobs of its own priority. -/
def Act.Configured (relayPriority : OwnerId → MessagePriority) : Act → Prop
  | .relayClaim r p _ => p = relayPriority r
  | _ => True

/-- The jobs a relay holds have its priority, and those it could not publish are among them. -/
structure Publication.OwnJobs (relayPriority : OwnerId → MessagePriority) (db : Db)
    (pub : Publication) : Prop where
  claimed : ∀ c ∈ pub.claimed, ∃ j ∈ db.jobs, j.id = c.id ∧ j.priority = relayPriority pub.relayId
  failed : ∀ o, pub.outcome = some o → ∀ c ∈ o.2, c ∈ pub.claimed

theorem Publication.OwnJobs.of_extends {relayPriority : OwnerId → MessagePriority} {db db' : Db}
    {pub : Publication} (h : pub.OwnJobs relayPriority db) (hdb : db.Extends db') :
    pub.OwnJobs relayPriority db' := by
  refine ⟨fun c hc => ?_, h.failed⟩
  obtain ⟨j, hj, hi, hp⟩ := h.claimed c hc
  obtain ⟨j', hj', ho⟩ := hdb.job j hj
  exact ⟨j', hj', (DispatchJob.id_eq ho).trans hi, (DispatchJob.priority_eq ho).trans hp⟩

namespace System

variable {s : Settings} {sys : System} {relayPriority : OwnerId → MessagePriority}

theorem step_ownJobs {a : Time × Act} (ha : a.2.Configured relayPriority)
    (h : ∀ pub ∈ sys.publications, pub.OwnJobs relayPriority sys.db) :
    ∀ pub ∈ (sys.step s a).publications, pub.OwnJobs relayPriority (sys.step s a).db := by
  intro pub hpub
  refine Publication.OwnJobs.of_extends ?_ (step_extends s sys a)
  by_cases hr : a.2.relay? = some pub.relayId
  · obtain ⟨now, a⟩ := a
    replace hpub : pub ∈ (sys.act s now a).publications := hpub
    cases a with
    | relayClaim r p scans =>
      rw [act, relayClaim] at hpub
      dsimp only at hpub
      split at hpub
      · exact h pub hpub
      · rename_i publications hins
        split_ifs at hpub
        · exact h pub hpub
        rcases (Table.mem_insert hins).1 hpub with hpub | rfl
        · exact h pub hpub
        refine ⟨fun c hc => ?_, fun o ho => by cases ho⟩
        simp only [Relay.claimJobs, claimBatch, List.map_map, List.mem_map] at hc
        obtain ⟨j, hj, rfl⟩ := hc
        obtain ⟨hj, he⟩ := mem_claimRows hj
        rw [Settings.priority_priorityConfig] at he
        exact ⟨j, hj, rfl, (eligible_iff.1 he).1.trans ha⟩
    | publish r accepts delivered =>
      rw [act, publish] at hpub
      split at hpub
      · rename_i r' claimed hfind
        obtain ⟨hmem, rfl⟩ := Table.find?_eq_some.1 hfind
        rcases Table.mem_put.1 hpub with ⟨hpub, -⟩ | ⟨rfl, -⟩
        · exact h pub hpub
        refine ⟨(h _ hmem).claimed, fun o ho c hc => ?_⟩
        obtain rfl := Option.some.inj ho
        rw [Relay.publishLoop_eq] at hc
        exact (List.dropWhile_sublist _).subset hc
      · exact h pub hpub
    | relayRecord r error jitter =>
      rw [act, relayRecord] at hpub
      split at hpub
      · exact h pub (Table.mem_erase.1 hpub).1
      · exact h pub hpub
    | relayCrash r => exact h pub (Table.mem_erase.1 hpub).1
    | _ => cases hr
  · have hfind := (Table.find?_key hpub).symm.trans (publications_step hr)
    exact h pub (Table.find?_eq_some.1 hfind.symm).1

/-- A step that writes nothing and whose events are not recorded. -/
theorem quiet_adds {a : Time × Act} {es : List Event} (hdb : (sys.step s a).db = sys.db)
    (hlog : (sys.step s a).log = sys.log ++ es) (hes : ∀ e ∈ es, e.records sys.db = []) :
    Adds sys.db (sys.step s a).db (tally ((sys.newEvents s a).flatMap (Event.records sys.db))) := by
  rw [newEvents, hlog, List.drop_left, List.flatMap_eq_nil_iff.2 hes, hdb]
  exact .refl sys.db

theorem idle_adds {a : Time × Act} (hdb : (sys.step s a).db = sys.db)
    (hlog : (sys.step s a).log = sys.log) :
    Adds sys.db (sys.step s a).db (tally ((sys.newEvents s a).flatMap (Event.records sys.db))) :=
  quiet_adds hdb (hlog.trans (List.append_nil _).symm) (List.forall_mem_nil _)

/-- What is recorded of a worker's write is what the step changes. -/
theorem write_adds (h : sys.MessageInv) {a : Time × Act} {es es' : List Event}
    {op : Option BalanceOp} {job job' : DispatchJob} {message message' : Message}
    (hlog : (sys.step s a).log = sys.log ++ es')
    (hes : es'.flatMap (Event.records sys.db) = es.flatMap (Event.records sys.db))
    (written : WorkerWrite s a.1 sys.db job message a.2 es op job' message')
    (write : DeliveryWrite sys.db op message' job' (sys.step s a).db) :
    Adds sys.db (sys.step s a).db (tally ((sys.newEvents s a).flatMap (Event.records sys.db))) := by
  obtain ⟨hj, hm, hi⟩ := written.found
  obtain ⟨m, hm', hlinked⟩ := h.consistent.message_of_job hj
  obtain rfl : m = message := Table.eq_of_key_eq hm' hm (hlinked.messageId.symm.trans hi)
  rw [newEvents, hlog, List.drop_left, hes]
  exact written.adds write (h.pair job hj m hm hi) hlinked.priority

theorem claim_adds (h : sys.MessageInv) (now : Time) (w : OwnerId) (jobId : UUID) :
    Adds sys.db (sys.step s (now, .claim w jobId)).db
      (tally ((sys.newEvents s (now, .claim w jobId)).flatMap (Event.records sys.db))) := by
  have hdb : (sys.step s (now, .claim w jobId)).db = (sys.claim s now w jobId).db := rfl
  have hlog : (sys.step s (now, .claim w jobId)).log = (sys.claim s now w jobId).log := rfl
  rcases sys.claim_cases s now w jobId with hc | ⟨db', claim, processes, hclaim, -, hc⟩
  · rw [hc] at hdb hlog
    exact idle_adds hdb hlog
  rw [hc] at hdb hlog
  replace hdb : _ = db' := hdb
  rcases claimForDelivery_ok hclaim with
    ⟨rfl, rfl⟩ | ⟨job, message, op, message', job', hcl, hw, hd⟩
  · exact quiet_adds hdb hlog (by simp [claimEnd])
  · cases hw with
    | expired exceeded => exact write_adds h hlog rfl (.expired hcl exceeded) (hdb ▸ hd)
    | delivery in_time =>
      have written : WorkerWrite s now sys.db job message (.claim w jobId) [] none _ _ :=
        .claimed hcl in_time
      exact write_adds h hlog (by rfl) written (hdb ▸ hd)

theorem record_adds (h : sys.MessageInv) (now : Time) (w : OwnerId) (jitter : Jitter) :
    Adds sys.db (sys.step s (now, .record w jitter)).db
      (tally ((sys.newEvents s (now, .record w jitter)).flatMap (Event.records sys.db))) := by
  have hdb : (sys.step s (now, .record w jitter)).db = (sys.record s now w jitter).db := rfl
  have hlog : (sys.step s (now, .record w jitter)).log = (sys.record s now w jitter).log := rfl
  rcases sys.record_cases s now w jitter with
    hc | ⟨jobId, result, -, hc | ⟨db', recorded, hr, hc⟩⟩ <;> rw [hc] at hdb hlog
  · exact idle_adds hdb hlog
  · exact idle_adds hdb hlog
  rcases recordOutcome_ok hr with
    ⟨rfl, rfl⟩ | ⟨job, message, r, message', job', rfl, hh, ho, hd⟩
  · exact quiet_adds hdb hlog (by simp [recordEnd])
  · replace hdb : _ = db' := hdb
    exact write_adds h hlog rfl (.recorded hh ho) (hdb ▸ hd)

/-- A step changes the tables by what its process records. -/
theorem step_adds {a : Time × Act} (h : sys.MessageInv)
    (hown : ∀ pub ∈ sys.publications, pub.OwnJobs relayPriority sys.db) :
    Adds sys.db (sys.step s a).db (tally (sys.records s a relayPriority)) := by
  obtain ⟨now, a⟩ := a
  have hquiet : ∀ sys' : System, sys.act s now a = sys' → sys'.db = sys.db →
      Adds sys.db (sys.step s (now, a)).db 0 := by
    rintro _ rfl hdb
    have hstep : (sys.step s (now, a)).db = sys.db := hdb
    rw [hstep]
    exact .refl sys.db
  cases a with
  | api t => exact t.adds s now sys.db
  | reap p scan => exact reap_adds s now sys.db p scan
  | relayClaim r p scans =>
    rcases sys.relayClaim_cases s now r p scans with hc | ⟨publications, hc⟩
    · exact hquiet _ hc rfl
    · have hdb : (sys.step s (now, .relayClaim r p scans)).db =
          (sys.relayClaim s now r p scans).db := rfl
      rw [hc] at hdb
      rw [hdb]
      exact claimBatch_adds _ r _ _ _ scans now sys.db
  | publish r accepts delivered =>
    obtain ⟨tasks, publications, hc⟩ := sys.publish_cases r accepts delivered
    exact hquiet _ hc rfl
  | relayRecord r error jitter =>
    show Adds sys.db (sys.relayRecord now r error jitter).db _
    simp only [relayRecord, records]
    cases hf : sys.publications.find? r with
    | none => exact .refl sys.db
    | some pub =>
      obtain ⟨hpub, hrel⟩ := Table.find?_eq_some.1 hf
      obtain ⟨r', claimed, outcome⟩ := pub
      obtain rfl : r' = r := hrel
      cases outcome with
      | none => exact .refl sys.db
      | some o =>
        refine recordPublications_adds r' o.1 o.2 error jitter now sys.db fun j hj hid => ?_
        obtain ⟨c, hc, hi⟩ := List.mem_map.1 hid
        obtain ⟨k, hk, hki, hp⟩ := (hown _ hpub).claimed c ((hown _ hpub).failed o rfl c hc)
        obtain rfl : k = j := Table.eq_of_key_eq hk hj (hki.trans hi)
        exact hp
  | claim w jobId => exact claim_adds h now w jobId
  | record w jitter => exact record_adds h now w jitter
  | send w result =>
    rcases sys.send_cases w result with hc | ⟨_, _, -, hc⟩
    · exact hquiet _ hc rfl
    · exact hquiet _ hc rfl
  | workerCrash w =>
    rcases sys.workerCrash_cases w with hc | ⟨_, _, -, hc⟩
    · exact hquiet _ hc rfl
    · exact hquiet _ hc rfl
  | relayCrash r => exact hquiet _ rfl rfl
  | dropTask jobId => exact hquiet _ rfl rfl

/-- The system with its counters after a run, from the empty database and counters of zero. -/
def metered (s : Settings) (relayPriority : OwnerId → MessagePriority)
    (acts : List (MeteredAct (Time × Act))) : Metered System Counter :=
  run (Metered.next (step s) fun sys a => sys.records s a relayPriority) { state := {} } acts

end System

/-- The counters are exact. In every run, what was counted with what is still to be counted or was
lost with its process is what the tables say; and a counter is never ahead of that. -/
theorem counters_exact (s : Settings) (relayPriority : OwnerId → MessagePriority)
    (acts : List (MeteredAct (Time × Act)))
    (hconfigured : ∀ a ∈ acts.filterMap MeteredAct.act?, a.2.Configured relayPriority) :
    let m := System.metered s relayPriority acts
    m.state = System.after s (acts.filterMap MeteredAct.act?) ∧ Tallied m.state.db m.total ∧
      (∀ c, m.counters c ≤ m.total c) ∧
      (m.pending = [] → m.lost = [] → Tallied m.state.db m.counters) := by
  intro m
  have h : m.state.MessageInv ∧ (∀ pub ∈ m.state.publications,
      pub.OwnJobs relayPriority m.state.db) ∧ Tallied m.state.db m.total := by
    refine Metered.invariant (P := fun sys t => System.MessageInv sys ∧ (∀ pub ∈ sys.publications,
      pub.OwnJobs relayPriority sys.db) ∧ Tallied sys.db t) (fun sys a t ha h => ?_) acts
      hconfigured ⟨?_, ?_, ?_⟩
    · obtain ⟨hinv, hown, htally⟩ := h
      exact ⟨hinv.step a, System.step_ownJobs ha hown, htally.adds (System.step_adds hinv hown)⟩
    · exact System.after_messageInv s []
    · exact fun pub hpub => absurd hpub (Table.not_mem_empty pub)
    · exact tallied_empty
  refine ⟨Metered.state_run acts _, h.2.2, m.counters_le, fun hp hl => ?_⟩
  rw [Metered.counters_eq hp hl]
  exact h.2.2

/-- The submission and the publication of one message, each counted in its turn. -/
def meteredSample : List (MeteredAct (Time × Act)) :=
  publishedSample.map .act ++ [.count 1, .count 0]

theorem counters_exact_sample :
    let m := System.metered {} (fun _ => .normal) meteredSample
    Tallied m.state.db m.counters ∧ m.counters (.messagesSubmitted .normal .single) = 1 ∧
      m.counters (.relayJobsPublished .normal) = 1 := by
  intro m
  have hconfigured : ∀ a ∈ meteredSample.filterMap MeteredAct.act?,
      a.2.Configured fun _ => .normal := by
    simp [meteredSample, publishedSample, MeteredAct.act?, Act.Configured]
  have hpending : m.pending = [] ∧ m.lost = [] := by decide +kernel
  refine ⟨(counters_exact {} _ meteredSample hconfigured).2.2.2 hpending.1 hpending.2, ?_⟩
  decide +kernel

end Abrio
