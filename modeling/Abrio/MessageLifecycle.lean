import Abrio.Deadline

/-!
# The life of one message

`DbMove` says what a step of the system does to the rows : a request of the API, an update of
open jobs by the relay or the reaper, or a worker's write of a message with its job, with what
the log then says of the message. It keeps what `Change` forgets, the act and the outcome.

From it two invariants of every run of atomic transactions. What the log says of a message is a
number of temporary failures and, once the message is sent or given up, one outcome after them
(`MessageTrace`). And the statuses of a message and of its job go together in few ways
(`StatusPair`), which `message_lifecycle` puts together.
-/

open Relational Runs

namespace Abrio

open DispatchJobRepository DispatchUseCase MessageUseCase

/-! ## What a step does to the rows -/

/-- The message an event decides on. -/
def Event.messageId : Event → Option UUID
  | .expired _ _ messageId => some messageId
  | .recorded _ _ messageId _ => some messageId
  | _ => none

/-- The submissions of a request. -/
def ApiTxn.submissions (now : Time) : ApiTxn → List Submission
  | .createMessage payload ids => [⟨payload, ids, now⟩]
  | .batchCreateMessage payload ids => batchSubmissions payload ids now
  | _ => []

/-- An update of open jobs by the relay or the reaper. -/
structure JobsMoved (jobs jobs' : Table DispatchJob.id) (move : DispatchJob → DispatchJob) :
    Prop where
  rows : jobs'.rows = jobs.rows.map move
  original : ∀ j, (move j).original = j.original
  moved : ∀ j ∈ jobs, move j = j ∨ j.status.terminal = false ∧
    ((move j).status = j.status ∨ (move j).status = .published ∨ (move j).status = .retry)

/-- A worker's write of a job and its message, with the event that decides on the message. -/
inductive WorkerWrite (s : Settings) (now : Time) (db : Db) (job : DispatchJob)
    (message : Message) :
    Act → List Event → Option BalanceOp → DispatchJob → Message → Prop
  | expired {w : OwnerId} {jobId : UUID}
      (claimable : Claimable s.dispatchConfig db jobId now job message)
      (exceeded : expressDeadlineExceeded s.dispatchConfig now message 0 = true) :
      WorkerWrite s now db job message (.claim w jobId) [.expired jobId w message.id]
        (some .release) (markFailed "Express delivery deadline exceeded" now job)
        (MessageRepository.markPermanentFailure now message)
  | claimed {w : OwnerId} {jobId : UUID}
      (claimable : Claimable s.dispatchConfig db jobId now job message)
      (in_time : expressDeadlineExceeded s.dispatchConfig now message 0 = false) :
      WorkerWrite s now db job message (.claim w jobId) [] none (markDispatching w now job)
        (MessageRepository.markDispatching now message)
  | recorded {w : OwnerId} {jitter : Jitter} {jobId : UUID} {job' : DispatchJob}
      {message' : Message} {result : ProviderResult} {r : Recorded}
      (held : Held db jobId w job message)
      (outcome : Outcome s.dispatchConfig result jitter now job message r message' job') :
      WorkerWrite s now db job message (.record w jitter) [.recorded jobId w message.id r]
        r.balanceOp job' message'

/-- What an act does to the rows, with the events that decide on a message. -/
inductive DbMove (s : Settings) (now : Time) (db : Db) : Act → List Event → Db → Prop
  | api {t : ApiTxn} : DbMove s now db (.api t) [] (t.apply s now db)
  | jobs {a : Act} {jobs : Table DispatchJob.id} {move : DispatchJob → DispatchJob}
      (moved : JobsMoved db.jobs jobs move) : DbMove s now db a [] { db with jobs }
  | worker {a : Act} {es : List Event} {op : Option BalanceOp} {job job' : DispatchJob}
      {message message' : Message} {db' : Db}
      (written : WorkerWrite s now db job message a es op job' message')
      (write : DeliveryWrite db op message' job' db') : DbMove s now db a es db'

namespace WorkerWrite

variable {s : Settings} {now : Time} {db : Db} {job job' : DispatchJob} {message message' : Message}
  {a : Act} {es : List Event} {op : Option BalanceOp}

/-- The rows a worker writes over. -/
theorem found (h : WorkerWrite s now db job message a es op job' message') :
    job ∈ db.jobs ∧ message ∈ db.messages ∧ job.messageId = message.id := by
  have hfound : ∀ {jobId : UUID}, db.jobs.find? jobId = some job →
      db.messages.find? job.messageId = some message →
        job ∈ db.jobs ∧ message ∈ db.messages ∧ job.messageId = message.id := by
    intro jobId hj hm
    obtain ⟨hmem, hi⟩ := Table.find?_eq_some.1 hm
    exact ⟨(Table.find?_eq_some.1 hj).1, hmem, hi.symm⟩
  cases h with
  | expired claimable => exact hfound claimable.job_found claimable.message_found
  | claimed claimable => exact hfound claimable.job_found claimable.message_found
  | recorded held => exact hfound held.job_found held.message_found

/-- A worker writes an open job. -/
theorem isOpen (h : WorkerWrite s now db job message a es op job' message') :
    job.status.terminal = false := by
  cases h with
  | expired claimable => exact claimable.not_terminal
  | claimed claimable => exact claimable.not_terminal
  | recorded held =>
    rw [held.dispatching]
    rfl

theorem moved (h : WorkerWrite s now db job message a es op job' message') :
    Moved op message message' job job' := by
  cases h with
  | @expired w jobId claimable exceeded =>
    exact Claimed.moved (w := w) (.expired exceeded) claimable.reserved
  | claimed claimable in_time => exact Claimed.moved (.delivery in_time) claimable.reserved
  | recorded held outcome => exact outcome.moved

end WorkerWrite

/-- A request leaves the messages and the jobs, or has its submissions accepted. -/
theorem ApiTxn.rows (s : Settings) (now : Time) (db : Db) (t : ApiTxn) :
    ((t.apply s now db).messages = db.messages ∧ (t.apply s now db).jobs = db.jobs) ∨
      ∃ u, (∀ sub ∈ t.submissions now, sub.request.userId = u) ∧
        Accepted s u (t.submissions now) db (t.apply s now db) := by
  cases t with
  | createUser id name =>
    left
    simp only [ApiTxn.apply]
    cases hc : UserUseCase.createUser id name db with
    | error e => exact ⟨rfl, rfl⟩
    | ok db' => exact UserUseCase.createUser_same hc
  | topupUserCredits userId amount =>
    left
    simp only [ApiTxn.apply]
    cases hc : BalanceUseCase.topupUserCredits userId amount db with
    | error e => exact ⟨rfl, rfl⟩
    | ok db' =>
      obtain ⟨b, credits, -, -, rfl⟩ := BalanceUseCase.topupUserCredits_ok hc
      exact ⟨rfl, rfl⟩
  | createMessage payload ids =>
    simp only [ApiTxn.apply, MessageUseCase.createMessage]
    split
    · rename_i hc
      exact Or.inr ⟨payload.userId, by simp [submissions], (createMessageTx_ok.1 hc).2⟩
    · exact Or.inl ⟨rfl, rfl⟩
  | batchCreateMessage payload ids =>
    simp only [ApiTxn.apply, MessageUseCase.batchCreateMessage]
    split
    · exact Or.inl ⟨rfl, rfl⟩
    · split
      · rename_i hc
        refine Or.inr ⟨payload.userId, fun sub hsub => ?_, (batchCreateMessageTx_ok.1 hc).2⟩
        obtain ⟨⟨item, i⟩, -, rfl⟩ := List.mem_map.1 hsub
        rfl
      · exact Or.inl ⟨rfl, rfl⟩

namespace JobsMoved

variable {jobs jobs' jobs'' : Table DispatchJob.id} {move move' : DispatchJob → DispatchJob}

theorem refl (jobs : Table DispatchJob.id) : JobsMoved jobs jobs id :=
  ⟨(List.map_id _).symm, fun _ => rfl, fun _ _ => Or.inl rfl⟩

theorem of_update {p : DispatchJob → Bool} {f : DispatchJob → DispatchJob}
    {hf : ∀ j, p j = true → (f j).id = j.id} (original : ∀ j, (f j).original = j.original)
    (isOpen : ∀ j ∈ jobs, p j = true → j.status.terminal = false)
    (stays : ∀ j, (f j).status = j.status ∨ (f j).status = .published ∨ (f j).status = .retry) :
    JobsMoved jobs (jobs.updateWhere p f hf) fun j => if p j then f j else j := by
  refine ⟨rfl, fun j => ?_, fun j hj => ?_⟩
  · split_ifs
    · exact original j
    · rfl
  · split_ifs with hp
    · exact Or.inr ⟨isOpen j hj hp, stays j⟩
    · exact Or.inl rfl

theorem trans (h : JobsMoved jobs jobs' move) (h' : JobsMoved jobs' jobs'' move') :
    JobsMoved jobs jobs'' (move' ∘ move) := by
  refine ⟨?_, fun j => (h'.original _).trans (h.original j), fun j hj => ?_⟩
  · rw [h'.rows, h.rows, List.map_map]
  have hmem : move j ∈ jobs' := by
    rw [Table.mem_def, h.rows]
    exact List.mem_map_of_mem hj
  rcases h.moved j hj with he | ⟨ht, hs⟩
  · have hmoved := h'.moved (move j) hmem
    rw [Function.comp_apply]
    rwa [he] at hmoved ⊢
  · rcases h'.moved (move j) hmem with he | ⟨-, hs'⟩
    · rw [Function.comp_apply, he]
      exact Or.inr ⟨ht, hs⟩
    · refine Or.inr ⟨ht, ?_⟩
      rcases hs' with hs' | hs'
      · rw [Function.comp_apply, hs']
        exact hs
      · exact Or.inr hs'

theorem markPublished (ids : List UUID) (r : OwnerId) (now : Time) (db : Db) :
    ∃ jobs move, markPublished ids r now db = { db with jobs } ∧ JobsMoved db.jobs jobs move := by
  unfold DispatchJobRepository.markPublished
  split_ifs
  · exact ⟨_, _, rfl, refl _⟩
  · exact ⟨_, _, rfl, of_update (fun _ => rfl)
      (fun j _ hp => not_terminal_of_publishable (publishable_of_heldBy hp))
      fun _ => Or.inr (Or.inl rfl)⟩

theorem markPublishRetry (ids : List UUID) (r : OwnerId) (error : String) (delay now : Time)
    (db : Db) : ∃ jobs move, markPublishRetry ids r error delay now db = { db with jobs } ∧
      JobsMoved db.jobs jobs move := by
  unfold DispatchJobRepository.markPublishRetry
  split_ifs
  · exact ⟨_, _, rfl, refl _⟩
  · exact ⟨_, _, rfl, of_update (fun _ => rfl)
      (fun j _ hp => not_terminal_of_publishable (publishable_of_heldBy hp))
      fun _ => Or.inr (Or.inr rfl)⟩

theorem recordPublications (r : OwnerId) (published : List UUID) (failed : List ClaimedJob)
    (error : String) (jitter : Jitter) (now : Time) (db : Db) :
    ∃ jobs move, Relay.recordPublications r published failed error jitter now db =
      { db with jobs } ∧ JobsMoved db.jobs jobs move := by
  obtain ⟨jobs, move, he, hm⟩ := markPublished published r now db
  unfold Relay.recordPublications
  rw [he]
  split_ifs
  · exact ⟨jobs, move, rfl, hm⟩
  · obtain ⟨jobs', move', he', hm'⟩ := markPublishRetry (failed.map ClaimedJob.id) r error
      (calculateBackoff (Relay.highestRetryCount failed) jitter) now { db with jobs }
    exact ⟨jobs', _, he', hm.trans hm'⟩

end JobsMoved

namespace System

variable {s : Settings} {now : Time} {sys : System}

/-- What the log says of one message. -/
def messageLog (sys : System) (messageId : UUID) : List Event :=
  sys.log.filter fun e => e.messageId = some messageId

/-- What a step does to the rows and logs of the messages. -/
def Moved (s : Settings) (a : Time × Act) (sys sys' : System) : Prop :=
  ∃ es, DbMove s a.1 sys.db a.2 es sys'.db ∧
    ∀ id, sys'.messageLog id = sys.messageLog id ++ es.filter fun e => e.messageId = some id

theorem messageLog_append {sys' : System} {log : List Event} (h : sys'.log = sys.log ++ log)
    (id : UUID) :
    sys'.messageLog id = sys.messageLog id ++ log.filter fun e => e.messageId = some id := by
  rw [messageLog, h, List.filter_append]
  rfl

/-- A step that changes no row and logs nothing of a message. -/
theorem Moved.of_same {a : Time × Act} {sys' : System} (hd : sys'.db = sys.db) {es : List Event}
    (hl : sys'.log = sys.log ++ es) (hes : ∀ e ∈ es, e.messageId = none) :
    Moved s a sys sys' := by
  refine ⟨[], ?_, fun id => ?_⟩
  · rw [hd]
    exact .jobs (.refl _)
  · rw [messageLog_append hl, List.filter_eq_nil_iff.2 fun e he => by simp [hes e he]]
    rfl

theorem claim_moved (w : OwnerId) (jobId : UUID) :
    Moved s (now, .claim w jobId) sys (sys.claim s now w jobId) := by
  rcases sys.claim_cases s now w jobId with h | ⟨db', claim, processes, hc, -, h⟩ <;> rw [h]
  · exact .of_same (by rfl) (List.append_nil _).symm (by simp)
  rcases claimForDelivery_ok hc with ⟨rfl, rfl⟩ | ⟨job, message, op, message', job', hcl, hw, hd⟩
  · exact .of_same (by rfl) (by rfl) (by simp [claimEnd])
  · cases hw with
    | expired exceeded =>
      exact ⟨_, .worker (.expired hcl exceeded) hd, fun id => messageLog_append rfl id⟩
    | delivery in_time =>
      refine ⟨[], .worker (.claimed hcl in_time) hd, fun id => ?_⟩
      rw [messageLog_append rfl]
      simp [claimEnd, Event.messageId]

theorem record_moved (w : OwnerId) (jitter : Jitter) :
    Moved s (now, .record w jitter) sys (sys.record s now w jitter) := by
  rcases sys.record_cases s now w jitter with
    h | ⟨jobId, result, -, h | ⟨db', recorded, hr, h⟩⟩ <;> rw [h]
  · exact .of_same (by rfl) (List.append_nil _).symm (by simp)
  · exact .of_same (by rfl) (List.append_nil _).symm (by simp)
  rcases recordOutcome_ok hr with
    ⟨rfl, rfl⟩ | ⟨job, message, r, message', job', rfl, hh, ho, hd⟩
  · exact .of_same (by rfl) (by rfl) (by simp [recordEnd])
  · exact ⟨_, .worker (.recorded hh ho) hd, fun id => messageLog_append rfl id⟩

theorem step_moved (s : Settings) (sys : System) (a : Time × Act) :
    Moved s a sys (sys.step s a) := by
  have hact : Moved s a sys (sys.act s a.1 a.2) := by
    obtain ⟨now, a⟩ := a
    cases a with
    | api t => exact ⟨[], .api, fun id => (List.append_nil _).symm⟩
    | reap p scan =>
      refine ⟨[], .jobs (.of_update (fun _ => rfl) (fun j hj hp => ?_) fun _ =>
        Or.inr (Or.inr rfl)), fun id => ?_⟩
      · exact not_terminal_of_stale (stale_of_reclaimed hj (of_decide_eq_true hp)).2
      · refine (messageLog_append rfl id).trans ?_
        simp [List.filter_map, Event.messageId, Function.comp_def]
    | relayClaim r p scans =>
      rcases sys.relayClaim_cases s now r p scans with h | ⟨_, h⟩ <;> rw [act, h]
      · exact .of_same (by rfl) (List.append_nil _).symm (by simp)
      · refine ⟨[], .jobs (.of_update (fun _ => rfl) (fun j hj hp => ?_) fun _ => Or.inl rfl),
          fun id => (List.append_nil _).symm⟩
        have he := eligible_of_claimed hj (of_decide_eq_true hp)
        exact not_terminal_of_publishable (eligible_iff.1 he).2.1
    | publish r accepts delivered =>
      obtain ⟨_, _, h⟩ := sys.publish_cases r accepts delivered
      rw [act, h]
      exact .of_same (by rfl) (List.append_nil _).symm (by simp)
    | relayRecord r error jitter =>
      rcases sys.relayRecord_cases now r error jitter with
        h | ⟨published, failed, _, h⟩ <;> rw [act, h]
      · exact .of_same (by rfl) (List.append_nil _).symm (by simp)
      · obtain ⟨jobs, move, he, hm⟩ :=
          JobsMoved.recordPublications r published failed error jitter now sys.db
        refine ⟨[], ?_, fun id => (List.append_nil _).symm⟩
        dsimp only
        rw [he]
        exact .jobs hm
    | relayCrash r => exact .of_same (by rfl) (List.append_nil _).symm (by simp)
    | dropTask jobId => exact .of_same (by rfl) (List.append_nil _).symm (by simp)
    | claim w jobId => exact claim_moved w jobId
    | send w result =>
      rcases sys.send_cases w result with h | ⟨jobId, _, -, h⟩ <;> rw [act, h]
      · exact .of_same (by rfl) (List.append_nil _).symm (by simp)
      · exact .of_same (by rfl) (by rfl) (by simp [Event.messageId])
    | record w jitter => exact record_moved w jitter
    | workerCrash w =>
      rcases sys.workerCrash_cases w with h | ⟨_, _, -, h⟩ <;> rw [act, h] <;>
        exact .of_same (by rfl) (List.append_nil _).symm (by simp)
  exact hact

end System

/-! ## Relations between a job and its message -/

/-- A relation that every move of the rows keeps. -/
structure KeptByMoves (s : Settings) (R : DispatchJob → Message → Prop) : Prop where
  jobs : ∀ j j' m, j'.original = j.original → j.status.terminal = false →
    (j'.status = j.status ∨ j'.status = .published ∨ j'.status = .retry) → R j m → R j' m
  worker : ∀ now db job message a es op job' message',
    WorkerWrite s now db job message a es op job' message' → R job message → R job' message'

theorem DbMove.forLinked {s : Settings} {R : DispatchJob → Message → Prop} (hR : KeptByMoves s R)
    {now : Time} {db db' : Db} {a : Act} {es : List Event} (hmove : DbMove s now db a es db')
    (hdb : db.Constrained)
    (hnew : ∀ t u, a = .api t → Accepted s u (t.submissions now) db db' →
      ∀ sub ∈ t.submissions now, R (newJob s sub) (newMessage s sub))
    (h : db.ForLinked R) : db'.ForLinked R := by
  cases hmove with
  | @api t =>
    rcases t.rows s now db with ⟨hm, hj⟩ | ⟨u, -, accepted⟩
    · exact h.of_same hm hj
    · exact accepted.forLinked hdb h (hnew t u rfl accepted)
  | @jobs a jobs move moved =>
    intro j' hj' m hm hi
    have hj' : j' ∈ jobs.rows := hj'
    rw [moved.rows] at hj'
    obtain ⟨j, hj, rfl⟩ := List.mem_map.1 hj'
    have ho := moved.original j
    rw [DispatchJob.messageId_eq ho] at hi
    rcases moved.moved j hj with he | ⟨hopen, hs⟩
    · rw [he]
      exact h j hj m hm hi
    · exact hR.jobs j _ m ho hopen hs (h j hj m hm hi)
  | worker written write =>
    obtain ⟨hj, hm, hi⟩ := written.found
    exact h.deliveryWrite hdb hj hi written.moved write
      (hR.worker _ _ _ _ _ _ _ _ _ written (h _ hj _ hm hi))

/-! ## The statuses -/

/-- The statuses a message can have beside a job's. -/
def DispatchJobStatus.messageStatuses : DispatchJobStatus → List MessageStatus
  | .pending => [.queued]
  | .published => [.queued, .dispatching, .failed]
  | .retry => [.queued, .dispatching, .failed]
  | .dispatching => [.dispatching]
  | .completed => [.sent]
  | .failed => [.permanentFailed]

/-- The statuses of a job and of its message go together. -/
def StatusPair (j : DispatchJob) (m : Message) : Prop :=
  m.status ∈ j.status.messageStatuses

theorem statusPair_kept (s : Settings) : KeptByMoves s StatusPair := by
  refine ⟨fun j j' m _ hopen hs h => ?_, ?_⟩
  · unfold StatusPair at h ⊢
    rcases hs with hs | hs | hs <;> rw [hs]
    · exact h
    all_goals
      revert h hopen
      cases j.status <;> cases m.status <;> decide
  · intro now db job message a es op job' message' written _
    cases written with
    | expired => exact List.mem_singleton.2 rfl
    | claimed => exact List.mem_singleton.2 rfl
    | recorded held outcome =>
      cases outcome <;> simp [StatusPair, DispatchJobStatus.messageStatuses,
        MessageRepository.markSent, MessageRepository.markPermanentFailure,
        MessageRepository.markRetryableFailure, markCompleted, markFailed, markDeliveryRetry]

/-- The statuses that may follow a message's. -/
def MessageStatus.next : MessageStatus → List MessageStatus
  | .queued => [.dispatching, .permanentFailed]
  | .dispatching => [.failed, .sent, .permanentFailed]
  | .failed => [.dispatching, .permanentFailed]
  | .sent => []
  | .permanentFailed => []

/-- A status stays, or one that may follow takes its place. -/
def MessageStatus.Follows (status status' : MessageStatus) : Prop :=
  status' = status ∨ status' ∈ status.next

/-- The messages of open jobs are neither sent nor given up. -/
theorem StatusPair.of_open {j : DispatchJob} {m : Message} (h : StatusPair j m)
    (hopen : j.status.terminal = false) :
    m.status = .queued ∨ m.status = .dispatching ∨ m.status = .failed := by
  unfold StatusPair at h
  revert h hopen
  cases j.status <;> cases m.status <;> decide

theorem WorkerWrite.follows {s : Settings} {now : Time} {db : Db} {job job' : DispatchJob}
    {message message' : Message} {a : Act} {es : List Event} {op : Option BalanceOp}
    (written : WorkerWrite s now db job message a es op job' message')
    (h : StatusPair job message) : message.status.Follows message'.status := by
  have hstatus := h.of_open written.isOpen
  cases written with
  | expired =>
    refine Or.inr ?_
    rcases hstatus with hs | hs | hs <;> rw [hs] <;>
      simp [MessageStatus.next, MessageRepository.markPermanentFailure]
  | claimed =>
    rcases hstatus with hs | hs | hs <;> rw [hs] <;>
      simp [MessageStatus.Follows, MessageStatus.next, MessageRepository.markDispatching]
  | recorded held outcome =>
    have hs : message.status = .dispatching := by
      unfold StatusPair at h
      rw [held.dispatching] at h
      exact List.mem_singleton.1 h
    refine Or.inr ?_
    rw [hs]
    cases outcome <;> simp [MessageStatus.next, MessageRepository.markSent,
      MessageRepository.markPermanentFailure, MessageRepository.markRetryableFailure]

theorem WorkerWrite.events_messageId {s : Settings} {now : Time} {db : Db} {job job' : DispatchJob}
    {message message' : Message} {a : Act} {es : List Event} {op : Option BalanceOp}
    (written : WorkerWrite s now db job message a es op job' message') :
    ∀ e ∈ es, e.messageId = some message.id := by
  intro e he
  cases written with
  | claimed => cases he
  | _ =>
    rw [List.mem_singleton.1 he]
    rfl

/-! ## The log of a message -/

/-- The status an outcome leaves the message in. -/
def Recorded.status : Recorded → MessageStatus
  | .succeeded => .sent
  | .providerTemporaryFailure => .failed
  | _ => .permanentFailed

/-- The status an event leaves the message in. -/
def Event.status : Event → Option MessageStatus
  | .expired _ _ _ => some .permanentFailed
  | .recorded _ _ _ r => some r.status
  | _ => none

/-- Temporary failures alone. -/
def Retries (log : List Event) : Prop :=
  ∀ e ∈ log, e.status = some .failed

/-- What the log says of a message, by its status. -/
inductive MessageTrace : MessageStatus → List Event → Prop
  | queued : MessageTrace .queued []
  | dispatching {log : List Event} (retries : Retries log) : MessageTrace .dispatching log
  | decided {log : List Event} {e : Event} {status : MessageStatus} (retries : Retries log)
      (last : e.status = some status) : MessageTrace status (log ++ [e])

namespace MessageTrace

/-- A message that is neither sent nor given up has had temporary failures alone. -/
theorem retries {status : MessageStatus} {log : List Event} (h : MessageTrace status log)
    (hopen : status = .queued ∨ status = .dispatching ∨ status = .failed) : Retries log := by
  cases h with
  | queued => exact fun e he => absurd he (List.not_mem_nil)
  | dispatching retries => exact retries
  | @decided log e _ retries last =>
    have hfailed : status = .failed := by
      rcases hopen with rfl | rfl | rfl
      · cases e with
        | recorded _ _ _ r => cases r <;> cases last
        | _ => cases last
      · cases e with
        | recorded _ _ _ r => cases r <;> cases last
        | _ => cases last
      · rfl
    intro e' he'
    rcases List.mem_append.1 he' with he' | he'
    · exact retries e' he'
    · rw [List.mem_singleton.1 he', last, hfailed]

theorem write {s : Settings} {now : Time} {db : Db} {job job' : DispatchJob}
    {message message' : Message} {a : Act} {es log : List Event} {op : Option BalanceOp}
    (h : MessageTrace message.status log)
    (written : WorkerWrite s now db job message a es op job' message')
    (pair : StatusPair job message) : MessageTrace message'.status (log ++ es) := by
  have hretries := h.retries (pair.of_open written.isOpen)
  cases written with
  | expired => exact .decided hretries rfl
  | claimed =>
    rw [List.append_nil]
    exact .dispatching hretries
  | recorded held outcome => cases outcome <;> exact .decided hretries rfl

end MessageTrace

namespace System

variable {s : Settings} {sys : System}

/-- The invariant of the messages. -/
structure MessageInv (sys : System) : Prop where
  consistent : sys.db.Consistent
  pair : sys.db.ForLinked StatusPair
  trace : ∀ m ∈ sys.db.messages, MessageTrace m.status (sys.messageLog m.id)
  unknown : ∀ id, (∀ m ∈ sys.db.messages, m.id ≠ id) → sys.messageLog id = []

namespace MessageInv

/-- Requests leave the logs of the messages. -/
theorem api {sys' : System} {now : Time} {t : ApiTxn} (h : sys.MessageInv)
    (hdb : sys'.db = t.apply s now sys.db) (hlog : ∀ id, sys'.messageLog id = sys.messageLog id) :
    (∀ m ∈ sys'.db.messages, MessageTrace m.status (sys'.messageLog m.id)) ∧
      ∀ id, (∀ m ∈ sys'.db.messages, m.id ≠ id) → sys'.messageLog id = [] := by
  have hrows := t.rows s now sys.db
  rw [← hdb] at hrows
  rcases hrows with ⟨hm, -⟩ | ⟨u, -, accepted⟩
  · rw [hm]
    exact ⟨fun m hm => hlog m.id ▸ h.trace m hm, fun id hid => (hlog id).trans (h.unknown id hid)⟩
  · refine ⟨fun m hm => ?_, fun id hid => (hlog id).trans (h.unknown id fun m hm =>
      hid m (accepted.mem_messages.2 (Or.inl hm)))⟩
    rw [hlog]
    rcases accepted.mem_messages.1 hm with hm | ⟨sub, hsub, rfl⟩
    · exact h.trace m hm
    · rw [h.unknown]
      · exact .queued
      · intro m hm' hi
        have hn := sys'.db.messages.nodup
        rw [accepted.messages, List.map_append, List.nodup_append] at hn
        exact hn.2.2 _ (List.mem_map_of_mem hm') _
          (List.mem_map_of_mem (List.mem_map_of_mem hsub)) hi

theorem step (h : sys.MessageInv) (a : Time × Act) : (sys.step s a).MessageInv := by
  obtain ⟨es, hmove, hlog⟩ := step_moved s sys a
  have hconsistent := step_consistent (s := s) a h.consistent
  have hpair := hmove.forLinked (statusPair_kept s) h.consistent.constrained
    (fun _ _ _ _ _ _ => List.mem_singleton.2 rfl) h.pair
  suffices hsuff : (∀ m ∈ (sys.step s a).db.messages,
      MessageTrace m.status ((sys.step s a).messageLog m.id)) ∧
      ∀ id, (∀ m ∈ (sys.step s a).db.messages, m.id ≠ id) → (sys.step s a).messageLog id = [] from
    ⟨hconsistent, hpair, hsuff.1, hsuff.2⟩
  clear hconsistent hpair
  generalize sys.step s a = sys' at hmove hlog
  generalize hdb : sys'.db = db' at hmove
  obtain ⟨now, a⟩ := a
  cases hmove with
  | api =>
    rw [← hdb]
    exact h.api hdb fun id => (hlog id).trans (List.append_nil _)
  | jobs moved =>
    have hsame : ∀ id, sys'.messageLog id = sys.messageLog id := fun id =>
      (hlog id).trans (List.append_nil _)
    exact ⟨fun m hm => hsame m.id ▸ h.trace m hm, fun id hid => (hsame id).trans (h.unknown id hid)⟩
  | worker written write =>
    rename_i op job job' message message'
    obtain ⟨hj, hm, hi⟩ := written.found
    have hid := Message.id_eq written.moved.message_original
    have hown : sys'.messageLog message.id = sys.messageLog message.id ++ es := by
      rw [hlog, List.filter_eq_self.2]
      exact fun e he => decide_eq_true (written.events_messageId e he)
    have hother : ∀ id, id ≠ message.id → sys'.messageLog id = sys.messageLog id := by
      intro id hne
      rw [hlog, List.filter_eq_nil_iff.2, List.append_nil]
      intro e he hp
      have he' := written.events_messageId e he
      rw [of_decide_eq_true hp] at he'
      exact hne (Option.some.inj he')
    rw [write.messages]
    refine ⟨fun m hm' => ?_, fun id hid' => ?_⟩
    · rcases Table.mem_put.1 hm' with ⟨hm', hne⟩ | ⟨rfl, -⟩
      · rw [hother m.id fun he => hne (he.trans hid.symm)]
        exact h.trace m hm'
      · rw [hid, hown]
        exact (h.trace message hm).write written (h.pair job hj message hm hi)
    · have hne : id ≠ message.id := fun he =>
        hid' message' (Table.mem_put_self hm hid.symm) (hid.trans he.symm)
      rw [hother id hne]
      refine h.unknown id fun m hm' hi' => ?_
      obtain ⟨x, hx, hxi⟩ := Table.exists_mem_put hm' message'
      exact hid' x hx (hxi.trans hi')

end MessageInv

theorem after_messageInv (s : Settings) (acts : List (Time × Act)) : (after s acts).MessageInv :=
  run_induction (P := MessageInv) (fun _ a h => h.step a) acts
    ⟨Db.consistent_empty, fun _ hj => absurd hj (Table.not_mem_empty _),
      fun _ hm => absurd hm (Table.not_mem_empty _), fun _ _ => rfl⟩

/-- A step leaves a message its status, or gives it one that may follow. -/
theorem step_follows (h : sys.MessageInv) (a : Time × Act) {m : Message}
    (hm : m ∈ sys.db.messages) : ∃ m' ∈ (sys.step s a).db.messages,
      m'.original = m.original ∧ m.status.Follows m'.status := by
  obtain ⟨es, hmove, -⟩ := step_moved s sys a
  generalize (sys.step s a).db = db' at hmove ⊢
  obtain ⟨now, a⟩ := a
  cases hmove with
  | @api t =>
    rcases t.rows s now sys.db with ⟨hmsg, -⟩ | ⟨u, -, accepted⟩
    · exact ⟨m, hmsg ▸ hm, rfl, Or.inl rfl⟩
    · exact ⟨m, accepted.mem_messages.2 (Or.inl hm), rfl, Or.inl rfl⟩
  | jobs moved => exact ⟨m, hm, rfl, Or.inl rfl⟩
  | @worker _ _ op job job' message message' db' written write =>
    obtain ⟨hj, hmem, hi⟩ := written.found
    have ho := written.moved.message_original
    rw [write.messages]
    by_cases he : m = message
    · subst he
      exact ⟨message', Table.mem_put_self hm (Message.id_eq ho).symm, ho,
        written.follows (h.pair job hj m hm hi)⟩
    · refine ⟨m, Table.mem_put_of_ne hm fun hid => he ?_, rfl, Or.inl rfl⟩
      exact Table.eq_of_key_eq hm hmem (hid.trans (Message.id_eq ho))

end System

/-- The life of a message, in every run of atomic transactions. Its log is a number of temporary
failures, and one outcome after them once it is sent or given up. Its status goes with its job's.
No step gives it a status that may not follow the one it has. -/
theorem message_lifecycle (s : Settings) (acts : List (Time × Act)) :
    let sys := System.after s acts
    (∀ m ∈ sys.db.messages, MessageTrace m.status (sys.messageLog m.id)) ∧
      sys.db.ForLinked StatusPair ∧
      ∀ a, ∀ m ∈ sys.db.messages, ∃ m' ∈ (sys.step s a).db.messages,
        m'.original = m.original ∧ m.status.Follows m'.status := by
  intro sys
  have h := System.after_messageInv s acts
  exact ⟨h.trace, h.pair, fun a m hm => System.step_follows h a hm⟩

end Abrio
