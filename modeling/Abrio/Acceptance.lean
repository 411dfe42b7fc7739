import Abrio.Statements
import Abrio.Submission
import Mathlib.Algebra.Order.BigOperators.Group.List

/-!
# Accepted submissions

Both submission paths write the same rows : for each request a message and its job, and
one reservation of what they cost together. `Accepted` is that write for a list of
submissions, requests with the ids and the clock reading they draw; `createMessageTx_ok`
and `batchCreateMessageTx_ok` say that the two transactions commit exactly it, the single
path for a list of one.
-/

open Relational Runs

namespace Abrio

/-- A request with the ids and the clock reading its submission draws. -/
structure Submission where
  request : MessageRequest
  ids : Ids
  now : Time

/-- The balance with `amount` more reserved. -/
def Balance.raised (b : Balance) (amount : Cents) : Balance :=
  { b with reservedCredits := b.reservedCredits + amount }

@[simp] theorem Balance.raised_userId (b : Balance) (amount : Cents) :
    (b.raised amount).userId = b.userId :=
  rfl

@[simp] theorem Balance.raised_reservedCredits (b : Balance) (amount : Cents) :
    (b.raised amount).reservedCredits = b.reservedCredits + amount :=
  rfl

@[simp] theorem Balance.raised_raised (b : Balance) (c d : Cents) :
    (b.raised c).raised d = b.raised (c + d) := by
  simp [Balance.raised, add_assoc]

/-- The values of a request fit the columns of its message. -/
def MessageRequest.storable (s : Settings) (r : MessageRequest) : Bool :=
  fitsInt4 r.userId && storableVarchar 13 r.recipient && storableVarchar 70 r.body &&
    fitsNumeric (s.messageCost r.priority)

namespace MessageUseCase

variable (s : Settings)

/-- The message a submission inserts. -/
def newMessage (sub : Submission) : Message :=
  MessageRepository.createMessage sub.ids.messageId sub.now (payloadDict s sub.request)

/-- The job a submission inserts. -/
def newJob (sub : Submission) : DispatchJob :=
  DispatchJobRepository.create sub.ids.jobId sub.now sub.ids.messageId sub.request.priority
    (payloadDict s sub.request)

/-- What a submission costs. -/
def submissionCost (sub : Submission) : Cents :=
  s.messageCost sub.request.priority

/-- The items of a batch as submissions of their own. -/
def batchSubmissions (payload : BatchMessageRequest) (ids : ℕ → Ids) (now : Time) :
    List Submission :=
  payload.messages.zipIdx.map fun (item, i) => ⟨item.toRequest payload.userId, ids i, now⟩

/-- The requests of a batch. -/
theorem map_request_batchSubmissions (payload : BatchMessageRequest) (ids : ℕ → Ids) (now : Time) :
    (batchSubmissions payload ids now).map Submission.request =
      payload.messages.map (·.toRequest payload.userId) := by
  rw [batchSubmissions, List.map_map, ← List.zipIdx_map_fst 0 payload.messages, List.map_map]
  simp [Function.comp_def]

theorem batchSubmissions_ne (payload : BatchMessageRequest) (ids : ℕ → Ids) (now : Time) :
    batchSubmissions payload ids now ≠ [] := by
  simpa [batchSubmissions] using payload.messages_ne

/-- What holds of the requests of a batch holds of its items. -/
theorem forall_mem_batchSubmissions {payload : BatchMessageRequest} {ids : ℕ → Ids} {now : Time}
    {P : MessageRequest → Prop} :
    (∀ sub ∈ batchSubmissions payload ids now, P sub.request) ↔
      ∀ item ∈ payload.messages, P (item.toRequest payload.userId) := by
  rw [← List.forall_mem_map (P := P), map_request_batchSubmissions, List.forall_mem_map]

theorem user_of_mem_batchSubmissions {payload : BatchMessageRequest} {ids : ℕ → Ids}
    {now : Time} {sub : Submission} (h : sub ∈ batchSubmissions payload ids now) :
    sub.request.userId = payload.userId :=
  forall_mem_batchSubmissions (P := fun r => r.userId = payload.userId).2 (fun _ _ => rfl) sub h

/-- `db'` is `db` with a message and a job for each of `subs` and their cost reserved. -/
structure Accepted (userId : UserId) (subs : List Submission) (db db' : Db) : Prop where
  users : db'.users = db.users
  messages : db'.messages.rows = db.messages.rows ++ subs.map (newMessage s)
  jobs : db'.jobs.rows = db.jobs.rows ++ subs.map (newJob s)
  messages_new : db.NewMessages (subs.map (newMessage s))
  jobs_new : { db with messages := db'.messages }.NewJobs (subs.map (newJob s))
  cost_pos : 0 < (subs.map (submissionCost s)).sum
  balance : ∃ b, db.balances.find? userId = some b ∧
    (b.raised (subs.map (submissionCost s)).sum).Constrained ∧
    db'.balances = db.balances.put (b.raised (subs.map (submissionCost s)).sum)

variable {s} {db db' : Db} {now : Time}

/-- The statements of both transactions, in the order of the batch. -/
theorem statements_ok {userId : UserId} {subs : List Submission} :
    (∃ db₁, db.insertMessages (subs.map (newMessage s)) = .ok db₁ ∧
      ∃ db₂, db₁.insertJobs (subs.map (newJob s)) = .ok db₂ ∧
        ∃ b, BalanceRepository.reserveCredits db₂ userId (subs.map (submissionCost s)).sum = .ok b ∧
          db₂.writeBalance b = .ok db') ↔ Accepted s userId subs db db' := by
  simp only [Db.insertMessages_ok, Db.insertJobs_ok, BalanceRepository.reserveCredits_ok,
    Db.writeBalance_ok]
  constructor
  · rintro ⟨_, ⟨hm, t, ht, rfl⟩, _, ⟨hj, t', ht', rfl⟩, _, ⟨hc, b, hb, rfl⟩, hcon, rfl⟩
    exact ⟨rfl, ht, ht', hm, hj, hc, b, hb, hcon, rfl⟩
  · rintro ⟨hu, hm, hj, hmn, hjn, hc, b, hb, hcon, hbal⟩
    exact ⟨_, ⟨hmn, db'.messages, hm, rfl⟩, _, ⟨hjn, db'.jobs, hj, rfl⟩, _, ⟨hc, b, hb, rfl⟩, hcon,
      Db.ext hu hbal rfl rfl⟩

/-- The statements of `create_message`. -/
theorem createMessageTx_eq (payload : MessageRequest) (ids : Ids) :
    createMessageTx s payload ids now db = do
      let db₁ ← db.insertMessages [newMessage s ⟨payload, ids, now⟩]
      let balance ← BalanceRepository.reserveCredits db₁ payload.userId
        (submissionCost s ⟨payload, ids, now⟩)
      let db₂ ← db₁.insertJobs [newJob s ⟨payload, ids, now⟩]
      let db₃ ← db₂.writeBalance balance
      return (db₃, newMessage s ⟨payload, ids, now⟩) :=
  rfl

/-- `create_message` commits the write for its one request. -/
theorem createMessageTx_ok {payload : MessageRequest} {ids : Ids} {m : Message} :
    createMessageTx s payload ids now db = .ok (db', m) ↔
      m = newMessage s ⟨payload, ids, now⟩ ∧
        Accepted s payload.userId [⟨payload, ids, now⟩] db db' := by
  have hsum : ([⟨payload, ids, now⟩].map (submissionCost s)).sum =
      submissionCost s ⟨payload, ids, now⟩ := by
    simp
  rw [← statements_ok, hsum, List.map_singleton, List.map_singleton, createMessageTx_eq]
  simp only [bind_eq_ok, pure, Except.pure, Except.ok.injEq, Prod.mk.injEq,
    Db.insertMessages_ok, Db.insertJobs_ok, BalanceRepository.reserveCredits_ok,
    Db.writeBalance_ok]
  constructor
  · rintro ⟨_, ⟨hm, t, ht, rfl⟩, _, ⟨hc, b, hb, rfl⟩, _, ⟨hj, t', ht', rfl⟩, _, ⟨hcon, rfl⟩, rfl,
      rfl⟩
    exact ⟨rfl, _, ⟨hm, t, ht, rfl⟩, _, ⟨hj, t', ht', rfl⟩, _, ⟨hc, b, hb, rfl⟩, hcon, rfl⟩
  · rintro ⟨rfl, _, ⟨hm, t, ht, rfl⟩, _, ⟨hj, t', ht', rfl⟩, _, ⟨hc, b, hb, rfl⟩, hcon, rfl⟩
    exact ⟨_, ⟨hm, t, ht, rfl⟩, _, ⟨hc, b, hb, rfl⟩, _, ⟨hj, t', ht', rfl⟩, _, ⟨hcon, rfl⟩, rfl,
      rfl⟩

theorem foldl_cost (c : Cents) (items : List BatchMessageRequestItem) :
    items.foldl (fun cost item => cost + s.messageCost item.priority) c =
      c + (items.map fun item => s.messageCost item.priority).sum := by
  induction items generalizing c with
  | nil => simp
  | cons item items ih => rw [List.foldl_cons, ih, List.map_cons, List.sum_cons, add_assoc]

/-- The precomputed total of a batch is the sum of what its requests cost. -/
theorem calculateBatchMessageCost_eq (payload : BatchMessageRequest) (ids : ℕ → Ids)
    (now : Time) : calculateBatchMessageCost s payload.messages =
      ((batchSubmissions payload ids now).map (submissionCost s)).sum := by
  rw [calculateBatchMessageCost, foldl_cost, zero_add, batchSubmissions, List.map_map,
    ← List.zipIdx_map_fst 0 payload.messages, List.map_map]
  simp [Function.comp_def, submissionCost, BatchMessageRequestItem.toRequest]

theorem map_fst_messagePairs (payload : BatchMessageRequest) (ids : ℕ → Ids) :
    (messagePairs s payload ids now).map (·.1) =
      (batchSubmissions payload ids now).map (newMessage s) := by
  rw [messagePairs, batchSubmissions, List.map_map, List.map_map]
  rfl

/-- The statements of `batch_create_message`. -/
theorem batchCreateMessageTx_eq (payload : BatchMessageRequest) (ids : ℕ → Ids) :
    batchCreateMessageTx s payload ids now db = do
      let db₁ ← db.insertMessages ((batchSubmissions payload ids now).map (newMessage s))
      let db₂ ← db₁.insertJobs ((batchSubmissions payload ids now).map (newJob s))
      let balance ← BalanceRepository.reserveCredits db₂ payload.userId
        ((batchSubmissions payload ids now).map (submissionCost s)).sum
      let db₃ ← db₂.writeBalance balance
      return (db₃, (batchSubmissions payload ids now).map (newMessage s)) := by
  have hjobs : ∀ job : Message × BatchMessageRequestItem × ℕ → DispatchJob,
      (∀ item i, job (newMessage s ⟨item.toRequest payload.userId, ids i, now⟩, item, i) =
        newJob s ⟨item.toRequest payload.userId, ids i, now⟩) →
      (messagePairs s payload ids now).map job =
        (batchSubmissions payload ids now).map (newJob s) := by
    intro job hjob
    rw [messagePairs, batchSubmissions, List.map_map, List.map_map]
    exact List.map_congr_left fun x _ => hjob x.1 x.2
  rw [batchCreateMessageTx, map_fst_messagePairs, hjobs _ fun _ _ => rfl,
    calculateBatchMessageCost_eq payload ids now]

/-- `batch_create_message` commits the write for the requests of its items. -/
theorem batchCreateMessageTx_ok {payload : BatchMessageRequest} {ids : ℕ → Ids}
    {ms : List Message} :
    batchCreateMessageTx s payload ids now db = .ok (db', ms) ↔
      ms = (batchSubmissions payload ids now).map (newMessage s) ∧
        Accepted s payload.userId (batchSubmissions payload ids now) db db' := by
  rw [← statements_ok, batchCreateMessageTx_eq]
  simp only [bind_eq_ok, pure, Except.pure, Except.ok.injEq, Prod.mk.injEq]
  constructor
  · rintro ⟨db₁, h₁, db₂, h₂, b, hb, _, h, rfl, rfl⟩
    exact ⟨rfl, db₁, h₁, db₂, h₂, b, hb, h⟩
  · rintro ⟨rfl, db₁, h₁, db₂, h₂, b, hb, h⟩
    exact ⟨db₁, h₁, db₂, h₂, b, hb, _, h, rfl, rfl⟩

end MessageUseCase

/-! ## When there is a state to commit -/

namespace Db

/-- The user has a message with this key. -/
def hasKey (db : Db) (u : UserId) (key : UUID) : Prop :=
  ∃ m ∈ db.messages, m.userId = u ∧ m.idempotencyKey = key

/-- The user is stored. -/
def hasUser (db : Db) (u : UserId) : Prop :=
  ∃ x ∈ db.users, x.id = u

theorem messageWithKey_isSome {db : Db} {u : UserId} {key : UUID} :
    (∃ m, db.messageWithKey u key = some m) ↔ db.hasKey u key := by
  constructor
  · rintro ⟨m, h⟩
    exact ⟨m, messageWithKey_eq_some h⟩
  · rintro ⟨m, hm, h⟩
    cases hf : db.messageWithKey u key with
    | some x => exact ⟨x, rfl⟩
    | none => exact absurd h (messageWithKey_eq_none.1 hf m hm)

end Db

namespace MessageUseCase

/-- What requests cost together. -/
def requestsCost (s : Settings) (rs : List MessageRequest) : Cents :=
  (rs.map fun r => s.messageCost r.priority).sum

/-- The ids of `subs` occur nowhere in the state, and each once among `subs`. -/
structure FreshIds (db : Db) (subs : List Submission) : Prop where
  message_id : ∀ sub ∈ subs, ∀ m ∈ db.messages, m.id ≠ sub.ids.messageId
  job_id : ∀ sub ∈ subs, ∀ j ∈ db.jobs, j.id ≠ sub.ids.jobId
  message_ids : (subs.map fun sub => sub.ids.messageId).Nodup
  job_ids : (subs.map fun sub => sub.ids.jobId).Nodup

/-- What the state must give for the requests `rs` of a user to be accepted. -/
structure Acceptable (s : Settings) (db : Db) (u : UserId) (rs : List MessageRequest) : Prop where
  storable : ∀ r ∈ rs, r.storable s = true
  cost_pos : ∀ r ∈ rs, 0 < s.messageCost r.priority
  keys : (rs.map MessageRequest.idempotencyKey).Nodup
  new_key : ∀ r ∈ rs, ¬db.hasKey u r.idempotencyKey
  user : db.hasUser u
  balance : ∃ b, db.balances.find? u = some b ∧ (b.raised (requestsCost s rs)).Constrained

variable {s : Settings} {db db' : Db} {u : UserId} {subs : List Submission}

theorem sum_submissionCost :
    (subs.map (submissionCost s)).sum = requestsCost s (subs.map Submission.request) := by
  rw [requestsCost, List.map_map]
  rfl

theorem sum_submissionCost_pos (hne : subs ≠ [])
    (hc : ∀ sub ∈ subs, 0 < submissionCost s sub) : 0 < (subs.map (submissionCost s)).sum := by
  refine List.sum_pos _ (fun c hc' => ?_) (by simpa using hne)
  obtain ⟨sub, hsub, rfl⟩ := List.mem_map.1 hc'
  exact hc sub hsub

theorem checkMessage_newMessage {sub : Submission} : Db.checkMessage (newMessage s sub) = .ok () ↔
    sub.request.storable s = true ∧ 0 < s.messageCost sub.request.priority :=
  Db.checkMessage_ok

namespace FreshIds

variable (h : FreshIds db subs)

include h

/-- The new messages have a place in the table. -/
theorem exists_messages (s : Settings) :
    ∃ t : Table Message.id, t.rows = db.messages.rows ++ subs.map (newMessage s) := by
  refine ⟨⟨_, ?_⟩, rfl⟩
  rw [List.map_append, List.map_map]
  refine db.messages.nodup.append h.message_ids ?_
  intro id hold hnew
  obtain ⟨m, hm, rfl⟩ := List.mem_map.1 hold
  obtain ⟨sub, hsub, he⟩ := List.mem_map.1 hnew
  exact h.message_id sub hsub m hm he.symm

/-- The new jobs have a place in the table. -/
theorem exists_jobs (s : Settings) :
    ∃ t : Table DispatchJob.id, t.rows = db.jobs.rows ++ subs.map (newJob s) := by
  refine ⟨⟨_, ?_⟩, rfl⟩
  rw [List.map_append, List.map_map]
  refine db.jobs.nodup.append h.job_ids ?_
  intro id hold hnew
  obtain ⟨j, hj, rfl⟩ := List.mem_map.1 hold
  obtain ⟨sub, hsub, he⟩ := List.mem_map.1 hnew
  exact h.job_id sub hsub j hj he.symm

/-- The jobs of new messages are new : a job there already is of a message there already. -/
theorem newJobs (hdb : db.Constrained) {t : Table Message.id}
    (ht : t.rows = db.messages.rows ++ subs.map (newMessage s))
    (hm : db.NewMessages (subs.map (newMessage s))) :
    { db with messages := t }.NewJobs (subs.map (newJob s)) where
  storable j hj := by
    obtain ⟨sub, hsub, rfl⟩ := List.mem_map.1 hj
    have hs := hm.storable _ (List.mem_map_of_mem hsub)
    simp only [Message.storable, newMessage, MessageRepository.createMessage, payloadDict,
      storableVarchar, Bool.and_eq_true] at hs
    simp [DispatchJob.storable, newJob, DispatchJobRepository.create, payloadDict, hs]
  message j hj x hx := by
    obtain ⟨sub, hsub, rfl⟩ := List.mem_map.1 hj
    obtain ⟨m, hm', hi⟩ := hdb.job_message x hx
    exact fun he => h.message_id sub hsub m hm' (hi.trans he)
  messages := by
    rw [List.pairwise_map]
    exact List.pairwise_map.1 h.message_ids
  owner j hj := by
    obtain ⟨sub, hsub, rfl⟩ := List.mem_map.1 hj
    refine ⟨⟨newMessage s sub, ?_, rfl⟩, hm.user _ (List.mem_map_of_mem hsub)⟩
    rw [Table.mem_def, ht]
    exact List.mem_append_right _ (List.mem_map_of_mem hsub)

end FreshIds

/-- Messages of one user are new when the request are storable, have positive costs and
distinct keys that are not taken, and the user is there. -/
theorem newMessages_iff (hu : ∀ sub ∈ subs, sub.request.userId = u) (hne : subs ≠ []) :
    db.NewMessages (subs.map (newMessage s)) ↔
      (∀ sub ∈ subs, sub.request.storable s = true ∧ 0 < s.messageCost sub.request.priority) ∧
        (subs.map fun sub => sub.request.idempotencyKey).Nodup ∧
        (∀ sub ∈ subs, ¬db.hasKey u sub.request.idempotencyKey) ∧ db.hasUser u := by
  constructor
  · intro h
    refine ⟨fun sub hsub => ⟨h.storable _ (List.mem_map_of_mem hsub),
      h.cost _ (List.mem_map_of_mem hsub)⟩, ?_, fun sub hsub => ?_, ?_⟩
    · have hkeys := List.pairwise_map.1 h.keys
      rw [List.Nodup, List.pairwise_map]
      refine hkeys.imp_of_mem fun hsub hsub' hne he => hne ⟨?_, he⟩
      exact (hu _ hsub).trans (hu _ hsub').symm
    · rintro ⟨m, hm, hmu, hk⟩
      exact h.key _ (List.mem_map_of_mem hsub) m hm ⟨hmu.trans (hu sub hsub).symm, hk⟩
    · obtain ⟨sub, rest, rfl⟩ := List.exists_cons_of_ne_nil hne
      obtain ⟨x, hx, hi⟩ := h.user (newMessage s sub) (by simp)
      exact ⟨x, hx, hi.trans (hu sub (by simp))⟩
  · rintro ⟨hs, hkeys, hnew, x, hx, hi⟩
    refine ⟨?_, ?_, ?_, ?_, ?_⟩
    · intro m hm
      obtain ⟨sub, hsub, rfl⟩ := List.mem_map.1 hm
      exact (hs sub hsub).1
    · intro m hm
      obtain ⟨sub, hsub, rfl⟩ := List.mem_map.1 hm
      exact (hs sub hsub).2
    · intro m hm y hy he
      obtain ⟨sub, hsub, rfl⟩ := List.mem_map.1 hm
      exact hnew sub hsub ⟨y, hy, he.1.trans (hu sub hsub), he.2⟩
    · rw [List.pairwise_map]
      exact (List.pairwise_map.1 hkeys).imp fun hne he => hne he.2
    · intro m hm
      obtain ⟨sub, hsub, rfl⟩ := List.mem_map.1 hm
      exact ⟨x, hx, hi.trans (hu sub hsub).symm⟩

/-- With fresh ids there is a state to commit exactly when the requests are acceptable. -/
theorem exists_accepted_iff (hdb : db.Constrained) (hf : FreshIds db subs)
    (hu : ∀ sub ∈ subs, sub.request.userId = u) (hne : subs ≠ []) :
    (∃ db', Accepted s u subs db db') ↔ Acceptable s db u (subs.map Submission.request) := by
  have hcost : (subs.map (submissionCost s)).sum = requestsCost s (subs.map Submission.request) :=
    sum_submissionCost
  constructor
  · rintro ⟨db', h⟩
    obtain ⟨hs, hkeys, hnew, huser⟩ := (newMessages_iff hu hne).1 h.messages_new
    obtain ⟨b, hb, hcon, -⟩ := h.balance
    refine ⟨by simpa using fun sub hsub => (hs sub hsub).1,
      by simpa using fun sub hsub => (hs sub hsub).2, by simpa [Function.comp_def] using hkeys,
      by simpa using hnew, huser, b, hb, ?_⟩
    rwa [hcost] at hcon
  · intro h
    have hs : ∀ sub ∈ subs, sub.request.storable s = true ∧
        0 < s.messageCost sub.request.priority := fun sub hsub =>
      ⟨h.storable _ (List.mem_map_of_mem hsub), h.cost_pos _ (List.mem_map_of_mem hsub)⟩
    have hm : db.NewMessages (subs.map (newMessage s)) :=
      (newMessages_iff hu hne).2 ⟨hs, by simpa [Function.comp_def] using h.keys,
        by simpa using h.new_key, h.user⟩
    obtain ⟨t, ht⟩ := hf.exists_messages s
    obtain ⟨t', ht'⟩ := hf.exists_jobs s
    obtain ⟨b, hb, hcon⟩ := h.balance
    rw [← hcost] at hcon
    exact ⟨⟨db.users, db.balances.put _, t, t'⟩, rfl, ht, ht', hm, hf.newJobs hdb ht hm,
      sum_submissionCost_pos hne fun sub hsub => (hs sub hsub).2, b, hb, hcon, rfl⟩

end MessageUseCase

end Abrio
