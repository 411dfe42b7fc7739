import Abrio.Balances
import Mathlib.Data.List.Pairwise

/-!
# What the inserts do

`Db.insertMessages_ok` and `Db.insertJobs_ok` : an `INSERT` of several rows succeeds
exactly when the rows are new (`NewMessages`, `NewJobs`) and their ids are, and then it
appends them.
-/

open Relational Runs

namespace Abrio

namespace Db

variable {db db' : Db}

@[simp] theorem sameKey_iff {m m' : Message} :
    sameKey m m' = true ↔ m.userId = m'.userId ∧ m.idempotencyKey = m'.idempotencyKey := by
  simp [sameKey]

@[simp] theorem sameKey_eq_false {m m' : Message} :
    sameKey m m' = false ↔ ¬(m.userId = m'.userId ∧ m.idempotencyKey = m'.idempotencyKey) := by
  rw [← sameKey_iff, Bool.not_eq_true]

@[simp] theorem sameMessage_eq_false {j j' : DispatchJob} :
    sameMessage j j' = false ↔ j.messageId ≠ j'.messageId := by
  simp [sameMessage]

theorem messageWithKey_eq_none {u : UserId} {k : UUID} :
    db.messageWithKey u k = none ↔ ∀ m ∈ db.messages, ¬(m.userId = u ∧ m.idempotencyKey = k) := by
  simp [messageWithKey, Table.mem_def]

theorem messageWithKey_eq_some {u : UserId} {k : UUID} {m : Message}
    (h : db.messageWithKey u k = some m) :
    m ∈ db.messages ∧ m.userId = u ∧ m.idempotencyKey = k :=
  ⟨List.mem_of_find?_eq_some h, by simpa using List.find?_some h⟩

/-- In a constrained state the message with a key is the only one. -/
theorem messageWithKey_eq (hdb : db.Constrained) {m : Message} (hm : m ∈ db.messages) :
    db.messageWithKey m.userId m.idempotencyKey = some m := by
  cases h : db.messageWithKey m.userId m.idempotencyKey with
  | none => exact absurd ⟨rfl, rfl⟩ (messageWithKey_eq_none.1 h m hm)
  | some m' =>
    obtain ⟨hm', hu, hk⟩ := messageWithKey_eq_some h
    rw [hdb.message_key m' hm' m hm hu hk]

theorem checkMessage_ok {m : Message} {u : Unit} :
    checkMessage m = .ok u ↔ m.storable = true ∧ 0 < m.cost := by
  unfold checkMessage
  split_ifs with hs hc
  · simp_all
  · simp [not_lt.2 hc]
  · simpa [not_le.1 hc] using hs

theorem checkMessageValues_ok {m : Message} {u : Unit} :
    checkMessageValues m = .ok u ↔ m.storable = true := by
  unfold checkMessageValues
  split_ifs with h <;> simp_all

theorem checkMessageUser_ok {m : Message} {u : Unit} :
    db.checkMessageUser m = .ok u ↔ ∃ u ∈ db.users, u.id = m.userId := by
  unfold checkMessageUser
  cases h : db.users.find? m.userId with
  | some u => simpa using ⟨u, Table.find?_eq_some.1 h⟩
  | none => simpa using Table.find?_eq_none.1 h

/-- The foreign key of `messages` is violated by nothing but an unknown user. -/
theorem checkMessageUsers_error {ms : List Message} {e : Exn}
    (h : forM ms db.checkMessageUser = .error e) :
    e = .db (.foreignKeyViolation .messagesUserIdFkey) := by
  obtain ⟨m, -, hm⟩ := exists_of_forM_eq_error h
  unfold checkMessageUser at hm
  split_ifs at hm
  exact (Except.error.inj hm).symm

theorem checkJob_ok {j : DispatchJob} {u : Unit} : checkJob j = .ok u ↔ j.storable = true := by
  unfold checkJob
  split_ifs with h <;> simp_all

theorem checkJobOwners_ok {j : DispatchJob} {u : Unit} :
    db.checkJobOwners j = .ok u ↔
      (∃ m ∈ db.messages, m.id = j.messageId) ∧ ∃ u ∈ db.users, u.id = j.userId := by
  unfold checkJobOwners
  cases hm : db.messages.find? j.messageId with
  | none => simpa using fun m hm' hi => absurd hi (Table.find?_eq_none.1 hm m hm')
  | some m =>
    cases hu : db.users.find? j.userId with
    | none => simpa using fun _ _ _ => Table.find?_eq_none.1 hu
    | some u => simpa using ⟨⟨m, Table.find?_eq_some.1 hm⟩, u, Table.find?_eq_some.1 hu⟩

/-- What an insert of the messages `ms` asks of them, their ids apart. -/
structure NewMessages (db : Db) (ms : List Message) : Prop where
  storable : ∀ m ∈ ms, m.storable = true
  cost : ∀ m ∈ ms, 0 < m.cost
  key : ∀ m ∈ ms, ∀ x ∈ db.messages, ¬(x.userId = m.userId ∧ x.idempotencyKey = m.idempotencyKey)
  keys : ms.Pairwise fun m m' => ¬(m.userId = m'.userId ∧ m.idempotencyKey = m'.idempotencyKey)
  user : ∀ m ∈ ms, ∃ u ∈ db.users, u.id = m.userId

/-- Two new messages with one key are one message. -/
theorem NewMessages.eq_of_key {ms : List Message} (h : db.NewMessages ms) {m m' : Message}
    (hm : m ∈ ms) (hm' : m' ∈ ms) (hu : m.userId = m'.userId)
    (hk : m.idempotencyKey = m'.idempotencyKey) : m = m' := by
  have : Std.Symm fun m m' : Message =>
      ¬(m.userId = m'.userId ∧ m.idempotencyKey = m'.idempotencyKey) :=
    ⟨fun _ _ hne he => hne ⟨he.1.symm, he.2.symm⟩⟩
  by_contra hne
  exact h.keys.forall hm hm' hne ⟨hu, hk⟩

theorem insertMessageRows_ok {t t' : Table Message.id} {ms : List Message} :
    ms.foldlM insertMessageRow t = .ok t' ↔
      (∀ m ∈ ms, m.storable = true ∧ 0 < m.cost) ∧
      (∀ m ∈ ms, ∀ x ∈ t, ¬(x.userId = m.userId ∧ x.idempotencyKey = m.idempotencyKey)) ∧
      ms.Pairwise (fun m m' => ¬(m.userId = m'.userId ∧ m.idempotencyKey = m'.idempotencyKey)) ∧
      t'.rows = t.rows ++ ms := by
  simp only [insertMessageRow, Table.foldlM_insertRow_ok, checkMessage_ok, sameKey_eq_false]

theorem insertMessages_ok {ms : List Message} :
    db.insertMessages ms = .ok db' ↔
      NewMessages db ms ∧
        ∃ t : Table Message.id, t.rows = db.messages.rows ++ ms ∧
          db' = { db with messages := t } := by
  rw [insertMessages, bind_eq_ok]
  simp only [checkMessageValues_ok, insertMessageRows_ok, bind_eq_ok, forM_eq_ok,
    checkMessageUser_ok, pure, Except.pure, Except.ok.injEq, exists_const]
  constructor
  · rintro ⟨hs, t, ⟨hc, hk, hp, ht⟩, hu, rfl⟩
    exact ⟨⟨hs, fun m hm => (hc m hm).2, hk, hp, hu⟩, t, ht, rfl⟩
  · rintro ⟨⟨hs, hc, hk, hp, hu⟩, t, ht, rfl⟩
    exact ⟨hs, t, ⟨fun m hm => ⟨hs m hm, hc m hm⟩, hk, hp, ht⟩, hu, rfl⟩

/-- Messages whose values fit are inserted row by row. -/
theorem insertMessages_of_storable {ms : List Message} (hs : ∀ m ∈ ms, m.storable = true) :
    db.insertMessages ms = do
      let messages ← ms.foldlM insertMessageRow db.messages
      forM ms ({ db with messages } : Db).checkMessageUser
      return { db with messages } := by
  have hv : forM ms checkMessageValues = .ok ⟨⟩ :=
    forM_eq_ok.2 fun m hm => checkMessageValues_ok.2 (hs m hm)
  rw [insertMessages, hv]
  rfl

/-- One value that does not fit fails the statement. -/
theorem insertMessages_of_not_storable {ms : List Message} {m : Message} (hm : m ∈ ms)
    (hs : m.storable = false) : db.insertMessages ms = dataError := by
  cases hv : forM ms checkMessageValues with
  | ok =>
    have := checkMessageValues_ok.1 (forM_eq_ok.1 hv m hm)
    rw [hs] at this
    cases this
  | error e =>
    obtain ⟨x, -, hx⟩ := exists_of_forM_eq_error hv
    unfold checkMessageValues at hx
    split_ifs at hx
    cases hx
    rw [insertMessages, hv]
    rfl

/-- What an insert of the jobs `js` asks of them, their ids apart. -/
structure NewJobs (db : Db) (js : List DispatchJob) : Prop where
  storable : ∀ j ∈ js, j.storable = true
  message : ∀ j ∈ js, ∀ x ∈ db.jobs, x.messageId ≠ j.messageId
  messages : js.Pairwise fun j j' => j.messageId ≠ j'.messageId
  owner : ∀ j ∈ js, (∃ m ∈ db.messages, m.id = j.messageId) ∧ ∃ u ∈ db.users, u.id = j.userId

/-- Two new jobs of one message are one job. -/
theorem NewJobs.eq_of_messageId {js : List DispatchJob} (h : db.NewJobs js) {j j' : DispatchJob}
    (hj : j ∈ js) (hj' : j' ∈ js) (hi : j.messageId = j'.messageId) : j = j' := by
  have : Std.Symm fun j j' : DispatchJob => j.messageId ≠ j'.messageId :=
    ⟨fun _ _ hne => hne.symm⟩
  by_contra hne
  exact h.messages.forall hj hj' hne hi

theorem insertJobs_ok {js : List DispatchJob} :
    db.insertJobs js = .ok db' ↔
      NewJobs db js ∧
        ∃ t : Table DispatchJob.id, t.rows = db.jobs.rows ++ js ∧ db' = { db with jobs := t } := by
  rw [insertJobs, bind_eq_ok]
  simp only [insertJobRow, Table.foldlM_insertRow_ok, checkJob_ok, sameMessage_eq_false, bind_eq_ok,
    forM_eq_ok, checkJobOwners_ok, pure, Except.pure, Except.ok.injEq, exists_const]
  constructor
  · rintro ⟨hs, t, ⟨-, hm, hp, ht⟩, ho, rfl⟩
    exact ⟨⟨hs, hm, hp, ho⟩, t, ht, rfl⟩
  · rintro ⟨⟨hs, hm, hp, ho⟩, t, ht, rfl⟩
    exact ⟨hs, t, ⟨hs, hm, hp, ht⟩, ho, rfl⟩

/-- What an insert of messages raises. -/
theorem insertMessages_error {ms : List Message} {e : Exn} (h : db.insertMessages ms = .error e) :
    e = .db .dataError ∨ (e = .db (.checkViolation .checkCostGtZero) ∧ ∃ m ∈ ms, m.cost ≤ 0) ∨
      (∃ c, e = .db (.uniqueViolation c)) ∨ e = .db (.foreignKeyViolation .messagesUserIdFkey) := by
  rcases bind_eq_error.1 h with hv | ⟨_, -, h⟩
  · obtain ⟨m, -, hm⟩ := exists_of_forM_eq_error hv
    unfold checkMessageValues at hm
    split_ifs at hm
    exact .inl (Except.error.inj hm).symm
  rcases bind_eq_error.1 h with hr | ⟨_, -, h⟩
  · rcases Table.foldlM_insertRow_error hr with ⟨m, hm, hc⟩ | ⟨he, -⟩ | ⟨he, -⟩
    · unfold checkMessage at hc
      split_ifs at hc with hs hcost
      · exact .inl (Except.error.inj hc).symm
      · exact .inr (.inl ⟨(Except.error.inj hc).symm, m, hm, hcost⟩)
    · exact .inr (.inr (.inl ⟨_, he⟩))
    · exact .inr (.inr (.inl ⟨_, he⟩))
  rcases bind_eq_error.1 h with hu | ⟨_, -, ⟨⟩⟩
  exact .inr (.inr (.inr (checkMessageUsers_error hu)))

/-- An insert of jobs fails for a value, for an owner, or for a job that is not new. -/
theorem insertJobs_error {js : List DispatchJob} {e : Exn} (h : db.insertJobs js = .error e) :
    (e = .db .dataError ∧ ∃ j ∈ js, j.storable = false) ∨ (∃ c, e = .db (.foreignKeyViolation c)) ∨
      (e = .db (.uniqueViolation .dispatchJobsPkey) ∧
        ¬((db.jobs.rows ++ js).map DispatchJob.id).Nodup) ∨
      (e = .db (.uniqueViolation .dispatchJobsMessageIdKey) ∧
        ¬((∀ j ∈ js, ∀ x ∈ db.jobs, sameMessage x j = false) ∧
          js.Pairwise fun j j' => sameMessage j j' = false)) := by
  have hvalues : ∀ {j}, checkJob j = .error e → e = .db .dataError ∧ j.storable = false := by
    intro j hj
    unfold checkJob at hj
    split_ifs at hj with hs
    cases hj
    exact ⟨rfl, by simpa using hs⟩
  rcases bind_eq_error.1 h with hv | ⟨_, -, h⟩
  · obtain ⟨j, hj, hc⟩ := exists_of_forM_eq_error hv
    exact .inl ⟨(hvalues hc).1, j, hj, (hvalues hc).2⟩
  rcases bind_eq_error.1 h with hf | ⟨_, -, h⟩
  · rcases Table.foldlM_insertRow_error hf with ⟨j, hj, hc⟩ | hn | hs
    · exact .inl ⟨(hvalues hc).1, j, hj, (hvalues hc).2⟩
    · exact .inr (.inr (.inl hn))
    · exact .inr (.inr (.inr hs))
  rcases bind_eq_error.1 h with hc | ⟨_, -, ⟨⟩⟩
  obtain ⟨j, -, hj⟩ := exists_of_forM_eq_error hc
  unfold checkJobOwners at hj
  split_ifs at hj
  · cases hj
    exact .inr (.inl ⟨_, rfl⟩)
  · cases hj
    exact .inr (.inl ⟨_, rfl⟩)

theorem writeJob_ok {j : DispatchJob} :
    db.writeJob j = .ok db' ↔ j.storable = true ∧ db' = { db with jobs := db.jobs.put j } := by
  unfold writeJob
  split_ifs with h
  · simp_all
  · have hs : j.storable = true := by simpa using h
    simp only [Except.ok.injEq, hs, true_and]
    exact eq_comm

end Db

end Abrio
