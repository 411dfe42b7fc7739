import Abrio.Concurrency
import Abrio.Consistency
import Abrio.SubmissionOutcomes

/-!
# Idempotent submission

Whatever the interleaving of submissions, a pair of user and key has at most one message,
one job and one reservation, and every call for the pair that returns normally returns
that message (`idempotent_submission`).

The invariant says of a running call what its executed statements have established
(`Executed`, `Running`) : its keys are free in the committed state and in no other open
transaction, and its balance is locked. So a commit is the atomic write of `Accepted`
(`Running.accepted`), and a unique violation of a single submission means that its key is
taken by a committed row, which stays (`Open.exec_unique`).
-/

open Relational Runs

namespace Abrio

open MessageUseCase

/-! ## What a transaction has established -/

/-- The row a statement inserts into `messages`. -/
def Stmt.message? : Stmt → Option Message
  | .insertMessage m => some m
  | _ => none

/-- The rows a statement inserts into `dispatch_jobs`. -/
def Stmt.jobs : Stmt → List DispatchJob
  | .insertJobs js => js
  | _ => []

/-- The statements that change or check the locked balance. -/
def Stmt.onBalance : Stmt → Bool
  | .reserve _ => true
  | .writeBalance => true
  | _ => false

/-- What an executed statement has established. -/
def Executed (db : Db) (u : UserId) (t : Open) : Stmt → Prop
  | .insertMessage m => m.storable = true ∧ 0 < m.cost ∧
      ∀ x ∈ db.messages, ¬(x.userId = m.userId ∧ x.idempotencyKey = m.idempotencyKey)
  | .checkUsers => True
  | .reserve amount => 0 < amount ∧
      ∃ b, db.balances.find? u = some b ∧ t.balance = some (b.raised amount)
  | .insertJobs js => ∀ j ∈ js, j.storable = true
  | .writeBalance => ∀ b, t.balance = some b → b.Constrained

/-- Where a running transaction of a call is. -/
structure Running (s : Settings) (db : Db) (c : Call) (t : Open) (done : List Stmt) : Prop where
  program : c.call.program s c.now = done ++ t.todo
  messages : t.messages = done.filterMap Stmt.message?
  jobs : t.jobs = done.flatMap Stmt.jobs
  executed : ∀ stmt ∈ done, Executed db c.call.userId t stmt
  fresh : FreshIds db (c.call.submissions c.now)
  keys : ((c.call.submissions c.now).map fun sub => sub.request.idempotencyKey).Nodup

namespace SubmissionCall

variable (s : Settings) (now : Time) (c : SubmissionCall)

theorem submissions_ne : c.submissions now ≠ [] := by
  cases c with
  | single => simp [submissions]
  | batch payload => simpa [submissions, batchSubmissions] using payload.messages_ne

theorem submissions_userId : ∀ sub ∈ c.submissions now, sub.request.userId = c.userId := by
  cases c with
  | single => simp [submissions, userId]
  | batch payload =>
    intro sub hsub
    obtain ⟨⟨item, i⟩, -, rfl⟩ := List.mem_map.1 hsub
    rfl

theorem filterMap_program : (c.program s now).filterMap Stmt.message? =
    (c.submissions now).map (newMessage s) := by
  have h : ∀ ms : List Message, (ms.map Stmt.insertMessage).filterMap Stmt.message? = ms := by
    intro ms
    induction ms <;> simp_all [Stmt.message?]
  cases c <;> simp only [program, List.filterMap_append, h] <;> simp [Stmt.message?]

theorem flatMap_program : (c.program s now).flatMap Stmt.jobs =
    (c.submissions now).map (newJob s) := by
  have h : ∀ ms : List Message, (ms.map Stmt.insertMessage).flatMap Stmt.jobs = [] := by
    intro ms
    induction ms <;> simp_all [Stmt.jobs]
  cases c <;> simp only [program, List.flatMap_append, h] <;> simp [Stmt.jobs]

/-- The balance is locked once, and checked after that. -/
theorem pairwise_program :
    (c.program s now).Pairwise fun a b => ∀ amount, b = .reserve amount → a.onBalance = false := by
  have h : ∀ ms : List Message, (ms.map Stmt.insertMessage).Pairwise
      fun a b => ∀ amount, b = .reserve amount → a.onBalance = false := by
    intro ms
    rw [List.pairwise_map]
    exact List.pairwise_of_forall fun _ _ => by simp
  cases c <;> simp only [program, List.pairwise_append, h] <;> simp [Stmt.onBalance]

/-- The statements on jobs and on the balance. -/
theorem mem_program :
    Stmt.insertJobs ((c.submissions now).map (newJob s)) ∈ c.program s now ∧
      Stmt.reserve ((c.submissions now).map (submissionCost s)).sum ∈ c.program s now ∧
      Stmt.writeBalance ∈ c.program s now := by
  cases c with
  | single => simp [program, submissions, submissionCost]
  | batch payload ids =>
    simp [program, submissions, calculateBatchMessageCost_eq payload ids now]

theorem insertMessage_mem_program {sub : Submission} (h : sub ∈ c.submissions now) :
    Stmt.insertMessage (newMessage s sub) ∈ c.program s now := by
  cases c <;> simp only [program, List.map_map, List.mem_append, List.mem_map]
  all_goals exact Or.inl ⟨sub, h, rfl⟩

/-- Every insert of jobs is the one of the call's jobs. -/
theorem eq_of_insertJobs_mem {js : List DispatchJob} (h : Stmt.insertJobs js ∈ c.program s now) :
    js = (c.submissions now).map (newJob s) := by
  cases c <;> simpa [program] using h

/-- A call that begins running has its whole program to do and distinct keys. -/
theorem begin_running {t : Open} (h : c.begin s now = .running t) :
    t = { todo := c.program s now } ∧
      ((c.submissions now).map fun sub => sub.request.idempotencyKey).Nodup := by
  cases c with
  | single payload ids => exact ⟨(CallState.running.inj h).symm, by simp [submissions]⟩
  | batch payload ids =>
    cases hd : checkDuplicateIdempotencyKeys [] payload.messages with
    | some key => simp [SubmissionCall.begin, hd] at h
    | none =>
      simp only [SubmissionCall.begin, hd, CallState.running.injEq] at h
      refine ⟨h.symm, ?_⟩
      rw [submissions, map_key_batchSubmissions]
      exact (checkDuplicateIdempotencyKeys_eq_none.1 hd).1

/-- A call that begins without a transaction is a batch with duplicate keys. -/
theorem begin_cases : (∃ t, c.begin s now = .running t) ∨
    ∃ payload ids r, c = .batch payload ids ∧ c.begin s now = .returned r := by
  cases c with
  | single payload ids => exact Or.inl ⟨_, rfl⟩
  | batch payload ids =>
    cases hd : checkDuplicateIdempotencyKeys [] payload.messages with
    | some key =>
      exact Or.inr ⟨payload, ids, .error (.app (.idempotencyDuplicate key)), rfl,
        by simp [SubmissionCall.begin, hd]⟩
    | none =>
      exact Or.inl ⟨{ todo := program s now (.batch payload ids) },
        by simp [SubmissionCall.begin, hd]⟩

end SubmissionCall

/-! ## One statement -/

namespace Open

variable {db : Db} {u : UserId} {t t' : Open} {stmt : Stmt}

theorem mem_view_messages {m : Message} (h : m ∈ db.messages) : m ∈ (t.view db).messages := by
  rw [view]
  cases ha : db.messages.append? t.messages with
  | none => exact h
  | some table =>
    rw [Option.getD_some, Table.mem_def, Table.append?_eq_some.1 ha]
    exact List.mem_append_left _ h

theorem mem_of_mem_view {m : Message} (h : m ∈ (t.view db).messages) :
    m ∈ db.messages ∨ m ∈ t.messages := by
  rw [view] at h
  cases ha : db.messages.append? t.messages with
  | none =>
    rw [ha] at h
    exact Or.inl h
  | some table =>
    rw [ha, Option.getD_some, Table.mem_def, Table.append?_eq_some.1 ha] at h
    exact List.mem_append.1 h

/-- What a statement that succeeds leaves and establishes. -/
theorem exec_ok (h : t.exec db u stmt = .ok t') :
    t'.messages = t.messages ++ stmt.message?.toList ∧ t'.jobs = t.jobs ++ stmt.jobs ∧
      ((∀ amount, stmt ≠ .reserve amount) → t'.balance = t.balance) ∧
      Executed db u t' stmt := by
  cases stmt with
  | insertMessage m =>
    obtain ⟨table, hi, ht⟩ := bind_eq_ok.1 h
    cases ht
    obtain ⟨hc, hs, -⟩ := Table.insertRow_ok.1 hi
    rw [Db.checkMessage_ok] at hc
    exact ⟨rfl, by simp [Stmt.jobs], fun _ => rfl, hc.1, hc.2, fun x hx =>
      Db.sameKey_eq_false.1 (hs x (mem_view_messages hx))⟩
  | checkUsers =>
    obtain ⟨_, -, ht⟩ := bind_eq_ok.1 h
    cases ht
    exact ⟨by simp [Stmt.message?], by simp [Stmt.jobs], fun _ => rfl, trivial⟩
  | reserve amount =>
    obtain ⟨balance, hb, ht⟩ := bind_eq_ok.1 h
    cases ht
    obtain ⟨hc, b, hf, rfl⟩ := BalanceRepository.reserveCredits_ok.1 hb
    exact ⟨by simp [Stmt.message?], by simp [Stmt.jobs], fun hne => absurd rfl (hne amount), hc, b,
      hf, rfl⟩
  | insertJobs js =>
    obtain ⟨_, hj, ht⟩ := bind_eq_ok.1 h
    cases ht
    exact ⟨by simp [Stmt.message?], rfl, fun _ => rfl, (Db.insertJobs_ok.1 hj).1.storable⟩
  | writeBalance =>
    rw [exec] at h
    cases hb : t.balance with
    | none =>
      simp only [hb] at h
      cases h
      exact ⟨by simp [Stmt.message?], by simp [Stmt.jobs], fun _ => hb, by simp [Executed, hb]⟩
    | some balance =>
      simp only [hb] at h
      obtain ⟨_, hw, ht⟩ := bind_eq_ok.1 h
      cases ht
      refine ⟨by simp [Stmt.message?], by simp [Stmt.jobs], fun _ => hb, fun b hb' => ?_⟩
      rw [hb] at hb'
      exact Option.some.inj hb' ▸ (Db.writeBalance_ok.1 hw).1

/-- No statement raises `MessageNotFoundError`. -/
theorem exec_ne_messageNotFound (key : UUID) :
    t.exec db u stmt ≠ .error (.app (.messageNotFound key)) := by
  intro he
  cases stmt with
  | insertMessage m =>
    rcases bind_eq_error.1 he with hi | ⟨_, -, ⟨⟩⟩
    rcases Table.insertRow_error hi with hc | ⟨⟨⟩, -⟩ | ⟨⟨⟩, -⟩
    unfold Db.checkMessage at hc
    split_ifs at hc <;> cases hc
  | checkUsers =>
    rcases bind_eq_error.1 he with hi | ⟨_, -, ⟨⟩⟩
    cases Db.checkMessageUsers_error hi
  | reserve amount =>
    rcases bind_eq_error.1 he with hi | ⟨_, -, ⟨⟩⟩
    rcases BalanceRepository.reserveCredits_error hi with h | h | ⟨h, -⟩ <;> cases h
  | insertJobs js =>
    rcases bind_eq_error.1 he with hi | ⟨_, -, ⟨⟩⟩
    rcases Db.insertJobs_error hi with ⟨h, -⟩ | ⟨_, h⟩ | ⟨h, -⟩ | ⟨h, -⟩ <;> cases h
  | writeBalance =>
    rw [exec] at he
    split at he
    · cases he
    · rcases bind_eq_error.1 he with hi | ⟨_, -, ⟨⟩⟩
      unfold Db.writeBalance at hi
      split_ifs at hi <;> cases hi

end Open

theorem Executed.of_balance {db : Db} {u : UserId} {t t' : Open} {stmt : Stmt}
    (h : Executed db u t stmt) (hb : stmt.onBalance = true → t'.balance = t.balance) :
    Executed db u t' stmt := by
  cases stmt with
  | reserve amount =>
    rw [Executed, hb rfl]
    exact h
  | writeBalance =>
    rw [Executed, hb rfl]
    exact h
  | _ => exact h

namespace Running

variable {s : Settings} {db : Db} {c : Call} {t t' : Open} {done todo : List Stmt} {stmt : Stmt}

theorem goto (h : Running s db c t done) (state : CallState) :
    Running s db { c with state } t done :=
  ⟨h.program, h.messages, h.jobs, h.executed, h.fresh, h.keys⟩

/-- A statement that succeeds is one more executed statement. -/
theorem exec (h : Running s db c t done) (ht : t.todo = stmt :: todo)
    (he : t.exec db c.call.userId stmt = .ok t') :
    Running s db c { t' with todo } (done ++ [stmt]) := by
  obtain ⟨hm, hj, hb, hx⟩ := Open.exec_ok he
  refine ⟨by rw [h.program, ht]; simp, ?_, ?_, fun x hx' => ?_, h.fresh, h.keys⟩
  · rw [List.filterMap_append, ← h.messages, hm]
    cases hs : stmt.message? <;> simp [hs]
  · rw [List.flatMap_append, ← h.jobs, hj]
    simp
  · rcases List.mem_append.1 hx' with hx' | hx'
    · refine (h.executed x hx').of_balance fun hon => ?_
      refine hb fun amount hr => ?_
      have hp := c.call.pairwise_program s c.now
      rw [h.program, ht] at hp
      have hoff := (List.pairwise_append.1 hp).2.2 x hx' stmt (by simp) amount hr
      rw [hon] at hoff
      cases hoff
    · exact (List.mem_singleton.1 hx' ▸ hx).of_balance fun _ => rfl

/-- A transaction with nothing left to do has inserted all messages. -/
theorem messages_eq (h : Running s db c t done) (ht : t.todo = []) :
    t.messages = (c.call.submissions c.now).map (newMessage s) := by
  have hp := h.program
  rw [ht, List.append_nil] at hp
  rw [h.messages, ← hp, c.call.filterMap_program]

/-- A transaction with nothing left to do has locked the balance. -/
theorem reserved (h : Running s db c t done) (ht : t.todo = []) :
    let cost := ((c.call.submissions c.now).map (submissionCost s)).sum
    0 < cost ∧ ∃ b, db.balances.find? c.call.userId = some b ∧
      t.balance = some (b.raised cost) ∧ (b.raised cost).Constrained := by
  have hp := h.program
  rw [ht, List.append_nil] at hp
  obtain ⟨-, hres, hwr⟩ := c.call.mem_program s c.now
  rw [hp] at hres hwr
  obtain ⟨hpos, b, hb, hbal⟩ := h.executed _ hres
  exact ⟨hpos, b, hb, hbal, h.executed _ hwr _ hbal⟩

/-- A transaction with nothing left to do commits the write of its submissions. -/
theorem accepted (h : Running s db c t done) (hdb : db.Constrained) (ht : t.todo = []) :
    Accepted s c.call.userId (c.call.submissions c.now) db (t.commit db) := by
  have hp := h.program
  rw [ht, List.append_nil] at hp
  have hne := c.call.submissions_ne c.now
  have hu := c.call.submissions_userId c.now
  obtain ⟨hpos, b, hb, hbal, hcon⟩ := h.reserved ht
  have hmrows := h.messages_eq ht
  have hjrows : t.jobs = (c.call.submissions c.now).map (newJob s) := by
    rw [h.jobs, ← hp, c.call.flatMap_program]
  obtain ⟨tm, htm⟩ := h.fresh.exists_messages s
  obtain ⟨tj, htj⟩ := h.fresh.exists_jobs s
  have hcommit : t.commit db = ⟨db.users, db.balances.put
      (b.raised ((c.call.submissions c.now).map (submissionCost s)).sum), tm, tj⟩ := by
    simp only [Open.commit, Open.view, hmrows, hjrows, Table.append?_eq_some.2 htm,
      Table.append?_eq_some.2 htj, hbal, Option.getD_some]
  have huser : db.hasUser c.call.userId := by
    obtain ⟨hbm, hbu⟩ := Table.find?_eq_some.1 hb
    obtain ⟨x, hx, hi⟩ := hdb.balance_user b hbm
    exact ⟨x, hx, hi.trans hbu⟩
  have hnew : db.NewMessages ((c.call.submissions c.now).map (newMessage s)) := by
    refine (newMessages_iff hu hne).2 ⟨fun sub hsub => ?_, h.keys, fun sub hsub => ?_, huser⟩
    · have hx := h.executed _ (hp ▸ c.call.insertMessage_mem_program s c.now hsub)
      exact ⟨hx.1, hx.2.1⟩
    · rintro ⟨m, hm, hmu, hmk⟩
      have hx := h.executed _ (hp ▸ c.call.insertMessage_mem_program s c.now hsub)
      exact hx.2.2 m hm ⟨hmu.trans (hu sub hsub).symm, hmk⟩
  rw [hcommit]
  exact ⟨rfl, htm, htj, hnew, h.fresh.newJobs hdb htm hnew, hpos, b, hb, hcon, rfl⟩

/-- The messages inserted and those still to insert are those of the call. -/
theorem messages_todo (h : Running s db c t done) :
    t.messages ++ t.todo.filterMap Stmt.message? =
      (c.call.submissions c.now).map (newMessage s) := by
  rw [h.messages, ← List.filterMap_append, ← h.program]
  exact c.call.filterMap_program s c.now

theorem messages_append (h : Running s db c t done) {m : Message}
    (ht : t.todo = .insertMessage m :: todo) :
    t.messages ++ m :: todo.filterMap Stmt.message? =
      (c.call.submissions c.now).map (newMessage s) := by
  rw [← h.messages_todo, ht]
  rfl

theorem jobs_append (h : Running s db c t done) {js : List DispatchJob}
    (ht : t.todo = .insertJobs js :: todo) :
    t.jobs = [] ∧ js = (c.call.submissions c.now).map (newJob s) := by
  have hjs : js = (c.call.submissions c.now).map (newJob s) :=
    c.call.eq_of_insertJobs_mem s c.now (by rw [h.program, ht]; simp)
  have hall := c.call.flatMap_program s c.now
  rw [h.program, ht, List.flatMap_append, ← h.jobs, ← hjs] at hall
  have hlen := congrArg List.length hall
  simp only [List.length_append, List.flatMap_cons, Stmt.jobs] at hlen
  exact ⟨List.eq_nil_of_length_eq_zero (by omega), hjs⟩

/-- An insert of a message raises for a value of the row, or for a key that is taken by a
committed message : its id is fresh, the call's own rows have distinct keys, and other open rows
are waited for. -/
theorem insert_error (h : Running s db c t done) {m : Message}
    (ht : t.todo = .insertMessage m :: todo) {u : UserId} {e : Exn}
    (he : t.exec db u (.insertMessage m) = .error e) : Db.checkMessage m = .error e ∨
      (e = .db (.uniqueViolation .uniqueUserIdIdempotencyKey) ∧
        db.hasKey c.call.userId m.idempotencyKey) := by
  have hall := h.messages_append ht
  have hids := h.fresh.message_ids
  rw [show ((c.call.submissions c.now).map fun sub => sub.ids.messageId) =
    ((c.call.submissions c.now).map (newMessage s)).map Message.id by rw [List.map_map]; rfl,
    ← hall, List.map_append, List.nodup_append] at hids
  have hkeys := h.keys
  rw [show ((c.call.submissions c.now).map fun sub => sub.request.idempotencyKey) =
    ((c.call.submissions c.now).map (newMessage s)).map Message.idempotencyKey by
      rw [List.map_map]; rfl,
    ← hall, List.map_append, List.nodup_append] at hkeys
  obtain ⟨sub, hsub, rfl⟩ := List.mem_map.1 (hall ▸ List.mem_append_right _ List.mem_cons_self)
  rcases bind_eq_error.1 he with hi | ⟨_, -, ⟨⟩⟩
  rcases Table.insertRow_error hi with hc | ⟨-, x, hx, hk⟩ | ⟨rfl, x, hx, hs⟩
  · exact Or.inl hc
  · rcases Open.mem_of_mem_view hx with hx | hx
    · exact absurd hk (h.fresh.message_id sub hsub x hx)
    · exact absurd hk (hids.2.2 _ (List.mem_map_of_mem hx) _ (by simp))
  · rw [Db.sameKey_iff] at hs
    rcases Open.mem_of_mem_view hx with hx | hx
    · exact Or.inr ⟨rfl, x, hx, hs.1.trans (c.call.submissions_userId c.now sub hsub), hs.2⟩
    · exact absurd hs.2 (hkeys.2.2 _ (List.mem_map_of_mem hx) _ (by simp))

/-- A unique violation means that a key of the call is taken by a committed message. -/
theorem exec_unique (h : Running s db c t done) (hdb : db.Constrained)
    (ht : t.todo = stmt :: todo) {con : Constraint}
    (he : t.exec db c.call.userId stmt = .error (.db (.uniqueViolation con))) :
    ∃ sub ∈ c.call.submissions c.now, db.hasKey c.call.userId sub.request.idempotencyKey := by
  cases stmt with
  | insertMessage m =>
    have hall := h.messages_append ht
    obtain ⟨sub, hsub, rfl⟩ := List.mem_map.1 (hall ▸ List.mem_append_right _ List.mem_cons_self)
    rcases h.insert_error ht he with hc | ⟨-, hkey⟩
    · unfold Db.checkMessage at hc
      split_ifs at hc <;> cases hc
    · exact ⟨sub, hsub, hkey⟩
  | checkUsers =>
    rcases bind_eq_error.1 he with hi | ⟨_, -, ⟨⟩⟩
    cases Db.checkMessageUsers_error hi
  | reserve amount =>
    rcases bind_eq_error.1 he with hi | ⟨_, -, ⟨⟩⟩
    rcases BalanceRepository.reserveCredits_error hi with h | h | ⟨h, -⟩ <;> cases h
  | insertJobs js =>
    obtain ⟨hnil, rfl⟩ := h.jobs_append ht
    have hview : (t.view db).jobs = db.jobs := by
      have ha : db.jobs.append? [] = some db.jobs := Table.append?_eq_some.2 (by simp)
      simp [Open.view, hnil, ha]
    rcases bind_eq_error.1 he with hi | ⟨_, -, ⟨⟩⟩
    rcases Db.insertJobs_error hi with ⟨⟨⟩, -⟩ | ⟨_, ⟨⟩⟩ | ⟨-, hn⟩ | ⟨-, hs⟩
    · rw [hview] at hn
      obtain ⟨table, ht⟩ := h.fresh.exists_jobs s
      exact absurd (ht ▸ table.nodup) hn
    · rw [hview] at hs
      refine absurd ⟨fun j hj x hx => ?_, ?_⟩ hs
      · obtain ⟨sub, hsub, rfl⟩ := List.mem_map.1 hj
        obtain ⟨m, hm, hi⟩ := hdb.job_message x hx
        exact Db.sameMessage_eq_false.2 fun he => h.fresh.message_id sub hsub m hm (hi.trans he)
      · rw [List.pairwise_map]
        exact (List.pairwise_map.1 h.fresh.message_ids).imp fun hne =>
          Db.sameMessage_eq_false.2 hne
  | writeBalance =>
    rw [Open.exec] at he
    split at he
    · cases he
    · rcases bind_eq_error.1 he with hi | ⟨_, -, ⟨⟩⟩
      unfold Db.writeBalance at hi
      split_ifs at hi <;> cases hi

end Running

/-! ## All calls -/

/-- The message a single submission returns. -/
def Submitted.message : Submitted → Message
  | .created m => m
  | .replayed m => m

/-- What a call that aborted leaves to its handler : a unique violation of a single
submission means that the key is taken. -/
structure Aborted (db : Db) (c : Call) (e : Exn) : Prop where
  found : ∀ key, e ≠ .app (.messageNotFound key)
  taken : ∀ payload ids con, c.call = .single payload ids → e = .db (.uniqueViolation con) →
    db.hasKey payload.userId payload.idempotencyKey

/-- What a single submission that returned says. -/
structure Returned (s : Settings) (db : Db) (c : Call) (r : Except Exn Answer) : Prop where
  found : ∀ payload ids key, c.call = .single payload ids →
    r ≠ .error (.app (.messageNotFound key))
  message : ∀ payload ids answer, c.call = .single payload ids → r = .ok answer →
    ∃ a, answer = .single a ∧ a.message ∈ db.messages ∧ a.message.userId = payload.userId ∧
      a.message.idempotencyKey = payload.idempotencyKey
  created : ∀ payload ids m, c.call = .single payload ids → r = .ok (.single (.created m)) →
    m = newMessage s ⟨payload, ids, c.now⟩

theorem Returned.goto {s : Settings} {db : Db} {c : Call} {r : Except Exn Answer}
    (h : Returned s db c r) (state : CallState) : Returned s db { c with state } r :=
  ⟨h.found, h.message, h.created⟩

theorem Returned.of_batch {s : Settings} {db : Db} {c : Call} {r : Except Exn Answer}
    {payload : BatchMessageRequest} {ids : ℕ → Ids} (h : c.call = .batch payload ids) :
    Returned s db c r := by
  constructor <;> · intro payload' ids' _ hc
                    rw [h] at hc
                    cases hc

theorem Returned.of_error {s : Settings} {db : Db} {c : Call} {e : Exn}
    (h : ∀ key, e ≠ .app (.messageNotFound key)) : Returned s db c (.error e) :=
  ⟨fun _ _ key _ hr => h key (Except.error.inj hr), fun _ _ _ _ hr => (by cases hr),
    fun _ _ _ _ hr => (by cases hr)⟩

/-- The commit of a call makes the message it returns. -/
theorem MessageUseCase.Accepted.returned {s : Settings} {db db' : Db} {c : Call}
    (h : Accepted s c.call.userId (c.call.submissions c.now) db db') :
    Returned s db' c (.ok (c.call.answer s c.now)) := by
  cases hcall : c.call with
  | batch payload ids => exact .of_batch hcall
  | single payload ids =>
    refine ⟨fun _ _ _ _ hr => (by cases hr), fun payload' ids' a hc ha => ?_,
      fun payload' ids' m hc ha => ?_⟩
    · rw [hcall] at hc
      cases hc
      cases ha
      refine ⟨_, rfl, h.mem_messages.2 (Or.inr ⟨⟨payload, ids, c.now⟩, ?_, rfl⟩), rfl, rfl⟩
      rw [hcall]
      exact List.mem_singleton_self _
    · rw [hcall] at hc
      cases hc
      cases ha
      rfl

/-- The handler of a single submission finds the message that took its key. -/
theorem Aborted.returned {s : Settings} {db : Db} {c : Call} {e : Exn} (h : Aborted db c e) :
    Returned s db c (c.call.handle s db e) := by
  cases hcall : c.call with
  | batch payload ids => exact .of_batch hcall
  | single payload ids =>
    have hs : Returned s db c
        ((createMessageHandler s payload db e).map Answer.single) := by
      unfold createMessageHandler
      split
      · rename_i con
        obtain ⟨m, hm⟩ := Db.messageWithKey_isSome.2 (h.taken payload ids con hcall rfl)
        obtain ⟨hmem, hu, hk⟩ := Db.messageWithKey_eq_some hm
        have hr : MessageRepository.getUserMessageByIdempotencyKey db payload.userId
            payload.idempotencyKey = .ok m := by
          simp only [MessageRepository.getUserMessageByIdempotencyKey, hm]
        rw [hr]
        refine ⟨fun _ _ _ _ hr => (by cases hr), fun payload' ids' a hc ha => ?_,
          fun payload' ids' m hc ha => (by cases ha)⟩
        rw [hcall] at hc
        cases hc
        cases ha
        exact ⟨_, rfl, hmem, hu, hk⟩
      · exact .of_error (by simp)
      · exact .of_error (by simp)
      · exact .of_error (by simpa using h.found)
    exact hs

/-- The invariant of a call. -/
def CallInv (s : Settings) (db : Db) (c : Call) : Prop :=
  match c.state with
  | .running t => ∃ done, Running s db c t done
  | .aborted e => Aborted db c e
  | .returned r => Returned s db c r

/-- `db` is `db₀` with a message, a job and a reservation of its cost for each of `subs`. -/
structure Grown (s : Settings) (db₀ db : Db) (subs : List Submission) : Prop where
  users : db.users = db₀.users
  messages : db.messages.rows = db₀.messages.rows ++ subs.map (newMessage s)
  jobs : db.jobs.rows = db₀.jobs.rows ++ subs.map (newJob s)
  reserved : ∀ u, db.balances.find? u = (db₀.balances.find? u).map fun b =>
    b.raised ((subs.filter fun sub => sub.request.userId = u).map (submissionCost s)).sum

section Transfer

variable {s : Settings} {db₀ db db' : Db} {u : UserId} {subs subs' : List Submission} {c : Call}
  {t : Open} {done : List Stmt}

theorem MessageUseCase.Accepted.find?_balance (h : Accepted s u subs db db') (u' : UserId) :
    db'.balances.find? u' = (db.balances.find? u').map fun b =>
      if u = u' then b.raised (subs.map (submissionCost s)).sum else b := by
  obtain ⟨b, hb, -, hbal⟩ := h.balance
  obtain ⟨hbm, hbu⟩ := Table.find?_eq_some.1 hb
  rw [hbal, Table.find?_put hbm (Balance.raised_userId _ _).symm, Balance.raised_userId, hbu]
  split_ifs with hu
  · rw [← hu, hb]
    rfl
  · simp

theorem Grown.of_accepted (h : Grown s db₀ db subs) (hacc : Accepted s u subs' db db')
    (hu : ∀ sub ∈ subs', sub.request.userId = u) : Grown s db₀ db' (subs ++ subs') := by
  refine ⟨hacc.users.trans h.users, ?_, ?_, fun u' => ?_⟩
  · rw [hacc.messages, h.messages, List.map_append, List.append_assoc]
  · rw [hacc.jobs, h.jobs, List.map_append, List.append_assoc]
  · rw [hacc.find?_balance, h.reserved, Option.map_map]
    congr 1
    funext b
    rw [Function.comp_apply, List.filter_append, List.map_append, List.sum_append]
    split_ifs with hu'
    · have hall : (subs'.filter fun sub => sub.request.userId = u') = subs' :=
        List.filter_eq_self.2 fun sub hsub => by simpa using (hu sub hsub).trans hu'
      rw [Balance.raised_raised, hall]
    · have hnone : (subs'.filter fun sub => sub.request.userId = u') = [] :=
        List.filter_eq_nil_iff.2 fun sub hsub => by simpa [hu sub hsub] using hu'
      simp [hnone]

/-- A commit of another call leaves a running one where it is. -/
theorem Running.of_accepted (h : Running s db c t done) (hacc : Accepted s u subs' db db')
    (hids : ∀ sub ∈ c.call.submissions c.now, ∀ sub' ∈ subs',
      sub'.ids.messageId ≠ sub.ids.messageId ∧ sub'.ids.jobId ≠ sub.ids.jobId)
    (hkeys : ∀ m ∈ t.messages, ∀ sub' ∈ subs', ¬((newMessage s sub').userId = m.userId ∧
      (newMessage s sub').idempotencyKey = m.idempotencyKey))
    (hlock : t.balance.isSome → u ≠ c.call.userId) : Running s db' c t done := by
  refine ⟨h.program, h.messages, h.jobs, fun stmt hstmt => ?_, ⟨fun sub hsub m hm => ?_,
    fun sub hsub j hj => ?_, h.fresh.message_ids, h.fresh.job_ids⟩, h.keys⟩
  · have hx := h.executed stmt hstmt
    cases stmt with
    | insertMessage m =>
      refine ⟨hx.1, hx.2.1, fun x hxm => ?_⟩
      rcases hacc.mem_messages.1 hxm with hxm | ⟨sub', hsub', rfl⟩
      · exact hx.2.2 x hxm
      · refine hkeys m ?_ sub' hsub'
        rw [h.messages]
        exact List.mem_filterMap.2 ⟨_, hstmt, rfl⟩
    | reserve amount =>
      obtain ⟨hpos, b, hb, hbal⟩ := hx
      refine ⟨hpos, b, ?_, hbal⟩
      rw [hacc.find?_balance, hb, Option.map_some, if_neg (hlock (by rw [hbal]; rfl))]
    | _ => exact hx
  · rcases hacc.mem_messages.1 hm with hm | ⟨sub', hsub', rfl⟩
    · exact h.fresh.message_id sub hsub m hm
    · exact (hids sub hsub sub' hsub').1
  · rcases hacc.mem_jobs.1 hj with hj | ⟨sub', hsub', rfl⟩
    · exact h.fresh.job_id sub hsub j hj
    · exact (hids sub hsub sub' hsub').2

theorem Aborted.of_accepted {e : Exn} (h : Aborted db c e) (hacc : Accepted s u subs' db db') :
    Aborted db' c e := by
  refine ⟨h.found, fun payload ids con hc he => ?_⟩
  obtain ⟨m, hm, hk⟩ := h.taken payload ids con hc he
  exact ⟨m, hacc.mem_messages.2 (Or.inl hm), hk⟩

theorem Returned.of_accepted {r : Except Exn Answer} (h : Returned s db c r)
    (hacc : Accepted s u subs' db db') : Returned s db' c r := by
  refine ⟨h.found, fun payload ids a hc ha => ?_, h.created⟩
  obtain ⟨a, ha, hm, hk⟩ := h.message payload ids a hc ha
  exact ⟨a, ha, hacc.mem_messages.2 (Or.inl hm), hk⟩

end Transfer

/-! ## The system -/

/-- Two open transactions hold no row with the same unique key and no common lock. -/
def Apart (c c' : Call) : Prop :=
  ∀ t t', c.state = .running t → c'.state = .running t' →
    (∀ m ∈ t.messages, ∀ m' ∈ t'.messages,
      ¬(m.userId = m'.userId ∧ m.idempotencyKey = m'.idempotencyKey)) ∧
    (c.call.userId = c'.call.userId → t.balance.isSome → t'.balance = none)

theorem Apart.symm {c c' : Call} (h : Apart c c') : Apart c' c := by
  intro t t' ht ht'
  obtain ⟨hk, hl⟩ := h t' t ht' ht
  refine ⟨fun m hm m' hm' he => hk m' hm' m hm ⟨he.1.symm, he.2.symm⟩, fun hu hs => ?_⟩
  by_contra hne
  have := hl hu.symm (Option.isSome_iff_ne_none.2 hne)
  rw [this] at hs
  cases hs

/-- The ids of two calls are different. -/
def DistinctIds (c c' : Call) : Prop :=
  ∀ sub ∈ c.call.submissions c.now, ∀ sub' ∈ c'.call.submissions c'.now,
    sub.ids.messageId ≠ sub'.ids.messageId ∧ sub.ids.jobId ≠ sub'.ids.jobId

theorem DistinctIds.symm {c c' : Call} (h : DistinctIds c c') : DistinctIds c' c :=
  fun sub hsub sub' hsub' => ⟨(h sub' hsub' sub hsub).1.symm, (h sub' hsub' sub hsub).2.symm⟩

namespace SubmissionSystem

/-- What holds between statements : the tables have grown by whole submissions, each call is where
its program is, and no two calls draw the same ids or hold the same lock. -/
structure Inv (s : Settings) (db₀ : Db) (sys : SubmissionSystem) : Prop where
  constrained : sys.db.Constrained
  grown : ∃ subs, Grown s db₀ sys.db subs
  call : ∀ c ∈ sys.calls, CallInv s sys.db c
  distinct : ∀ c ∈ sys.calls, ∀ c' ∈ sys.calls, c.id ≠ c'.id → DistinctIds c c'
  apart : ∀ c ∈ sys.calls, ∀ c' ∈ sys.calls, c.id ≠ c'.id → Apart c c'

variable {s : Settings} {db₀ : Db} {sys : SubmissionSystem} {c : Call}

theorem inv_start (h : db₀.Constrained) : Inv s db₀ (start db₀) where
  constrained := h
  grown := ⟨[], rfl, by simp [start], by simp [start], fun u => by simp [start, Balance.raised]⟩
  call := by simp [start]
  distinct := by simp [start]
  apart := by simp [start]

/-- One call goes on, and maybe commits. -/
theorem Inv.update (h : Inv s db₀ sys) (hc : c ∈ sys.calls) {db' : Db} {state : CallState}
    (hdb : db'.Constrained) (hg : ∃ subs, Grown s db₀ db' subs)
    (hself : CallInv s db' { c with state })
    (hothers : ∀ c' ∈ sys.calls, c'.id ≠ c.id → CallInv s db' c')
    (hapart : ∀ c' ∈ sys.calls, c'.id ≠ c.id → Apart { c with state } c') :
    Inv s db₀ ⟨db', sys.calls.put { c with state }⟩ where
  constrained := hdb
  grown := hg
  call c' hc' := by
    rcases Table.mem_put.1 hc' with ⟨hc', hne⟩ | ⟨rfl, -⟩
    · exact hothers c' hc' hne
    · exact hself
  distinct c₁ hc₁ c₂ hc₂ hne := by
    rcases Table.mem_put.1 hc₁ with ⟨hc₁, hne₁⟩ | ⟨rfl, -⟩ <;>
      rcases Table.mem_put.1 hc₂ with ⟨hc₂, hne₂⟩ | ⟨rfl, -⟩
    · exact h.distinct c₁ hc₁ c₂ hc₂ hne
    · exact h.distinct c₁ hc₁ c hc hne₁
    · exact h.distinct c hc c₂ hc₂ hne
    · exact absurd rfl hne
  apart c₁ hc₁ c₂ hc₂ hne := by
    rcases Table.mem_put.1 hc₁ with ⟨hc₁, hne₁⟩ | ⟨rfl, -⟩ <;>
      rcases Table.mem_put.1 hc₂ with ⟨hc₂, hne₂⟩ | ⟨rfl, -⟩
    · exact h.apart c₁ hc₁ c₂ hc₂ hne
    · exact (hapart c₁ hc₁ hne₁).symm
    · exact hapart c₂ hc₂ hne₂
    · exact absurd rfl hne

/-- One call goes on without a commit. -/
theorem Inv.goto (h : Inv s db₀ sys) (hc : c ∈ sys.calls) {state : CallState}
    (hself : CallInv s sys.db { c with state })
    (hapart : ∀ c' ∈ sys.calls, c'.id ≠ c.id → Apart { c with state } c') :
    Inv s db₀ (sys.goto c state) :=
  h.update hc h.constrained h.grown hself (fun c' hc' _ => h.call c' hc') hapart

/-- A call that is not running is apart from every other. -/
theorem apart_of_not_running {c c' : Call} (h : ∀ t, c.state ≠ .running t) : Apart c c' :=
  fun t _ ht => absurd ht (h t)

theorem fresh_iff {subs : List Submission} : sys.fresh subs = true ↔ FreshIds sys.db subs ∧
    ∀ c ∈ sys.calls, ∀ sub' ∈ c.call.submissions c.now, ∀ sub ∈ subs,
      sub'.ids.messageId ≠ sub.ids.messageId ∧ sub'.ids.jobId ≠ sub.ids.jobId := by
  simp only [fresh, Bool.and_eq_true, decide_eq_true_eq, List.all_eq_true]
  constructor
  · rintro ⟨⟨hm, hj⟩, hall⟩
    exact ⟨⟨fun sub hsub m hm' => (hall sub hsub).1.1 m hm', fun sub hsub j hj' =>
      (hall sub hsub).1.2 j hj', hm, hj⟩, fun c hc sub' hsub' sub hsub =>
        (hall sub hsub).2 c hc sub' hsub'⟩
  · rintro ⟨⟨hm, hj, hms, hjs⟩, hall⟩
    exact ⟨⟨hms, hjs⟩, fun sub hsub => ⟨⟨fun m hm' => hm sub hsub m hm', fun j hj' =>
      hj sub hsub j hj'⟩, fun c hc sub' hsub' => hall c hc sub' hsub' sub hsub⟩⟩

/-- A new call. -/
theorem Inv.begin (h : Inv s db₀ sys) (id : ℕ) (call : SubmissionCall) (now : Time) :
    Inv s db₀ (sys.begin s id call now) := by
  unfold SubmissionSystem.begin
  split_ifs with hf
  swap
  · exact h
  split
  swap
  · exact h
  rename_i calls hcalls
  obtain ⟨hfresh, hids⟩ := fresh_iff.1 hf
  have hdist : ∀ c ∈ sys.calls, DistinctIds c ⟨id, call, now, call.begin s now⟩ := hids
  have hself : CallInv s sys.db ⟨id, call, now, call.begin s now⟩ := by
    rcases call.begin_cases s now with ⟨t, ht⟩ | ⟨payload, ids, r, rfl, hr⟩
    · obtain ⟨rfl, hkeys⟩ := call.begin_running s now ht
      rw [CallInv, ht]
      exact ⟨[], rfl, rfl, rfl, by simp, hfresh, hkeys⟩
    · rw [CallInv, hr]
      exact Returned.of_batch rfl
  have hapart : ∀ c ∈ sys.calls, Apart ⟨id, call, now, call.begin s now⟩ c := by
    intro c hc t t' ht ht'
    obtain ⟨rfl, -⟩ := call.begin_running s now ht
    exact ⟨by simp, by simp⟩
  have hmem := fun c => Table.mem_insert (x := c) hcalls
  refine ⟨h.constrained, h.grown, fun c hc => ?_, fun c hc c' hc' hne => ?_,
    fun c hc c' hc' hne => ?_⟩
  · rcases (hmem c).1 hc with hc | rfl
    · exact h.call c hc
    · exact hself
  · rcases (hmem c).1 hc with hc | rfl <;> rcases (hmem c').1 hc' with hc' | rfl
    · exact h.distinct c hc c' hc' hne
    · exact hdist c hc
    · exact (hdist c' hc').symm
    · exact absurd rfl hne
  · rcases (hmem c).1 hc with hc | rfl <;> rcases (hmem c').1 hc' with hc' | rfl
    · exact h.apart c hc c' hc' hne
    · exact (hapart c hc).symm
    · exact hapart c' hc'
    · exact absurd rfl hne

/-- A statement that need not wait touches no key and no lock of another transaction. -/
theorem Inv.apart_exec (h : Inv s db₀ sys) (hc : c ∈ sys.calls) {t t' : Open} {stmt : Stmt}
    {todo : List Stmt} (hstate : c.state = .running t) (hfree : sys.blocked c stmt = false)
    (he : t.exec sys.db c.call.userId stmt = .ok t') :
    ∀ c' ∈ sys.calls, c'.id ≠ c.id → Apart { c with state := .running { t' with todo } } c' := by
  intro c' hc' hne t₁ t₂ ht₁ ht₂
  obtain rfl := CallState.running.inj ht₁
  obtain ⟨hk, hl⟩ := h.apart c hc c' hc' (Ne.symm hne) t t₂ hstate ht₂
  obtain ⟨hm, -, hb, -⟩ := Open.exec_ok he
  have hnb : t₂.blocks c'.call.userId c.call.userId stmt = false := by
    have := List.any_eq_false.1 hfree c' hc'
    simpa [hne, ht₂] using this
  refine ⟨fun m hm' m' hm₂ hsame => ?_, fun hu hs => ?_⟩
  · rw [show ({ t' with todo } : Open).messages = t'.messages from rfl, hm] at hm'
    rcases List.mem_append.1 hm' with hm' | hm'
    · exact hk m hm' m' hm₂ hsame
    · cases stmt with
      | insertMessage x =>
        obtain rfl := List.mem_singleton.1 hm'
        have := List.any_eq_false.1 hnb m' hm₂
        simp [Db.sameKey_iff, hsame.1, hsame.2] at this
      | _ => cases hm'
  · cases stmt with
    | reserve amount =>
      simpa [Open.blocks, hu.symm] using hnb
    | _ =>
      have hbal : t'.balance = t.balance := hb (by simp)
      exact hl hu (by rw [← hbal]; exact hs)

theorem Inv.commit (h : Inv s db₀ sys) (hc : c ∈ sys.calls) {t : Open} {done : List Stmt}
    (hstate : c.state = .running t) (hrun : Running s sys.db c t done) (hnil : t.todo = []) :
    Inv s db₀ ⟨t.commit sys.db,
      sys.calls.put { c with state := .returned (.ok (c.call.answer s c.now)) }⟩ := by
  have hacc := hrun.accepted h.constrained hnil
  obtain ⟨subs, hg⟩ := h.grown
  refine h.update hc (hacc.constrained h.constrained)
    ⟨_, hg.of_accepted hacc (c.call.submissions_userId c.now)⟩ (hacc.returned.goto _)
    (fun c' hc' hne => ?_) fun c' _ _ => apart_of_not_running (by simp)
  have hinv := h.call c' hc'
  unfold CallInv at hinv ⊢
  cases hstate' : c'.state with
  | aborted e =>
    rw [hstate'] at hinv
    exact hinv.of_accepted hacc
  | returned r =>
    rw [hstate'] at hinv
    exact hinv.of_accepted hacc
  | running t' =>
    rw [hstate'] at hinv
    obtain ⟨done', hrun'⟩ := hinv
    obtain ⟨hkeys, hlock⟩ := h.apart c' hc' c hc hne t' t hstate' hstate
    have hmessages := hrun.messages_eq hnil
    refine ⟨done', hrun'.of_accepted hacc
      (fun sub hsub sub' hsub' => h.distinct c hc c' hc' (Ne.symm hne) sub' hsub' sub hsub)
      (fun m hm sub' hsub' he => hkeys m hm (newMessage s sub') ?_ ⟨he.1.symm, he.2.symm⟩)
      fun hs hu => ?_⟩
    · rw [hmessages]
      exact List.mem_map_of_mem hsub'
    · obtain ⟨-, b, -, hbal, -⟩ := hrun.reserved hnil
      rw [hlock hu.symm hs] at hbal
      cases hbal

theorem Inv.advance (h : Inv s db₀ sys) (hc : c ∈ sys.calls) : Inv s db₀ (sys.advance s c) := by
  have hinv := h.call c hc
  unfold SubmissionSystem.advance
  unfold CallInv at hinv
  split
  · rename_i t hstate
    rw [hstate] at hinv
    obtain ⟨done, hrun⟩ := hinv
    split
    · rename_i hnil
      exact h.commit hc hstate hrun hnil
    · rename_i stmt todo htodo
      split_ifs with hb
      · exact h
      · split
        · rename_i t' he
          exact h.goto hc ⟨_, (hrun.exec htodo he).goto _⟩
            (h.apart_exec hc hstate (by simpa using hb) he)
        · rename_i e he
          refine h.goto hc ⟨fun key hk => ?_, fun payload ids con hcall hk => ?_⟩
            fun c' _ _ => apart_of_not_running (by simp)
          · exact Open.exec_ne_messageNotFound key (hk ▸ he)
          · obtain ⟨sub, hsub, hkey⟩ := hrun.exec_unique h.constrained htodo (hk ▸ he)
            have hcall' : c.call = .single payload ids := hcall
            rw [hcall'] at hsub hkey
            obtain rfl := List.mem_singleton.1 hsub
            exact hkey
  · rename_i e hstate
    rw [hstate] at hinv
    exact h.goto hc (hinv.returned.goto _) fun c' _ _ => apart_of_not_running (by simp)
  · exact h

theorem Inv.step (h : Inv s db₀ sys) (a : SubmissionAct) : Inv s db₀ (sys.step s a) := by
  cases a with
  | start id call now => exact h.begin id call now
  | advance id =>
    rw [SubmissionSystem.step]
    split
    · rename_i c hc
      exact h.advance (Table.find?_eq_some.1 hc).1
    · exact h
  | kill id =>
    rw [SubmissionSystem.step]
    split
    · rename_i c hc
      split
      · exact h.goto (Table.find?_eq_some.1 hc).1
          ⟨fun _ hk => (by cases hk), fun _ _ _ _ hk => (by cases hk)⟩
          fun c' _ _ => apart_of_not_running (by simp)
      · exact h
    · exact h

theorem run_inv (s : Settings) (hdb : db₀.Constrained) (acts : List SubmissionAct) :
    Inv s db₀ (run (step s) (start db₀) acts) :=
  run_induction (P := Inv s db₀) (fun _ a h => h.step a) acts (inv_start hdb)

/-! ## What a call writes -/

/-- A call writes with its commit only, and then returns what it has created. -/
theorem advance_db (s : Settings) (sys : SubmissionSystem) (c : Call) :
    (sys.advance s c).db = sys.db ∨ (sys.advance s c).calls =
      sys.calls.put { c with state := .returned (.ok (c.call.answer s c.now)) } := by
  unfold SubmissionSystem.advance
  split
  · split
    · exact Or.inr rfl
    · split_ifs
      · exact Or.inl rfl
      · split <;> exact Or.inl rfl
  · exact Or.inl rfl
  · exact Or.inl rfl

/-- A call that goes on is not one that returned. -/
theorem mem_put_of_returned {r : Except Exn Answer} (hc : c ∈ sys.calls)
    (hr : c.state = .returned r) {c' : Call} (hc' : c' ∈ sys.calls)
    (hne : ∀ r, c'.state ≠ .returned r) (state : CallState) :
    c ∈ sys.calls.put { c' with state } := by
  refine Table.mem_put.2 (Or.inl ⟨hc, fun hi => ?_⟩)
  rw [Table.eq_of_key_eq hc hc' hi] at hr
  exact hne r hr

/-- A call that returned stays as it is. -/
theorem step_of_returned {r : Except Exn Answer} (hc : c ∈ sys.calls)
    (hr : c.state = .returned r) (a : SubmissionAct) : c ∈ (sys.step s a).calls := by
  cases a with
  | start id call now =>
    rw [SubmissionSystem.step, SubmissionSystem.begin]
    split_ifs
    · split
      · rename_i calls hcalls
        exact (Table.mem_insert hcalls).2 (Or.inl hc)
      · exact hc
    · exact hc
  | advance id =>
    rw [SubmissionSystem.step]
    split
    · rename_i c' hc'
      have hput := mem_put_of_returned hc hr (Table.find?_eq_some.1 hc').1
      unfold SubmissionSystem.advance
      split
      · rename_i t ht
        replace hput := hput (by simp [ht])
        split
        · exact hput _
        · split_ifs
          · exact hc
          · split <;> exact hput _
      · rename_i e he
        exact hput (by simp [he]) _
      · exact hc
    · exact hc
  | kill id =>
    rw [SubmissionSystem.step]
    split
    · rename_i c' hc'
      split
      · rename_i t ht
        exact mem_put_of_returned hc hr (Table.find?_eq_some.1 hc').1 (by simp [ht]) _
      · exact hc
    · exact hc

theorem run_of_returned {r : Except Exn Answer} (hc : c ∈ sys.calls)
    (hr : c.state = .returned r) (acts : List SubmissionAct) :
    c ∈ (run (step s) sys acts).calls :=
  run_induction (P := fun sys : SubmissionSystem => c ∈ sys.calls)
    (fun _ a h => step_of_returned h hr a) acts hc

/-- A call that ends with a message of an earlier one has written nothing. -/
theorem advance_of_replayed {id : ℕ} {m : Message} {acts : List SubmissionAct}
    (hc : c ∈ (run (step s) sys (.advance id :: acts)).calls) (hi : c.id = id)
    (hr : c.state = .returned (.ok (.single (.replayed m)))) :
    (sys.step s (.advance id)).db = sys.db := by
  rw [run_cons] at hc
  rw [SubmissionSystem.step] at hc ⊢
  cases hf : sys.calls.find? id with
  | none => rfl
  | some c' =>
    rw [hf] at hc
    refine (advance_db s sys c').resolve_right fun hput => ?_
    obtain ⟨hc', hi'⟩ := Table.find?_eq_some.1 hf
    have hend : { c' with state := .returned (.ok (c'.call.answer s c'.now)) } ∈
        (sys.advance s c').calls := by
      rw [hput]
      exact Table.mem_put_self hc' rfl
    have hfinal := run_of_returned (s := s) hend rfl acts
    rw [Table.eq_of_key_eq hc hfinal (hi.trans hi'.symm)] at hr
    cases hcall : c'.call <;> simp [hcall, SubmissionCall.answer] at hr

end SubmissionSystem

/-! ## Idempotence -/

/-- The pair of user and key of a submission. -/
def Submission.pair (sub : Submission) : UserId × UUID :=
  (sub.request.userId, sub.request.idempotencyKey)

/-- What the submissions made from `db₀` on have left and returned. -/
structure Idempotent (s : Settings) (db₀ : Db) (sys : SubmissionSystem) : Prop where
  /-- A pair has at most one message, and a message at most one job. -/
  one_message : ∀ m ∈ sys.db.messages, ∀ m' ∈ sys.db.messages, m.userId = m'.userId →
    m.idempotencyKey = m'.idempotencyKey → m = m'
  one_job : ∀ j ∈ sys.db.jobs, ∀ j' ∈ sys.db.jobs, j.messageId = j'.messageId → j = j'
  /-- What is new is a message, a job and a reservation of the message's cost for each of
  some submissions, one for a pair at most and none for a pair of before. -/
  grown : ∃ subs, Grown s db₀ sys.db subs ∧ (subs.map Submission.pair).Nodup ∧
    ∀ sub ∈ subs, ¬db₀.hasKey sub.request.userId sub.request.idempotencyKey
  /-- A single submission that returns returns the message of its pair. -/
  returned : ∀ c ∈ sys.calls, ∀ payload ids answer, c.call = .single payload ids →
    c.state = .returned (.ok answer) → ∃ a, answer = .single a ∧
      sys.db.messageWithKey payload.userId payload.idempotencyKey = some a.message ∧
        ∀ m, a = .created m → m = newMessage s ⟨payload, ids, c.now⟩
  /-- No single submission ends with `MessageNotFoundError`. -/
  found : ∀ c ∈ sys.calls, ∀ payload ids key, c.call = .single payload ids →
    c.state ≠ .returned (.error (.app (.messageNotFound key)))

theorem SubmissionSystem.Inv.idempotent {s : Settings} {db₀ : Db} {sys : SubmissionSystem}
    (h : sys.Inv s db₀) : Idempotent s db₀ sys := by
  obtain ⟨subs, hg⟩ := h.grown
  have hnodup : (sys.db.messages.rows.map fun m => (m.userId, m.idempotencyKey)).Nodup :=
    sys.db.messages.nodup.of_map.map_on fun m hm m' hm' he =>
      h.constrained.message_key m hm m' hm' (congrArg Prod.fst he) (congrArg Prod.snd he)
  rw [hg.messages, List.map_append, List.map_map, List.nodup_append] at hnodup
  refine ⟨h.constrained.message_key, h.constrained.job_unique, ⟨subs, hg, hnodup.2.1, ?_⟩,
    fun c hc payload ids answer hcall hr => ?_, fun c hc payload ids key hcall hr => ?_⟩
  · rintro sub hsub ⟨m, hm, hu, hk⟩
    refine hnodup.2.2 _ (List.mem_map_of_mem hm) _ (List.mem_map_of_mem hsub) ?_
    rw [hu, hk]
    rfl
  · have hinv := h.call c hc
    unfold CallInv at hinv
    rw [hr] at hinv
    obtain ⟨a, ha, hm, hu, hk⟩ := hinv.message payload ids answer hcall rfl
    refine ⟨a, ha, ?_, fun m hm => ?_⟩
    · rw [← hu, ← hk]
      exact Db.messageWithKey_eq h.constrained hm
    · exact hinv.created payload ids m hcall (by rw [ha, hm])
  · have hinv := h.call c hc
    unfold CallInv at hinv
    rw [hr] at hinv
    exact hinv.found payload ids key hcall rfl

/-- Submission is idempotent, however the calls interleave, and a call that returns a
message of an earlier one changes no row. -/
theorem idempotent_submission (s : Settings) {db₀ : Db} (hdb : db₀.Constrained)
    (acts : List SubmissionAct) :
    Idempotent s db₀ (run (SubmissionSystem.step s) (.start db₀) acts) ∧
      ∀ acts₁ id acts₂ c m, acts = acts₁ ++ .advance id :: acts₂ →
        c ∈ (run (SubmissionSystem.step s) (.start db₀) acts).calls → c.id = id →
        c.state = .returned (.ok (.single (.replayed m))) →
        let sys := run (SubmissionSystem.step s) (.start db₀) acts₁
        (sys.step s (.advance id)).db = sys.db := by
  refine ⟨(SubmissionSystem.run_inv s hdb acts).idempotent, ?_⟩
  rintro acts₁ id acts₂ c m rfl hc hi hr
  rw [run_append] at hc
  exact SubmissionSystem.advance_of_replayed hc hi hr

/-- The message that call `id` has returned for an earlier submission. -/
def SubmissionSystem.replayed? (sys : SubmissionSystem) (id : ℕ) : Option Message :=
  match sys.calls.find? id with
  | some ⟨_, _, _, .returned (.ok (.single (.replayed m)))⟩ => some m
  | _ => none

theorem SubmissionSystem.exists_of_replayed {sys : SubmissionSystem} {id : ℕ} {m : Message}
    (h : sys.replayed? id = some m) :
    ∃ c ∈ sys.calls, c.id = id ∧ c.state = .returned (.ok (.single (.replayed m))) := by
  unfold replayed? at h
  split at h
  · rename_i hc
    cases h
    obtain ⟨hc, hi⟩ := Table.find?_eq_some.1 hc
    exact ⟨_, hc, hi, rfl⟩
  · cases h

/-- Two submissions with one key : the second, with another body and priority, waits for
the first and then returns its message. -/
def racingSample : List SubmissionAct :=
  [.start 0 (.single .sample ⟨10, 20⟩) 0,
    .start 1 (.single { MessageRequest.sample with body := "again", priority := .express }
      ⟨11, 21⟩) 0, .advance 0, .advance 1, .advance 0, .advance 0, .advance 0, .advance 0,
    .advance 0, .advance 1]

theorem idempotent_submission_sample :
    let sys := run (SubmissionSystem.step {}) (.start .oneUser) racingSample
    Idempotent {} .oneUser (sys.step {} (.advance 1)) ∧
      (∃ m, (sys.step {} (.advance 1)).replayed? 1 = some m ∧ m.id = 10 ∧ m.body = "hello") ∧
        (sys.step {} (.advance 1)).db = sys.db := by
  intro sys
  have hrun : sys.step {} (.advance 1) =
      run (SubmissionSystem.step {}) (.start .oneUser) (racingSample ++ [.advance 1]) := by
    rw [run_append, run_singleton]
  have h := idempotent_submission {} Db.constrained_oneUser (racingSample ++ [.advance 1])
  rw [← hrun] at h
  have hm : ((sys.step {} (.advance 1)).replayed? 1).any
      (fun m => m.id = 10 && m.body = "hello") = true := by
    decide +kernel
  obtain ⟨m, hr, hm⟩ := (Option.any_eq_true _ _).1 hm
  obtain ⟨c, hc, hi, hs⟩ := SubmissionSystem.exists_of_replayed hr
  exact ⟨h.1, ⟨m, hr, by simpa using hm⟩, h.2 racingSample 1 [] c m rfl hc hi hs⟩

end Abrio
