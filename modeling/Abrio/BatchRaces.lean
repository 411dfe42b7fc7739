import Abrio.Idempotency

/-!
# Two batches that share keys

Two batches of one user, each acceptable on its own, are submitted at once and have a key in
common. An insert of a key that the other open transaction has inserted waits; a cycle of waits
is a deadlock, of which the database aborts a victim. Its error is no integrity error, so the
handlers of `batch_create_message` let it through.

The batches are resolved cleanly, one committed and the other refused for the conflict, exactly
when the first common key of both is the same (`batches_resolved_iff`) : whichever inserts it
first then holds it until its end, and the other holds no common key meanwhile. Otherwise each
batch can hold the key the other one comes to.
-/

open Relational Runs

namespace Abrio

open MessageUseCase

/-! ## What the statements raise -/

/-- No message is inserted after another statement. -/
theorem SubmissionCall.pairwise_inserts (s : Settings) (now : Time) (c : SubmissionCall) :
    (c.program s now).Pairwise fun a b => a.message? = none → b.message? = none := by
  have h : ∀ (ms : List Message) (rest : List Stmt), (∀ stmt ∈ rest, stmt.message? = none) →
      (ms.map Stmt.insertMessage ++ rest).Pairwise
        fun a b => a.message? = none → b.message? = none := by
    intro ms rest hrest
    rw [List.pairwise_append, List.pairwise_map]
    refine ⟨List.pairwise_of_forall fun _ _ hm => (by cases hm), ?_, fun _ _ b hb _ => hrest b hb⟩
    exact List.pairwise_of_forall_mem_list fun a _ b hb _ => hrest b hb
  cases c <;> exact h _ _ (by simp [Stmt.message?])

/-- A call reserves what its submissions cost. -/
theorem SubmissionCall.eq_of_reserve_mem (s : Settings) (now : Time) (c : SubmissionCall)
    {amount : Cents} (h : Stmt.reserve amount ∈ c.program s now) :
    amount = ((c.submissions now).map (submissionCost s)).sum := by
  cases c with
  | single payload ids => simpa [program, submissions, submissionCost] using h
  | batch payload ids =>
    rw [submissions, ← calculateBatchMessageCost_eq payload ids now]
    simpa [program] using h

namespace Running

variable {s : Settings} {db : Db} {c : Call} {t t' : Open} {done todo : List Stmt} {stmt : Stmt}

/-- An insert of a message that is acceptable raises for a key that is taken, and only then. -/
theorem insert_cases (h : Running s db c t done) {m : Message}
    (ht : t.todo = .insertMessage m :: todo) (hok : Db.checkMessage m = .ok ()) :
    (∃ t', t.exec db c.call.userId (.insertMessage m) = .ok t' ∧
      ¬db.hasKey c.call.userId m.idempotencyKey) ∨
    (t.exec db c.call.userId (.insertMessage m) =
      .error (.db (.uniqueViolation .uniqueUserIdIdempotencyKey)) ∧
        db.hasKey c.call.userId m.idempotencyKey) := by
  have hall := h.messages_append ht
  obtain ⟨sub, hsub, rfl⟩ := List.mem_map.1 (hall ▸ List.mem_append_right _ List.mem_cons_self)
  cases he : t.exec db c.call.userId (.insertMessage (newMessage s sub)) with
  | ok t' =>
    refine Or.inl ⟨t', rfl, ?_⟩
    rintro ⟨x, hx, hu, hk⟩
    obtain ⟨-, -, -, -, -, hfree⟩ := Open.exec_ok he
    exact hfree x hx ⟨hu.trans (c.call.submissions_userId c.now sub hsub).symm, hk⟩
  | error e =>
    rcases h.insert_error ht he with hc | ⟨rfl, hkey⟩
    · rw [hok] at hc
      cases hc
    · exact Or.inr ⟨rfl, hkey⟩

/-- After its inserts of messages a call has inserted all of them. -/
theorem messages_of_past (h : Running s db c t done) (ht : t.todo = stmt :: todo)
    (hs : stmt.message? = none) :
    t.messages = (c.call.submissions c.now).map (newMessage s) := by
  have hp := c.call.pairwise_inserts s c.now
  rw [h.program, ht, List.pairwise_append, List.pairwise_cons] at hp
  have hnone : (stmt :: todo).filterMap Stmt.message? = [] := by
    refine List.filterMap_eq_nil_iff.2 fun x hx => ?_
    rcases List.mem_cons.1 hx with rfl | hx
    · exact hs
    · exact hp.2.1.1 x hx hs
  rw [← h.messages_todo, ht, hnone, List.append_nil]

/-- What a batch does after its inserts of messages raises nothing, when the batch is
acceptable. -/
theorem past_ok (h : Running s db c t done) (hdb : db.Constrained) (ht : t.todo = stmt :: todo)
    (hs : stmt.message? = none)
    (hacc : Acceptable s db c.call.userId ((c.call.submissions c.now).map Submission.request)) :
    ∃ t', t.exec db c.call.userId stmt = .ok t' := by
  have hmsgs := h.messages_of_past ht hs
  have hu := c.call.submissions_userId c.now
  have hne := c.call.submissions_ne c.now
  have hin : stmt ∈ c.call.program s c.now := by
    rw [h.program, ht]
    simp
  obtain ⟨db', hd⟩ := (exists_accepted_iff hdb h.fresh hu hne).2 hacc
  obtain ⟨b, hb, hcon, -⟩ := hd.balance
  cases stmt with
  | insertMessage m => cases hs
  | checkUsers =>
    have hcheck : forM t.messages (t.view db).checkMessageUser = .ok ⟨⟩ := by
      refine forM_eq_ok.2 fun m hm => Db.checkMessageUser_ok.2 ?_
      exact hd.messages_new.user m (hmsgs ▸ hm)
    exact ⟨t, bind_eq_ok.2 ⟨_, hcheck, rfl⟩⟩
  | reserve amount =>
    obtain rfl := c.call.eq_of_reserve_mem s c.now hin
    have hres : BalanceRepository.reserveCredits (t.view db) c.call.userId _ = .ok _ :=
      BalanceRepository.reserveCredits_ok.2 ⟨hd.cost_pos, b, hb, rfl⟩
    exact ⟨_, bind_eq_ok.2 ⟨_, hres, rfl⟩⟩
  | insertJobs js =>
    obtain ⟨hnil, rfl⟩ := h.jobs_append ht
    obtain ⟨tm, htm⟩ := h.fresh.exists_messages s
    obtain ⟨tj, htj⟩ := h.fresh.exists_jobs s
    have hview : t.view db = { db with messages := tm } := by
      have hj : db.jobs.append? [] = some db.jobs := Table.append?_eq_some.2 (by simp)
      simp [Open.view, hmsgs, hnil, hj, Table.append?_eq_some.2 htm]
    have hjobs : (t.view db).insertJobs ((c.call.submissions c.now).map (newJob s)) =
        .ok { db with messages := tm, jobs := tj } := by
      rw [hview]
      exact Db.insertJobs_ok.2 ⟨h.fresh.newJobs hdb htm hd.messages_new, tj, htj, rfl⟩
    exact ⟨_, bind_eq_ok.2 ⟨_, hjobs, rfl⟩⟩
  | writeBalance =>
    obtain ⟨-, hres, -⟩ := c.call.mem_program s c.now
    have hp := c.call.pairwise_program s c.now
    rw [h.program, ht, List.pairwise_append, List.pairwise_cons] at hp
    rw [h.program, ht, List.mem_append, List.mem_cons] at hres
    -- the balance is locked before it is written
    have hdone : Stmt.reserve ((c.call.submissions c.now).map (submissionCost s)).sum ∈ done := by
      rcases hres with hres | hres | hres
      · exact hres
      · cases hres
      · cases hp.2.1.1 _ hres _ rfl
    obtain ⟨-, b', hb', hbal⟩ := h.executed _ hdone
    obtain rfl : b = b' := Option.some.inj (hb.symm.trans hb')
    refine ⟨t, ?_⟩
    simp only [Open.exec, hbal]
    exact bind_eq_ok.2 ⟨_, Db.writeBalance_ok.2 ⟨hcon, rfl⟩, rfl⟩

end Running

/-! ## Two batches -/

/-- A call of `batch_create_message`, with the ids it draws and the time it reads. -/
structure BatchCall where
  payload : BatchMessageRequest
  ids : ℕ → Ids
  now : Time

namespace BatchCall

/-- The call that is made. -/
def call (c : BatchCall) : SubmissionCall :=
  .batch c.payload c.ids

/-- The messages the batch would insert. -/
def submissions (c : BatchCall) : List Submission :=
  batchSubmissions c.payload c.ids c.now

/-- The keys of the batch, in the order of the payload. -/
def keys (c : BatchCall) : List UUID :=
  c.payload.messages.map (·.idempotencyKey)

end BatchCall

/-- Two batches of one user, each acceptable in the state they meet, with a key in common. -/
structure BatchRace (s : Settings) (db : Db) where
  call : Bool → BatchCall
  userId : UserId
  userId_eq : ∀ b, (call b).payload.userId = userId
  constrained : db.Constrained
  acceptable : ∀ b, Acceptable s db userId ((call b).submissions.map Submission.request)
  fresh : ∀ b, FreshIds db (call b).submissions
  distinct : ∀ sub ∈ (call false).submissions, ∀ sub' ∈ (call true).submissions,
    sub.ids.messageId ≠ sub'.ids.messageId ∧ sub.ids.jobId ≠ sub'.ids.jobId
  overlap : ∃ key ∈ (call false).keys, key ∈ (call true).keys

/-- A call goes on, or the database aborts one whose wait is part of a cycle. -/
inductive RaceAct
  | advance (b : Bool)
  | abort (b : Bool)

namespace SubmissionSystem

/-- The next statement of `c` has to wait for the transaction of `c'`. -/
def waitsFor (c c' : Call) : Bool :=
  match c.state, c'.state with
  | .running ⟨stmt :: _, _, _, _⟩, .running t' => t'.blocks c'.call.userId c.call.userId stmt
  | _, _ => false

/-- Two transactions wait for each other. -/
def deadlocked (sys : SubmissionSystem) : Bool :=
  sys.calls.rows.any fun c => sys.calls.rows.any fun c' =>
    c.id ≠ c'.id && waitsFor c c' && waitsFor c' c

/-- A step of a race : the database aborts a transaction only to end a deadlock. -/
def raceStep (s : Settings) (sys : SubmissionSystem) : RaceAct → SubmissionSystem
  | .advance b => sys.step s (.advance b.toNat)
  | .abort b => if sys.deadlocked then sys.step s (.kill b.toNat) else sys

end SubmissionSystem

namespace BatchRace

variable {s : Settings} {db₀ : Db} (race : BatchRace s db₀)

/-- The call of a side, with where it is. -/
def side (b : Bool) (state : CallState) : Call :=
  ⟨b.toNat, (race.call b).call, (race.call b).now, state⟩

/-- Both calls have begun. -/
def start : SubmissionSystem :=
  run (SubmissionSystem.step s) (.start db₀)
    [.start 0 (race.call false).call (race.call false).now,
      .start 1 (race.call true).call (race.call true).now]

/-- The state after some acts. -/
def after (acts : List RaceAct) : SubmissionSystem :=
  run (SubmissionSystem.raceStep s) race.start acts

/-- The first key of a batch that the other one has too. -/
def firstCommon (b : Bool) : Option UUID :=
  (race.call b).keys.find? fun key => key ∈ (race.call !b).keys

/-- Both calls have returned. -/
def Finished (sys : SubmissionSystem) : Prop :=
  ∀ b, ∃ r, race.side b (.returned r) ∈ sys.calls

/-- What a batch returns after its commit. -/
def answer (b : Bool) : Except Exn Answer :=
  .ok ((race.call b).call.answer s (race.call b).now)

/-- One batch is committed in full, and the other one is refused for it and left no rows. -/
def OneWins (sys : SubmissionSystem) : Prop :=
  ∃ b, race.side b (.returned (race.answer b)) ∈ sys.calls ∧
    race.side (!b) (.returned (.error (.app .idempotencyConflict))) ∈ sys.calls ∧
      Accepted s race.userId (race.call b).submissions db₀ sys.db

/-- However the statements interleave, the calls can come to an end, and when they have, one of
them has won. -/
def Resolved : Prop :=
  ∀ acts, (race.Finished (race.after acts) → race.OneWins (race.after acts)) ∧
    ∃ acts', race.Finished (race.after (acts ++ acts'))

/-! ## The state of a race -/

/-- The system with both calls. -/
def sys (db : Db) (st : Bool → CallState) : SubmissionSystem :=
  ⟨db, ⟨[race.side false (st false), race.side true (st true)], by simp [side]⟩⟩

variable {race}

@[simp] theorem side_state (b : Bool) (state : CallState) : (race.side b state).state = state :=
  rfl

@[simp] theorem side_userId (b : Bool) (state : CallState) :
    (race.side b state).call.userId = race.userId :=
  race.userId_eq b

@[simp] theorem db_sys (db : Db) (st : Bool → CallState) : (race.sys db st).db = db :=
  rfl

theorem mem_sys {db : Db} {st : Bool → CallState} {c : Call} :
    c ∈ (race.sys db st).calls ↔ ∃ b, c = race.side b (st b) := by
  simp [sys, Table.mem_def]

theorem side_mem_sys {db : Db} {st : Bool → CallState} {b : Bool} {state : CallState} :
    race.side b state ∈ (race.sys db st).calls ↔ st b = state := by
  rw [mem_sys]
  constructor
  · rintro ⟨b', h⟩
    cases b <;> cases b' <;> simp_all [side]
  · rintro rfl
    exact ⟨b, rfl⟩

theorem find?_sys (db : Db) (st : Bool → CallState) (b : Bool) :
    (race.sys db st).calls.find? b.toNat = some (race.side b (st b)) :=
  Table.find?_eq_some.2 ⟨side_mem_sys.2 rfl, rfl⟩

/-- A call goes on. -/
theorem goto_sys (db : Db) (st : Bool → CallState) (b : Bool) (c : CallState)
    (state : CallState) : (race.sys db st).goto (race.side b c) state =
      race.sys db (Function.update st b state) := by
  cases b <;> rfl

/-- The next statement of a side has to wait for the other side. -/
def waits (race : BatchRace s db₀) (st : Bool → CallState) (b : Bool) : Bool :=
  SubmissionSystem.waitsFor (race.side b (st b)) (race.side (!b) (st !b))

theorem deadlocked_sys (db : Db) (st : Bool → CallState) :
    (race.sys db st).deadlocked = true ↔ ∀ b, race.waits st b = true := by
  simp [SubmissionSystem.deadlocked, sys, waits, side, and_comm]

theorem blocked_sys (race : BatchRace s db₀) (db : Db) (st : Bool → CallState) {b : Bool}
    {t : Open} {stmt : Stmt} {todo : List Stmt} (ht : st b = .running t)
    (hn : t.todo = stmt :: todo) :
    (race.sys db st).blocked (race.side b (st b)) stmt = race.waits st b := by
  obtain ⟨_, _, _, _⟩ := t
  obtain rfl := hn
  cases b <;> simp [SubmissionSystem.blocked, sys, waits, SubmissionSystem.waitsFor, side, ht] <;>
    split <;> simp_all

/-- What a side does when it goes on. -/
inductive Move (race : BatchRace s db₀) (db : Db) (st : Bool → CallState) (b : Bool) :
    Db → CallState → Prop
  | wait (hw : race.waits st b = true) : Move race db st b db (st b)
  | commit {t : Open} (ht : st b = .running t) (hn : t.todo = []) :
    Move race db st b (t.commit db) (.returned (race.answer b))
  | exec {t t' : Open} {stmt : Stmt} {todo : List Stmt} (ht : st b = .running t)
    (hn : t.todo = stmt :: todo) (hw : race.waits st b = false)
    (he : t.exec db race.userId stmt = .ok t') : Move race db st b db (.running { t' with todo })
  | raise {t : Open} {stmt : Stmt} {todo : List Stmt} {e : Exn} (ht : st b = .running t)
    (hn : t.todo = stmt :: todo) (he : t.exec db race.userId stmt = .error e) :
    Move race db st b db (.aborted e)
  | handle {e : Exn} (he : st b = .aborted e) :
    Move race db st b db (.returned ((race.call b).call.handle s db e))
  | ended {r : Except Exn Answer} (hr : st b = .returned r) : Move race db st b db (st b)

theorem advance_sys (race : BatchRace s db₀) (db : Db) (st : Bool → CallState) (b : Bool) :
    ∃ db' state, (race.sys db st).raceStep s (.advance b) =
      race.sys db' (Function.update st b state) ∧ race.Move db st b db' state := by
  have hself : race.sys db st = race.sys db (Function.update st b (st b)) := by
    rw [Function.update_eq_self]
  rw [SubmissionSystem.raceStep, SubmissionSystem.step, find?_sys]
  cases hst : st b with
  | running t =>
    cases hn : t.todo with
    | nil =>
      refine ⟨_, _, ?_, .commit hst hn⟩
      simp only [SubmissionSystem.advance, side_state, hn, goto_sys]
      rfl
    | cons stmt todo =>
      have hb := blocked_sys race db st hst hn
      rw [hst] at hb
      cases hw : race.waits st b with
      | true =>
        refine ⟨_, _, ?_, .wait hw⟩
        simpa only [SubmissionSystem.advance, side_state, hn, hb, hw, if_true] using hself
      | false =>
        cases he : t.exec db race.userId stmt with
        | ok t' =>
          refine ⟨_, _, ?_, .exec hst hn hw he⟩
          simp [SubmissionSystem.advance, hn, hb, hw, he, goto_sys, db_sys]
        | error e =>
          refine ⟨_, _, ?_, .raise hst hn he⟩
          simp [SubmissionSystem.advance, hn, hb, hw, he, goto_sys, db_sys]
  | aborted e => exact ⟨_, _, goto_sys db st b _ _, .handle hst⟩
  | returned r => exact ⟨_, _, hself, .ended hst⟩

theorem abort_sys (race : BatchRace s db₀) (db : Db) (st : Bool → CallState) (b : Bool) :
    (race.sys db st).raceStep s (.abort b) = race.sys db st ∨
      ((∀ b, race.waits st b = true) ∧ (race.sys db st).raceStep s (.abort b) =
        race.sys db (Function.update st b (.aborted (.db .operationalError)))) := by
  rw [SubmissionSystem.raceStep]
  split_ifs with hd
  swap
  · exact Or.inl rfl
  rw [SubmissionSystem.step, find?_sys]
  cases hst : st b with
  | running t => exact Or.inr ⟨(deadlocked_sys db st).1 hd, goto_sys db st b _ _⟩
  | aborted e => exact Or.inl rfl
  | returned r => exact Or.inl rfl

theorem keys_eq (b : Bool) : ((race.call b).submissions.map fun sub =>
    sub.request.idempotencyKey) = (race.call b).keys :=
  map_key_batchSubmissions

/-- Both calls begin. -/
theorem start_eq (race : BatchRace s db₀) : race.start =
    race.sys db₀ fun b => .running { todo := (race.call b).call.program s (race.call b).now } := by
  have hbegin : ∀ b, (race.call b).call.begin s (race.call b).now =
      .running { todo := (race.call b).call.program s (race.call b).now } := by
    intro b
    have hn := (race.acceptable b).keys
    rw [List.map_map, show (MessageRequest.idempotencyKey ∘ Submission.request) =
      fun sub => sub.request.idempotencyKey from rfl, keys_eq] at hn
    have hd := checkDuplicateIdempotencyKeys_eq_none.2
      ⟨hn, fun _ _ => (List.not_mem_nil : _ ∉ ([] : List UUID))⟩
    simp [SubmissionCall.begin, BatchCall.call, hd]
  have hfresh : ∀ b, FreshIds db₀ ((race.call b).call.submissions (race.call b).now) := race.fresh
  have hfirst : SubmissionSystem.begin s (.start db₀) 0 (race.call false).call
      (race.call false).now = ⟨db₀, ⟨[race.side false (.running
        { todo := (race.call false).call.program s (race.call false).now })], by simp⟩⟩ := by
    rw [SubmissionSystem.begin, if_pos (SubmissionSystem.fresh_iff.2 ⟨hfresh false, by
      simp [SubmissionSystem.start]⟩), hbegin]
    rfl
  rw [start, run_cons, run_singleton, SubmissionSystem.step, SubmissionSystem.step, hfirst,
    SubmissionSystem.begin, if_pos (SubmissionSystem.fresh_iff.2 ⟨hfresh true, ?_⟩), hbegin]
  · rfl
  · simp only [Table.mem_def, List.mem_singleton, forall_eq]
    exact race.distinct

/-- A race keeps its two calls. -/
theorem exists_after_eq (race : BatchRace s db₀) (acts : List RaceAct) :
    ∃ db st, race.after acts = race.sys db st := by
  refine run_induction (P := fun sys => ∃ db st, sys = race.sys db st) ?_ acts ⟨_, _, start_eq race⟩
  rintro _ (b | b) ⟨db, st, rfl⟩
  · obtain ⟨db', state, hstep, -⟩ := advance_sys race db st b
    exact ⟨db', _, hstep⟩
  · rcases abort_sys race db st b with heq | ⟨-, heq⟩
    · exact ⟨_, _, heq⟩
    · exact ⟨_, _, heq⟩

/-! ## What the transactions hold -/

/-- What holds throughout a race : the balance is locked after the last insert of a message. -/
structure Inv (race : BatchRace s db₀) (db : Db) (st : Bool → CallState) : Prop where
  inv : SubmissionSystem.Inv s db₀ (race.sys db st)
  locked : ∀ b t, st b = .running t → t.balance.isSome → ∀ stmt ∈ t.todo, stmt.message? = none

section Running

variable {db : Db} {st : Bool → CallState} {b : Bool} {t : Open} {done todo : List Stmt}

theorem Inv.running (h : race.Inv db st) (ht : st b = .running t) :
    ∃ done, Running s db (race.side b (.running t)) t done := by
  have hc := h.inv.call (race.side b (.running t)) (side_mem_sys.2 ht)
  exact hc

theorem Inv.apart (h : race.Inv db st) {t' : Open} (ht : st b = .running t)
    (ht' : st (!b) = .running t') : ∀ m ∈ t.messages, ∀ m' ∈ t'.messages,
      ¬(m.userId = m'.userId ∧ m.idempotencyKey = m'.idempotencyKey) :=
  (h.inv.apart _ (side_mem_sys.2 ht) _ (side_mem_sys.2 ht') (by cases b <;> simp [side])
    t t' rfl rfl).1

theorem Inv.distinct (h : race.Inv db st) (b : Bool) : ∀ sub ∈ (race.call b).submissions,
    ∀ sub' ∈ (race.call !b).submissions,
      sub.ids.messageId ≠ sub'.ids.messageId ∧ sub.ids.jobId ≠ sub'.ids.jobId :=
  h.inv.distinct _ (side_mem_sys.2 rfl) _ (side_mem_sys.2 rfl) (by cases b <;> simp [side])

/-- A message of a batch is acceptable, and its key is new. -/
theorem exists_submission (h : Running s db (race.side b (.running t)) t done) {m : Message}
    (hm : m ∈ t.messages ∨ Stmt.insertMessage m ∈ t.todo) :
    ∃ sub ∈ (race.call b).submissions, m = newMessage s sub ∧ m.userId = race.userId ∧
      m.idempotencyKey ∈ (race.call b).keys ∧ Db.checkMessage m = .ok () ∧
        ¬db₀.hasKey race.userId m.idempotencyKey := by
  have hin : m ∈ t.messages ++ t.todo.filterMap Stmt.message? := by
    rcases hm with hm | hm
    · exact List.mem_append_left _ hm
    · exact List.mem_append_right _ (List.mem_filterMap.2 ⟨_, hm, rfl⟩)
  rw [h.messages_todo] at hin
  obtain ⟨sub, hsub, rfl⟩ := List.mem_map.1 hin
  change sub ∈ (race.call b).submissions at hsub
  have hacc := race.acceptable b
  have hreq := List.mem_map_of_mem (f := Submission.request) hsub
  refine ⟨sub, hsub, rfl, ?_, ?_, ?_, hacc.new_key _ hreq⟩
  · exact ((race.call b).call.submissions_userId _ sub hsub).trans (race.userId_eq b)
  · rw [← keys_eq]
    exact List.mem_map_of_mem hsub
  · exact Db.checkMessage_ok.2 ⟨hacc.storable _ hreq, hacc.cost_pos _ hreq⟩

theorem mem_newJobs (h : Running s db (race.side b (.running t)) t done) {j : DispatchJob}
    (hj : j ∈ t.jobs ∨ ∃ js, Stmt.insertJobs js ∈ t.todo ∧ j ∈ js) :
    j ∈ (race.call b).submissions.map (newJob s) := by
  have hall := (race.call b).call.flatMap_program s (race.call b).now
  rw [show (race.call b).call.program s (race.call b).now = done ++ t.todo from h.program,
    List.flatMap_append, ← h.jobs] at hall
  refine (congrArg (j ∈ ·) hall).mp (List.mem_append.2 (hj.imp_right ?_))
  rintro ⟨js, hjs, hj⟩
  exact List.mem_flatMap.2 ⟨_, hjs, hj⟩

/-- A side has inserted the message with a key of its batch, or has it left to insert. -/
theorem held_or_left (h : Running s db (race.side b (.running t)) t done) {key : UUID}
    (hkey : key ∈ (race.call b).keys) :
    ∃ m, (m ∈ t.messages ∨ Stmt.insertMessage m ∈ t.todo) ∧ m.idempotencyKey = key := by
  rw [← keys_eq] at hkey
  obtain ⟨sub, hsub, rfl⟩ := List.mem_map.1 hkey
  have hin : newMessage s sub ∈ t.messages ++ t.todo.filterMap Stmt.message? :=
    h.messages_todo ▸ List.mem_map_of_mem hsub
  refine ⟨newMessage s sub, ?_, rfl⟩
  rcases List.mem_append.1 hin with hm | hm
  · exact Or.inl hm
  · obtain ⟨stmt, hstmt, hs⟩ := List.mem_filterMap.1 hm
    cases stmt with
    | insertMessage m =>
      cases hs
      exact Or.inr hstmt
    | _ => cases hs

/-- A side that has passed its inserts holds every key of its batch. -/
theorem holds_of_past (h : Running s db (race.side b (.running t)) t done)
    (hpast : ∀ stmt ∈ t.todo, stmt.message? = none) {key : UUID}
    (hkey : key ∈ (race.call b).keys) : ∃ m ∈ t.messages, m.idempotencyKey = key := by
  obtain ⟨m, hm | hm, hk⟩ := held_or_left h hkey
  · exact ⟨m, hm, hk⟩
  · cases hpast _ hm

/-- A side that holds a common key holds its first one. -/
theorem holds_first (h : Running s db (race.side b (.running t)) t done) {m : Message}
    (hm : m ∈ t.messages) (hkey : m.idempotencyKey ∈ (race.call !b).keys) :
    ∃ m' ∈ t.messages, race.firstCommon b = some m'.idempotencyKey := by
  have hsplit : (race.call b).keys = t.messages.map (·.idempotencyKey) ++
      (t.todo.filterMap Stmt.message?).map (·.idempotencyKey) := by
    rw [← List.map_append, h.messages_todo, ← keys_eq, List.map_map]
    rfl
  have hsome : ((t.messages.map (·.idempotencyKey)).find?
      fun key => key ∈ (race.call !b).keys).isSome :=
    List.find?_isSome.2 ⟨_, List.mem_map_of_mem hm, by simpa using hkey⟩
  obtain ⟨key, hf⟩ := Option.isSome_iff_exists.1 hsome
  obtain ⟨m', hm', rfl⟩ := List.mem_map.1 (List.mem_of_find?_eq_some hf)
  refine ⟨m', hm', ?_⟩
  rw [firstCommon, hsplit, List.find?_append, hf]
  rfl

end Running

/-- An insert waits for the side that holds its key. -/
theorem Inv.blocks_insert {db : Db} {st : Bool → CallState} {b : Bool} {t t' : Open} {m : Message}
    (h : race.Inv db st) (ht : st b = .running t) (ht' : st (!b) = .running t')
    (hm : m ∈ t.messages ∨ Stmt.insertMessage m ∈ t.todo) :
    t'.blocks race.userId race.userId (.insertMessage m) = true ↔
      ∃ x ∈ t'.messages, x.idempotencyKey = m.idempotencyKey := by
  obtain ⟨done, hrun⟩ := h.running ht
  obtain ⟨done', hrun'⟩ := h.running ht'
  obtain ⟨sub, hsub, rfl, hu, -⟩ := exists_submission hrun hm
  simp only [Open.blocks, List.any_eq_true, Bool.or_eq_true, decide_eq_true_eq, Db.sameKey_iff]
  constructor
  · rintro ⟨x, hx, hid | hsame⟩
    · obtain ⟨sub', hsub', rfl, -⟩ := exists_submission hrun' (Or.inl hx)
      exact absurd hid.symm (h.distinct b sub hsub sub' hsub').1
    · exact ⟨x, hx, hsame.2⟩
  · rintro ⟨x, hx, hk⟩
    obtain ⟨-, -, -, hu', -⟩ := exists_submission hrun' (Or.inl hx)
    exact ⟨x, hx, Or.inr ⟨hu'.trans hu.symm, hk⟩⟩

/-- A side that waits meets a side that holds a common key. -/
theorem Inv.holds_of_waits {db : Db} {st : Bool → CallState} {b : Bool} (h : race.Inv db st)
    (hw : race.waits st b = true) :
    ∃ t', st (!b) = .running t' ∧ ∃ m ∈ t'.messages, m.idempotencyKey ∈ (race.call b).keys := by
  unfold waits SubmissionSystem.waitsFor at hw
  simp only [side_state, side_userId] at hw
  split at hw
  swap
  · cases hw
  rename_i stmt todo ms js bal t' ht ht'
  obtain ⟨done, hrun⟩ := h.running ht
  obtain ⟨done', hrun'⟩ := h.running ht'
  refine ⟨t', ht', ?_⟩
  cases stmt with
  | insertMessage m =>
    obtain ⟨-, -, -, -, hkey, -⟩ := exists_submission hrun (Or.inr List.mem_cons_self)
    obtain ⟨x, hx, hk⟩ := (h.blocks_insert ht ht' (Or.inr List.mem_cons_self)).1 hw
    exact ⟨x, hx, hk ▸ hkey⟩
  | checkUsers => cases hw
  | reserve amount =>
    -- the balance is locked, so the other side has inserted all its messages
    simp only [Open.blocks, Bool.and_eq_true] at hw
    obtain ⟨key, hf, ht⟩ := race.overlap
    have hboth : ∀ b, key ∈ (race.call b).keys := by
      rintro (_ | _) <;> assumption
    obtain ⟨m, hm, rfl⟩ := holds_of_past hrun' (h.locked _ _ ht' hw.2) (hboth _)
    exact ⟨m, hm, hboth b⟩
  | insertJobs js' =>
    obtain ⟨j, hj, hany⟩ := List.any_eq_true.1 hw
    obtain ⟨j', hj', hsame⟩ := List.any_eq_true.1 hany
    obtain ⟨sub, hsub, rfl⟩ := List.mem_map.1 (mem_newJobs hrun (Or.inr ⟨_, by simp, hj⟩))
    obtain ⟨sub', hsub', rfl⟩ := List.mem_map.1 (mem_newJobs hrun' (Or.inl hj'))
    obtain ⟨hm, hid⟩ := h.distinct b sub hsub sub' hsub'
    rcases Bool.or_eq_true_iff.1 hsame with hid' | hm'
    · exact absurd (of_decide_eq_true hid').symm hid
    · exact absurd (of_decide_eq_true hm').symm hm
  | writeBalance => cases hw

/-- After another statement no message is left to insert. -/
theorem past_of_message_none {db : Db} {b : Bool} {t : Open} {done todo : List Stmt} {stmt : Stmt}
    (h : Running s db (race.side b (.running t)) t done) (hn : t.todo = stmt :: todo)
    (hs : stmt.message? = none) : ∀ stmt' ∈ t.todo, stmt'.message? = none := by
  have hp := (race.call b).call.pairwise_inserts s (race.call b).now
  rw [show (race.call b).call.program s (race.call b).now = done ++ t.todo from h.program, hn,
    List.pairwise_append, List.pairwise_cons] at hp
  rw [hn]
  rintro stmt' hin
  rcases List.mem_cons.1 hin with rfl | hin
  · exact hs
  · exact hp.2.1.1 stmt' hin hs

theorem inv_start (race : BatchRace s db₀) :
    race.Inv db₀ fun b => .running { todo := (race.call b).call.program s (race.call b).now } := by
  constructor
  · rw [← start_eq]
    exact SubmissionSystem.run_inv s race.constrained _
  · rintro b t ht
    cases ht
    simp

theorem Inv.move {db db' : Db} {st : Bool → CallState} {b : Bool} {state : CallState}
    (h : race.Inv db st)
    (hstep : (race.sys db st).raceStep s (.advance b) = race.sys db' (Function.update st b state))
    (hm : race.Move db st b db' state) : race.Inv db' (Function.update st b state) := by
  constructor
  · rw [← hstep]
    exact SubmissionSystem.Inv.step h.inv (.advance b.toNat)
  · intro b' t' ht'
    by_cases hb : b' = b
    swap
    · exact h.locked b' t' (by rwa [Function.update_of_ne hb] at ht')
    subst hb
    rw [Function.update_self] at ht'
    cases hm with
    | wait => exact h.locked _ _ ht'
    | ended => exact h.locked _ _ ht'
    | exec ht hn hw he =>
      cases ht'
      intro hs stmt' hin
      obtain ⟨done, hrun⟩ := h.running ht
      obtain ⟨-, -, hbal, -⟩ := Open.exec_ok he
      rename_i t t' stmt todo
      by_cases hr : ∃ amount, stmt = .reserve amount
      · obtain ⟨amount, rfl⟩ := hr
        exact past_of_message_none hrun hn rfl stmt' (hn ▸ List.mem_cons_of_mem _ hin)
      · have heq := hbal fun amount ha => hr ⟨amount, ha⟩
        exact h.locked _ _ ht (heq ▸ hs) stmt' (hn ▸ List.mem_cons_of_mem _ hin)
    | _ => cases ht'

/-! ## One of them wins -/

/-- Both transactions are open. -/
def Racing (_ : BatchRace s db₀) (db : Db) (st : Bool → CallState) : Prop :=
  db = db₀ ∧ ∀ b, ∃ t, st b = .running t

/-- A side that meets a key the other one has committed. -/
def Losing (userId : UserId) (db : Db) : CallState → Prop
  | .running t => ∃ m, Stmt.insertMessage m ∈ t.todo ∧ db.hasKey userId m.idempotencyKey
  | .aborted e => ∃ con, e = .db (.uniqueViolation con)
  | .returned r => r = .error (.app .idempotencyConflict)

/-- Side `b` has committed its batch. -/
structure Won (race : BatchRace s db₀) (b : Bool) (db : Db) (st : Bool → CallState) : Prop where
  returned : st b = .returned (race.answer b)
  accepted : Accepted s race.userId (race.call b).submissions db₀ db
  losing : Losing race.userId db (st !b)

section Win

variable {db db' : Db} {st : Bool → CallState} {b : Bool} {state : CallState}

theorem mem_both {key : UUID} (hf : key ∈ (race.call false).keys)
    (ht : key ∈ (race.call true).keys) (b : Bool) : key ∈ (race.call b).keys := by
  cases b <;> assumption

/-- Every statement of an acceptable batch succeeds on the state before the race. -/
theorem Inv.exec_ne_error (h : race.Inv db₀ st) {t : Open} {stmt : Stmt} {todo : List Stmt}
    {e : Exn} (ht : st b = .running t) (hn : t.todo = stmt :: todo) :
    t.exec db₀ race.userId stmt ≠ .error e := by
  intro he
  obtain ⟨done, hrun⟩ := h.running ht
  cases hs : stmt.message? with
  | none =>
    obtain ⟨t', ht'⟩ := hrun.past_ok race.constrained hn hs (by
      rw [side_userId]
      exact race.acceptable b)
    simp [he] at ht'
  | some m =>
    cases stmt with
    | insertMessage m =>
      obtain ⟨-, -, -, -, -, hok, hnew⟩ := exists_submission hrun (Or.inr (hn ▸ List.mem_cons_self))
      rcases hrun.insert_cases hn hok with ⟨t', ht', -⟩ | ⟨-, hkey⟩
      · simp [he] at ht'
      · exact hnew (by simpa using hkey)
    | _ => cases hs

/-- Of two open transactions the one that goes on stays open, or wins. -/
theorem racing_move (h : race.Inv db st) (hr : race.Racing db st)
    (hm : race.Move db st b db' state) :
    race.Racing db' (Function.update st b state) ∨
      race.Won b db' (Function.update st b state) := by
  obtain ⟨rfl, hr⟩ := hr
  cases hm with
  | wait => exact Or.inl ⟨rfl, by rwa [Function.update_eq_self]⟩
  | ended => exact Or.inl ⟨rfl, by rwa [Function.update_eq_self]⟩
  | handle he =>
    obtain ⟨t, ht⟩ := hr b
    rw [ht] at he
    cases he
  | exec =>
    refine Or.inl ⟨rfl, fun b' => ?_⟩
    by_cases hb : b' = b
    · subst hb
      exact ⟨_, Function.update_self ..⟩
    · rw [Function.update_of_ne hb]
      exact hr b'
  | raise ht hn he =>
    exact absurd he (h.exec_ne_error ht hn)
  | commit ht hn =>
    rename_i t
    obtain ⟨done, hrun⟩ := h.running ht
    obtain ⟨t', ht'⟩ := hr !b
    obtain ⟨done', hrun'⟩ := h.running ht'
    have hacc : Accepted s race.userId (race.call b).submissions db (t.commit db) := by
      have := hrun.accepted race.constrained hn
      rwa [side_userId] at this
    refine Or.inr ⟨Function.update_self .., hacc, ?_⟩
    rw [Function.update_of_ne (by cases b <;> simp), ht']
    obtain ⟨key, hf, hk⟩ := race.overlap
    -- the common key is a row of the committed batch, so the other side has not inserted it
    obtain ⟨m, hm, rfl⟩ := holds_of_past hrun (by simp [hn]) (mem_both hf hk b)
    obtain ⟨sub, hsub, rfl, hu, -⟩ := exists_submission hrun (Or.inl hm)
    obtain ⟨m', hm' | hm', hkey⟩ := held_or_left hrun' (mem_both hf hk !b)
    · obtain ⟨-, -, -, hu', -⟩ := exists_submission hrun' (Or.inl hm')
      exact absurd ⟨hu.trans hu'.symm, hkey.symm⟩ (h.apart ht ht' _ hm m' hm')
    · exact ⟨m', hm', _, hacc.mem_messages.2 (Or.inr ⟨sub, hsub, rfl⟩), hu, hkey.symm⟩

/-- A side that meets a committed key goes on to be refused. -/
theorem losing_move (h : race.Inv db st) (hl : Losing race.userId db (st b))
    (hm : race.Move db st b db' state) : db' = db ∧ Losing race.userId db state := by
  cases hm with
  | wait => exact ⟨rfl, hl⟩
  | ended => exact ⟨rfl, hl⟩
  | commit ht hn =>
    rw [ht] at hl
    obtain ⟨m, hm, -⟩ := hl
    simp [hn] at hm
  | exec ht hn hw he =>
    rename_i t t' stmt todo
    rw [ht] at hl
    obtain ⟨m, hm, hkey⟩ := hl
    obtain ⟨done, hrun⟩ := h.running ht
    refine ⟨rfl, m, ?_, hkey⟩
    rcases List.mem_cons.1 (hn ▸ hm) with rfl | hm'
    · obtain ⟨-, -, -, -, -, hok, -⟩ := exists_submission hrun (Or.inr hm)
      rcases hrun.insert_cases hn hok with ⟨-, -, hfree⟩ | ⟨he', -⟩
      · exact absurd hkey (by simpa using hfree)
      · rw [side_userId, he] at he'
        cases he'
    · exact hm'
  | raise ht hn he =>
    rename_i t stmt todo e
    rw [ht] at hl
    obtain ⟨m, hm, hkey⟩ := hl
    obtain ⟨done, hrun⟩ := h.running ht
    cases hs : stmt.message? with
    | none => cases past_of_message_none hrun hn hs _ hm
    | some x =>
      cases stmt with
      | insertMessage x =>
        obtain ⟨-, -, -, -, -, hok, -⟩ := exists_submission hrun (Or.inr (hn ▸ List.mem_cons_self))
        rcases hrun.insert_cases hn hok with ⟨t', he', -⟩ | ⟨he', -⟩
        · rw [side_userId, he] at he'
          cases he'
        · rw [side_userId, he] at he'
          cases he'
          exact ⟨rfl, _, rfl⟩
      | _ => cases hs
  | handle he =>
    rw [he] at hl
    obtain ⟨con, rfl⟩ := hl
    exact ⟨rfl, rfl⟩

/-- The side that won has ended, and the one that lost goes on to be refused. -/
theorem Won.move {b' : Bool} (h : race.Inv db st) (hw : race.Won b db st)
    (hm : race.Move db st b' db' state) : race.Won b db' (Function.update st b' state) := by
  by_cases hb : b' = b
  · subst hb
    cases hm with
    | wait => rwa [Function.update_eq_self]
    | ended => rwa [Function.update_eq_self]
    | commit ht => simp [hw.returned] at ht
    | exec ht => simp [hw.returned] at ht
    | raise ht => simp [hw.returned] at ht
    | handle he => simp [hw.returned] at he
  · obtain rfl : b' = !b := Bool.eq_not_of_ne hb
    obtain ⟨hret, hacc, hlose⟩ := hw
    obtain ⟨rfl, hlosing⟩ := losing_move h hlose hm
    refine ⟨?_, hacc, ?_⟩
    · rwa [Function.update_of_ne (by cases b <;> simp)]
    · rwa [Function.update_self]

/-- When the first common keys agree there is no deadlock : two sides that wait for each other
both hold it. -/
theorem exists_not_waits (h : race.Inv db st)
    (hfirst : race.firstCommon false = race.firstCommon true) : ∃ b, race.waits st b = false := by
  by_contra hne
  have hall : ∀ b, race.waits st b = true := by simpa using hne
  have hholds : ∀ b, ∃ t, st b = .running t ∧
      ∃ m ∈ t.messages, race.firstCommon b = some m.idempotencyKey ∧ m.userId = race.userId := by
    intro b
    obtain ⟨t, ht, m, hm, hkey⟩ := h.holds_of_waits (hall !b)
    rw [Bool.not_not] at ht
    obtain ⟨done, hrun⟩ := h.running ht
    obtain ⟨m', hm', hf⟩ := holds_first hrun hm hkey
    obtain ⟨-, -, -, hu, -⟩ := exists_submission hrun (Or.inl hm')
    exact ⟨t, ht, m', hm', hf, hu⟩
  obtain ⟨t, ht, m, hm, hf, hu⟩ := hholds false
  obtain ⟨t', ht', m', hm', hf', hu'⟩ := hholds true
  rw [hf, hf', Option.some_inj] at hfirst
  exact h.apart ht ht' m hm m' hm' ⟨hu.trans hu'.symm, hfirst⟩

end Win

/-- Where a race is when the first common keys agree. -/
def Decided (race : BatchRace s db₀) (sys : SubmissionSystem) : Prop :=
  ∃ db st, sys = race.sys db st ∧ race.Inv db st ∧
    (race.Racing db st ∨ ∃ b, race.Won b db st)

/-- How much a call has still to do. -/
def weight : CallState → ℕ
  | .running t => t.todo.length + 3
  | .aborted _ => 1
  | .returned _ => 0

theorem weight_eq_zero {state : CallState} : weight state = 0 ↔ ∃ r, state = .returned r := by
  cases state <;> simp [weight]

theorem Move.weight_lt {db db' : Db} {st : Bool → CallState} {b : Bool} {state : CallState}
    (hm : race.Move db st b db' state) (hw : race.waits st b = false) (hne : weight (st b) ≠ 0) :
    weight state < weight (st b) := by
  cases hm with
  | wait h => simp [hw] at h
  | ended h => simp [weight, h] at hne
  | handle h => simp [weight, h]
  | commit h => simp [weight, h]
  | exec h hn => simp [weight, h, hn]
  | raise h => simp [weight, h]

theorem finished_sys {db : Db} {st : Bool → CallState} :
    race.Finished (race.sys db st) ↔ ∀ b, weight (st b) = 0 := by
  simp only [Finished, side_mem_sys, weight_eq_zero]

theorem Won.waits_eq_false {db : Db} {st : Bool → CallState} {b : Bool} (h : race.Won b db st)
    (b' : Bool) : race.waits st b' = false := by
  unfold waits SubmissionSystem.waitsFor
  simp only [side_state]
  split
  · rename_i ht ht'
    cases b <;> cases b' <;> simp [h.returned] at ht ht'
  · rfl

section Decided

variable {sys : SubmissionSystem}

theorem decided_start (race : BatchRace s db₀) : race.Decided race.start :=
  ⟨db₀, _, start_eq race, inv_start race, Or.inl ⟨rfl, fun _ => ⟨_, rfl⟩⟩⟩

theorem decided_move {db db' : Db} {st : Bool → CallState} {b : Bool} {state : CallState}
    (hi : race.Inv db st) (hp : race.Racing db st ∨ ∃ b, race.Won b db st)
    (hstep : (race.sys db st).raceStep s (.advance b) = race.sys db' (Function.update st b state))
    (hm : race.Move db st b db' state) :
    race.Decided ((race.sys db st).raceStep s (.advance b)) := by
  refine ⟨db', _, hstep, hi.move hstep hm, ?_⟩
  rcases hp with hr | ⟨b', hw⟩
  · exact (racing_move hi hr hm).imp_right fun hw => ⟨b, hw⟩
  · exact Or.inr ⟨b', hw.move hi hm⟩

theorem Decided.step (hfirst : race.firstCommon false = race.firstCommon true)
    (h : race.Decided sys) (a : RaceAct) : race.Decided (sys.raceStep s a) := by
  obtain ⟨db, st, rfl, hi, hp⟩ := h
  cases a with
  | advance b =>
    obtain ⟨db', state, hstep, hm⟩ := advance_sys race db st b
    exact decided_move hi hp hstep hm
  | abort b =>
    rcases abort_sys race db st b with heq | ⟨hall, -⟩
    · rw [heq]
      exact ⟨db, st, rfl, hi, hp⟩
    · obtain ⟨b, hb⟩ := exists_not_waits hi hfirst
      simp [hall b] at hb

theorem Decided.oneWins (h : race.Decided sys) (hf : race.Finished sys) : race.OneWins sys := by
  obtain ⟨db, st, rfl, -, ⟨-, hr⟩ | ⟨b, hw⟩⟩ := h
  · obtain ⟨t, ht⟩ := hr false
    have := finished_sys.1 hf false
    simp [ht, weight] at this
  · obtain ⟨r, hr⟩ := hf !b
    rw [side_mem_sys] at hr
    have hl := hw.losing
    rw [hr] at hl
    exact ⟨b, side_mem_sys.2 hw.returned, side_mem_sys.2 (hr.trans (congrArg _ hl)), hw.accepted⟩

theorem Decided.finishes (hfirst : race.firstCommon false = race.firstCommon true)
    (h : race.Decided sys) :
    ∃ acts, race.Finished (run (SubmissionSystem.raceStep s) sys acts) := by
  let m : SubmissionSystem → ℕ := fun sys => (sys.calls.rows.map fun c => weight c.state).sum
  have hvar : ∀ sys, race.Decided sys →
      (∃ sys', Reaches (SubmissionSystem.raceStep s) (fun _ _ => True) sys sys' ∧
        race.Finished sys') ∨
      ∃ sys', Reaches (SubmissionSystem.raceStep s) (fun _ _ => True) sys sys' ∧
        race.Decided sys' ∧ m sys' < m sys := by
    rintro _ ⟨db, st, rfl, hi, hp⟩
    by_cases hfin : race.Finished (race.sys db st)
    · exact Or.inl ⟨_, .refl _, hfin⟩
    -- some side is left that need not wait
    obtain ⟨b, hw, hne⟩ : ∃ b, race.waits st b = false ∧ weight (st b) ≠ 0 := by
      rcases hp with ⟨-, hr⟩ | ⟨b, hw⟩
      · obtain ⟨b, hb⟩ := exists_not_waits hi hfirst
        obtain ⟨t, ht⟩ := hr b
        exact ⟨b, hb, by simp [ht, weight]⟩
      · rw [finished_sys, not_forall] at hfin
        obtain ⟨b', hb'⟩ := hfin
        exact ⟨b', hw.waits_eq_false b', hb'⟩
    obtain ⟨db', state, hstep, hm⟩ := advance_sys race db st b
    have hlt := hm.weight_lt hw hne
    refine Or.inr ⟨_, ⟨[.advance b], ⟨trivial, trivial⟩, rfl⟩, decided_move hi hp hstep hm, ?_⟩
    rw [run_singleton, hstep]
    cases b <;> simpa [m, BatchRace.sys] using hlt
  obtain ⟨_, ⟨acts, -, rfl⟩, hq⟩ := Reaches.of_variant m hvar h
  exact ⟨acts, hq⟩

end Decided

/-! ## A deadlock -/

/-- Each side holds its key of `k`, and has the other one's left to insert. -/
def Crossed (k : Bool → UUID) (st : Bool → CallState) : Prop :=
  ∀ b, ∃ t, st b = .running t ∧ (∃ m ∈ t.messages, m.idempotencyKey = k b) ∧
    ∃ m, Stmt.insertMessage m ∈ t.todo ∧ m.idempotencyKey = k !b

/-- A side was aborted as the victim of a deadlock. -/
def Victim (st : Bool → CallState) : Prop :=
  ∃ b, st b = .aborted (.db .operationalError) ∨ st b = .returned (.error (.db .operationalError))

/-- Where a race is after the sides have inserted their first common keys, which differ. -/
def Deadlocking (race : BatchRace s db₀) (k : Bool → UUID) (sys : SubmissionSystem) : Prop :=
  ∃ db st, sys = race.sys db st ∧ (db = db₀ ∧ race.Inv db₀ st ∧ Crossed k st ∨ Victim st)

section Deadlock

variable {db db' : Db} {st : Bool → CallState} {b : Bool} {state : CallState} {k : Bool → UUID}

theorem waits_insert (h : race.Inv db st) {t : Open} {m : Message} {todo : List Stmt}
    (ht : st b = .running t) (hn : t.todo = .insertMessage m :: todo) :
    race.waits st b = true ↔ ∃ t', st (!b) = .running t' ∧
      ∃ x ∈ t'.messages, x.idempotencyKey = m.idempotencyKey := by
  have hblocks := fun t' (ht' : st (!b) = .running t') => h.blocks_insert ht ht'
    (Or.inr (hn ▸ List.mem_cons_self) : m ∈ t.messages ∨ Stmt.insertMessage m ∈ t.todo)
  obtain ⟨_, _, _, _⟩ := t
  obtain rfl := hn
  unfold waits SubmissionSystem.waitsFor
  simp only [side_state, side_userId, ht]
  cases ht' : st !b with
  | running t' => simpa using hblocks t' ht'
  | aborted e => simp
  | returned r => simp

theorem Crossed.move (h : race.Inv db₀ st) (hc : Crossed k st)
    (hm : race.Move db₀ st b db' state) :
    db' = db₀ ∧ Crossed k (Function.update st b state) := by
  obtain ⟨t, ht, hheld, m, hm', hkey⟩ := hc b
  cases hm with
  | wait => exact ⟨rfl, by rwa [Function.update_eq_self]⟩
  | ended => exact ⟨rfl, by rwa [Function.update_eq_self]⟩
  | handle he => simp [ht] at he
  | raise ht hn he => exact absurd he (h.exec_ne_error ht hn)
  | commit ht' hn =>
    cases ht.symm.trans ht'
    simp [hn] at hm'
  | exec ht' hn hw he =>
    cases ht.symm.trans ht'
    rename_i t' stmt todo
    refine ⟨rfl, fun b' => ?_⟩
    by_cases hb : b' = b
    swap
    · rw [Function.update_of_ne hb]
      exact hc b'
    subst hb
    obtain ⟨hms, -⟩ := Open.exec_ok he
    obtain ⟨x, hx, hk⟩ := hheld
    refine ⟨_, Function.update_self .., ⟨x, ?_, hk⟩, m, ?_, hkey⟩
    · exact hms ▸ List.mem_append_left _ hx
    rcases List.mem_cons.1 (hn ▸ hm') with rfl | hm'
    · -- the key is held by the other side, for which the insert waits
      obtain ⟨t₂, ht₂, ⟨x₂, hx₂, hk₂⟩, -⟩ := hc !b'
      have := (waits_insert h ht hn).2 ⟨t₂, ht₂, x₂, hx₂, hk₂.trans hkey.symm⟩
      simp [hw] at this
    · exact hm'

theorem Victim.update (h : Victim st) (hb : st b = .aborted (.db .operationalError) ∨
    st b = .returned (.error (.db .operationalError)) →
      state = .aborted (.db .operationalError) ∨
        state = .returned (.error (.db .operationalError))) :
    Victim (Function.update st b state) := by
  obtain ⟨b', hb'⟩ := h
  refine ⟨b', ?_⟩
  by_cases heq : b' = b
  · subst heq
    rw [Function.update_self]
    exact hb hb'
  · rwa [Function.update_of_ne heq]

theorem Victim.move (h : Victim st) (hm : race.Move db st b db' state) :
    Victim (Function.update st b state) := by
  refine h.update fun hb => ?_
  cases hm with
  | wait => exact hb
  | ended => exact hb
  | commit ht => simp [ht] at hb
  | exec ht => simp [ht] at hb
  | raise ht => simp [ht] at hb
  | handle he =>
    simp only [he, CallState.aborted.injEq, reduceCtorEq, or_false] at hb
    subst hb
    exact Or.inr rfl

theorem Deadlocking.step {sys : SubmissionSystem} (h : race.Deadlocking k sys) (a : RaceAct) :
    race.Deadlocking k (sys.raceStep s a) := by
  obtain ⟨db, st, rfl, hp⟩ := h
  cases a with
  | advance b =>
    obtain ⟨db', state, hstep, hm⟩ := advance_sys race db st b
    refine ⟨db', _, hstep, ?_⟩
    rcases hp with ⟨rfl, hi, hc⟩ | hv
    · obtain ⟨rfl, hc'⟩ := hc.move hi hm
      exact Or.inl ⟨rfl, hi.move hstep hm, hc'⟩
    · exact Or.inr (hv.move hm)
  | abort b =>
    rcases abort_sys race db st b with heq | ⟨-, heq⟩
    · exact ⟨db, st, heq, hp⟩
    · exact ⟨db, _, heq, Or.inr ⟨b, Or.inl (Function.update_self ..)⟩⟩

theorem Deadlocking.not_oneWins {sys : SubmissionSystem} (h : race.Deadlocking k sys) :
    ¬race.OneWins sys := by
  obtain ⟨db, st, rfl, hp⟩ := h
  rintro ⟨b, hwon, hlost, -⟩
  rw [side_mem_sys] at hwon hlost
  rcases hp with ⟨-, -, hc⟩ | ⟨b', hv⟩
  · obtain ⟨t, ht, -⟩ := hc b
    simp [hwon] at ht
  · cases b <;> cases b' <;> simp_all [answer]

/-- A side inserts messages whose keys the other side does not hold. -/
theorem exists_inserted {l : List Message} {rest : List Stmt} :
    ∀ {st : Bool → CallState} {t : Open}, race.Inv db₀ st → st b = .running t →
      t.todo = l.map .insertMessage ++ rest →
      (∀ m ∈ l, ∀ t', st (!b) = .running t' → ∀ x ∈ t'.messages,
        x.idempotencyKey ≠ m.idempotencyKey) →
      ∃ acts t', run (SubmissionSystem.raceStep s) (race.sys db₀ st) acts =
        race.sys db₀ (Function.update st b (.running t')) ∧
          race.Inv db₀ (Function.update st b (.running t')) ∧
            t'.messages = t.messages ++ l ∧ t'.todo = rest := by
  induction l with
  | nil =>
    intro st t h ht hn _
    have hself : Function.update st b (.running t) = st := ht ▸ Function.update_eq_self ..
    exact ⟨[], t, by rw [hself]; rfl, by rwa [hself], by simp, hn⟩
  | cons m l ih =>
    intro st t h ht hn hfree
    have hw : race.waits st b = false := by
      by_contra hne
      obtain ⟨t', ht', x, hx, hk⟩ := (waits_insert h ht hn).1 (by simpa using hne)
      exact hfree m List.mem_cons_self t' ht' x hx hk
    obtain ⟨db', state, hstep, hm⟩ := advance_sys race db₀ st b
    have hi := h.move hstep hm
    cases hm with
    | wait h => simp [hw] at h
    | ended h => simp [ht] at h
    | handle h => simp [ht] at h
    | commit ht' hn' =>
      cases ht.symm.trans ht'
      simp [hn] at hn'
    | raise ht' hn' he => exact absurd he (h.exec_ne_error ht' hn')
    | exec ht' hn' _ he =>
      cases ht.symm.trans ht'
      cases hn.symm.trans hn'
      rename_i t'
      obtain ⟨hms, -⟩ := Open.exec_ok he
      obtain ⟨acts, t₂, hrun, hi₂, hm₂, hn₂⟩ := ih hi (Function.update_self ..) rfl (by
        intro m' hm' t₂ ht₂
        rw [Function.update_of_ne (by cases b <;> simp)] at ht₂
        exact hfree m' (List.mem_cons_of_mem _ hm') t₂ ht₂)
      rw [Function.update_idem] at hrun hi₂
      refine ⟨.advance b :: acts, t₂, by rw [run_cons, hstep, hrun], hi₂, ?_, hn₂⟩
      rw [hm₂]
      simp [hms, Stmt.message?]

/-- The statements of a batch up to the insert of its first common key. -/
theorem exists_program (b : Bool) {key : UUID} (hk : race.firstCommon b = some key) :
    ∃ (l : List Message) (rest : List Stmt),
      (race.call b).call.program s (race.call b).now = l.map .insertMessage ++ rest ∧
      (∃ m ∈ l, m.idempotencyKey = key) ∧ ∀ m ∈ l, m.idempotencyKey ∈ (race.call b).keys ∧
        (m.idempotencyKey ∈ (race.call !b).keys → m.idempotencyKey = key) := by
  obtain ⟨hkey, pre, post, hsplit, hpre⟩ := List.find?_eq_some_iff_append.1 hk
  have hmap : ((race.call b).submissions.map (newMessage s)).map (·.idempotencyKey) =
      (pre ++ [key]) ++ post := by
    rw [List.map_map, List.append_assoc, List.singleton_append, ← hsplit, ← keys_eq]
    rfl
  obtain ⟨l, l', hl, hpl, -⟩ := List.map_eq_append_iff.1 hmap
  have hmem : ∀ m ∈ l, m.idempotencyKey ∈ pre ++ [key] := fun m hm =>
    hpl ▸ List.mem_map_of_mem hm
  obtain ⟨rest, hrest⟩ : ∃ rest, (race.call b).call.program s (race.call b).now =
      ((race.call b).submissions.map (newMessage s)).map .insertMessage ++ rest := ⟨_, rfl⟩
  rw [hl, List.map_append, List.append_assoc] at hrest
  refine ⟨l, _, hrest, ?_, fun m hm => ⟨?_, fun hin => ?_⟩⟩
  · obtain ⟨m, hm, hmk⟩ := List.mem_map.1 (hpl ▸ List.mem_append_right pre List.mem_cons_self :
      key ∈ l.map (·.idempotencyKey))
    exact ⟨m, hm, hmk⟩
  · rw [hsplit]
    have := hmem m hm
    simp only [List.mem_append, List.mem_cons] at this ⊢
    tauto
  · rcases List.mem_append.1 (hmem m hm) with hp | hp
    · have := hpre _ hp
      simp [hin] at this
    · exact List.mem_singleton.1 hp

theorem exists_firstCommon (race : BatchRace s db₀) (b : Bool) :
    ∃ key, race.firstCommon b = some key ∧ ∀ b, key ∈ (race.call b).keys := by
  obtain ⟨key, hf, ht⟩ := race.overlap
  have hsome : (race.firstCommon b).isSome :=
    List.find?_isSome.2 ⟨key, mem_both hf ht b, by simpa using mem_both hf ht !b⟩
  obtain ⟨key', hk⟩ := Option.isSome_iff_exists.1 hsome
  have hin := List.find?_some hk
  refine ⟨key', hk, fun b' => ?_⟩
  by_cases hb : b' = b
  · exact hb ▸ List.mem_of_find?_eq_some hk
  · rw [Bool.eq_not_of_ne hb]
    simpa using hin

/-- When the first common keys differ each side can insert its own before it comes to the other
one's. -/
theorem exists_deadlocking (hne : race.firstCommon false ≠ race.firstCommon true) :
    ∃ acts k, race.Deadlocking k (race.after acts) := by
  obtain ⟨kf, hkf, hbothf⟩ := race.exists_firstCommon false
  obtain ⟨kt, hkt, hbotht⟩ := race.exists_firstCommon true
  have hk : kf ≠ kt := fun heq => hne (by rw [hkf, hkt, heq])
  obtain ⟨l, rest, hprog, hheld, hl⟩ := exists_program false hkf
  obtain ⟨l', rest', hprog', hheld', hl'⟩ := exists_program true hkt
  obtain ⟨acts, t, hrun, hi, hms, hn⟩ := exists_inserted (inv_start race) (b := false) rfl hprog
    (by
      rintro m - t' ht' x hx
      cases ht'
      cases hx)
  obtain ⟨acts', t', hrun', hi', hms', hn'⟩ := exists_inserted hi (b := true) rfl hprog' (by
    rintro m hm t' ht' x hx heq
    cases ht'
    rw [hms] at hx
    -- a key that both hold would be the first common key of both
    have hxf : x.idempotencyKey = kf := (hl x hx).2 (heq ▸ (hl' m hm).1)
    have hmt : m.idempotencyKey = kt := (hl' m hm).2 (heq ▸ (hl x hx).1)
    exact hk (hxf.symm.trans (heq.trans hmt)))
  simp only [List.nil_append] at hms hms'
  refine ⟨acts ++ acts', fun b => if b then kt else kf, db₀, _, ?_, Or.inl ⟨rfl, hi', ?_⟩⟩
  · rw [after, run_append, start_eq, hrun, hrun']
  rintro (_ | _)
  · refine ⟨t, rfl, by simpa [hms] using hheld, ?_⟩
    obtain ⟨done, hr⟩ := hi'.running (b := false) rfl
    obtain ⟨m, hm | hm, hmk⟩ := held_or_left hr (hbotht false)
    · exact absurd ((hl m (hms ▸ hm)).2 (hmk ▸ hbotht true)) (hmk ▸ hk.symm)
    · exact ⟨m, hm, hmk⟩
  · refine ⟨t', rfl, by simpa [hms'] using hheld', ?_⟩
    obtain ⟨done, hr⟩ := hi'.running (b := true) rfl
    obtain ⟨m, hm | hm, hmk⟩ := held_or_left hr (hbothf true)
    · exact absurd ((hl' m (hms' ▸ hm)).2 (hmk ▸ hbothf false)) (hmk ▸ hk)
    · exact ⟨m, hm, hmk⟩

end Deadlock

end BatchRace

/-- Two overlapping batches are resolved in every interleaving exactly when the first key of
each that the other one has too is the same key. -/
theorem batches_resolved_iff {s : Settings} {db₀ : Db} (race : BatchRace s db₀) :
    race.Resolved ↔ race.firstCommon false = race.firstCommon true := by
  constructor
  · intro h
    by_contra hne
    obtain ⟨acts, k, hd⟩ := BatchRace.exists_deadlocking hne
    obtain ⟨-, acts', hfin⟩ := h acts
    have hd' : race.Deadlocking k (race.after (acts ++ acts')) := by
      rw [BatchRace.after, run_append]
      exact run_induction (fun _ a h => h.step a) acts' hd
    exact hd'.not_oneWins ((h _).1 hfin)
  · intro hfirst acts
    have hd : race.Decided (race.after acts) :=
      run_induction (fun _ a h => h.step hfirst a) acts race.decided_start
    obtain ⟨acts', hfin⟩ := hd.finishes hfirst
    refine ⟨hd.oneWins, acts', ?_⟩
    rwa [BatchRace.after, run_append]

/-- What call `id` has raised. -/
def SubmissionSystem.raised? (sys : SubmissionSystem) (id : ℕ) : Option Exn :=
  match sys.calls.find? id with
  | some ⟨_, _, _, .returned (.error e)⟩ => some e
  | _ => none

theorem BatchRace.side_of_raised {s : Settings} {db₀ db : Db} {race : BatchRace s db₀}
    {st : Bool → CallState} {b : Bool} {e : Exn}
    (h : (race.sys db st).raised? b.toNat = some e) : st b = .returned (.error e) := by
  rw [SubmissionSystem.raised?, find?_sys] at h
  simp only [side] at h
  split at h
  · cases h
    rename_i heq
    simp_all
  · cases h

/-- Two batches with the same two keys, in opposite order. -/
def BatchRace.crossed : BatchRace {} .oneUser where
  call
    | false => ⟨.sample, fun i => ⟨10 + i, 20 + i⟩, 0⟩
    | true => ⟨{ userId := 1
                 messages := BatchMessageRequest.sample.messages.reverse
                 messages_ne := by decide }, fun i => ⟨12 + i, 22 + i⟩, 0⟩
  userId := 1
  userId_eq := by decide
  constrained := Db.constrained_oneUser
  acceptable b := by
    refine ⟨?_, ?_, ?_, ?_, ?_, ?_⟩
    · cases b <;> decide +kernel
    · cases b <;> decide +kernel
    · cases b <;> decide +kernel
    · simp [Db.hasKey, Db.oneUser]
    · exact ⟨_, List.mem_singleton_self _, rfl⟩
    · refine ⟨{ userId := 1, credits := 500 }, rfl, ?_⟩
      cases b <;> exact ⟨by decide, by decide, by decide⟩
  fresh b := by cases b <;> exact freshIds_oneUser (by decide) (by decide)
  distinct := by decide
  overlap := ⟨7, by decide, by decide⟩

/-- Each batch inserts its first message and waits for the other one, until the database aborts
one of them. -/
def crossedActs : List RaceAct :=
  [.advance false, .advance true, .advance false, .advance true, .abort true, .advance true] ++
    List.replicate 7 (.advance false)

theorem crossed_batches_deadlock :
    let sys := BatchRace.crossed.after crossedActs
    BatchRace.crossed.Finished sys ∧ sys.raised? 1 = some (.db .operationalError) ∧
      ¬BatchRace.crossed.OneWins sys := by
  intro sys
  have hw : (sys.calls.rows.map fun c => BatchRace.weight c.state) = [0, 0] := by
    decide +kernel
  have hr : sys.raised? 1 = some (.db .operationalError) := by
    decide +kernel
  obtain ⟨db, st, hsys⟩ := BatchRace.crossed.exists_after_eq crossedActs
  have hsys' : sys = BatchRace.crossed.sys db st := hsys
  rw [hsys'] at hw hr ⊢
  obtain ⟨hf, ht⟩ : BatchRace.weight (st false) = 0 ∧ BatchRace.weight (st true) = 0 := by
    simpa [BatchRace.sys] using hw
  have hst := BatchRace.side_of_raised (b := true) hr
  refine ⟨BatchRace.finished_sys.2 (by rintro (_ | _) <;> assumption), hr, ?_⟩
  rintro ⟨b, hwon, hlost, -⟩
  rw [BatchRace.side_mem_sys] at hwon hlost
  cases b <;> simp_all [BatchRace.answer]

end Abrio
