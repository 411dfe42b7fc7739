import Abrio.BatchRaces

/-!
# A submission alone

The transaction of a submission runs statement by statement. What it comes to when nothing comes
between its statements is what the use case does (`alone_single`, `alone_batch`). And a transaction
that others have run beside could still have made all of its statements just now
(`Running.replay`) : the rows it holds, and its lock, keep away everyone whose commit would have
made a difference. So its last step, a commit or a statement that raises, is what the whole
transaction alone would have come to in the state of that step.
-/

open Relational Runs

namespace Abrio

open MessageUseCase

/-! ## A transaction alone -/

/-- Statements one after another. -/
def Open.execAll (t : Open) (db : Db) (userId : UserId) (stmts : List Stmt) : Except Exn Open :=
  stmts.foldlM (fun t stmt => t.exec db userId stmt) t

/-- A call whose transaction nothing comes between. -/
def SubmissionCall.alone (s : Settings) (now : Time) (db : Db) (c : SubmissionCall) :
    Except Exn Answer × Db :=
  match c.begin s now with
  | .running t =>
    match t.execAll db c.userId t.todo with
    | .ok t' => (.ok (c.answer s now), t'.commit db)
    | .error e => (c.handle s db e, db)
  | .aborted e => (c.handle s db e, db)
  | .returned r => (r, db)

namespace Open

variable {db : Db} {u : UserId} {t t' : Open}

theorem execAll_append (t : Open) (db : Db) (u : UserId) (stmts stmts' : List Stmt) :
    t.execAll db u (stmts ++ stmts') = (t.execAll db u stmts).bind fun t' =>
      t'.execAll db u stmts' :=
  List.foldlM_append

theorem execAll_singleton (t : Open) (db : Db) (u : UserId) (stmt : Stmt) :
    t.execAll db u [stmt] = t.exec db u stmt := by
  rw [execAll, List.foldlM_cons]
  cases t.exec db u stmt <;> rfl

/-- What is left to do is of no matter to a statement. -/
theorem exec_todo (t : Open) (todo : List Stmt) (db : Db) (u : UserId) (stmt : Stmt) :
    ({ t with todo } : Open).exec db u stmt =
      (t.exec db u stmt).map fun t' => { t' with todo } := by
  obtain ⟨_, messages, jobs, balance⟩ := t
  cases stmt with
  | insertMessage m =>
    simp only [exec, view]
    cases Db.insertMessageRow _ m <;> rfl
  | checkUsers =>
    simp only [exec, view]
    cases (forM messages _ : Except Exn Unit) <;> rfl
  | reserve amount =>
    simp only [exec, view]
    cases BalanceRepository.reserveCredits _ u amount <;> rfl
  | insertJobs js =>
    simp only [exec, view]
    cases Db.insertJobs _ js <;> rfl
  | writeBalance =>
    simp only [exec, view]
    cases balance with
    | none => rfl
    | some b =>
      simp only
      cases Db.writeBalance _ b <;> rfl

end Open

/-! ## The order of the statements -/

/-- A call with distinct keys begins its transaction. -/
theorem SubmissionCall.begin_of_nodup (s : Settings) (now : Time) (c : SubmissionCall)
    (h : ((c.submissions now).map fun sub => sub.request.idempotencyKey).Nodup) :
    c.begin s now = .running { todo := c.program s now } := by
  cases c with
  | single payload ids => rfl
  | batch payload ids =>
    rw [submissions, map_key_batchSubmissions] at h
    have hd := checkDuplicateIdempotencyKeys_eq_none.2 ⟨h, fun _ _ => List.not_mem_nil⟩
    simp only [SubmissionCall.begin, hd]

/-- Messages are inserted before the check of their users, and nothing is inserted after. -/
theorem SubmissionCall.pairwise_checkUsers (s : Settings) (now : Time) (c : SubmissionCall) :
    (c.program s now).Pairwise fun a b =>
      (b = .checkUsers → a.message?.isSome) ∧ (a = .checkUsers → b.message? = none) := by
  have h : ∀ ms : List Message, (ms.map Stmt.insertMessage).Pairwise fun a b =>
      (b = .checkUsers → a.message?.isSome) ∧ (a = .checkUsers → b.message? = none) := by
    intro ms
    rw [List.pairwise_map]
    exact List.pairwise_of_forall fun _ _ => by simp
  cases c <;> simp only [program, List.pairwise_append, h] <;> simp [Stmt.message?]

theorem SubmissionCall.checkUsers_mem_program (s : Settings) (now : Time) (c : SubmissionCall) :
    .checkUsers ∈ c.program s now := by
  cases c <;> simp [program]

/-- What a running transaction has of the users and of its lock. -/
structure Ready (db : Db) (c : Call) (t : Open) : Prop where
  checked : .checkUsers ∉ t.todo → db.hasUser c.call.userId
  unlocked : ∀ amount, .reserve amount ∈ t.todo → t.balance = none

namespace Running

variable {s : Settings} {db : Db} {c : Call} {t : Open} {done todo : List Stmt} {stmt : Stmt}

/-- A statement that is no insert of a message comes with the check of the users, or after it. -/
theorem checked_of_todo (h : Running s db c t done) (ht : t.todo = stmt :: todo)
    (hs : stmt.message? = none) : .checkUsers ∉ todo := by
  intro hmem
  have hpair := c.call.pairwise_checkUsers s c.now
  rw [h.program, ht, List.pairwise_append, List.pairwise_cons] at hpair
  have hsome := (hpair.2.1.1 _ hmem).1 rfl
  rw [hs] at hsome
  cases hsome

/-- A row that an executed insert has left goes in now as well. -/
theorem insert_again (h : Running s db c t done) {m : Message}
    (ht : t.todo = .insertMessage m :: todo) (hm : m.storable = true ∧ 0 < m.cost)
    (hfree : ∀ x ∈ db.messages, ¬(x.userId = m.userId ∧ x.idempotencyKey = m.idempotencyKey)) :
    t.exec db c.call.userId (.insertMessage m) =
      .ok { t with messages := t.messages ++ [m] } := by
  have hall := h.messages_append ht
  obtain ⟨sub, hsub, rfl⟩ := List.mem_map.1 (hall ▸ List.mem_append_right _ List.mem_cons_self)
  rcases h.insert_cases ht (Db.checkMessage_ok.2 hm) with ⟨t', he, -⟩ | ⟨-, x, hx, hu, hk⟩
  · obtain ⟨_, hi, ⟨⟩⟩ := bind_eq_ok.1 he
    exact bind_eq_ok.2 ⟨_, hi, rfl⟩
  · exact absurd ⟨hu.trans (c.call.submissions_userId c.now sub hsub).symm, hk⟩ (hfree x hx)

/-- The messages that a transaction has inserted are new still. -/
theorem newMessages (h : Running s db c t done)
    (hm : t.messages = (c.call.submissions c.now).map (newMessage s))
    (hu : db.hasUser c.call.userId) :
    db.NewMessages ((c.call.submissions c.now).map (newMessage s)) := by
  have hsubs := c.call.submissions_userId c.now
  have hexecuted : ∀ sub ∈ c.call.submissions c.now,
      Executed db c.call.userId t (.insertMessage (newMessage s sub)) := by
    intro sub hsub
    have hmem : newMessage s sub ∈ done.filterMap Stmt.message? := by
      rw [← h.messages, hm]
      exact List.mem_map_of_mem hsub
    obtain ⟨stmt, hstmt, he⟩ := List.mem_filterMap.1 hmem
    cases stmt with
    | insertMessage m =>
      obtain rfl := Option.some.inj he
      exact h.executed _ hstmt
    | _ => cases he
  refine (newMessages_iff hsubs (c.call.submissions_ne c.now)).2
    ⟨fun sub hsub => ?_, h.keys, fun sub hsub => ?_, hu⟩
  · obtain ⟨hs, hc, -⟩ := hexecuted sub hsub
    exact ⟨hs, hc⟩
  · rintro ⟨x, hx, hxu, hxk⟩
    exact (hexecuted sub hsub).2.2 x hx ⟨hxu.trans (hsubs sub hsub).symm, hxk⟩

/-- The jobs go in now as well. -/
theorem insertJobs_again (h : Running s db c t done) (hdb : db.Constrained)
    {js : List DispatchJob} (ht : t.todo = .insertJobs js :: todo)
    (hu : db.hasUser c.call.userId) :
    t.exec db c.call.userId (.insertJobs js) = .ok { t with jobs := t.jobs ++ js } := by
  obtain ⟨hnil, rfl⟩ := h.jobs_append ht
  have hmsgs := h.messages_of_past ht rfl
  obtain ⟨tm, htm⟩ := h.fresh.exists_messages s
  obtain ⟨tj, htj⟩ := h.fresh.exists_jobs s
  have hview : t.view db = { db with messages := tm } := by
    have hj : db.jobs.append? [] = some db.jobs := Table.append?_eq_some.2 (by simp)
    simp [Open.view, hmsgs, hnil, hj, Table.append?_eq_some.2 htm]
  have hjobs : (t.view db).insertJobs ((c.call.submissions c.now).map (newJob s)) =
      .ok { db with messages := tm, jobs := tj } := by
    rw [hview]
    exact Db.insertJobs_ok.2 ⟨h.fresh.newJobs hdb htm (h.newMessages hmsgs hu), tj, htj, rfl⟩
  exact bind_eq_ok.2 ⟨_, hjobs, rfl⟩

/-- A statement that has been executed would do the same now. -/
theorem exec_again {t' : Open} (h : Running s db c t done) (hdb : db.Constrained)
    (ht : t.todo = stmt :: todo) (hx : Executed db c.call.userId t' stmt)
    (hm : t'.messages = t.messages ++ stmt.message?.toList) (hj : t'.jobs = t.jobs ++ stmt.jobs)
    (hb : (∀ amount, stmt ≠ .reserve amount) → t'.balance = t.balance)
    (hu : stmt.message? = none → db.hasUser c.call.userId) :
    t.exec db c.call.userId stmt = .ok { t' with todo := t.todo } := by
  have hopen : ({ t' with todo := t.todo } : Open) =
      ⟨t.todo, t'.messages, t'.jobs, t'.balance⟩ := rfl
  rw [hopen, hm, hj]
  cases stmt with
  | insertMessage m =>
    rw [h.insert_again ht ⟨hx.1, hx.2.1⟩ hx.2.2, hb (by simp)]
    simp [Stmt.jobs, Stmt.message?]
  | checkUsers =>
    have hcheck : forM t.messages (t.view db).checkMessageUser = .ok ⟨⟩ := by
      refine forM_eq_ok.2 fun m hmem => Db.checkMessageUser_ok.2 ?_
      rw [h.messages_of_past ht rfl] at hmem
      exact (h.newMessages (h.messages_of_past ht rfl) (hu rfl)).user m hmem
    refine bind_eq_ok.2 ⟨_, hcheck, ?_⟩
    rw [hb (by simp)]
    simp [Stmt.jobs, Stmt.message?, pure, Except.pure]
  | reserve amount =>
    obtain ⟨hpos, b, hf, hbal⟩ := hx
    have hres : BalanceRepository.reserveCredits (t.view db) c.call.userId amount =
        .ok (b.raised amount) := BalanceRepository.reserveCredits_ok.2 ⟨hpos, b, hf, rfl⟩
    refine bind_eq_ok.2 ⟨_, hres, ?_⟩
    rw [hbal]
    simp [Stmt.jobs, Stmt.message?, pure, Except.pure]
  | insertJobs js =>
    rw [h.insertJobs_again hdb ht (hu rfl), hb (by simp)]
    simp [Stmt.jobs, Stmt.message?]
  | writeBalance =>
    have hbal := hb (by simp)
    rw [hbal, Open.exec]
    cases hbt : t.balance with
    | none => simp [Stmt.jobs, Stmt.message?, ← hbt]
    | some b =>
      refine bind_eq_ok.2 ⟨_, Db.writeBalance_ok.2 ⟨hx b (hbal.trans hbt), rfl⟩, ?_⟩
      simp [Stmt.jobs, Stmt.message?, pure, Except.pure, ← hbt]

/-- The transaction before its last statement. -/
theorem before (h : Running s db c t (done ++ [stmt])) (hr : Ready db c t) : ∃ balance,
    let t₁ : Open := ⟨stmt :: t.todo, done.filterMap Stmt.message?, done.flatMap Stmt.jobs, balance⟩
    Running s db c t₁ done ∧ Ready db c t₁ ∧
      ((∀ amount, stmt ≠ .reserve amount) → t.balance = balance) := by
  obtain ⟨balance, hsame, hnone⟩ : ∃ balance : Option Balance,
      ((∀ amount, stmt ≠ .reserve amount) → t.balance = balance) ∧
        ∀ amount, stmt = .reserve amount → balance = none := by
    cases stmt with
    | reserve amount => exact ⟨none, fun hne => absurd rfl (hne amount), fun _ _ => rfl⟩
    | _ => exact ⟨t.balance, fun _ => rfl, fun _ he => (by cases he)⟩
  refine ⟨balance, ⟨?_, rfl, rfl, fun x hx => ?_, h.fresh, h.keys⟩, ⟨fun hc => ?_, ?_⟩, hsame⟩
  · rw [h.program, List.append_assoc, List.singleton_append]
  · refine (h.executed x (List.mem_append_left _ hx)).of_balance fun hon => ?_
    refine (hsame fun amount he => ?_).symm
    have hp := c.call.pairwise_program s c.now
    rw [h.program, List.append_assoc] at hp
    have hoff := (List.pairwise_append.1 hp).2.2 x hx stmt (by simp) amount he
    rw [hon] at hoff
    cases hoff
  · exact hr.checked fun hmem => hc (List.mem_cons_of_mem _ hmem)
  · intro amount hmem
    rcases List.mem_cons.1 hmem with he | hmem
    · exact hnone amount he.symm
    · by_cases hres : ∃ a, stmt = .reserve a
      · obtain ⟨a, he⟩ := hres
        exact hnone a he
      · exact (hsame fun a he => hres ⟨a, he⟩).symm.trans (hr.unlocked amount hmem)

/-- The statements of a running transaction would leave it as it is, had they been made now. -/
theorem replay (h : Running s db c t done) (hdb : db.Constrained) (hr : Ready db c t)
    (todo : List Stmt) :
    ({ todo } : Open).execAll db c.call.userId done = .ok { t with todo } := by
  induction done using List.reverseRecOn generalizing t with
  | nil =>
    have hbal : t.balance = none := by
      obtain ⟨-, hres, -⟩ := c.call.mem_program s c.now
      rw [h.program, List.nil_append] at hres
      exact hr.unlocked _ hres
    have hm : t.messages = [] := h.messages
    have hj : t.jobs = [] := h.jobs
    have hopen : ({ t with todo } : Open) = ⟨todo, t.messages, t.jobs, t.balance⟩ := rfl
    rw [hopen, hm, hj, hbal]
    rfl
  | append_singleton done stmt ih =>
    obtain ⟨balance, h₁, hr₁, hsame⟩ := h.before hr
    have hagain := h₁.exec_again hdb rfl (h.executed stmt (by simp)) ?_ ?_ hsame ?_
    · rw [Open.execAll_append, ih h₁ hr₁]
      show Open.execAll _ db c.call.userId [stmt] = _
      rw [Open.execAll_singleton, Open.exec_todo, hagain]
      rfl
    · rw [h.messages, List.filterMap_append]
      cases hs : stmt.message? <;> simp [hs]
    · rw [h.jobs, List.flatMap_append]
      simp
    · exact fun hs => hr.checked (h₁.checked_of_todo rfl hs)

/-- A transaction with nothing left to do, had it run alone just now. -/
theorem alone_of_nil (h : Running s db c t done) (hdb : db.Constrained) (hr : Ready db c t)
    (ht : t.todo = []) :
    c.call.alone s c.now db = (.ok (c.call.answer s c.now), t.commit db) := by
  have hp := h.program
  rw [ht, List.append_nil] at hp
  rw [SubmissionCall.alone, c.call.begin_of_nodup s c.now h.keys]
  simp only
  rw [hp, h.replay hdb hr]
  rfl

/-- A transaction whose next statement raises, had it run alone just now. -/
theorem alone_of_error (h : Running s db c t done) (hdb : db.Constrained) (hr : Ready db c t)
    (ht : t.todo = stmt :: todo) {e : Exn} (he : t.exec db c.call.userId stmt = .error e) :
    c.call.alone s c.now db = (c.call.handle s db e, db) := by
  have hexec : ∀ todo', ({ t with todo := todo' } : Open).execAll db c.call.userId (stmt :: todo) =
      .error e := by
    intro todo'
    rw [Open.execAll, List.foldlM_cons, Open.exec_todo, he]
    rfl
  rw [SubmissionCall.alone, c.call.begin_of_nodup s c.now h.keys]
  simp only
  rw [h.program, Open.execAll_append, h.replay hdb hr, ht]
  simp only [Except.bind, hexec]

/-- A statement that succeeds leaves the transaction ready for the next. -/
theorem ready_exec {t' : Open} (h : Running s db c t done) (hr : Ready db c t)
    (ht : t.todo = stmt :: todo) (he : t.exec db c.call.userId stmt = .ok t') :
    Ready db c { t' with todo } := by
  obtain ⟨-, -, hb, -⟩ := Open.exec_ok he
  refine ⟨fun hno => ?_, fun amount hmem => ?_⟩
  · by_cases hs : stmt = .checkUsers
    · subst hs
      obtain ⟨_, hcheck, -⟩ := bind_eq_ok.1 he
      rw [h.messages_of_past ht rfl] at hcheck
      obtain ⟨sub, rest, hsubs⟩ := List.exists_cons_of_ne_nil (c.call.submissions_ne c.now)
      have hmem : sub ∈ c.call.submissions c.now := by
        rw [hsubs]
        exact List.mem_cons_self
      obtain ⟨u, hu, hi⟩ := Db.checkMessageUser_ok.1
        (forM_eq_ok.1 hcheck (newMessage s sub) (List.mem_map_of_mem hmem))
      exact ⟨u, hu, hi.trans (c.call.submissions_userId c.now sub hmem)⟩
    · refine hr.checked fun hmem => ?_
      rw [ht] at hmem
      rcases List.mem_cons.1 hmem with hmem | hmem
      · exact hs hmem.symm
      · exact hno hmem
  · refine (hb fun a ha => ?_).trans (hr.unlocked amount ?_)
    · have hp := c.call.pairwise_program s c.now
      rw [h.program, ht, List.pairwise_append, List.pairwise_cons] at hp
      have hoff := hp.2.1.1 _ hmem amount rfl
      rw [ha] at hoff
      cases hoff
    · rw [ht]
      exact List.mem_cons_of_mem _ hmem

end Running

/-! ## The use cases -/

namespace Open

variable {db : Db} {u : UserId} {t : Open}

/-- The messages of a call go in row by row. -/
theorem execAll_inserts {ms : List Message} {table : Table Message.id}
    (ht : db.messages.append? t.messages = some table) :
    t.execAll db u (ms.map .insertMessage) =
      (ms.foldlM Db.insertMessageRow table).map fun _ =>
        { t with messages := t.messages ++ ms } := by
  induction ms generalizing t table with
  | nil => simp [execAll, pure, Except.pure, Except.map]
  | cons m ms ih =>
    have hview : (t.view db).messages = table := by rw [view, ht, Option.getD_some]
    rw [List.map_cons, ← List.singleton_append, execAll_append, execAll_singleton, exec, hview,
      List.foldlM_cons]
    cases hi : Db.insertMessageRow table m with
    | error e => rfl
    | ok table' =>
      have hrows := (Table.insertRow_ok.1 hi).2.2
      have ha : db.messages.append? (t.messages ++ [m]) = some table' := by
        rw [Table.append?_eq_some, hrows, Table.append?_eq_some.1 ht, List.append_assoc]
      have hrest := ih (t := { t with messages := t.messages ++ [m] }) ha
      refine hrest.trans ?_
      rw [List.append_assoc, List.singleton_append]
      rfl

end Open

section Alone

variable {s : Settings} {db : Db} {now : Time}

/-- The transaction of a batch whose values fit, statement by statement. -/
theorem batchCreateMessageTx_eq_execAll {payload : BatchMessageRequest} {ids : ℕ → Ids}
    (hs : ∀ m ∈ (batchSubmissions payload ids now).map (newMessage s), m.storable = true)
    (todo : List Stmt) :
    batchCreateMessageTx s payload ids now db =
      (({ todo } : Open).execAll db payload.userId
        ((SubmissionCall.batch payload ids).program s now)).map fun t =>
          (t.commit db, (batchSubmissions payload ids now).map (newMessage s)) := by
  have hempty : db.messages.append? [] = some db.messages := Table.append?_eq_some.2 (by simp)
  have hnojobs : db.jobs.append? [] = some db.jobs := Table.append?_eq_some.2 (by simp)
  rw [batchCreateMessageTx_eq, Db.insertMessages_of_storable hs, SubmissionCall.program,
    Open.execAll_append, SubmissionCall.submissions, Open.execAll_inserts hempty,
    calculateBatchMessageCost_eq payload ids now]
  generalize (batchSubmissions payload ids now).map (newMessage s) = ms
  generalize (batchSubmissions payload ids now).map (newJob s) = js
  generalize ((batchSubmissions payload ids now).map (submissionCost s)).sum = cost
  cases hi : ms.foldlM Db.insertMessageRow db.messages with
  | error e => rfl
  | ok tm =>
    have htm := (Db.insertMessageRows_ok.1 hi).2.2.2
    have hview : ({ todo, messages := ms } : Open).view db = { db with messages := tm } := by
      simp [Open.view, hnojobs, Table.append?_eq_some.2 htm]
    simp only [Open.execAll, Except.map, Except.bind, bind, List.nil_append, List.foldlM_cons,
      List.foldlM_nil, Open.exec, hview]
    cases hc : forM ms ({ db with messages := tm } : Db).checkMessageUser with
    | error e => rfl
    | ok =>
      cases hj : Db.insertJobs { db with messages := tm } js with
      | error e => simp [hview, hj, pure, Except.pure]
      | ok db₂ =>
        obtain ⟨-, tj, htj, rfl⟩ := Db.insertJobs_ok.1 hj
        have hview₂ : ∀ balance, ({ todo, messages := ms, jobs := js, balance } : Open).view db =
            { db with messages := tm, jobs := tj } := by
          simp [Open.view, Table.append?_eq_some.2 htm, Table.append?_eq_some.2 htj]
        simp only [pure, Except.pure, hview, hj, List.nil_append, hview₂]
        cases hr : BalanceRepository.reserveCredits { db with messages := tm, jobs := tj }
            payload.userId cost with
        | error e => rfl
        | ok b =>
          simp only [hview₂]
          cases hw : Db.writeBalance { db with messages := tm, jobs := tj } b with
          | error e => rfl
          | ok db₃ =>
            obtain ⟨-, rfl⟩ := Db.writeBalance_ok.1 hw
            simp only [Open.commit, hview₂]

theorem insertMessageRow_of_not_storable {m : Message} (hs : m.storable = false)
    (t : Table Message.id) : Db.insertMessageRow t m = Db.dataError := by
  have hc : Db.checkMessage m = Db.dataError := by
    rw [Db.checkMessage, hs]
    rfl
  rw [Db.insertMessageRow, Table.insertRow, hc]

/-- The transaction of one message, statement by statement. -/
theorem createMessageTx_eq_execAll (payload : MessageRequest) (ids : Ids) (todo : List Stmt) :
    createMessageTx s payload ids now db =
      (({ todo } : Open).execAll db payload.userId
        ((SubmissionCall.single payload ids).program s now)).map fun t =>
          (t.commit db, newMessage s ⟨payload, ids, now⟩) := by
  have hempty : db.messages.append? [] = some db.messages := Table.append?_eq_some.2 (by simp)
  have hnojobs : db.jobs.append? [] = some db.jobs := Table.append?_eq_some.2 (by simp)
  rw [createMessageTx_eq, SubmissionCall.program, Open.execAll_append, SubmissionCall.submissions,
    Open.execAll_inserts hempty, List.map_singleton, List.map_singleton]
  rw [show submissionCost s ⟨payload, ids, now⟩ = s.messageCost payload.priority from rfl]
  generalize newMessage s ⟨payload, ids, now⟩ = m
  generalize newJob s ⟨payload, ids, now⟩ = j
  generalize s.messageCost payload.priority = cost
  cases hs : m.storable with
  | false =>
    rw [Db.insertMessages_of_not_storable (List.mem_singleton.2 rfl) hs, List.foldlM_cons,
      insertMessageRow_of_not_storable hs]
    rfl
  | true =>
    rw [Db.insertMessages_of_storable (List.forall_mem_singleton.2 hs)]
    cases hi : [m].foldlM Db.insertMessageRow db.messages with
    | error e => rfl
    | ok tm =>
      have htm := (Db.insertMessageRows_ok.1 hi).2.2.2
      have hview : ∀ balance, ({ todo, messages := [m], balance } : Open).view db =
          { db with messages := tm } := by
        simp [Open.view, hnojobs, Table.append?_eq_some.2 htm]
      simp only [Open.execAll, Except.map, Except.bind, bind, List.nil_append, List.foldlM_cons,
        List.foldlM_nil, Open.exec]
      cases hc : forM [m] ({ db with messages := tm } : Db).checkMessageUser with
      | error e => simp [hview, hc]
      | ok =>
        simp only [pure, Except.pure, hview, hc]
        cases hr : BalanceRepository.reserveCredits { db with messages := tm } payload.userId
            cost with
        | error e => rfl
        | ok b =>
          simp only [hview]
          cases hj : Db.insertJobs { db with messages := tm } [j] with
          | error e => rfl
          | ok db₂ =>
            obtain ⟨-, tj, htj, rfl⟩ := Db.insertJobs_ok.1 hj
            have hview₂ :
                ({ todo, messages := [m], jobs := [j], balance := some b } : Open).view db =
                  { db with messages := tm, jobs := tj } := by
              simp [Open.view, Table.append?_eq_some.2 htm, Table.append?_eq_some.2 htj]
            simp only [List.nil_append, hview₂]
            cases hw : Db.writeBalance { db with messages := tm, jobs := tj } b with
            | error e => rfl
            | ok db₃ =>
              obtain ⟨-, rfl⟩ := Db.writeBalance_ok.1 hw
              simp only [Open.commit, hview₂]

/-- A single submission alone is `create_message`. -/
theorem alone_single (payload : MessageRequest) (ids : Ids) :
    (SubmissionCall.single payload ids).alone s now db =
      ((createMessage s payload ids now db).2.map .single,
        (createMessage s payload ids now db).1) := by
  simp only [SubmissionCall.alone, SubmissionCall.begin, SubmissionCall.userId, createMessage,
    createMessageTx_eq_execAll payload ids ((SubmissionCall.single payload ids).program s now)]
  cases Open.execAll _ db payload.userId ((SubmissionCall.single payload ids).program s now) <;> rfl

/-- A batch alone is `batch_create_message`, but for the error when a value does not fit : the
rows of one statement are bound before the first of them is written. -/
theorem alone_batch (payload : BatchMessageRequest) (ids : ℕ → Ids) :
    let r := (SubmissionCall.batch payload ids).alone s now db
    r.2 = (batchCreateMessage s payload ids now db).1 ∧
      (r.1 = (batchCreateMessage s payload ids now db).2.map .batch ∨
        (∃ item ∈ payload.messages, (item.toRequest payload.userId).storable s = false) ∧
          ∃ e, r.1 = .error e) := by
  intro r
  simp only [r, SubmissionCall.alone, SubmissionCall.begin, SubmissionCall.userId,
    batchCreateMessage]
  cases hd : checkDuplicateIdempotencyKeys [] payload.messages with
  | some key => exact ⟨rfl, Or.inl rfl⟩
  | none =>
    simp only
    by_cases hs : ∀ m ∈ (batchSubmissions payload ids now).map (newMessage s), m.storable = true
    · rw [batchCreateMessageTx_eq_execAll hs ((SubmissionCall.batch payload ids).program s now)]
      cases Open.execAll _ db payload.userId ((SubmissionCall.batch payload ids).program s now) <;>
        exact ⟨rfl, Or.inl rfl⟩
    · obtain ⟨m, hm, hvalue⟩ := not_forall₂.1 hs
      have hvalue := eq_false_of_ne_true hvalue
      obtain ⟨sub, hsub, rfl⟩ := List.mem_map.1 hm
      have hitem : ∃ item ∈ payload.messages,
          (item.toRequest payload.userId).storable s = false := by
        obtain ⟨⟨item, i⟩, hi, rfl⟩ := List.mem_map.1 hsub
        exact ⟨item, List.fst_mem_of_mem_zipIdx hi, hvalue⟩
      have htx : batchCreateMessageTx s payload ids now db = Db.dataError := by
        rw [batchCreateMessageTx_eq, Db.insertMessages_of_not_storable hm hvalue]
        rfl
      rw [htx]
      cases he : Open.execAll _ db payload.userId
          ((SubmissionCall.batch payload ids).program s now) with
      | error e => exact ⟨rfl, Or.inr ⟨hitem, _, rfl⟩⟩
      | ok t =>
        have hempty : db.messages.append? [] = some db.messages :=
          Table.append?_eq_some.2 (by simp)
        rw [SubmissionCall.program, Open.execAll_append, SubmissionCall.submissions,
          Open.execAll_inserts hempty] at he
        cases hi : ((batchSubmissions payload ids now).map (newMessage s)).foldlM
            Db.insertMessageRow db.messages with
        | error e =>
          rw [hi] at he
          cases he
        | ok table =>
          have hok := ((Db.insertMessageRows_ok.1 hi).1 _ hm).1
          rw [hvalue] at hok
          cases hok

end Alone

end Abrio
