import Abrio.Library.Views
import Abrio.Reports

/-!
# The rows of one user

`Db.of u` keeps the rows of the user `u` in the four tables. A request of the user does to these
rows, and returns, what it does on the whole database (`ApiTxn.apply_of`, `ApiTxn.answer_of`), if
it draws no id that a row of another user has; and the request of another user does nothing to
them (`ApiTxn.apply_of_ne`). The reports of the user read nothing else.
-/

open Relational Runs

namespace Abrio

open MessageUseCase

/-- The rows of a user. -/
def Db.of (u : UserId) (db : Db) : Db where
  users := db.users.restrict fun x => x.id = u
  balances := db.balances.restrict fun b => b.userId = u
  messages := db.messages.restrict fun m => m.userId = u
  jobs := db.jobs.restrict fun j => j.userId = u

namespace Db

variable {u : UserId} {db db' : Db}

@[simp] theorem find?_users_of : (db.of u).users.find? u = db.users.find? u :=
  Table.find?_restrict fun _ _ hid => decide_eq_true hid

@[simp] theorem find?_balances_of : (db.of u).balances.find? u = db.balances.find? u :=
  Table.find?_restrict fun _ _ hid => decide_eq_true hid

theorem find?_messages_of {id : UUID} (h : ∀ m ∈ db.messages, m.id = id → m.userId = u) :
    (db.of u).messages.find? id = db.messages.find? id :=
  Table.find?_restrict fun m hm hid => decide_eq_true (h m hm hid)

theorem find?_jobs_of {id : UUID} (h : ∀ j ∈ db.jobs, j.id = id → j.userId = u) :
    (db.of u).jobs.find? id = db.jobs.find? id :=
  Table.find?_restrict fun j hj hid => decide_eq_true (h j hj hid)

/-! ## Statements -/

/-- The ids of new messages of the user are not those of messages of others. -/
def OwnMessages (db : Db) (u : UserId) (ms : List Message) : Prop :=
  ∀ m ∈ ms, m.userId = u ∧ ∀ x ∈ db.messages, x.id = m.id → x.userId = u

/-- New jobs of the user, of messages of the user, with ids that are not those of jobs of others. -/
structure OwnJobs (db : Db) (u : UserId) (js : List DispatchJob) : Prop where
  user : ∀ j ∈ js, j.userId = u
  id : ∀ j ∈ js, ∀ x ∈ db.jobs, x.id = j.id → x.userId = u
  job : ∀ j ∈ js, ∀ x ∈ db.jobs, x.messageId = j.messageId → x.userId = u
  message : ∀ j ∈ js, ∀ m ∈ db.messages, m.id = j.messageId → m.userId = u

theorem insertMessages_of {ms : List Message} (h : db.OwnMessages u ms) :
    (db.of u).insertMessages ms = (db.insertMessages ms).map (Db.of u) := by
  have hrows : ms.foldlM insertMessageRow (db.messages.restrict fun m => m.userId = u) =
      (ms.foldlM insertMessageRow db.messages).map (Table.restrict fun m => m.userId = u) := by
    refine Table.restrict_foldlM_insertRow fun m hm => ⟨decide_eq_true (h m hm).1,
      fun x hx hid => decide_eq_true ((h m hm).2 x hx hid), fun x _ hs => ?_⟩
    exact decide_eq_true ((sameKey_iff.1 hs).1.trans (h m hm).1)
  unfold insertMessages
  cases hv : forM ms checkMessageValues with
  | error e => rfl
  | ok =>
    show ms.foldlM insertMessageRow (db.messages.restrict fun m => m.userId = u) >>= _ = _
    rw [hrows]
    cases ms.foldlM insertMessageRow db.messages with
    | error e => rfl
    | ok messages =>
      have hcheck : forM ms ({ db.of u with
            messages := messages.restrict fun m => m.userId = u } : Db).checkMessageUser =
          forM ms ({ db with messages } : Db).checkMessageUser :=
        forM_congr fun m hm => by
          rw [checkMessageUser, checkMessageUser, (h m hm).1]
          show (if ((db.of u).users.find? u).isSome = true then _ else _) = _
          rw [find?_users_of]
      show (forM ms _ >>= fun _ => Except.ok _) = Except.map _ (forM ms _ >>= fun _ => Except.ok _)
      rw [hcheck]
      cases forM ms ({ db with messages } : Db).checkMessageUser <;> rfl

theorem insertJobs_of {js : List DispatchJob} (h : db.OwnJobs u js) :
    (db.of u).insertJobs js = (db.insertJobs js).map (Db.of u) := by
  have hrows : js.foldlM insertJobRow (db.jobs.restrict fun j => j.userId = u) =
      (js.foldlM insertJobRow db.jobs).map (Table.restrict fun j => j.userId = u) := by
    refine Table.restrict_foldlM_insertRow fun j hj => ⟨decide_eq_true (h.user j hj),
      fun x hx hid => decide_eq_true (h.id j hj x hx hid), fun x hx hs => ?_⟩
    exact decide_eq_true (h.job j hj x hx (of_decide_eq_true hs))
  unfold insertJobs
  cases hv : forM js checkJob with
  | error e => rfl
  | ok =>
    show js.foldlM insertJobRow (db.jobs.restrict fun j => j.userId = u) >>= _ = _
    rw [hrows]
    cases js.foldlM insertJobRow db.jobs with
    | error e => rfl
    | ok jobs =>
      have hcheck : forM js ({ db.of u with
            jobs := jobs.restrict fun j => j.userId = u } : Db).checkJobOwners =
          forM js ({ db with jobs } : Db).checkJobOwners :=
        forM_congr fun j hj => by
          rw [checkJobOwners, checkJobOwners, h.user j hj]
          show (if ((db.of u).messages.find? j.messageId).isNone = true then _
            else if ((db.of u).users.find? u).isNone = true then _ else _) = _
          rw [find?_users_of, find?_messages_of (h.message j hj)]
      show (forM js _ >>= fun _ => Except.ok _) = Except.map _ (forM js _ >>= fun _ => Except.ok _)
      rw [hcheck]
      cases forM js ({ db with jobs } : Db).checkJobOwners <;> rfl

theorem writeBalance_of {b : Balance} (h : b.userId = u) :
    (db.of u).writeBalance b = (db.writeBalance b).map (Db.of u) := by
  have hput : ({ db.of u with balances := (db.of u).balances.put b } : Db) =
      Db.of u { db with balances := db.balances.put b } :=
    Db.ext rfl (Table.restrict_put (p := fun b : Balance => b.userId = u) (decide_eq_true h)
      fun _ _ hid => decide_eq_true (hid.trans h)).symm rfl rfl
  unfold writeBalance
  rw [hput]
  split_ifs <;> rfl

/-- A balance of another user. -/
theorem of_putBalance (db : Db) {b : Balance} (h : b.userId ≠ u) :
    Db.of u { db with balances := db.balances.put b } = db.of u :=
  Db.ext rfl (Table.restrict_put_of_not (p := fun b : Balance => b.userId = u)
    (decide_eq_false h) fun _ _ hid => decide_eq_false fun hu => h (hid ▸ hu)) rfl rfl

end Db

theorem reserveCredits_of {u : UserId} {db : Db} (amount : Cents) :
    BalanceRepository.reserveCredits (db.of u) u amount =
      BalanceRepository.reserveCredits db u amount := by
  simp only [BalanceRepository.reserveCredits, BalanceRepository.topupUserReservedCredits,
    BalanceRepository.getByUserId, Db.find?_balances_of]

/-! ## Submissions -/

/-- The ids of the submissions are not those of rows of other users. -/
structure Db.OwnIds (db : Db) (u : UserId) (subs : List Submission) : Prop where
  message : ∀ sub ∈ subs, ∀ m ∈ db.messages, m.id = sub.ids.messageId → m.userId = u
  job : ∀ sub ∈ subs, ∀ j ∈ db.jobs, j.id = sub.ids.jobId → j.userId = u

instance (db : Db) (u : UserId) (subs : List Submission) : Decidable (db.OwnIds u subs) :=
  decidable_of_iff
    ((∀ sub ∈ subs, ∀ m ∈ db.messages.rows, m.id = sub.ids.messageId → m.userId = u) ∧
      ∀ sub ∈ subs, ∀ j ∈ db.jobs.rows, j.id = sub.ids.jobId → j.userId = u)
    ⟨fun h => ⟨h.1, h.2⟩, fun h => ⟨h.message, h.job⟩⟩

namespace Db.OwnIds

variable {s : Settings} {u : UserId} {db db₁ : Db} {subs : List Submission}

theorem messages (h : db.OwnIds u subs) (hu : ∀ sub ∈ subs, sub.request.userId = u) :
    db.OwnMessages u (subs.map (newMessage s)) := by
  intro m hm
  obtain ⟨sub, hsub, rfl⟩ := List.mem_map.1 hm
  exact ⟨hu sub hsub, fun x hx hid => h.message sub hsub x hx hid⟩

/-- A new message has no job yet that is another user's. -/
theorem jobs (h : db.OwnIds u subs) (hu : ∀ sub ∈ subs, sub.request.userId = u)
    (hdb : db.Accounted)
    (hins : db.insertMessages (subs.map (newMessage s)) = .ok db₁) :
    db₁.OwnJobs u (subs.map (newJob s)) := by
  obtain ⟨-, t, ht, rfl⟩ := Db.insertMessages_ok.1 hins
  refine ⟨fun j hj => ?_, fun j hj x hx hid => ?_, fun j hj x hx hid => ?_,
    fun j hj m hm hid => ?_⟩ <;> obtain ⟨sub, hsub, rfl⟩ := List.mem_map.1 hj
  · exact hu sub hsub
  · exact h.job sub hsub x hx hid
  · obtain ⟨m, hm, hlinked⟩ := hdb.message_of_job hx
    rw [hlinked.userId]
    exact h.message sub hsub m hm (hlinked.messageId.symm.trans hid)
  · rw [Table.mem_def, show ({ db with messages := t } : Db).messages.rows = _ from ht,
      List.mem_append] at hm
    rcases hm with hm | hm
    · exact h.message sub hsub m hm hid
    · obtain ⟨sub', hsub', rfl⟩ := List.mem_map.1 hm
      exact hu sub' hsub'

end Db.OwnIds

/-! ## Transactions -/

/-- What a transaction leaves and returns, for the rows of the user. -/
def leftOf {α : Type} (u : UserId) (r : Db × α) : Db × α :=
  (r.1.of u, r.2)

section Bind

variable {α α' β : Type} {u : UserId} {g : α → α'}

/-- A statement, and what comes after it. -/
theorem bind_map_of {x x' : Except Exn Db} {f : Db → Except Exn α} {f' : Db → Except Exn α'}
    (hx : x' = x.map (Db.of u)) (hf : ∀ db, x = .ok db → f' (db.of u) = (f db).map g) :
    (x' >>= f') = (x >>= f).map g := by
  subst hx
  cases x with
  | error e => rfl
  | ok db => exact hf db rfl

/-- A query, and what comes after it. -/
theorem read_map_of {x x' : Except Exn β} {f : β → Except Exn α} {f' : β → Except Exn α'}
    (hx : x' = x) (hf : ∀ b, x = .ok b → f' b = (f b).map g) :
    (x' >>= f') = (x >>= f).map g := by
  subst hx
  cases x' with
  | error e => rfl
  | ok b => exact hf b rfl

end Bind

section Submissions

variable {s : Settings} {now : Time} {db : Db}

theorem createMessageTx_of {payload : MessageRequest} {ids : Ids} (hdb : db.Accounted)
    (h : db.OwnIds payload.userId [⟨payload, ids, now⟩]) :
    createMessageTx s payload ids now (db.of payload.userId) =
      (createMessageTx s payload ids now db).map (leftOf payload.userId) := by
  have hu : ∀ sub ∈ [(⟨payload, ids, now⟩ : Submission)], sub.request.userId = payload.userId := by
    simp
  rw [createMessageTx_eq, createMessageTx_eq]
  refine bind_map_of (Db.insertMessages_of (h.messages hu)) fun db₁ hm => ?_
  refine read_map_of (reserveCredits_of _) fun b hb => ?_
  obtain ⟨-, b₀, hf, rfl⟩ := BalanceRepository.reserveCredits_ok.1 hb
  refine bind_map_of (Db.insertJobs_of (h.jobs hu hdb hm)) fun db₂ _ => ?_
  exact bind_map_of (Db.writeBalance_of (Table.find?_eq_some.1 hf).2) fun _ _ => rfl

theorem batchCreateMessageTx_of {payload : BatchMessageRequest} {ids : ℕ → Ids}
    (hdb : db.Accounted) (h : db.OwnIds payload.userId (batchSubmissions payload ids now)) :
    batchCreateMessageTx s payload ids now (db.of payload.userId) =
      (batchCreateMessageTx s payload ids now db).map (leftOf payload.userId) := by
  have hu : ∀ sub ∈ batchSubmissions payload ids now, sub.request.userId = payload.userId :=
    fun _ => user_of_mem_batchSubmissions
  rw [batchCreateMessageTx_eq, batchCreateMessageTx_eq]
  refine bind_map_of (Db.insertMessages_of (h.messages hu)) fun db₁ hm => ?_
  refine bind_map_of (Db.insertJobs_of (h.jobs hu hdb hm)) fun db₂ _ => ?_
  refine read_map_of (reserveCredits_of _) fun b hb => ?_
  obtain ⟨-, b₀, hf, rfl⟩ := BalanceRepository.reserveCredits_ok.1 hb
  exact bind_map_of (Db.writeBalance_of (Table.find?_eq_some.1 hf).2) fun _ _ => rfl

theorem messageWithKey_of {u : UserId} (key : UUID) :
    (db.of u).messageWithKey u key = db.messageWithKey u key := by
  show (db.messages.rows.filter fun m => m.userId = u).find? _ = _
  rw [List.find?_filter, Db.messageWithKey]
  congr 1
  funext m
  by_cases hu : m.userId = u <;> simp [hu]

theorem createMessage_of {payload : MessageRequest} {ids : Ids} (hdb : db.Accounted)
    (h : db.OwnIds payload.userId [⟨payload, ids, now⟩]) :
    createMessage s payload ids now (db.of payload.userId) =
      leftOf payload.userId (createMessage s payload ids now db) := by
  have hhandler : ∀ e, createMessageHandler s payload (db.of payload.userId) e =
      createMessageHandler s payload db e := by
    intro e
    unfold createMessageHandler
    simp only [MessageRepository.getUserMessageByIdempotencyKey, messageWithKey_of]
  unfold createMessage
  rw [createMessageTx_of hdb h]
  cases createMessageTx s payload ids now db with
  | error e => exact Prod.ext rfl (hhandler e)
  | ok r => rfl

theorem batchCreateMessage_of {payload : BatchMessageRequest} {ids : ℕ → Ids} (hdb : db.Accounted)
    (h : db.OwnIds payload.userId (batchSubmissions payload ids now)) :
    batchCreateMessage s payload ids now (db.of payload.userId) =
      leftOf payload.userId (batchCreateMessage s payload ids now db) := by
  unfold batchCreateMessage
  cases checkDuplicateIdempotencyKeys [] payload.messages with
  | some key => rfl
  | none =>
    rw [batchCreateMessageTx_of hdb h]
    cases batchCreateMessageTx s payload ids now db <;> rfl

end Submissions

/-! ## Users and top-ups -/

theorem createUser_of {u : UserId} {name : String} {db : Db} :
    UserUseCase.createUser u name (db.of u) =
      (UserUseCase.createUser u name db).map (Db.of u) := by
  unfold UserUseCase.createUser Db.insertUser
  split_ifs
  · rfl
  · rw [show (db.of u).users.insert ⟨u, name⟩ = _ from Table.restrict_insert (decide_eq_true rfl)
        fun _ _ hid => decide_eq_true hid,
      show (db.of u).balances.insert { userId := u } = _ from
        Table.restrict_insert (decide_eq_true rfl) fun _ _ hid => decide_eq_true hid]
    cases db.users.insert ⟨u, name⟩ with
    | none => rfl
    | some users => cases db.balances.insert { userId := u } <;> rfl

theorem createUser_of_ne {u id : UserId} {name : String} {db db' : Db} (hne : id ≠ u)
    (h : UserUseCase.createUser id name db = .ok db') : db'.of u = db.of u := by
  unfold UserUseCase.createUser Db.insertUser at h
  split_ifs at h
  split at h
  · cases h
  · rename_i users hu
    split at h
    · cases h
    · rename_i balances hb
      cases h
      refine Db.ext (Table.restrict_append (Table.rows_insert hu) fun x hx => ?_)
        (Table.restrict_append (Table.rows_insert hb) fun b hb => ?_) rfl rfl
      · obtain rfl := List.mem_singleton.1 hx
        exact decide_eq_false hne
      · obtain rfl := List.mem_singleton.1 hb
        exact decide_eq_false hne

theorem getByUserId_of {u : UserId} {db : Db} :
    BalanceRepository.getByUserId (db.of u) u = BalanceRepository.getByUserId db u := by
  simp only [BalanceRepository.getByUserId, Db.find?_balances_of]

theorem topupUserCredits_of {u : UserId} {amount : ℚ} {db : Db} :
    BalanceUseCase.topupUserCredits u amount (db.of u) =
      (BalanceUseCase.topupUserCredits u amount db).map (Db.of u) := by
  have hread : BalanceRepository.topupUserCredits (db.of u) u amount =
      BalanceRepository.topupUserCredits db u amount := by
    simp only [BalanceRepository.topupUserCredits, getByUserId_of]
  unfold BalanceUseCase.topupUserCredits
  rw [hread]
  refine read_map_of rfl fun b hb => ?_
  obtain ⟨-, b₀, hf, rfl⟩ := BalanceRepository.topupUserCredits_ok.1 hb
  exact Db.writeBalance_of (Table.find?_eq_some.1 hf).2

theorem topupUserBalance_of {u : UserId} {amount : ℚ} {db : Db} :
    BalanceUseCase.topupUserBalance u amount (db.of u) =
      (BalanceUseCase.topupUserBalance u amount db).map (leftOf u) := by
  unfold BalanceUseCase.topupUserBalance
  refine read_map_of rfl fun _ _ => ?_
  refine read_map_of getByUserId_of fun row hrow => ?_
  have hu : row.userId = u := (Table.find?_eq_some.1 (BalanceRepository.getByUserId_ok.1 hrow)).2
  exact bind_map_of (Db.writeBalance_of hu) fun _ _ => rfl

/-! ## Requests -/

/-- The user a request is for. -/
def ApiTxn.userId : ApiTxn → UserId
  | .createUser id _ => id
  | .topupUserCredits userId _ => userId
  | .createMessage payload _ => payload.userId
  | .batchCreateMessage payload _ => payload.userId

/-- What a user is told, and what a worker is told of a job. -/
inductive UserReply
  | user (r : Except Exn Unit)
  | balance (r : Except Exn BalanceResponse)
  | message (r : Except Exn Submitted)
  | batch (r : Except Exn (List Message))
  | claim (r : Except Exn Claim)
  | recorded (r : Except Exn (Option (UUID × Recorded)))
  | nothing

section Requests

variable {s : Settings} {now : Time} {db : Db} {t : ApiTxn}

/-- What a request returns. -/
def ApiTxn.answer (s : Settings) (now : Time) (db : Db) : ApiTxn → UserReply
  | .createUser id name => .user ((UserUseCase.createUser id name db).map fun _ => ())
  | .topupUserCredits userId amount =>
    .balance ((BalanceUseCase.topupUserBalance userId amount db).map Prod.snd)
  | .createMessage payload ids => .message (MessageUseCase.createMessage s payload ids now db).2
  | .batchCreateMessage payload ids =>
    .batch (MessageUseCase.batchCreateMessage s payload ids now db).2

theorem commit_map_of {u : UserId} {x x' : Except Exn Db} (h : x' = x.map (Db.of u)) :
    (db.of u).commit (x'.map (·, ())) = (db.commit (x.map (·, ()))).of u := by
  subst h
  cases x <;> rfl

/-- A request does to the rows of its user what it does on the whole database. -/
theorem ApiTxn.apply_of (hdb : db.Accounted) (h : db.OwnIds t.userId (t.submissions now)) :
    t.apply s now (db.of t.userId) = (t.apply s now db).of t.userId := by
  cases t with
  | createUser id name => exact commit_map_of createUser_of
  | topupUserCredits userId amount => exact commit_map_of topupUserCredits_of
  | createMessage payload ids => exact congrArg Prod.fst (createMessage_of hdb h)
  | batchCreateMessage payload ids => exact congrArg Prod.fst (batchCreateMessage_of hdb h)

/-- It returns the same. -/
theorem ApiTxn.answer_of (hdb : db.Accounted) (h : db.OwnIds t.userId (t.submissions now)) :
    t.answer s now (db.of t.userId) = t.answer s now db := by
  cases t with
  | createUser id name =>
    show UserReply.user ((UserUseCase.createUser id name (db.of id)).map _) = _
    rw [createUser_of]
    refine congrArg UserReply.user ?_
    cases UserUseCase.createUser id name db <;> rfl
  | topupUserCredits userId amount =>
    show UserReply.balance
      ((BalanceUseCase.topupUserBalance userId amount (db.of userId)).map _) = _
    rw [topupUserBalance_of]
    refine congrArg UserReply.balance ?_
    cases BalanceUseCase.topupUserBalance userId amount db <;> rfl
  | createMessage payload ids =>
    exact congrArg (fun r => UserReply.message r.2) (createMessage_of hdb h)
  | batchCreateMessage payload ids =>
    exact congrArg (fun r => UserReply.batch r.2) (batchCreateMessage_of hdb h)

/-- What is accepted for another user. -/
theorem MessageUseCase.Accepted.of_ne {u v : UserId} {subs : List Submission} {db' : Db}
    (h : Accepted s v subs db db') (hv : ∀ sub ∈ subs, sub.request.userId = v) (hne : v ≠ u) :
    db'.of u = db.of u := by
  obtain ⟨b, hf, -, hb⟩ := h.balance
  have hbu : b.userId ≠ u := fun hu => hne ((Table.find?_eq_some.1 hf).2.symm.trans hu)
  have hbal := congrArg Db.balances
    (db.of_putBalance (b := b.raised (subs.map (submissionCost s)).sum) hbu)
  refine Db.ext ?_ ?_ (Table.restrict_append h.messages fun m hm => ?_)
    (Table.restrict_append h.jobs fun j hj => ?_)
  · exact congrArg (Table.restrict _) h.users
  · exact (congrArg (Table.restrict _) hb).trans hbal
  · obtain ⟨sub, hsub, rfl⟩ := List.mem_map.1 hm
    exact decide_eq_false ((hv sub hsub).trans_ne hne)
  · obtain ⟨sub, hsub, rfl⟩ := List.mem_map.1 hj
    exact decide_eq_false ((hv sub hsub).trans_ne hne)

/-- A request does nothing to the rows of another user. -/
theorem ApiTxn.apply_of_ne {u : UserId} (h : t.userId ≠ u) :
    (t.apply s now db).of u = db.of u := by
  cases t with
  | createUser id name =>
    simp only [apply]
    cases hc : UserUseCase.createUser id name db with
    | error e => rfl
    | ok db' => exact createUser_of_ne h hc
  | topupUserCredits userId amount =>
    simp only [apply]
    cases hc : BalanceUseCase.topupUserCredits userId amount db with
    | error e => rfl
    | ok db' =>
      obtain ⟨b, credits, hf, -, rfl⟩ := BalanceUseCase.topupUserCredits_ok hc
      exact Db.of_putBalance _ fun hu : b.userId = u =>
        h ((Table.find?_eq_some.1 hf).2.symm.trans hu)
  | createMessage payload ids =>
    simp only [apply, MessageUseCase.createMessage]
    split
    · rename_i hc
      exact (createMessageTx_ok.1 hc).2.of_ne (by simp) h
    · rfl
  | batchCreateMessage payload ids =>
    simp only [apply, MessageUseCase.batchCreateMessage]
    split
    · rfl
    · split
      · rename_i hc
        exact (batchCreateMessageTx_ok.1 hc).2.of_ne (fun _ => user_of_mem_batchSubmissions) h
      · rfl

end Requests

/-! ## Reports -/

/-- A query of rows of the user only. -/
theorem selectWhere_restrict {ρ κ : Type} {key : ρ → κ} {p : ρ → Bool} {t : Table key}
    {conditions : List (Condition ρ)}
    (h : ∀ r ∈ t, (conditions.all fun c => c.holds r) = true → p r = true) :
    selectWhere conditions (t.restrict p).rows = selectWhere conditions t.rows := by
  have hrows : (t.rows.filter p).filter (fun r => conditions.all fun c => c.holds r) =
      t.rows.filter fun r => conditions.all fun c => c.holds r := by
    rw [List.filter_filter]
    refine List.filter_congr fun r hr => ?_
    cases hc : conditions.all fun c => c.holds r with
    | false => rfl
    | true => simp [h r hr hc]
  unfold selectWhere
  rw [Table.restrict, hrows]

section Reports

variable {u : UserId} {db : Db}

theorem calculateSummary_of : MessageRepository.calculateSummary u (db.of u) =
    MessageRepository.calculateSummary u db := by
  unfold MessageRepository.calculateSummary
  rw [Db.of, selectWhere_restrict (by simp)]

theorem getUserMessage_of (messageId : UUID) :
    MessageRepository.getUserMessage messageId u (db.of u) =
      MessageRepository.getUserMessage messageId u db := by
  unfold MessageRepository.getUserMessage
  rw [Db.of, selectWhere_restrict (by simp)]

theorem getUser_of : UserRepository.getUser u (db.of u) = UserRepository.getUser u db := by
  have hselect : selectWhere [⟨fun x : User => x.id = u, [u]⟩] (db.of u).users.rows =
      selectWhere [⟨fun x : User => x.id = u, [u]⟩] db.users.rows :=
    selectWhere_restrict (by simp)
  unfold UserRepository.getUser
  rw [hselect]
  cases hs : selectWhere [⟨fun x : User => x.id = u, [u]⟩] db.users.rows with
  | error e => rfl
  | ok rows =>
    obtain ⟨_, -, hrows⟩ := bind_eq_ok.1 hs
    simp only [bind, Except.bind]
    cases hhead : rows.head? with
    | none => rfl
    | some user =>
      have hid : user.id = u := by
        cases hrows
        simpa using (List.mem_filter.1 (List.mem_of_mem_head? hhead)).2
      simp only [UserUseCase.getBalance, hid, Db.find?_balances_of]

theorem getMessagesSlice_of {scan : Scan Message} {limit offset : ℕ} {filters : MessageFilters}
    (hu : filters.userId = some u) (hne : u ≠ 0) :
    MessageRepository.getMessagesSlice scan limit offset filters (db.of u) =
      MessageRepository.getMessagesSlice scan limit offset filters db := by
  have happlied : filters.applied = filters := MessageFilters.applied_of_ne (by simp [hu, hne])
  have hselect : selectWhere (MessageRepository.queries filters).count (db.of u).messages.rows =
      selectWhere (MessageRepository.queries filters).count db.messages.rows := by
    refine selectWhere_restrict fun m _ hm => ?_
    rw [MessageRepository.holds_queries, happlied] at hm
    simp only [MessageFilters.accepts, hu, Option.all_some, Bool.and_eq_true] at hm
    exact hm.1.1.1.1.1.1.1
  unfold MessageRepository.getMessagesSlice
  simp only [MessageRepository.data_queries, hselect]

end Reports

end Abrio
