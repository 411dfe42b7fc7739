import Abrio.Acceptance

/-!
# How a submission ends

For a state that satisfies the schema constraints, with a balance for every user, and for
storable requests with positive prices and fresh ids (`Submittable`), what a submission
does is decided by four questions about the state it starts in : is a key taken
(`Db.hasKey`), are two keys of the batch equal, is the user there (`Db.hasUser`), is the
credit enough (`Db.lacksCredit`). `submission_outcomes` classifies every call of
`create_message` and of `batch_create_message` by them, in the order in which the
statements raise, and says that only a call that accepts its requests changes the state.
-/

open Relational Runs

namespace Abrio

/-- The credit of the user that is not reserved is less than `cost`. -/
def Db.lacksCredit (db : Db) (u : UserId) (cost : Cents) : Prop :=
  ∃ b, db.balances.find? u = some b ∧ b.credits - b.reservedCredits < cost

namespace MessageUseCase

/-- What a submission may take for granted : of the state the schema constraints and a
balance for every user, of the settings positive prices, and of its requests one user,
values that fit their columns and ids that no row has. -/
structure Submittable (s : Settings) (db : Db) (userId : UserId) (subs : List Submission) :
    Prop where
  constrained : db.Constrained
  user_balance : ∀ u ∈ db.users, ∃ b ∈ db.balances, b.userId = u.id
  price_pos : ∀ p, 0 < s.messageCost p
  subs_ne : subs ≠ []
  user : ∀ sub ∈ subs, sub.request.userId = userId
  storable : ∀ sub ∈ subs, sub.request.storable s = true
  amount : ∀ b, db.balances.find? userId = some b →
    fitsNumeric (b.reservedCredits + (subs.map (submissionCost s)).sum) = true
  fresh : FreshIds db subs

variable {s : Settings} {db db' : Db} {userId : UserId} {subs : List Submission}

namespace Submittable

variable (h : Submittable s db userId subs)

include h

theorem cost_pos : 0 < (subs.map (submissionCost s)).sum :=
  sum_submissionCost_pos h.subs_ne fun _ _ => h.price_pos _

/-- The rows of the new messages pass their checks. -/
theorem checkMessage : ∀ m ∈ subs.map (newMessage s), Db.checkMessage m = .ok () := by
  intro m hm
  obtain ⟨sub, hsub, rfl⟩ := List.mem_map.1 hm
  exact checkMessage_newMessage.2 ⟨h.storable sub hsub, h.price_pos _⟩

theorem storable_messages : ∀ m ∈ subs.map (newMessage s), m.storable = true := fun m hm =>
  (Db.checkMessage_ok.1 (h.checkMessage m hm)).1

theorem newMessages (hkeys : (subs.map fun sub => sub.request.idempotencyKey).Nodup)
    (hnew : ∀ sub ∈ subs, ¬db.hasKey userId sub.request.idempotencyKey)
    (hu : db.hasUser userId) : db.NewMessages (subs.map (newMessage s)) :=
  (newMessages_iff h.user h.subs_ne).2
    ⟨fun sub hsub => ⟨h.storable sub hsub, h.price_pos _⟩, hkeys, hnew, hu⟩

theorem exists_balance (hu : db.hasUser userId) : ∃ b, db.balances.find? userId = some b := by
  obtain ⟨x, hx, rfl⟩ := hu
  obtain ⟨b, hb, hi⟩ := h.user_balance x hx
  exact ⟨b, hi ▸ Table.find?_key hb⟩

/-- Enough credit is what is left to ask when the keys are distinct and free and the user
is there. -/
theorem exists_accepted (hkeys : (subs.map fun sub => sub.request.idempotencyKey).Nodup)
    (hnew : ∀ sub ∈ subs, ¬db.hasKey userId sub.request.idempotencyKey)
    (hu : db.hasUser userId)
    (hcredit : ¬db.lacksCredit userId (subs.map (submissionCost s)).sum) :
    ∃ db', Accepted s userId subs db db' := by
  obtain ⟨b, hb⟩ := h.exists_balance hu
  have hcon := h.constrained.balance b (Table.find?_eq_some.1 hb).1
  have hc : (subs.map (submissionCost s)).sum ≤ b.credits - b.reservedCredits :=
    not_lt.1 fun hlt => hcredit ⟨b, hb, hlt⟩
  refine (exists_accepted_iff h.constrained h.fresh h.user h.subs_ne).2
    ⟨?_, ?_, ?_, ?_, hu, b, hb, ?_⟩
  · simpa using h.storable
  · exact fun _ _ => h.price_pos _
  · simpa [Function.comp_def] using hkeys
  · simpa using hnew
  · rw [← sum_submissionCost]
    exact ⟨le_sub_iff_add_le'.1 hc, add_nonneg hcon.reserved_nonneg h.cost_pos.le,
      hcon.credits_fits⟩

/-! ## The violations -/

/-- A key that is taken violates a unique index, whatever else is wrong. -/
theorem insertMessages_unique (hk : ¬((subs.map fun sub => sub.request.idempotencyKey).Nodup ∧
      ∀ sub ∈ subs, ¬db.hasKey userId sub.request.idempotencyKey)) :
    ∃ c, db.insertMessages (subs.map (newMessage s)) = .error (.db (.uniqueViolation c)) := by
  rw [Db.insertMessages_of_storable h.storable_messages]
  cases hf : (subs.map (newMessage s)).foldlM Db.insertMessageRow db.messages with
  | error e =>
    rcases Table.foldlM_insertRow_error hf with ⟨m, hm, he⟩ | ⟨rfl, -⟩ | ⟨rfl, -⟩
    · rw [h.checkMessage m hm] at he
      cases he
    · exact ⟨_, rfl⟩
    · exact ⟨_, rfl⟩
  | ok t =>
    obtain ⟨-, hnew, hkeys, -⟩ := Db.insertMessageRows_ok.1 hf
    refine absurd ⟨?_, fun sub hsub => ?_⟩ hk
    · rw [List.pairwise_map] at hkeys
      rw [List.Nodup, List.pairwise_map]
      refine hkeys.imp_of_mem fun hsub hsub' hne he => hne ⟨?_, he⟩
      exact (h.user _ hsub).trans (h.user _ hsub').symm
    · rintro ⟨m, hm, hu, hk⟩
      exact hnew _ (List.mem_map_of_mem hsub) m hm ⟨hu.trans (h.user sub hsub).symm, hk⟩

/-- With free keys, an unknown user violates the foreign key of `messages`. -/
theorem insertMessages_foreignKey (hkeys : (subs.map fun sub => sub.request.idempotencyKey).Nodup)
    (hnew : ∀ sub ∈ subs, ¬db.hasKey userId sub.request.idempotencyKey) (hu : ¬db.hasUser userId) :
    db.insertMessages (subs.map (newMessage s)) =
      .error (.db (.foreignKeyViolation .messagesUserIdFkey)) := by
  obtain ⟨t, ht⟩ := h.fresh.exists_messages s
  have hf : (subs.map (newMessage s)).foldlM Db.insertMessageRow db.messages = .ok t := by
    refine Db.insertMessageRows_ok.2 ⟨fun m hm => Db.checkMessage_ok.1 (h.checkMessage m hm), ?_,
      ?_, ht⟩
    · intro m hm x hx he
      obtain ⟨sub, hsub, rfl⟩ := List.mem_map.1 hm
      exact hnew sub hsub ⟨x, hx, he.1.trans (h.user sub hsub), he.2⟩
    · rw [List.pairwise_map]
      exact (List.pairwise_map.1 hkeys).imp fun hne he => hne he.2
  rw [Db.insertMessages_of_storable h.storable_messages, hf]
  cases hc : forM (subs.map (newMessage s)) ({ db with messages := t } : Db).checkMessageUser with
  | ok =>
    obtain ⟨sub, rest, rfl⟩ := List.exists_cons_of_ne_nil h.subs_ne
    obtain ⟨x, hx, hi⟩ := Db.checkMessageUser_ok.1 (forM_eq_ok.1 hc (newMessage s sub) (by simp))
    exact absurd ⟨x, hx, hi.trans (h.user sub (by simp))⟩ hu
  | error e =>
    simp [bind, Except.bind, hc, Db.checkMessageUsers_error hc]

/-- With free keys and a known user, the statements before the write of the balance go
through, and a lack of credit violates its check. -/
theorem statements_lacksCredit (hkeys : (subs.map fun sub => sub.request.idempotencyKey).Nodup)
    (hnew : ∀ sub ∈ subs, ¬db.hasKey userId sub.request.idempotencyKey) (hu : db.hasUser userId)
    (hcredit : db.lacksCredit userId (subs.map (submissionCost s)).sum) :
    ∃ db₁ db₂ b, db.insertMessages (subs.map (newMessage s)) = .ok db₁ ∧
      db₁.insertJobs (subs.map (newJob s)) = .ok db₂ ∧
      BalanceRepository.reserveCredits db₁ userId (subs.map (submissionCost s)).sum = .ok b ∧
      BalanceRepository.reserveCredits db₂ userId (subs.map (submissionCost s)).sum = .ok b ∧
      db₂.writeBalance b = .error (.db (.checkViolation .checkCreditsGeReservedCredits)) := by
  obtain ⟨t, ht⟩ := h.fresh.exists_messages s
  obtain ⟨t', ht'⟩ := h.fresh.exists_jobs s
  obtain ⟨b, hb, hlt⟩ := hcredit
  have hcon := h.constrained.balance b (Table.find?_eq_some.1 hb).1
  have hlt' : b.credits < b.reservedCredits + (subs.map (submissionCost s)).sum :=
    sub_lt_iff_lt_add'.1 hlt
  refine ⟨_, _, { b with reservedCredits := b.reservedCredits + (subs.map (submissionCost s)).sum },
    Db.insertMessages_ok.2 ⟨h.newMessages hkeys hnew hu, t, ht, rfl⟩,
    Db.insertJobs_ok.2
      ⟨h.fresh.newJobs h.constrained ht (h.newMessages hkeys hnew hu), t', ht', rfl⟩,
    BalanceRepository.reserveCredits_ok.2 ⟨h.cost_pos, b, hb, rfl⟩,
    BalanceRepository.reserveCredits_ok.2 ⟨h.cost_pos, b, hb, rfl⟩, ?_⟩
  simp [Db.writeBalance, hcon.credits_fits, h.amount b hb, hlt']

end Submittable

/-! ## One message -/

/-- How a call of `create_message` ends, and what it does to the state. -/
structure CreateOutcome (s : Settings) (payload : MessageRequest) (ids : Ids) (now : Time)
    (db : Db) : Prop where
  replay : (∃ m, (createMessage s payload ids now db).2 = .ok (.replayed m)) ↔
    db.hasKey payload.userId payload.idempotencyKey
  user_not_found : ¬db.hasKey payload.userId payload.idempotencyKey →
    ((createMessage s payload ids now db).2 = .error (.app (.userNotFound payload.userId)) ↔
      ¬db.hasUser payload.userId)
  insufficient_balance : ¬db.hasKey payload.userId payload.idempotencyKey →
    db.hasUser payload.userId →
      ((createMessage s payload ids now db).2 = .error (.app (.insufficientBalance payload.userId
          (s.messageCost payload.priority))) ↔
        db.lacksCredit payload.userId (s.messageCost payload.priority))
  creates : ¬db.hasKey payload.userId payload.idempotencyKey → db.hasUser payload.userId →
    ¬db.lacksCredit payload.userId (s.messageCost payload.priority) →
      ∃ m, (createMessage s payload ids now db).2 = .ok (.created m)
  state : match (createMessage s payload ids now db).2 with
    | .ok (.created m) => m = newMessage s ⟨payload, ids, now⟩ ∧
      Accepted s payload.userId [⟨payload, ids, now⟩] db (createMessage s payload ids now db).1
    | .ok (.replayed m) => db.messageWithKey payload.userId payload.idempotencyKey = some m ∧
      (createMessage s payload ids now db).1 = db
    | .error _ => (createMessage s payload ids now db).1 = db

section Create

variable {payload : MessageRequest} {ids : Ids} {now : Time}

theorem createMessage_of_error {e : Exn} (he : createMessageTx s payload ids now db = .error e) :
    createMessage s payload ids now db = (db, createMessageHandler s payload db e) := by
  simp [createMessage, he]

theorem createMessageTx_of_insert_error {e : Exn}
    (he : db.insertMessages [newMessage s ⟨payload, ids, now⟩] = .error e) :
    createMessageTx s payload ids now db = .error e := by
  rw [createMessageTx_eq, he]
  rfl

variable (h : Submittable s db payload.userId [⟨payload, ids, now⟩])

include h

theorem createMessage_replays {m : Message}
    (hk : db.messageWithKey payload.userId payload.idempotencyKey = some m) :
    createMessage s payload ids now db = (db, .ok (.replayed m)) := by
  have hkey := Db.messageWithKey_isSome.1 ⟨m, hk⟩
  obtain ⟨c, hc⟩ := h.insertMessages_unique fun hn => by simp [hkey] at hn
  rw [createMessage_of_error (createMessageTx_of_insert_error hc)]
  simp [createMessageHandler, MessageRepository.getUserMessageByIdempotencyKey, hk, bind,
    Except.bind, pure, Except.pure]

variable (hk : ¬db.hasKey payload.userId payload.idempotencyKey)

include hk

theorem createMessage_userNotFound (hu : ¬db.hasUser payload.userId) :
    createMessage s payload ids now db =
      (db, .error (.app (.userNotFound payload.userId))) := by
  have he := h.insertMessages_foreignKey (by simp) (by simpa using hk) hu
  rw [createMessage_of_error (createMessageTx_of_insert_error he)]
  rfl

theorem createMessage_insufficientBalance (hu : db.hasUser payload.userId)
    (hc : db.lacksCredit payload.userId (s.messageCost payload.priority)) :
    createMessage s payload ids now db = (db, .error (.app (.insufficientBalance payload.userId
      (s.messageCost payload.priority)))) := by
  obtain ⟨db₁, db₂, b, h₁, h₂, hr, -, hw⟩ := h.statements_lacksCredit (by simp)
    (by simpa using hk) hu (by simpa [submissionCost] using hc)
  simp only [List.map_cons, List.map_nil, List.sum_singleton] at h₁ h₂ hr
  have htx : createMessageTx s payload ids now db =
      .error (.db (.checkViolation .checkCreditsGeReservedCredits)) := by
    rw [createMessageTx_eq]
    simp only [h₁, hr, h₂, hw, bind, Except.bind]
  rw [createMessage_of_error htx]
  rfl

theorem createMessage_creates (hu : db.hasUser payload.userId)
    (hc : ¬db.lacksCredit payload.userId (s.messageCost payload.priority)) :
    ∃ db', createMessage s payload ids now db =
        (db', .ok (.created (newMessage s ⟨payload, ids, now⟩))) ∧
      Accepted s payload.userId [⟨payload, ids, now⟩] db db' := by
  obtain ⟨db', hacc⟩ := h.exists_accepted (by simp) (by simpa using hk) hu
    (by simpa [submissionCost] using hc)
  refine ⟨db', ?_, hacc⟩
  simp [createMessage, createMessageTx_ok.2 ⟨rfl, hacc⟩]

end Create

theorem createMessage_outcome {payload : MessageRequest} {ids : Ids} {now : Time}
    (h : Submittable s db payload.userId [⟨payload, ids, now⟩]) :
    CreateOutcome s payload ids now db := by
  by_cases hk : db.hasKey payload.userId payload.idempotencyKey
  · obtain ⟨m, hm⟩ := Db.messageWithKey_isSome.2 hk
    have hr := createMessage_replays h hm
    constructor <;> simp [hr, hk, hm]
  · by_cases hu : db.hasUser payload.userId
    · by_cases hc : db.lacksCredit payload.userId (s.messageCost payload.priority)
      · have hr := createMessage_insufficientBalance h hk hu hc
        constructor <;> simp [hr, hk, hu, hc]
      · obtain ⟨db', hr, hacc⟩ := createMessage_creates h hk hu hc
        constructor <;> simp [hr, hk, hu, hc, hacc]
    · have hr := createMessage_userNotFound h hk hu
      constructor <;> simp [hr, hk, hu]

/-! ## A batch -/

/-- How a call of `batch_create_message` ends, and what it does to the state. -/
structure BatchOutcome (s : Settings) (payload : BatchMessageRequest) (ids : ℕ → Ids) (now : Time)
    (db : Db) : Prop where
  duplicate :
    (∃ key, (batchCreateMessage s payload ids now db).2 =
        .error (.app (.idempotencyDuplicate key))) ↔
      ¬(payload.messages.map (·.idempotencyKey)).Nodup
  conflict : (payload.messages.map (·.idempotencyKey)).Nodup →
    ((batchCreateMessage s payload ids now db).2 = .error (.app .idempotencyConflict) ↔
      ∃ item ∈ payload.messages, db.hasKey payload.userId item.idempotencyKey)
  user_not_found : (payload.messages.map (·.idempotencyKey)).Nodup →
    (∀ item ∈ payload.messages, ¬db.hasKey payload.userId item.idempotencyKey) →
      ((batchCreateMessage s payload ids now db).2 =
          .error (.app (.userNotFound payload.userId)) ↔ ¬db.hasUser payload.userId)
  insufficient_balance : (payload.messages.map (·.idempotencyKey)).Nodup →
    (∀ item ∈ payload.messages, ¬db.hasKey payload.userId item.idempotencyKey) →
      db.hasUser payload.userId →
        ((batchCreateMessage s payload ids now db).2 =
            .error (.app (.insufficientBalance payload.userId
              (calculateBatchMessageCost s payload.messages))) ↔
          db.lacksCredit payload.userId
            (payload.messages.map fun item => s.messageCost item.priority).sum)
  creates : (payload.messages.map (·.idempotencyKey)).Nodup →
    (∀ item ∈ payload.messages, ¬db.hasKey payload.userId item.idempotencyKey) →
      db.hasUser payload.userId →
        ¬db.lacksCredit payload.userId
            (payload.messages.map fun item => s.messageCost item.priority).sum →
          ∃ ms, (batchCreateMessage s payload ids now db).2 = .ok ms
  state : match (batchCreateMessage s payload ids now db).2 with
    | .ok ms => ms = (batchSubmissions payload ids now).map (newMessage s) ∧
      Accepted s payload.userId (batchSubmissions payload ids now) db
        (batchCreateMessage s payload ids now db).1
    | .error _ => (batchCreateMessage s payload ids now db).1 = db

theorem checkDuplicateIdempotencyKeys_eq_none {seen : List UUID}
    {items : List BatchMessageRequestItem} :
    checkDuplicateIdempotencyKeys seen items = none ↔
      (items.map (·.idempotencyKey)).Nodup ∧ ∀ item ∈ items, item.idempotencyKey ∉ seen := by
  induction items generalizing seen with
  | nil => simp [checkDuplicateIdempotencyKeys]
  | cons item items ih =>
    rw [checkDuplicateIdempotencyKeys]
    split_ifs with hs
    · simp [hs]
    · simp only [ih, List.map_cons, List.nodup_cons, List.mem_map, List.mem_cons, not_or,
        forall_eq_or_imp, hs, not_false_eq_true, true_and, not_exists, not_and]
      constructor
      · rintro ⟨hn, hi⟩
        exact ⟨⟨fun x hx => (hi x hx).1, hn⟩, fun x hx => (hi x hx).2⟩
      · rintro ⟨⟨hne, hn⟩, hi⟩
        exact ⟨hn, fun x hx => ⟨hne x hx, hi x hx⟩⟩

section Batch

variable {payload : BatchMessageRequest} {ids : ℕ → Ids} {now : Time}

theorem map_key_batchSubmissions :
    ((batchSubmissions payload ids now).map fun sub => sub.request.idempotencyKey) =
      payload.messages.map (·.idempotencyKey) := by
  rw [batchSubmissions, List.map_map, ← List.zipIdx_map_fst 0 payload.messages, List.map_map]
  simp [Function.comp_def, BatchMessageRequestItem.toRequest]

theorem sum_cost_batchSubmissions :
    ((batchSubmissions payload ids now).map (submissionCost s)).sum =
      (payload.messages.map fun item => s.messageCost item.priority).sum := by
  rw [← calculateBatchMessageCost_eq, calculateBatchMessageCost, foldl_cost, zero_add]

theorem no_key_batchSubmissions :
    (∀ sub ∈ batchSubmissions payload ids now,
        ¬db.hasKey payload.userId sub.request.idempotencyKey) ↔
      ∀ item ∈ payload.messages, ¬db.hasKey payload.userId item.idempotencyKey :=
  forall_mem_batchSubmissions (P := fun r => ¬db.hasKey payload.userId r.idempotencyKey)

/-- Distinct keys go on to the transaction. -/
theorem batchCreateMessage_of_nodup (hn : (payload.messages.map (·.idempotencyKey)).Nodup) :
    batchCreateMessage s payload ids now db =
      match batchCreateMessageTx s payload ids now db with
      | .ok (db', messages) => (db', .ok messages)
      | .error e => (db, .error (batchCreateMessageHandler s payload e)) := by
  have hd : checkDuplicateIdempotencyKeys [] payload.messages = none :=
    checkDuplicateIdempotencyKeys_eq_none.2 ⟨hn, by simp⟩
  unfold batchCreateMessage
  split
  · simp_all
  · rfl

theorem batchCreateMessage_duplicate (s : Settings) (db : Db) (now : Time) (ids : ℕ → Ids)
    (hn : ¬(payload.messages.map (·.idempotencyKey)).Nodup) :
    ∃ key, batchCreateMessage s payload ids now db =
      (db, .error (.app (.idempotencyDuplicate key))) := by
  cases hd : checkDuplicateIdempotencyKeys [] payload.messages with
  | none => exact absurd (checkDuplicateIdempotencyKeys_eq_none.1 hd).1 hn
  | some key => exact ⟨key, by simp [batchCreateMessage, hd]⟩

theorem batchCreateMessageTx_of_insert_error {e : Exn}
    (he : db.insertMessages ((batchSubmissions payload ids now).map (newMessage s)) = .error e) :
    batchCreateMessageTx s payload ids now db = .error e := by
  rw [batchCreateMessageTx_eq, he]
  rfl

variable (h : Submittable s db payload.userId (batchSubmissions payload ids now))
  (hn : (payload.messages.map (·.idempotencyKey)).Nodup)

include h hn

theorem batchCreateMessage_conflict
    (hk : ∃ item ∈ payload.messages, db.hasKey payload.userId item.idempotencyKey) :
    batchCreateMessage s payload ids now db = (db, .error (.app .idempotencyConflict)) := by
  obtain ⟨item, hitem, hkey⟩ := hk
  obtain ⟨c, hc⟩ := h.insertMessages_unique fun hn =>
    no_key_batchSubmissions.1 hn.2 item hitem hkey
  rw [batchCreateMessage_of_nodup hn, batchCreateMessageTx_of_insert_error hc]
  rfl

variable (hk : ∀ item ∈ payload.messages, ¬db.hasKey payload.userId item.idempotencyKey)

include hk

theorem batchCreateMessage_userNotFound (hu : ¬db.hasUser payload.userId) :
    batchCreateMessage s payload ids now db =
      (db, .error (.app (.userNotFound payload.userId))) := by
  have he := h.insertMessages_foreignKey (map_key_batchSubmissions ▸ hn)
    (no_key_batchSubmissions.2 hk) hu
  rw [batchCreateMessage_of_nodup hn, batchCreateMessageTx_of_insert_error he]
  rfl

theorem batchCreateMessage_insufficientBalance (hu : db.hasUser payload.userId)
    (hc : db.lacksCredit payload.userId
      (payload.messages.map fun item => s.messageCost item.priority).sum) :
    batchCreateMessage s payload ids now db = (db, .error (.app (.insufficientBalance
      payload.userId (calculateBatchMessageCost s payload.messages)))) := by
  rw [← sum_cost_batchSubmissions] at hc
  obtain ⟨db₁, db₂, b, h₁, h₂, -, hr, hw⟩ := h.statements_lacksCredit
    (map_key_batchSubmissions ▸ hn) (no_key_batchSubmissions.2 hk) hu hc
  have htx : batchCreateMessageTx s payload ids now db =
      .error (.db (.checkViolation .checkCreditsGeReservedCredits)) := by
    rw [batchCreateMessageTx_eq]
    simp only [h₁, hr, h₂, hw, bind, Except.bind]
  rw [batchCreateMessage_of_nodup hn, htx]
  rfl

theorem batchCreateMessage_creates (hu : db.hasUser payload.userId)
    (hc : ¬db.lacksCredit payload.userId
      (payload.messages.map fun item => s.messageCost item.priority).sum) :
    ∃ db', batchCreateMessage s payload ids now db =
        (db', .ok ((batchSubmissions payload ids now).map (newMessage s))) ∧
      Accepted s payload.userId (batchSubmissions payload ids now) db db' := by
  rw [← sum_cost_batchSubmissions] at hc
  obtain ⟨db', hacc⟩ := h.exists_accepted (map_key_batchSubmissions ▸ hn)
    (no_key_batchSubmissions.2 hk) hu hc
  refine ⟨db', ?_, hacc⟩
  simp [batchCreateMessage_of_nodup hn, batchCreateMessageTx_ok.2 ⟨rfl, hacc⟩]

end Batch

theorem batchCreateMessage_outcome {payload : BatchMessageRequest} {ids : ℕ → Ids} {now : Time}
    (h : Submittable s db payload.userId (batchSubmissions payload ids now)) :
    BatchOutcome s payload ids now db := by
  by_cases hn : (payload.messages.map (·.idempotencyKey)).Nodup
  · by_cases hk : ∀ item ∈ payload.messages, ¬db.hasKey payload.userId item.idempotencyKey
    · have hk' : ¬∃ item ∈ payload.messages, db.hasKey payload.userId item.idempotencyKey :=
        fun ⟨item, hitem, hi⟩ => hk item hitem hi
      by_cases hu : db.hasUser payload.userId
      · by_cases hc : db.lacksCredit payload.userId
            (payload.messages.map fun item => s.messageCost item.priority).sum
        · have hr := batchCreateMessage_insufficientBalance h hn hk hu hc
          constructor <;> simp [hr, hn, hk', hu, hc]
        · obtain ⟨db', hr, hacc⟩ := batchCreateMessage_creates h hn hk hu hc
          constructor <;> simp [hr, hn, hk', hu, hc, hacc]
      · have hr := batchCreateMessage_userNotFound h hn hk hu
        constructor <;> simp [hr, hn, hk', hu]
    · have hk' : ∃ item ∈ payload.messages, db.hasKey payload.userId item.idempotencyKey := by
        simpa using hk
      have hr := batchCreateMessage_conflict h hn hk'
      constructor <;> simp [hr, hn, hk, hk']
  · obtain ⟨key, hr⟩ := batchCreateMessage_duplicate s db now ids hn
    constructor <;> simp [hr, hn]

/-- Every call of `create_message` and of `batch_create_message` ends as the questions say. -/
theorem submission_outcomes (s : Settings) (db : Db) (now : Time) :
    (∀ payload ids, Submittable s db payload.userId [⟨payload, ids, now⟩] →
      CreateOutcome s payload ids now db) ∧
    (∀ payload ids, Submittable s db payload.userId (batchSubmissions payload ids now) →
      BatchOutcome s payload ids now db) :=
  ⟨fun _ _ => createMessage_outcome, fun _ _ => batchCreateMessage_outcome⟩

end MessageUseCase

/-- One user with five credits and nothing submitted. -/
def Db.oneUser : Db where
  users := ⟨[{ id := 1, name := "user" }], by simp⟩
  balances := ⟨[{ userId := 1, credits := 500 }], by simp⟩
  messages := .empty
  jobs := .empty

theorem Db.constrained_oneUser : Db.oneUser.Constrained := by
  constructor
  · simp only [Db.oneUser, Table.mem_def, List.mem_singleton, forall_eq]
    exact ⟨by decide, by decide, by decide⟩
  all_goals simp [Db.oneUser, Table.mem_def, Table.empty]

/-- A request of the user, and a batch of two. -/
def MessageRequest.sample : MessageRequest where
  userId := 1
  recipient := "09121234567"
  body := "hello"
  priority := .normal
  idempotencyKey := 7

/-- A batch with both priorities. -/
def BatchMessageRequest.sample : BatchMessageRequest where
  userId := 1
  messages := [⟨"09121234567", "hello", .normal, 7⟩, ⟨"09121234567", "again", .express, 8⟩]
  messages_ne := by simp

namespace MessageUseCase

theorem user_balance_oneUser :
    ∀ u ∈ Db.oneUser.users, ∃ b ∈ Db.oneUser.balances, b.userId = u.id := by
  simp [Db.oneUser, Table.mem_def]

theorem freshIds_oneUser {subs : List Submission}
    (hm : (subs.map fun sub => sub.ids.messageId).Nodup)
    (hj : (subs.map fun sub => sub.ids.jobId).Nodup) : FreshIds Db.oneUser subs :=
  ⟨by simp [Db.oneUser], by simp [Db.oneUser], hm, hj⟩

theorem submission_outcomes_sample :
    CreateOutcome {} .sample ⟨10, 20⟩ 0 Db.oneUser ∧
      BatchOutcome {} .sample (fun i => ⟨10 + i, 20 + i⟩) 0 Db.oneUser := by
  have hprice : ∀ p, 0 < ({} : Settings).messageCost p := by
    intro p
    cases p <;> decide
  have h := submission_outcomes {} Db.oneUser 0
  refine ⟨h.1 _ _ ⟨Db.constrained_oneUser, user_balance_oneUser, hprice, by decide, by decide,
      by decide +kernel, ?_, freshIds_oneUser (by decide) (by decide)⟩,
    h.2 _ _ ⟨Db.constrained_oneUser, user_balance_oneUser, hprice, by decide, by decide,
      by decide +kernel, ?_, freshIds_oneUser (by decide) (by decide)⟩⟩
  · rintro b ⟨⟩
    decide
  · rintro b ⟨⟩
    decide

end MessageUseCase

end Abrio
