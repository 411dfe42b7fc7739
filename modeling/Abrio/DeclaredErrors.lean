import Abrio.Library.Str
import Abrio.SubmissionOutcomes

/-!
# Declared errors

A submission handles three violations, and leaves every other error of the database to its
caller : that of a value no column holds, and that of a price which the settings have rounded to
nothing. The schemas accept such values. A user id is any integer, a text may have the character
U+0000, and what is reserved adds up. `declared_iff` says for which requests and states every
call ends with a result or an `AppError`.
-/

open Python Relational Runs

namespace Abrio

/-! ## What the schemas accept -/

/-- The zeros of the scripts that Unicode has got since the version of Python's own tables. -/
def recentZeroDigits : List ℕ :=
  [0x10D40, 0x116D0, 0x116DA, 0x11BF0, 0x16130, 0x16D70, 0x1CCF0, 0x1E5F1]

/-- `\d` of a pattern, which is matched by the tables of pydantic. -/
def isPatternDigit (c : ℕ) : Bool :=
  Str.isDecimalChar c || recentZeroDigits.any fun z => z ≤ c && c ≤ z + 9

/-- `^(\+98|0)?9\d{9}$`, with digits of any script. -/
def matchesRecipient (recipient : String) : Bool :=
  ["+989", "09", "9"].any fun head =>
    let digits := (Str.ofString recipient).drop head.length
    (Str.ofString recipient).startsWith (.ofString head) && digits.length = 9 &&
      digits.all isPatternDigit

/-- `min_length=1, max_length=70`. -/
def matchesBody (body : String) : Bool :=
  1 ≤ body.toList.length && body.toList.length ≤ 70

/-- The schema of a message accepts the request. -/
def MessageRequest.valid (r : MessageRequest) : Bool :=
  matchesRecipient r.recipient && matchesBody r.body

/-- The schema of an item accepts it. -/
def BatchMessageRequestItem.valid (item : BatchMessageRequestItem) : Bool :=
  matchesRecipient item.recipient && matchesBody item.body

/-- The schema of a batch accepts each of its items. -/
def BatchMessageRequest.valid (payload : BatchMessageRequest) : Bool :=
  payload.messages.all BatchMessageRequestItem.valid

/-- An accepted recipient fits its column. -/
theorem storable_of_matchesRecipient {recipient : String} (h : matchesRecipient recipient = true) :
    storableVarchar 13 recipient = true := by
  have hdigit : isPatternDigit 0 = false := by decide
  have hheads : ∀ head ∈ ["+989", "09", "9"], (Str.ofString head).length = head.length ∧
      head.length ≤ 4 ∧ 0 ∉ Str.ofString head := by
    decide
  have hlength : (Str.ofString recipient).length = recipient.toList.length := List.length_map _
  have hzero : Char.ofNat 0 ∈ recipient.toList → 0 ∈ Str.ofString recipient := fun hmem =>
    List.mem_map.2 ⟨_, hmem, rfl⟩
  obtain ⟨head, hhead, hm⟩ := List.any_eq_true.1 h
  simp only [Bool.and_eq_true, decide_eq_true_eq] at hm
  obtain ⟨⟨hstart, hnine⟩, hall⟩ := hm
  obtain ⟨hsame, hfour, hnone⟩ := hheads head hhead
  obtain ⟨rest, hrest⟩ := Str.startsWith_iff.1 hstart
  have hdrop : (Str.ofString recipient).drop head.length = rest := by
    rw [← hrest, ← hsame, List.drop_left]
  rw [hdrop] at hnine hall
  have hfresh : 0 ∉ Str.ofString recipient := by
    rw [← hrest, List.mem_append]
    rintro (hmem | hmem)
    · exact hnone hmem
    · exact Bool.false_ne_true (hdigit.symm.trans (List.all_eq_true.1 hall _ hmem))
  have hlen : recipient.toList.length ≤ 13 := by
    rw [← hlength, ← hrest, List.length_append, hsame, hnine]
    omega
  simp only [storableVarchar, storableText, Bool.and_eq_true, decide_eq_true_eq, Bool.not_eq_true',
    List.contains_eq_mem, decide_eq_false_iff_not]
  exact ⟨hlen, fun hmem => hfresh (hzero hmem)⟩

/-- Of an accepted request, what is left to fit is the user, the text and the cost. -/
theorem MessageRequest.storable_iff {s : Settings} {r : MessageRequest} (h : r.valid = true) :
    r.storable s = true ↔ fitsInt4 r.userId = true ∧ storableText r.body = true ∧
      fitsNumeric (s.messageCost r.priority) = true := by
  simp only [MessageRequest.valid, matchesBody, Bool.and_eq_true, decide_eq_true_eq] at h
  rw [MessageRequest.storable, storable_of_matchesRecipient h.1]
  simp [storableVarchar, h.2.2, and_assoc]

/-! ## Declared and handled errors -/

/-- A result, or an `AppError`. -/
def Declared {α : Type} (r : Except Exn α) : Prop :=
  ∀ e, r = .error e → ∃ a, e = .app a

/-- The handlers of a submission make an `AppError` of it, or a result. -/
def Exn.handled : Exn → Bool
  | .app _ => true
  | .db (.uniqueViolation _) => true
  | .db (.foreignKeyViolation _) => true
  | .db (.checkViolation c) => c = .checkCreditsGeReservedCredits
  | _ => false

/-- A state that the columns hold. -/
structure Db.Stored (db : Db) : Prop extends db.Constrained where
  user_id : ∀ u ∈ db.users, fitsInt4 u.id = true

theorem declared_ok {α : Type} (a : α) : Declared (.ok a) := by
  rintro _ ⟨⟩

theorem declared_error {α : Type} {e : Exn} :
    Declared (.error e : Except Exn α) ↔ ∃ a, e = .app a :=
  ⟨fun h => h e rfl, fun h _ he => Except.error.inj he ▸ h⟩

namespace MessageUseCase

variable {s : Settings} {db db' : Db} {now : Time}

theorem createMessageHandler_declared {payload : MessageRequest} {e : Exn} :
    Declared (createMessageHandler s payload db e) ↔ e.handled = true := by
  rcases e with (c | c | c | _ | _) | a | f
  · have hfound : Declared (createMessageHandler s payload db (.db (.uniqueViolation c))) := by
      unfold createMessageHandler MessageRepository.getUserMessageByIdempotencyKey
      cases db.messageWithKey payload.userId payload.idempotencyKey with
      | none => exact declared_error.2 ⟨_, rfl⟩
      | some m => exact declared_ok _
    exact iff_of_true hfound rfl
  · exact iff_of_true (declared_error.2 ⟨_, rfl⟩) rfl
  · by_cases hc : c = .checkCreditsGeReservedCredits
    · subst hc
      exact iff_of_true (declared_error.2 ⟨_, rfl⟩) rfl
    · have he : createMessageHandler s payload db (.db (.checkViolation c)) =
          .error (.db (.checkViolation c)) := by
        cases c <;> first | rfl | exact absurd rfl hc
      rw [he, declared_error]
      simp [Exn.handled, hc]
  · exact iff_of_false (fun h => by obtain ⟨_, ⟨⟩⟩ := declared_error.1 h) Bool.false_ne_true
  · exact iff_of_false (fun h => by obtain ⟨_, ⟨⟩⟩ := declared_error.1 h) Bool.false_ne_true
  · exact iff_of_true (declared_error.2 ⟨_, rfl⟩) rfl
  · exact iff_of_false (fun h => by obtain ⟨_, ⟨⟩⟩ := declared_error.1 h) Bool.false_ne_true

theorem batchCreateMessageHandler_declared {payload : BatchMessageRequest} {e : Exn} :
    (∃ a, batchCreateMessageHandler s payload e = .app a) ↔ e.handled = true := by
  rcases e with (c | c | c | _ | _) | a | f
  · exact iff_of_true ⟨_, rfl⟩ rfl
  · exact iff_of_true ⟨_, rfl⟩ rfl
  · by_cases hc : c = .checkCreditsGeReservedCredits
    · subst hc
      exact iff_of_true ⟨_, rfl⟩ rfl
    · have he : batchCreateMessageHandler s payload (.db (.checkViolation c)) =
          .db (.checkViolation c) := by
        cases c <;> first | rfl | exact absurd rfl hc
      simp [he, Exn.handled, hc]
  · exact iff_of_false (fun ⟨_, h⟩ => by cases h) Bool.false_ne_true
  · exact iff_of_false (fun ⟨_, h⟩ => by cases h) Bool.false_ne_true
  · exact iff_of_true ⟨_, rfl⟩ rfl
  · exact iff_of_false (fun ⟨_, h⟩ => by cases h) Bool.false_ne_true

/-- A call of `create_message` is declared when every error of its transaction is handled. -/
theorem createMessage_declared {payload : MessageRequest} {ids : Ids} :
    Declared (createMessage s payload ids now db).2 ↔
      ∀ e, createMessageTx s payload ids now db = .error e → e.handled = true := by
  unfold createMessage
  cases createMessageTx s payload ids now db with
  | ok r => exact iff_of_true (declared_ok _) (by rintro _ ⟨⟩)
  | error e =>
    rw [createMessageHandler_declared]
    exact ⟨fun h e' he => Except.error.inj he ▸ h, fun h => h e rfl⟩

/-- So is a call of `batch_create_message`, or it is refused before for a key it has twice. -/
theorem batchCreateMessage_declared {payload : BatchMessageRequest} {ids : ℕ → Ids} :
    Declared (batchCreateMessage s payload ids now db).2 ↔
      ((payload.messages.map (·.idempotencyKey)).Nodup →
        ∀ e, batchCreateMessageTx s payload ids now db = .error e → e.handled = true) := by
  by_cases hn : (payload.messages.map (·.idempotencyKey)).Nodup
  · rw [batchCreateMessage_of_nodup hn]
    cases batchCreateMessageTx s payload ids now db with
    | ok r => exact iff_of_true (declared_ok _) (by rintro _ _ ⟨⟩)
    | error e =>
      rw [declared_error, batchCreateMessageHandler_declared]
      exact ⟨fun h _ e' he => Except.error.inj he ▸ h, fun h => h hn e rfl⟩
  · obtain ⟨key, hr⟩ := batchCreateMessage_duplicate s db now ids hn
    rw [hr]
    exact iff_of_true (declared_error.2 ⟨_, rfl⟩) fun h => absurd h hn

/-! ## The statements -/

/-- The values that a submission of `rs` writes fit their columns. Of its prices none has been
rounded to nothing, or a message before has a key that is taken. -/
structure WritesFit (s : Settings) (db : Db) (u : UserId) (rs : List MessageRequest) : Prop where
  user : fitsInt4 u = true
  body : ∀ r ∈ rs, storableText r.body = true
  cost : ∀ r ∈ rs, fitsNumeric (s.messageCost r.priority) = true
  cost_pos : ∀ pre r post, rs = pre ++ r :: post →
    (∀ x ∈ pre, ¬db.hasKey u x.idempotencyKey) → 0 < s.messageCost r.priority
  reserved : (∀ r ∈ rs, ¬db.hasKey u r.idempotencyKey) → ∀ b, db.balances.find? u = some b →
    fitsNumeric (b.reservedCredits + requestsCost s rs) = true

/-- What a row of a message whose values fit is refused for. -/
theorem checkMessage_error {m : Message} (hs : m.storable = true) {e : Exn}
    (h : Db.checkMessage m = .error e) :
    e = .db (.checkViolation .checkCostGtZero) ∧ m.cost ≤ 0 := by
  unfold Db.checkMessage at h
  split_ifs at h with hn hc
  · exact absurd hs (by simpa using hn)
  · cases h
    exact ⟨rfl, hc⟩

/-- Accepted requests of one user, with distinct keys and with ids that are new. -/
structure Submitted (db : Db) (u : UserId) (subs : List Submission) : Prop where
  ne_nil : subs ≠ []
  user : ∀ sub ∈ subs, sub.request.userId = u
  valid : ∀ sub ∈ subs, sub.request.valid = true
  keys : (subs.map fun sub => sub.request.idempotencyKey).Nodup
  fresh : FreshIds db subs

namespace Submitted

variable {u : UserId} {subs : List Submission} (h : Submitted db u subs)

include h

theorem storable_iff : (∀ m ∈ subs.map (newMessage s), m.storable = true) ↔
    fitsInt4 u = true ∧ (∀ r ∈ subs.map Submission.request, storableText r.body = true) ∧
      ∀ r ∈ subs.map Submission.request, fitsNumeric (s.messageCost r.priority) = true := by
  have hiff : ∀ sub ∈ subs, ((newMessage s sub).storable = true ↔ fitsInt4 u = true ∧
      storableText sub.request.body = true ∧
        fitsNumeric (s.messageCost sub.request.priority) = true) := fun sub hsub => by
    rw [← h.user sub hsub]
    exact MessageRequest.storable_iff (h.valid sub hsub)
  simp only [List.forall_mem_map]
  refine ⟨?_, ?_⟩
  · intro hs
    obtain ⟨sub, rest, hsubs⟩ := List.exists_cons_of_ne_nil h.ne_nil
    have hsub : sub ∈ subs := hsubs ▸ List.mem_cons_self
    exact ⟨((hiff sub hsub).1 (hs sub hsub)).1, fun x hx => ((hiff x hx).1 (hs x hx)).2.1,
      fun x hx => ((hiff x hx).1 (hs x hx)).2.2⟩
  · rintro ⟨hu, hb, hc⟩ sub hsub
    exact (hiff sub hsub).2 ⟨hu, hb sub hsub, hc sub hsub⟩

/-- The rows of a part of the messages are refused for nothing but a price, or a taken key. -/
theorem insertRows_error {pre post : List Submission} (hsubs : subs = pre ++ post)
    (hs : ∀ m ∈ subs.map (newMessage s), m.storable = true) {e : Exn}
    (he : (pre.map (newMessage s)).foldlM Db.insertMessageRow db.messages = .error e) :
    e = .db (.checkViolation .checkCostGtZero) ∨
      ∃ sub ∈ pre, db.hasKey u sub.request.idempotencyKey := by
  subst hsubs
  rcases Table.foldlM_insertRow_error he with ⟨m, hm, hc⟩ | ⟨-, hn⟩ | ⟨-, hclash⟩
  · refine .inl (checkMessage_error (hs m ?_) hc).1
    rw [List.map_append]
    exact List.mem_append_left _ hm
  · obtain ⟨t, ht⟩ := h.fresh.exists_messages s
    have hnodup := t.nodup
    rw [ht, @List.map_append _ _ (newMessage s), ← List.append_assoc, List.map_append] at hnodup
    exact absurd hnodup.of_append_left hn
  · by_contra hfree
    simp only [not_or, not_exists, not_and] at hfree
    refine hclash ⟨?_, ?_⟩
    · simp only [List.forall_mem_map, Db.sameKey_eq_false]
      rintro sub hsub x hx ⟨hxu, hxk⟩
      exact hfree.2 sub hsub ⟨x, hx, hxu.trans (h.user sub (List.mem_append_left _ hsub)), hxk⟩
    · have hkeys := h.keys
      rw [List.map_append] at hkeys
      rw [List.pairwise_map]
      exact (List.pairwise_map.1 hkeys.of_append_left).imp fun hne =>
        Db.sameKey_eq_false.2 fun hsame => hne hsame.2

/-- A message whose price was rounded to nothing violates a check, when no key before it is
taken. -/
theorem insertMessages_checkCost {pre post : List Submission} {sub : Submission}
    (hsubs : subs = pre ++ sub :: post) (hs : ∀ m ∈ subs.map (newMessage s), m.storable = true)
    (hfree : ∀ x ∈ pre, ¬db.hasKey u x.request.idempotencyKey)
    (hc : s.messageCost sub.request.priority ≤ 0) :
    db.insertMessages (subs.map (newMessage s)) =
      .error (.db (.checkViolation .checkCostGtZero)) := by
  have hcheck : Db.checkMessage (newMessage s sub) =
      .error (.db (.checkViolation .checkCostGtZero)) := by
    have hm := hs (newMessage s sub) (List.mem_map_of_mem (by simp [hsubs]))
    have hcost : (newMessage s sub).cost ≤ 0 := hc
    simp [Db.checkMessage, hm, hcost]
  have hrows : (subs.map (newMessage s)).foldlM Db.insertMessageRow db.messages =
      .error (.db (.checkViolation .checkCostGtZero)) := by
    rw [hsubs, List.map_append, List.foldlM_append, List.map_cons]
    cases hpre : (pre.map (newMessage s)).foldlM Db.insertMessageRow db.messages with
    | error e =>
      rcases h.insertRows_error hsubs hs hpre with rfl | ⟨x, hx, hk⟩
      · rfl
      · exact absurd hk (hfree x hx)
    | ok t =>
      have hrow : Db.insertMessageRow t (newMessage s sub) =
          .error (.db (.checkViolation .checkCostGtZero)) := by
        simp [Db.insertMessageRow, Table.insertRow, hcheck]
      refine bind_eq_error.2 (.inr ⟨t, rfl, ?_⟩)
      rw [List.foldlM_cons, hrow]
      rfl
  rw [Db.insertMessages_of_storable hs, hrows]
  rfl

/-- Where the values fit, an error of the first statement is handled. -/
theorem insertMessages_handled (hw : WritesFit s db u (subs.map Submission.request)) {e : Exn}
    (he : db.insertMessages (subs.map (newMessage s)) = .error e) : e.handled = true := by
  have hs := h.storable_iff.2 ⟨hw.user, hw.body, hw.cost⟩
  rw [Db.insertMessages_of_storable hs] at he
  rcases bind_eq_error.1 he with hf | ⟨t, -, hf⟩
  · obtain ⟨pre, m, post, t, hsplit, hpre, hm⟩ := exists_of_foldlM_eq_error hf
    obtain ⟨pre, rest, rfl, rfl, hrest⟩ := List.map_eq_append_iff.1 hsplit
    obtain ⟨sub, post, rfl, rfl, rfl⟩ := List.map_eq_cons_iff.1 hrest
    rcases Table.insertRow_error hm with hc | ⟨rfl, -⟩ | ⟨rfl, -⟩
    · obtain ⟨-, hfree, -⟩ := Db.insertMessageRows_ok.1 hpre
      have hpos := hw.cost_pos (pre.map Submission.request) sub.request
        (post.map Submission.request) (by simp) ?_
      · have hcost := (checkMessage_error (hs _ (by simp)) hc).2
        exact absurd hcost (not_le.2 hpos)
      · simp only [List.forall_mem_map]
        rintro x hx ⟨m, hm, hmu, hmk⟩
        have hxu := h.user x (by simp [hx])
        exact hfree _ (List.mem_map_of_mem hx) m hm ⟨hmu.trans hxu.symm, hmk⟩
    · rfl
    · rfl
  · rcases bind_eq_error.1 hf with hc | ⟨_, -, ⟨⟩⟩
    rw [Db.checkMessageUsers_error hc]
    rfl

/-- No key is taken of messages that are new. -/
theorem not_hasKey (hnew : db.NewMessages (subs.map (newMessage s))) :
    ∀ r ∈ subs.map Submission.request, ¬db.hasKey u r.idempotencyKey :=
  List.forall_mem_map.2 fun sub hsub =>
    ((newMessages_iff h.user h.ne_nil).1 hnew).2.2.1 sub hsub

variable (hdb : db.Stored)

include hdb

/-- After the messages, an error of the statement for the jobs is handled. -/
theorem insertJobs_handled {db₁ : Db}
    (h₁ : db.insertMessages (subs.map (newMessage s)) = .ok db₁) {e : Exn}
    (he : db₁.insertJobs (subs.map (newJob s)) = .error e) : e.handled = true := by
  obtain ⟨hnew, t, ht, rfl⟩ := Db.insertMessages_ok.1 h₁
  have hjobs := h.fresh.newJobs hdb.toConstrained ht hnew
  rcases Db.insertJobs_error he with ⟨-, j, hj, hs⟩ | ⟨c, rfl⟩ | ⟨rfl, -⟩ | ⟨rfl, -⟩
  · exact absurd (hjobs.storable j hj) (by simp [hs])
  · rfl
  · rfl
  · rfl

/-- Then the write of the balance fails by a lack of credit only, where the sum fits. -/
theorem writeBalance_handled (hw : WritesFit s db u (subs.map Submission.request)) {db₂ : Db}
    {b : Balance} (hnew : db.NewMessages (subs.map (newMessage s)))
    (hb : db.balances.find? u = some b) (hpos : 0 < (subs.map (submissionCost s)).sum) {e : Exn}
    (he : db₂.writeBalance (b.raised (subs.map (submissionCost s)).sum) = .error e) :
    e.handled = true := by
  have hcon := hdb.balance b (Table.find?_eq_some.1 hb).1
  have hfits := hw.reserved (h.not_hasKey hnew) b hb
  rw [← sum_submissionCost] at hfits
  have hreserved : 0 ≤ b.reservedCredits + (subs.map (submissionCost s)).sum :=
    add_nonneg hcon.reserved_nonneg hpos.le
  unfold Db.writeBalance at he
  split_ifs at he with hf hge hc hr
  · simp [Balance.raised, hcon.credits_fits, hfits] at hf
  · cases he
    rfl
  · exact absurd hc (not_lt.2 (hreserved.trans (not_lt.1 hge)))
  · exact absurd hr (not_lt.2 hreserved)

/-- Where the sum does not fit, it is the write of the balance that fails, after the others. -/
theorem exists_statements (hs : ∀ m ∈ subs.map (newMessage s), m.storable = true)
    (hc : ∀ sub ∈ subs, 0 < s.messageCost sub.request.priority)
    (hfree : ∀ sub ∈ subs, ¬db.hasKey u sub.request.idempotencyKey) {b : Balance}
    (hb : db.balances.find? u = some b) :
    ∃ db₁ db₂, db.insertMessages (subs.map (newMessage s)) = .ok db₁ ∧
      db₁.insertJobs (subs.map (newJob s)) = .ok db₂ ∧ db₁.balances = db.balances ∧
      db₂.balances = db.balances := by
  have huser : db.hasUser u := by
    obtain ⟨hmem, rfl⟩ := Table.find?_eq_some.1 hb
    exact hdb.balance_user b hmem
  have hnew : db.NewMessages (subs.map (newMessage s)) :=
    (newMessages_iff h.user h.ne_nil).2
      ⟨fun sub hsub => checkMessage_newMessage.1 (Db.checkMessage_ok.2
        ⟨hs _ (List.mem_map_of_mem hsub), hc sub hsub⟩), h.keys, hfree, huser⟩
  obtain ⟨t, ht⟩ := h.fresh.exists_messages s
  obtain ⟨t', ht'⟩ := h.fresh.exists_jobs s
  exact ⟨_, _, Db.insertMessages_ok.2 ⟨hnew, t, ht, rfl⟩,
    Db.insertJobs_ok.2 ⟨h.fresh.newJobs hdb.toConstrained ht hnew, t', ht', rfl⟩, rfl, rfl⟩

end Submitted

/-- An error of a reservation is handled for a user that an id can name. -/
theorem reserveCredits_handled {u : UserId} (hu : fitsInt4 u = true) {amount : Cents} {e : Exn}
    (he : BalanceRepository.reserveCredits db u amount = .error e) : e.handled = true := by
  rcases BalanceRepository.reserveCredits_error he with rfl | rfl | ⟨-, hn⟩
  · rfl
  · rfl
  · exact absurd hu (by simp [hn])

/-- A sum that does not fit is no value of its column. -/
theorem writeBalance_dataError {b : Balance} (h : fitsNumeric b.reservedCredits = false) :
    db.writeBalance b = .error (.db .dataError) := by
  simp [Db.writeBalance, h]

/-- `tx` makes the statements of a submission, and raises what the first of them raises that
fails. -/
structure Statements {α : Type} (s : Settings) (db : Db) (u : UserId) (subs : List Submission)
    (tx : Except Exn α) : Prop where
  insert : ∀ e, db.insertMessages (subs.map (newMessage s)) = .error e → tx = .error e
  write : ∀ db₁ db₂ b e, db.insertMessages (subs.map (newMessage s)) = .ok db₁ →
    db₁.insertJobs (subs.map (newJob s)) = .ok db₂ → db₁.balances = db.balances →
    db₂.balances = db.balances → db.balances.find? u = some b →
    0 < (subs.map (submissionCost s)).sum →
    db₂.writeBalance (b.raised (subs.map (submissionCost s)).sum) = .error e → tx = .error e
  raises : ∀ e, tx = .error e → db.insertMessages (subs.map (newMessage s)) = .error e ∨
    ∃ db₁, db.insertMessages (subs.map (newMessage s)) = .ok db₁ ∧
      (db₁.insertJobs (subs.map (newJob s)) = .error e ∨
        (∃ db', BalanceRepository.reserveCredits db' u (subs.map (submissionCost s)).sum =
          .error e) ∨
        ∃ (db₂ : Db) (b : Balance), db.balances.find? u = some b ∧
          0 < (subs.map (submissionCost s)).sum ∧
          db₂.writeBalance (b.raised (subs.map (submissionCost s)).sum) = .error e)

/-- Every error of the transaction is handled exactly when the values that it writes fit. -/
theorem Statements.handled_iff {α : Type} {u : UserId} {subs : List Submission}
    {tx : Except Exn α} (htx : Statements s db u subs tx) (h : Submitted db u subs)
    (hdb : db.Stored) :
    (∀ e, tx = .error e → e.handled = true) ↔ WritesFit s db u (subs.map Submission.request) := by
  refine ⟨?_, ?_⟩
  · intro hall
    have hs : ∀ m ∈ subs.map (newMessage s), m.storable = true := by
      intro m hm
      by_contra hn
      have he : db.insertMessages (subs.map (newMessage s)) = Db.dataError :=
        Db.insertMessages_of_not_storable hm (Bool.not_eq_true _ ▸ hn)
      exact absurd (hall _ (htx.insert _ he)) Bool.false_ne_true
    have hpos : ∀ pre r post, subs.map Submission.request = pre ++ r :: post →
        (∀ x ∈ pre, ¬db.hasKey u x.idempotencyKey) → 0 < s.messageCost r.priority := by
      intro pre r post hsplit hfree
      obtain ⟨pre, rest, rfl, rfl, hrest⟩ := List.map_eq_append_iff.1 hsplit
      obtain ⟨sub, post, rfl, rfl, rfl⟩ := List.map_eq_cons_iff.1 hrest
      by_contra hle
      have he := h.insertMessages_checkCost rfl hs (fun x hx => hfree _ (List.mem_map_of_mem hx))
        (not_lt.1 hle)
      exact absurd (hall _ (htx.insert _ he)) (by decide)
    obtain ⟨huser, hbody, hcost⟩ := h.storable_iff.1 hs
    refine ⟨huser, hbody, hcost, hpos, fun hfree b hb => ?_⟩
    by_contra hn
    have hprice : ∀ sub ∈ subs, 0 < s.messageCost sub.request.priority := by
      intro sub hsub
      obtain ⟨pre, post, hsplit⟩ := List.append_of_mem (List.mem_map_of_mem hsub)
      exact hpos pre _ post hsplit fun x hx => hfree x (hsplit ▸ List.mem_append_left _ hx)
    obtain ⟨db₁, db₂, h₁, h₂, hb₁, hb₂⟩ :=
      h.exists_statements hdb hs hprice (fun x hx => hfree _ (List.mem_map_of_mem hx)) hb
    rw [← sum_submissionCost] at hn
    have he : db₂.writeBalance (b.raised (subs.map (submissionCost s)).sum) =
        .error (.db .dataError) :=
      writeBalance_dataError (by simpa using hn)
    have hsum := sum_submissionCost_pos h.ne_nil hprice
    exact absurd (hall _ (htx.write db₁ db₂ b _ h₁ h₂ hb₁ hb₂ hb hsum he)) Bool.false_ne_true
  · intro hw e he
    obtain he | ⟨db₁, h₁, he | ⟨db', he⟩ | ⟨db₂, b, hb, hsum, he⟩⟩ := htx.raises e he
    · exact h.insertMessages_handled hw he
    · exact h.insertJobs_handled hdb h₁ he
    · exact reserveCredits_handled hw.user he
    · exact h.writeBalance_handled hdb hw (Db.insertMessages_ok.1 h₁).1 hb hsum he

/-- What a submission reserves of a balance that no statement before has changed. -/
theorem reserveCredits_eq_ok {db₁ : Db} {u : UserId} {amount : Cents} {b : Balance}
    (hdb : db₁.balances = db.balances) (hb : db.balances.find? u = some b) (hpos : 0 < amount) :
    BalanceRepository.reserveCredits db₁ u amount = .ok (b.raised amount) :=
  BalanceRepository.reserveCredits_ok.2 ⟨hpos, b, hdb ▸ hb, rfl⟩

theorem statements_createMessage (payload : MessageRequest) (ids : Ids) :
    Statements s db payload.userId [⟨payload, ids, now⟩]
      (createMessageTx s payload ids now db) := by
  have hsum : ([⟨payload, ids, now⟩].map (submissionCost s)).sum =
      submissionCost s ⟨payload, ids, now⟩ := by
    simp
  refine ⟨fun e he => createMessageTx_of_insert_error he, ?_, ?_⟩
  · intro db₁ db₂ b e h₁ h₂ hb₁ _ hb hpos he
    rw [hsum] at hpos he
    have hreserve := reserveCredits_eq_ok hb₁ hb hpos
    rw [List.map_singleton] at h₁ h₂
    rw [createMessageTx_eq]
    simp only [h₁, hreserve, h₂, he, bind, Except.bind]
  · intro e he
    rw [createMessageTx_eq] at he
    rw [hsum, List.map_singleton, List.map_singleton]
    rcases bind_eq_error.1 he with he | ⟨db₁, h₁, he⟩
    · exact .inl he
    refine .inr ⟨db₁, h₁, ?_⟩
    rcases bind_eq_error.1 he with he | ⟨b', hb', he⟩
    · exact .inr (.inl ⟨db₁, he⟩)
    rcases bind_eq_error.1 he with he | ⟨db₂, -, he⟩
    · exact .inl he
    rcases bind_eq_error.1 he with hwrite | ⟨_, -, ⟨⟩⟩
    obtain ⟨hpos, b, hb, rfl⟩ := BalanceRepository.reserveCredits_ok.1 hb'
    obtain ⟨-, t, -, rfl⟩ := Db.insertMessages_ok.1 h₁
    exact .inr (.inr ⟨db₂, b, hb, hpos, hwrite⟩)

theorem statements_batchCreateMessage (payload : BatchMessageRequest) (ids : ℕ → Ids) :
    Statements s db payload.userId (batchSubmissions payload ids now)
      (batchCreateMessageTx s payload ids now db) := by
  refine ⟨fun e he => batchCreateMessageTx_of_insert_error he, ?_, ?_⟩
  · intro db₁ db₂ b e h₁ h₂ _ hb₂ hb hpos he
    have hreserve := reserveCredits_eq_ok hb₂ hb hpos
    rw [batchCreateMessageTx_eq]
    simp only [h₁, h₂, hreserve, he, bind, Except.bind]
  · intro e he
    rw [batchCreateMessageTx_eq] at he
    rcases bind_eq_error.1 he with he | ⟨db₁, h₁, he⟩
    · exact .inl he
    refine .inr ⟨db₁, h₁, ?_⟩
    rcases bind_eq_error.1 he with he | ⟨db₂, h₂, he⟩
    · exact .inl he
    rcases bind_eq_error.1 he with he | ⟨b', hb', he⟩
    · exact .inr (.inl ⟨db₂, he⟩)
    rcases bind_eq_error.1 he with hwrite | ⟨_, -, ⟨⟩⟩
    obtain ⟨hpos, b, hb, rfl⟩ := BalanceRepository.reserveCredits_ok.1 hb'
    obtain ⟨-, t, -, rfl⟩ := Db.insertMessages_ok.1 h₁
    obtain ⟨-, t', -, rfl⟩ := Db.insertJobs_ok.1 h₂
    exact .inr (.inr ⟨_, b, hb, hpos, hwrite⟩)

end MessageUseCase

/-! ## Top-ups -/

namespace BalanceUseCase

variable {db : Db}

theorem topupUserCredits_eq {userId : UserId} {amount : ℚ} (hpos : 0 < amount) :
    topupUserCredits userId amount db =
      BalanceRepository.getByUserId db userId >>= fun b =>
        db.writeBalance
          { b with credits := numericColumn (decimalAdd b.credits.toDecimal amount) } := by
  have hvalid : BalanceRepository.validateAmount amount = .ok () :=
    BalanceRepository.validateAmount_ok.2 hpos
  unfold topupUserCredits BalanceRepository.topupUserCredits
  rw [hvalid]
  cases BalanceRepository.getByUserId db userId with
  | error e => rfl
  | ok b => rfl

/-- The write of a balance whose checks hold is declared when its credits fit. -/
theorem writeBalance_declared_iff {b : Balance} (hr : 0 ≤ b.reservedCredits)
    (hc : b.reservedCredits ≤ b.credits) :
    Declared (db.writeBalance b) ↔ fitsNumeric b.credits = true := by
  refine ⟨?_, ?_⟩
  · intro h
    by_contra hn
    have he : db.writeBalance b = .error (.db .dataError) := by
      simp [Db.writeBalance, hn]
    obtain ⟨_, ⟨⟩⟩ := declared_error.1 (he ▸ h)
  · intro hf
    rw [Db.writeBalance_ok.2 ⟨⟨hc, hr, hf⟩, rfl⟩]
    exact declared_ok _

/-- A top-up is declared when its user is one that an id can name, and the sum fits. -/
theorem topupUserCredits_declared_iff (hdb : db.Stored) {userId : UserId} {amount : ℚ}
    (hpos : 0 < amount) :
    Declared (topupUserCredits userId amount db) ↔ fitsInt4 userId = true ∧
      ∀ b, db.balances.find? userId = some b →
        fitsNumeric (numericColumn (decimalAdd b.credits.toDecimal amount)) = true := by
  rw [topupUserCredits_eq hpos]
  unfold BalanceRepository.getByUserId
  cases hb : db.balances.find? userId with
  | none =>
    by_cases hu : fitsInt4 userId = true
    · rw [if_pos hu]
      exact iff_of_true (declared_error.2 ⟨_, rfl⟩) ⟨hu, by rintro b ⟨⟩⟩
    · rw [if_neg hu]
      refine iff_of_false (fun h => ?_) fun h => hu h.1
      obtain ⟨_, ⟨⟩⟩ := declared_error.1 h
  | some b =>
    obtain ⟨hmem, rfl⟩ := Table.find?_eq_some.1 hb
    obtain ⟨user, huser, hi⟩ := hdb.balance_user b hmem
    have hu : fitsInt4 b.userId = true := hi ▸ hdb.user_id user huser
    have hcon := hdb.balance b hmem
    have hle : b.credits ≤ numericColumn (decimalAdd b.credits.toDecimal amount) :=
      Cents.le_numericColumn_decimalAdd (hcon.reserved_nonneg.trans hcon.credits_ge_reserved)
        hcon.credits_fits hpos
    have hwrite := @writeBalance_declared_iff db
      { b with credits := numericColumn (decimalAdd b.credits.toDecimal amount) }
      hcon.reserved_nonneg (hcon.credits_ge_reserved.trans hle)
    refine hwrite.trans ?_
    simp [hu]

end BalanceUseCase

/-- Every accepted request ends with a result or a declared error, exactly when what it writes
fits: for a submission its users, texts, prices and the sum that it reserves, unless a batch is
refused for a key it has twice; for a top-up its user and the sum of the credits. -/
theorem declared_iff (s : Settings) (db : Db) (hdb : db.Stored) (now : Time) :
    (∀ payload ids, payload.valid = true →
      MessageUseCase.FreshIds db [⟨payload, ids, now⟩] →
      (Declared (MessageUseCase.createMessage s payload ids now db).2 ↔
        MessageUseCase.WritesFit s db payload.userId [payload])) ∧
    (∀ payload ids, payload.valid = true →
      MessageUseCase.FreshIds db (MessageUseCase.batchSubmissions payload ids now) →
      (Declared (MessageUseCase.batchCreateMessage s payload ids now db).2 ↔
        ((payload.messages.map (·.idempotencyKey)).Nodup →
          MessageUseCase.WritesFit s db payload.userId
            (payload.messages.map (·.toRequest payload.userId))))) ∧
    ∀ userId amount, 0 < amount →
      (Declared (BalanceUseCase.topupUserCredits userId amount db) ↔ fitsInt4 userId = true ∧
        ∀ b, db.balances.find? userId = some b →
          fitsNumeric (numericColumn (decimalAdd b.credits.toDecimal amount)) = true) := by
  refine ⟨fun payload ids hv hf => ?_, fun payload ids hv hf => ?_, fun userId amount hpos =>
    BalanceUseCase.topupUserCredits_declared_iff hdb hpos⟩
  · rw [MessageUseCase.createMessage_declared]
    refine (MessageUseCase.statements_createMessage payload ids).handled_iff
      ⟨List.cons_ne_nil _ _, ?_, ?_, by simp, hf⟩ hdb
    · simp
    · simpa using hv
  · rw [MessageUseCase.batchCreateMessage_declared]
    refine forall_congr' fun hn => ?_
    rw [← MessageUseCase.map_request_batchSubmissions payload ids now]
    refine (MessageUseCase.statements_batchCreateMessage payload ids).handled_iff
      ⟨MessageUseCase.batchSubmissions_ne payload ids now,
        fun _ => MessageUseCase.user_of_mem_batchSubmissions, ?_,
        MessageUseCase.map_key_batchSubmissions ▸ hn, hf⟩ hdb
    exact (MessageUseCase.forall_mem_batchSubmissions (P := fun r => r.valid = true)).2
      (List.all_eq_true.1 hv)

theorem Db.stored_oneUser : Db.oneUser.Stored :=
  ⟨Db.constrained_oneUser, by simp [Db.oneUser, Table.mem_def, fitsInt4]⟩

/-- The requests of the user, and a top-up by five credits. -/
theorem declared_iff_sample :
    Declared (MessageUseCase.createMessage {} .sample ⟨10, 20⟩ 0 Db.oneUser).2 ∧
      Declared (MessageUseCase.batchCreateMessage {} .sample (fun i => ⟨10 + i, 20 + i⟩) 0
        Db.oneUser).2 ∧
      Declared (BalanceUseCase.topupUserCredits 1 5 Db.oneUser) := by
  have hprice : ∀ p, 0 < ({} : Settings).messageCost p := by
    intro p
    cases p <;> decide
  obtain ⟨hsingle, hbatch, htopup⟩ := declared_iff {} Db.oneUser Db.stored_oneUser 0
  refine ⟨(hsingle .sample ⟨10, 20⟩ (by decide)
      (MessageUseCase.freshIds_oneUser (by decide) (by decide))).2 ?_,
    (hbatch .sample (fun i => ⟨10 + i, 20 + i⟩) (by decide)
      (MessageUseCase.freshIds_oneUser (by decide) (by decide))).2 fun _ => ?_,
    (htopup 1 5 (by norm_num)).2 ⟨by decide, ?_⟩⟩
  · refine ⟨by decide, by decide, by decide, fun _ r _ _ _ => hprice r.priority, ?_⟩
    rintro - b ⟨⟩
    decide
  · refine ⟨by decide, by decide, by decide, fun _ r _ _ _ => hprice r.priority, ?_⟩
    rintro - b ⟨⟩
    decide
  · rintro b ⟨⟩
    decide +kernel

/-- A request for the first user id that needs more than 32 bits is accepted, and ends with a
`DataError`. -/
theorem large_user_undeclared :
    ¬∀ (s : Settings) (db : Db) (now : Time), db.Stored →
      (∀ payload ids, payload.valid = true → MessageUseCase.FreshIds db [⟨payload, ids, now⟩] →
        Declared (MessageUseCase.createMessage s payload ids now db).2) ∧
      (∀ payload ids, payload.valid = true →
        MessageUseCase.FreshIds db (MessageUseCase.batchSubmissions payload ids now) →
        Declared (MessageUseCase.batchCreateMessage s payload ids now db).2) ∧
      ∀ userId amount, 0 < amount →
        Declared (BalanceUseCase.topupUserCredits userId amount db) := by
  intro h
  have hsingle := (h {} Db.oneUser 0 Db.stored_oneUser).1
    { MessageRequest.sample with userId := 2 ^ 31 } ⟨10, 20⟩ (by decide)
    (MessageUseCase.freshIds_oneUser (by decide) (by decide))
  have he : (MessageUseCase.createMessage {} { MessageRequest.sample with userId := 2 ^ 31 }
      ⟨10, 20⟩ 0 Db.oneUser).2 = .error (.db .dataError) := by
    rfl
  rw [he] at hsingle
  obtain ⟨_, ⟨⟩⟩ := declared_error.1 hsingle

end Abrio
