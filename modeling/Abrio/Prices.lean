import Abrio.DeclaredErrors

/-!
# Usable prices

`Settings` takes a price that is greater than zero and then rounds it to cents, a half down, so
a price of at most half a cent becomes nothing. A submission at such a price is refused by the
`CHECK` of the message's cost, whatever else is right with it. At any other price an accepted
submission never fails for its price, and is created and charged where its user has the credit,
its keys are new and its texts can be stored (`prices_usable_iff`).
-/

open Relational Runs

namespace Abrio

/-! ## Accepted prices -/

theorem validateCost_ok {v : ℚ} {c : Cents} :
    validateCost v = some c ↔ 0 < v ∧ c = ⌈v * 100 - 1 / 2⌉ := by
  unfold validateCost
  split_ifs with h
  · simp [h]
  · simp [not_le.1 h, eq_comm]

/-- What is left of an accepted price is positive when it was more than half a cent. -/
theorem cost_pos_iff {v : ℚ} {c : Cents} (h : validateCost v = some c) : 0 < c ↔ 1 / 200 < v := by
  obtain ⟨-, rfl⟩ := validateCost_ok.1 h
  rw [Int.ceil_pos, sub_pos]
  constructor <;> intro hv <;> linarith

/-- The validators leave the prices of `s` of the decimals `price`. -/
def Settings.PricedAt (s : Settings) (price : MessagePriority → ℚ) : Prop :=
  ∀ p, validateCost (price p) = some (s.messageCost p)

/-- Positive prices are accepted. -/
theorem Settings.exists_pricedAt (s : Settings) {price : MessagePriority → ℚ}
    (h : ∀ p, 0 < price p) : ∃ s' : Settings, s'.PricedAt price := by
  have hok : ∀ p, validateCost (price p) = some ⌈price p * 100 - 1 / 2⌉ := fun p =>
    validateCost_ok.2 ⟨h p, rfl⟩
  refine ⟨{ s with
    costPerMessage := ⌈price .normal * 100 - 1 / 2⌉
    costPerExpressMessage := ⌈price .express * 100 - 1 / 2⌉
    costPerMessage_nonneg := validateCost_nonneg (hok .normal)
    costPerExpressMessage_nonneg := validateCost_nonneg (hok .express) }, fun p => ?_⟩
  cases p with
  | normal => exact hok .normal
  | express => exact hok .express

/-- A multiple of 0.01 that is at least 0.01. -/
def Settings.UsableCost (s : Settings) (p : MessagePriority) : Prop :=
  ∃ n : ℕ, 1 ≤ n ∧ (s.messageCost p).toDecimal = n * (1 / 100)

theorem Settings.usableCost_iff {s : Settings} {p : MessagePriority} :
    s.UsableCost p ↔ 0 < s.messageCost p := by
  refine ⟨?_, ?_⟩
  · rintro ⟨n, hn, he⟩
    have hcost : (s.messageCost p : ℚ) = n := by
      rw [Cents.toDecimal] at he
      linarith
    have hcost' : s.messageCost p = n := by exact_mod_cast hcost
    rw [hcost']
    exact_mod_cast hn
  · intro hpos
    obtain ⟨n, hn⟩ := Int.eq_ofNat_of_zero_le hpos.le
    rw [hn] at hpos
    refine ⟨n, by exact_mod_cast hpos, ?_⟩
    rw [hn, Cents.toDecimal, Int.cast_natCast]
    ring

/-! ## Errors for a price -/

/-- The error of the amount check of a reservation, or of the `CHECK` of a message's cost. -/
def Exn.ofPrice : Exn → Bool
  | .app (.invalidAmountValue _) => true
  | .db (.checkViolation .checkCostGtZero) => true
  | _ => false

/-- The unreserved credits of the user are at least `cost`. -/
def Db.hasCredit (db : Db) (u : UserId) (cost : Cents) : Prop :=
  ∃ b, db.balances.find? u = some b ∧ cost ≤ b.credits - b.reservedCredits

/-- The sample request at a priority. -/
def MessageRequest.sampleAt (p : MessagePriority) : MessageRequest :=
  { MessageRequest.sample with priority := p }

/-- A batch of it. -/
def BatchMessageRequest.sampleAt (p : MessagePriority) : BatchMessageRequest where
  userId := 1
  messages := [⟨"09121234567", "hello", p, 7⟩]
  messages_ne := List.cons_ne_nil _ _

theorem Db.not_hasKey_oneUser {u : UserId} {key : UUID} : ¬Db.oneUser.hasKey u key := by
  rintro ⟨m, hm, -⟩
  exact List.not_mem_nil hm

namespace MessageUseCase

variable {s : Settings} {db : Db} {now : Time} {u : UserId} {subs : List Submission}

theorem insertMessages_not_ofPrice {ms : List Message} (hpos : ∀ m ∈ ms, 0 < m.cost) {e : Exn}
    (he : db.insertMessages ms = .error e) : e.ofPrice = false := by
  rcases Db.insertMessages_error he with rfl | ⟨-, m, hm, hc⟩ | ⟨c, rfl⟩ | rfl
  · rfl
  · exact absurd (hpos m hm) (not_lt.2 hc)
  · rfl
  · rfl

theorem insertJobs_not_ofPrice {js : List DispatchJob} {e : Exn}
    (he : db.insertJobs js = .error e) : e.ofPrice = false := by
  rcases Db.insertJobs_error he with ⟨rfl, -⟩ | ⟨c, rfl⟩ | ⟨rfl, -⟩ | ⟨rfl, -⟩ <;> rfl

theorem reserveCredits_not_ofPrice {amount : Cents} (hpos : 0 < amount) {e : Exn}
    (he : BalanceRepository.reserveCredits db u amount = .error e) : e.ofPrice = false := by
  have hvalid : BalanceRepository.validateAmount amount.toDecimal = .ok () :=
    BalanceRepository.validateCents_ok.2 hpos
  rcases bind_eq_error.1 he with he | ⟨_, -, he⟩
  · cases hvalid.symm.trans he
  rcases bind_eq_error.1 he with he | ⟨_, -, he⟩
  · cases hvalid.symm.trans he
  rcases bind_eq_error.1 he with he | ⟨_, -, ⟨⟩⟩
  rcases BalanceRepository.getByUserId_error he with rfl | ⟨rfl, -⟩ <;> rfl

theorem writeBalance_not_ofPrice {b : Balance} {e : Exn} (he : db.writeBalance b = .error e) :
    e.ofPrice = false := by
  unfold Db.writeBalance at he
  split_ifs at he <;> cases he <;> rfl

/-- At positive prices the transaction of a submission never fails for a price. -/
theorem Statements.not_ofPrice {α : Type} {tx : Except Exn α} (htx : Statements s db u subs tx)
    (hne : subs ≠ []) (hpos : ∀ sub ∈ subs, 0 < s.messageCost sub.request.priority) {e : Exn}
    (he : tx = .error e) : e.ofPrice = false := by
  have hmessages : ∀ m ∈ subs.map (newMessage s), 0 < m.cost := List.forall_mem_map.2 hpos
  obtain he | ⟨db₁, -, he | ⟨db', he⟩ | ⟨db₂, b, -, -, he⟩⟩ := htx.raises e he
  · exact insertMessages_not_ofPrice hmessages he
  · exact insertJobs_not_ofPrice he
  · exact reserveCredits_not_ofPrice (sum_submissionCost_pos hne hpos) he
  · exact writeBalance_not_ofPrice he

/-- The handlers of a submission make no error for a price. -/
theorem createMessageHandler_ofPrice {payload : MessageRequest} {e e' : Exn}
    (he : e.ofPrice = false) (h : createMessageHandler s payload db e = .error e') :
    e'.ofPrice = false := by
  unfold createMessageHandler at h
  split at h
  · rcases bind_eq_error.1 h with h | ⟨_, -, ⟨⟩⟩
    unfold MessageRepository.getUserMessageByIdempotencyKey at h
    split at h <;> cases h
    rfl
  · cases h
    rfl
  · cases h
    rfl
  · cases h
    exact he

theorem batchCreateMessageHandler_ofPrice {payload : BatchMessageRequest} {e : Exn}
    (he : e.ofPrice = false) : (batchCreateMessageHandler s payload e).ofPrice = false := by
  unfold batchCreateMessageHandler
  split <;> first | rfl | exact he

/-! ## Usable prices -/

/-- With enough credit and at positive prices, requests are accepted when their keys are distinct
and new and their texts can be stored. -/
theorem exists_accepted_iff_of_hasCredit (hdb : db.Stored) (hf : FreshIds db subs)
    (hu : ∀ sub ∈ subs, sub.request.userId = u) (hne : subs ≠ [])
    (hvalid : ∀ sub ∈ subs, sub.request.valid = true)
    (hfits : ∀ p, fitsNumeric (s.messageCost p) = true)
    (hpos : ∀ sub ∈ subs, 0 < s.messageCost sub.request.priority)
    (hcredit : db.hasCredit u (subs.map (submissionCost s)).sum) :
    (∃ db', Accepted s u subs db db') ↔
      (subs.map fun sub => sub.request.idempotencyKey).Nodup ∧
        (∀ sub ∈ subs, ¬db.hasKey u sub.request.idempotencyKey) ∧
        ∀ sub ∈ subs, storableText sub.request.body = true := by
  obtain ⟨b, hb, hle⟩ := hcredit
  obtain ⟨hmem, hbu⟩ := Table.find?_eq_some.1 hb
  obtain ⟨user, huser, hi⟩ := hdb.balance_user b hmem
  have hint : fitsInt4 u = true := by
    rw [← hbu, ← hi]
    exact hdb.user_id user huser
  rw [exists_accepted_iff hdb.toConstrained hf hu hne]
  refine ⟨?_, ?_⟩
  · intro h
    refine ⟨by simpa [Function.comp_def] using h.keys, by simpa using h.new_key, fun sub hsub => ?_⟩
    have hstorable := h.storable _ (List.mem_map_of_mem hsub)
    exact ((MessageRequest.storable_iff (hvalid sub hsub)).1 hstorable).2.1
  · rintro ⟨hkeys, hnew, htext⟩
    have hcon := hdb.balance b hmem
    have hsum := sum_submissionCost_pos hne hpos
    rw [sum_submissionCost] at hle hsum
    refine ⟨List.forall_mem_map.2 fun sub hsub => ?_, List.forall_mem_map.2 hpos,
      by simpa [Function.comp_def] using hkeys, by simpa using hnew, ⟨user, huser, hi.trans hbu⟩, b,
      hb, le_sub_iff_add_le'.1 hle, add_nonneg hcon.reserved_nonneg hsum.le, hcon.credits_fits⟩
    exact (MessageRequest.storable_iff (hvalid sub hsub)).2
      ⟨hu sub hsub ▸ hint, htext sub hsub, hfits _⟩

/-- A submission of a user with the credit, at one of the prices `offered`, is created and
charged when its key is new and its text can be stored, and never fails for the price. -/
def SubmissionsUsable (s : Settings) (offered : Set MessagePriority) : Prop :=
  ∀ (db : Db) (now : Time) (payload : MessageRequest) (ids : Ids), db.Stored →
    payload.valid = true → payload.priority ∈ offered → FreshIds db [⟨payload, ids, now⟩] →
    db.hasCredit payload.userId (s.messageCost payload.priority) →
    ((∃ db' m, createMessage s payload ids now db = (db', .ok (.created m)) ∧
        Accepted s payload.userId [⟨payload, ids, now⟩] db db') ↔
      ¬db.hasKey payload.userId payload.idempotencyKey ∧ storableText payload.body = true) ∧
    ∀ e, (createMessage s payload ids now db).2 = .error e → e.ofPrice = false

/-- So is a batch when its keys are distinct as well. -/
def BatchesUsable (s : Settings) (offered : Set MessagePriority) : Prop :=
  ∀ (db : Db) (now : Time) (payload : BatchMessageRequest) (ids : ℕ → Ids), db.Stored →
    payload.valid = true → (∀ item ∈ payload.messages, item.priority ∈ offered) →
    FreshIds db (batchSubmissions payload ids now) →
    db.hasCredit payload.userId
      (payload.messages.map fun item => s.messageCost item.priority).sum →
    ((∃ db' ms, batchCreateMessage s payload ids now db = (db', .ok ms) ∧
        Accepted s payload.userId (batchSubmissions payload ids now) db db') ↔
      (payload.messages.map (·.idempotencyKey)).Nodup ∧
        (∀ item ∈ payload.messages, ¬db.hasKey payload.userId item.idempotencyKey) ∧
        ∀ item ∈ payload.messages, storableText item.body = true) ∧
    ∀ e, (batchCreateMessage s payload ids now db).2 = .error e → e.ofPrice = false

variable {offered : Set MessagePriority}

theorem createMessage_created_iff {payload : MessageRequest} {ids : Ids} :
    (∃ db' m, createMessage s payload ids now db = (db', .ok (.created m)) ∧
        Accepted s payload.userId [⟨payload, ids, now⟩] db db') ↔
      ∃ db', Accepted s payload.userId [⟨payload, ids, now⟩] db db' := by
  refine ⟨fun ⟨db', _, _, hacc⟩ => ⟨db', hacc⟩, ?_⟩
  rintro ⟨db', hacc⟩
  refine ⟨db', newMessage s ⟨payload, ids, now⟩, ?_, hacc⟩
  simp [createMessage, createMessageTx_ok.2 ⟨rfl, hacc⟩]

theorem batchCreateMessage_created_iff {payload : BatchMessageRequest} {ids : ℕ → Ids} :
    (∃ db' ms, batchCreateMessage s payload ids now db = (db', .ok ms) ∧
        Accepted s payload.userId (batchSubmissions payload ids now) db db') ↔
      ∃ db', Accepted s payload.userId (batchSubmissions payload ids now) db db' := by
  refine ⟨fun ⟨db', _, _, hacc⟩ => ⟨db', hacc⟩, ?_⟩
  rintro ⟨db', hacc⟩
  have hkeys := ((newMessages_iff (fun _ => user_of_mem_batchSubmissions)
    (batchSubmissions_ne payload ids now)).1 hacc.messages_new).2.1
  rw [map_key_batchSubmissions] at hkeys
  refine ⟨db', (batchSubmissions payload ids now).map (newMessage s), ?_, hacc⟩
  simp [batchCreateMessage_of_nodup hkeys, batchCreateMessageTx_ok.2 ⟨rfl, hacc⟩]

theorem createMessage_not_ofPrice {payload : MessageRequest} {ids : Ids}
    (hpos : 0 < s.messageCost payload.priority) {e : Exn}
    (he : (createMessage s payload ids now db).2 = .error e) : e.ofPrice = false := by
  unfold createMessage at he
  cases htx : createMessageTx s payload ids now db with
  | ok r =>
    rw [htx] at he
    cases he
  | error e' =>
    rw [htx] at he
    refine createMessageHandler_ofPrice ?_ he
    exact (statements_createMessage payload ids).not_ofPrice (List.cons_ne_nil _ _)
      (by simpa using hpos) htx

theorem batchCreateMessage_not_ofPrice {payload : BatchMessageRequest} {ids : ℕ → Ids}
    (hpos : ∀ item ∈ payload.messages, 0 < s.messageCost item.priority) {e : Exn}
    (he : (batchCreateMessage s payload ids now db).2 = .error e) : e.ofPrice = false := by
  by_cases hn : (payload.messages.map (·.idempotencyKey)).Nodup
  · rw [batchCreateMessage_of_nodup hn] at he
    cases htx : batchCreateMessageTx s payload ids now db with
    | ok r =>
      rw [htx] at he
      cases he
    | error e' =>
      rw [htx] at he
      cases he
      refine batchCreateMessageHandler_ofPrice ?_
      exact (statements_batchCreateMessage payload ids).not_ofPrice
        (batchSubmissions_ne payload ids now)
        ((forall_mem_batchSubmissions (P := fun r => 0 < s.messageCost r.priority)).2 hpos) htx
  · obtain ⟨key, hr⟩ := batchCreateMessage_duplicate s db now ids hn
    rw [hr] at he
    cases he
    rfl

theorem submissionsUsable (hfits : ∀ p, fitsNumeric (s.messageCost p) = true)
    (hpos : ∀ p ∈ offered, 0 < s.messageCost p) : SubmissionsUsable s offered := by
  intro db now payload ids hdb hvalid hoffered hf hcredit
  have hcost := hpos _ hoffered
  refine ⟨?_, fun e => createMessage_not_ofPrice hcost⟩
  rw [createMessage_created_iff, exists_accepted_iff_of_hasCredit hdb hf (by simp)
    (List.cons_ne_nil _ _) (by simpa using hvalid) hfits (by simpa using hcost)
    (by simpa [submissionCost] using hcredit)]
  simp

theorem batchesUsable (hfits : ∀ p, fitsNumeric (s.messageCost p) = true)
    (hpos : ∀ p ∈ offered, 0 < s.messageCost p) : BatchesUsable s offered := by
  intro db now payload ids hdb hvalid hoffered hf hcredit
  have hcost : ∀ item ∈ payload.messages, 0 < s.messageCost item.priority := fun item hitem =>
    hpos _ (hoffered item hitem)
  refine ⟨?_, fun e => batchCreateMessage_not_ofPrice hcost⟩
  have hrequests : ∀ sub ∈ batchSubmissions payload ids now, sub.request.valid = true :=
    (forall_mem_batchSubmissions (P := fun r => r.valid = true)).2 (List.all_eq_true.1 hvalid)
  have hprices : ∀ sub ∈ batchSubmissions payload ids now,
      0 < s.messageCost sub.request.priority :=
    (forall_mem_batchSubmissions (P := fun r => 0 < s.messageCost r.priority)).2 hcost
  have htext : (∀ sub ∈ batchSubmissions payload ids now, storableText sub.request.body = true) ↔
      ∀ item ∈ payload.messages, storableText item.body = true :=
    forall_mem_batchSubmissions (P := fun r => storableText r.body = true)
  rw [batchCreateMessage_created_iff, exists_accepted_iff_of_hasCredit hdb hf
    (fun _ => user_of_mem_batchSubmissions) (batchSubmissions_ne payload ids now) hrequests hfits
    hprices (sum_cost_batchSubmissions ▸ hcredit),
    map_key_batchSubmissions, no_key_batchSubmissions, htext]

/-- At a price of nothing no message is created. -/
theorem cost_pos_of_submissionsUsable (h : SubmissionsUsable s offered) {p : MessagePriority}
    (hp : p ∈ offered) : 0 < s.messageCost p := by
  by_contra hcost
  have hcredit : Db.oneUser.hasCredit 1 (s.messageCost p) :=
    ⟨{ userId := 1, credits := 500 }, rfl, (not_lt.1 hcost).trans (by decide)⟩
  have hvalid : (MessageRequest.sampleAt p).valid = true := by cases p <;> decide
  obtain ⟨hcreated, -⟩ := h Db.oneUser 0 (.sampleAt p) ⟨10, 20⟩ Db.stored_oneUser hvalid hp
    (freshIds_oneUser (by simp) (by simp)) hcredit
  obtain ⟨_, _, -, hacc⟩ := hcreated.2 ⟨Db.not_hasKey_oneUser, by cases p <;> decide⟩
  exact hcost (by simpa [submissionCost, MessageRequest.sampleAt] using hacc.cost_pos)

theorem cost_pos_of_batchesUsable (h : BatchesUsable s offered) {p : MessagePriority}
    (hp : p ∈ offered) : 0 < s.messageCost p := by
  by_contra hcost
  have hcredit : Db.oneUser.hasCredit 1 [s.messageCost p].sum :=
    ⟨{ userId := 1, credits := 500 }, rfl, by simpa using (not_lt.1 hcost).trans (by decide)⟩
  have hvalid : (BatchMessageRequest.sampleAt p).valid = true := by cases p <;> decide
  obtain ⟨hcreated, -⟩ := h Db.oneUser 0 (.sampleAt p) (fun _ => ⟨10, 20⟩) Db.stored_oneUser
    hvalid (List.forall_mem_singleton.2 hp)
    (freshIds_oneUser (List.nodup_singleton _) (List.nodup_singleton _)) hcredit
  obtain ⟨_, _, -, hacc⟩ := hcreated.2
    ⟨List.nodup_singleton _, fun _ _ => Db.not_hasKey_oneUser, by cases p <;> decide⟩
  have hsum : ((batchSubmissions (.sampleAt p) (fun _ => ⟨10, 20⟩) 0).map
      (submissionCost s)).sum = s.messageCost p := List.sum_singleton
  exact hcost (hsum ▸ hacc.cost_pos)

end MessageUseCase

/-- An accepted price leaves a usable cost, makes every submission usable, and every batch,
exactly when it is more than half a cent. This holds of each price, and of both. -/
theorem prices_usable_iff {s : Settings} {price : MessagePriority → ℚ} (hs : s.PricedAt price)
    (hfits : ∀ p, fitsNumeric (s.messageCost p) = true) (offered : Set MessagePriority) :
    ((∀ p ∈ offered, s.UsableCost p) ↔ ∀ p ∈ offered, 1 / 200 < price p) ∧
    (MessageUseCase.SubmissionsUsable s offered ↔ ∀ p ∈ offered, 1 / 200 < price p) ∧
    (MessageUseCase.BatchesUsable s offered ↔ ∀ p ∈ offered, 1 / 200 < price p) := by
  have hpos : (∀ p ∈ offered, 0 < s.messageCost p) ↔ ∀ p ∈ offered, 1 / 200 < price p :=
    forall₂_congr fun p _ => cost_pos_iff (hs p)
  rw [← hpos]
  refine ⟨forall₂_congr fun _ _ => Settings.usableCost_iff, ⟨?_, ?_⟩, ?_, ?_⟩
  · exact fun h _ => MessageUseCase.cost_pos_of_submissionsUsable h
  · exact MessageUseCase.submissionsUsable hfits
  · exact fun h _ => MessageUseCase.cost_pos_of_batchesUsable h
  · exact MessageUseCase.batchesUsable hfits

/-- The default prices. -/
theorem prices_usable_sample :
    (∀ p, ({} : Settings).UsableCost p) ∧
      MessageUseCase.SubmissionsUsable {} Set.univ ∧ MessageUseCase.BatchesUsable {} Set.univ := by
  have hs : ({} : Settings).PricedAt fun _ => 1 := fun p =>
    validateCost_ok.2 ⟨one_pos, by cases p <;> norm_num [Settings.messageCost]⟩
  have hfits : ∀ p, fitsNumeric (({} : Settings).messageCost p) = true := by
    intro p
    cases p <;> decide
  have hprice : ∀ p ∈ (Set.univ : Set MessagePriority), (1 / 200 : ℚ) < (fun _ => 1) p := by
    norm_num
  obtain ⟨hcost, hsingle, hbatch⟩ := prices_usable_iff hs hfits Set.univ
  exact ⟨fun p => hcost.2 hprice p trivial, hsingle.2 hprice, hbatch.2 hprice⟩

/-- Prices of 0.004 and 1.00. -/
def MessagePriority.smallPrice : MessagePriority → ℚ
  | .normal => 1 / 250
  | .express => 1

/-- A price of 0.004 is accepted, and a message at it is refused by the `CHECK` of its cost. -/
theorem small_price_unusable :
    ¬∀ (s : Settings) (price : MessagePriority → ℚ), s.PricedAt price →
      (∀ p, fitsNumeric (s.messageCost p) = true) →
      (∀ p, s.UsableCost p) ∧ MessageUseCase.SubmissionsUsable s Set.univ ∧
        MessageUseCase.BatchesUsable s Set.univ := by
  intro h
  have hzero : validateCost (1 / 250) = some 0 := by
    refine validateCost_ok.2 ⟨by norm_num, (Int.ceil_eq_iff.2 ?_).symm⟩
    norm_num
  have hone : validateCost 1 = some 100 := validateCost_ok.2 ⟨one_pos, by norm_num⟩
  have hs : ({ costPerMessage := 0 } : Settings).PricedAt MessagePriority.smallPrice := by
    intro p
    cases p with
    | normal => exact hzero
    | express => exact hone
  obtain ⟨-, hsingle, -⟩ := h _ _ hs fun p => by cases p <;> decide
  have he : (MessageUseCase.createMessage { costPerMessage := 0 } .sample ⟨10, 20⟩ 0
      Db.oneUser).2 = .error (.db (.checkViolation .checkCostGtZero)) := by
    rfl
  obtain ⟨-, hprice⟩ := hsingle Db.oneUser 0 .sample ⟨10, 20⟩ Db.stored_oneUser (by decide) trivial
    (MessageUseCase.freshIds_oneUser (by decide) (by decide))
    ⟨{ userId := 1, credits := 500 }, rfl, by decide⟩
  exact absurd (hprice _ he) (by decide)

end Abrio
