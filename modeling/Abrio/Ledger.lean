import Abrio.Charging

/-!
# The credit ledger

What a user's credits are worth counts the stored credits and the cost of the messages they
have paid for. No step changes it but a top-up (`Effect.worth_eq`, `ApiTxn.worth_eq`), and a
top-up adds what the column keeps of the new sum. An amount in whole cents is kept as it is.
Any other is rounded, so the stored credits leave the sum of the top-ups, and the response,
which shows the sum before it is stored, rounds it another way. The ledger is exact along a
run when the amounts of its top-ups are whole cents, and only then (`ledger_exact_iff`).
-/

open Relational Runs

namespace Abrio

/-! ## Responses -/

/-- `f"{value:.2f}"`. -/
def formatDecimal (value : ℚ) : String :=
  let cents := (Python.Decimal.roundHalfEven (value * 100)).natAbs
  let digits := if cents % 100 < 10 then "0" else ""
  (if value < 0 then "-" else "") ++ s!"{cents / 100}." ++ digits ++ s!"{cents % 100}"

/-- `BalanceIDResponse`, as it is serialized. -/
structure BalanceResponse where
  userId : UserId
  credits : String
  reservedCredits : String
  availableCredits : String
  deriving DecidableEq

/-- A balance in the session : its values are not rounded yet. -/
structure SessionBalance where
  userId : UserId
  credits : ℚ
  reservedCredits : ℚ

namespace SessionBalance

/-- The row as it is loaded. -/
def ofRow (row : Balance) : SessionBalance :=
  ⟨row.userId, row.credits.toDecimal, row.reservedCredits.toDecimal⟩

/-- What a flush stores. -/
def flush (balance : SessionBalance) : Balance :=
  ⟨balance.userId, numericColumn balance.credits, numericColumn balance.reservedCredits⟩

/-- The response to a top-up, from the balance the session has. -/
def response (balance : SessionBalance) : BalanceResponse where
  userId := balance.userId
  credits := formatDecimal balance.credits
  reservedCredits := formatDecimal balance.reservedCredits
  availableCredits := formatDecimal (decimalSub balance.credits balance.reservedCredits)

end SessionBalance

/-- The balance a read of a user shows. -/
def UserUseCase.getBalance (userId : UserId) (db : Db) : Option BalanceResponse :=
  (db.balances.find? userId).map fun row => (SessionBalance.ofRow row).response

/-- `topup_user_balance` : the committed state, and the response made of the session's row,
which a commit does not reload. -/
def BalanceUseCase.topupUserBalance (userId : UserId) (creditAmount : ℚ) (db : Db) :
    Except Exn (Db × BalanceResponse) := do
  BalanceRepository.validateAmount creditAmount
  let row ← BalanceRepository.getByUserId db userId
  let balance := SessionBalance.ofRow row
  let balance := { balance with credits := decimalAdd balance.credits creditAmount }
  let db ← db.writeBalance balance.flush
  return (db, balance.response)

/-- The row a top-up stores. -/
def Balance.toppedUp (b : Balance) (amount : ℚ) : Balance :=
  { b with credits := numericColumn (decimalAdd b.credits.toDecimal amount) }

/-- An amount of whole cents. -/
def WholeCents (amount : ℚ) : Prop :=
  ∃ c : Cents, amount = c.toDecimal

/-! ## What credits are worth -/

/-- What message `m` has taken from the credits of user `u`. -/
def paidCost (u : UserId) (m : Message) : Cents :=
  if m.userId = u ∧ m.paymentStatus = .deducted then m.cost else 0

namespace Db

variable (db : Db) (u : UserId)

/-- What the messages a user has paid for cost together. -/
def deductedCost : Cents :=
  ((db.messages.rows.filter fun m => m.userId = u ∧ m.paymentStatus = .deducted).map
    Message.cost).sum

/-- The stored credits of a user, none for a user without a balance. -/
def credits : Cents :=
  ((db.balances.find? u).map Balance.credits).getD 0

/-- What the user has, and what was spent for him. -/
def worth : Cents :=
  db.credits u + db.deductedCost u

theorem deductedCost_eq : db.deductedCost u = (db.messages.rows.map (paidCost u)).sum := by
  unfold deductedCost
  induction db.messages.rows with
  | nil => rfl
  | cons m ms ih =>
    by_cases h : m.userId = u ∧ m.paymentStatus = .deducted
    · simpa [h, paidCost] using ih
    · simpa [h, paidCost] using ih

end Db

theorem paidCost_unpaid {u : UserId} {m : Message} (h : m.paymentStatus ≠ .deducted) :
    paidCost u m = 0 := by
  simp [paidCost, h]

section Worth

variable {s : Settings} {db db' : Db} {u : UserId}

/-- The credits of a user after a write of one balance. -/
theorem credits_put {b b' : Balance} (hb : b ∈ db.balances) (hk : b.userId = b'.userId)
    (hdb : db'.balances = db.balances.put b') :
    db'.credits u = if b'.userId = u then b'.credits else db.credits u := by
  unfold Db.credits
  rw [hdb, Table.find?_put hb hk]
  split_ifs <;> rfl

theorem credits_of_find? {b : Balance} (hf : db.balances.find? u = some b) :
    db.credits u = b.credits := by
  rw [Db.credits, hf]
  rfl

theorem worth_of_same (hm : db'.messages = db.messages) (hb : db'.balances = db.balances) :
    db'.worth u = db.worth u := by
  rw [Db.worth, Db.worth, Db.credits, Db.credits, Db.deductedCost, Db.deductedCost, hm, hb]

/-- A worker's write moves what it takes from the credits to the paid messages. -/
theorem worth_deliveryWrite {op : Option BalanceOp} {job job' : DispatchJob}
    {message message' : Message} (hm : message ∈ db.messages)
    (hr : message.paymentStatus = .reserved) (hmv : Moved op message message' job job')
    (hw : DeliveryWrite db op message' job' db') : db'.worth u = db.worth u := by
  have hsum := Table.sum_put (paidCost u) hm (Message.id_eq hmv.message_original).symm
  rw [← hw.messages, ← Db.deductedCost_eq, ← Db.deductedCost_eq,
    paidCost_unpaid (by rw [hr]; exact PaymentStatus.noConfusion)] at hsum
  have hpay := hmv.payment
  have hbal := hw.balances
  generalize hbs : db'.balances = balances at hbal
  cases hbal with
  | none =>
    rw [paidCost_unpaid (by rw [hpay]; exact PaymentStatus.noConfusion)] at hsum
    have hcredits : db'.credits u = db.credits u := by rw [Db.credits, Db.credits, hbs]
    rw [Db.worth, Db.worth, hcredits]
    linarith
  | some o b _ hf _ =>
    obtain ⟨hb, hu⟩ := Table.find?_eq_some.1 hf
    have hcredits := credits_put (u := u) hb (BalanceOp.apply_userId _ b o).symm hbs
    rw [BalanceOp.apply_userId] at hcredits
    rw [Db.worth, Db.worth, hcredits]
    by_cases hbu : b.userId = u
    · rw [if_pos hbu, credits_of_find? (hbu ▸ Table.find?_key hb)]
      cases o with
      | settle =>
        rw [paidCost, if_pos ⟨hu ▸ hbu, hpay⟩] at hsum
        simp only [BalanceOp.apply]
        linarith
      | release =>
        rw [paidCost_unpaid (by rw [hpay]; exact PaymentStatus.noConfusion)] at hsum
        simp only [BalanceOp.apply]
        linarith
    · rw [if_neg hbu]
      rw [paidCost, if_neg fun h => hbu (hu.trans h.1)] at hsum
      linarith

/-- A submission leaves the credits alone and adds reserved messages. -/
theorem worth_accepted {userId : UserId} {subs : List Submission}
    (h : MessageUseCase.Accepted s userId subs db db') : db'.worth u = db.worth u := by
  obtain ⟨b, hf, -, hbal⟩ := h.balance
  obtain ⟨hb, hu⟩ := Table.find?_eq_some.1 hf
  have hcredits : db'.credits u = db.credits u := by
    rw [credits_put hb (Balance.raised_userId _ _).symm hbal, Balance.raised_userId]
    split_ifs with hbu
    · subst hbu
      exact (credits_of_find? (Table.find?_key hb)).symm
    · rfl
  have hnew : (subs.map (paidCost u ∘ MessageUseCase.newMessage s)).sum = 0 := by
    refine List.sum_eq_zero fun c hc => ?_
    obtain ⟨sub, -, rfl⟩ := List.mem_map.1 hc
    exact paidCost_unpaid PaymentStatus.noConfusion
  rw [Db.worth, Db.worth, hcredits, Db.deductedCost_eq, Db.deductedCost_eq, h.messages,
    List.map_append, List.sum_append, List.map_map, hnew, add_zero]

theorem worth_createUser {id : UserId} {name : String}
    (hc : UserUseCase.createUser id name db = .ok db') : db'.worth u = db.worth u := by
  have hm := (UserUseCase.createUser_same hc).1
  simp only [UserUseCase.createUser, Db.insertUser] at hc
  split_ifs at hc
  split at hc
  · cases hc
  · rename_i users _
    split at hc
    · cases hc
    · rename_i balances hb
      cases hc
      have hcredits : Db.credits ⟨users, balances, db.messages, db.jobs⟩ u =
          db.credits u := by
        rw [Db.credits, Db.credits, Table.find?_insert hb]
        split_ifs with hu
        · have hn : db.balances.find? u = none :=
            Table.find?_eq_none.2 fun b hb' => hu ▸ Table.key_ne_of_insert hb hb'
          rw [hn]
          rfl
        · rfl
      rw [Db.worth, Db.worth, hcredits]
      rfl

/-- A top-up that commits, with the row it finds. -/
theorem topupUserCredits_iff {userId : UserId} {amount : ℚ} :
    BalanceUseCase.topupUserCredits userId amount db = .ok db' ↔ 0 < amount ∧
      ∃ b, db.balances.find? userId = some b ∧ (b.toppedUp amount).Constrained ∧
        db' = { db with balances := db.balances.put (b.toppedUp amount) } := by
  simp only [BalanceUseCase.topupUserCredits, bind_eq_ok, BalanceRepository.topupUserCredits_ok,
    Db.writeBalance_ok]
  constructor
  · rintro ⟨_, ⟨ha, b, hf, rfl⟩, hcon, rfl⟩
    exact ⟨ha, b, hf, hcon, rfl⟩
  · rintro ⟨ha, b, hf, hcon, rfl⟩
    exact ⟨_, ⟨ha, b, hf, rfl⟩, hcon, rfl⟩

/-- A top-up adds what the column keeps of the new sum. -/
theorem worth_topup {userId : UserId} {amount : ℚ}
    (hc : BalanceUseCase.topupUserCredits userId amount db = .ok db') :
    db'.worth u = db.worth u + if userId = u then
      numericColumn (decimalAdd (db.credits u).toDecimal amount) - db.credits u else 0 := by
  obtain ⟨-, b, hf, -, rfl⟩ := topupUserCredits_iff.1 hc
  obtain ⟨hb, rfl⟩ := Table.find?_eq_some.1 hf
  have hk : b.userId = (b.toppedUp amount).userId := rfl
  have hcredits : Db.credits { db with balances := db.balances.put (b.toppedUp amount) } u =
      if b.userId = u then (b.toppedUp amount).credits else db.credits u :=
    credits_put hb hk rfl
  have hpaid : Db.deductedCost { db with balances := db.balances.put (b.toppedUp amount) } u =
      db.deductedCost u := rfl
  rw [Db.worth, Db.worth, hcredits, hpaid]
  split_ifs with hu
  · subst hu
    rw [credits_of_find? hf]
    simp only [Balance.toppedUp]
    linarith
  · linarith

/-- A top-up of whole cents that fits the column is stored as it is. -/
theorem decimalAdd_of_constrained {b : Balance} {c : Cents} (hb : b.Constrained)
    (ha : 0 < Cents.toDecimal c) (h : (b.toppedUp c.toDecimal).Constrained) :
    decimalAdd b.credits.toDecimal c.toDecimal = Cents.toDecimal (b.credits + c) := by
  have hc : 0 < c := by rwa [← not_le, Cents.toDecimal_nonpos, not_le] at ha
  exact Cents.decimalAdd_eq (hb.reserved_nonneg.trans hb.credits_ge_reserved) hc h.credits_fits

/-- A top-up of whole cents adds them. -/
theorem worth_topup_cents {c : Cents} (hacc : db.Accounted)
    (hc : BalanceUseCase.topupUserCredits u c.toDecimal db = .ok db') :
    db'.worth u = db.worth u + c := by
  have hw := worth_topup (u := u) hc
  obtain ⟨ha, b, hf, hcon, -⟩ := topupUserCredits_iff.1 hc
  have hb := hacc.constrained.balance b (Table.find?_eq_some.1 hf).1
  rw [if_pos rfl, credits_of_find? hf, decimalAdd_of_constrained hb ha hcon,
    numericColumn_toDecimal, add_sub_cancel_left] at hw
  exact hw

/-- No other transaction of the API changes what credits are worth. -/
theorem ApiTxn.worth_eq {now : Time} {t : ApiTxn} (ht : ∀ u a, t ≠ .topupUserCredits u a) :
    (t.apply s now db).worth u = db.worth u := by
  cases t with
  | createUser id name =>
    refine Db.commit_of (P := fun db' => db'.worth u = db.worth u) rfl fun db' _ hc => ?_
    cases hu : UserUseCase.createUser id name db with
    | error e => simp [hu, Except.map] at hc
    | ok db₁ =>
      simp only [hu, Except.map, Except.ok.injEq, Prod.mk.injEq] at hc
      exact hc.1 ▸ worth_createUser hu
  | topupUserCredits u a => exact absurd rfl (ht u a)
  | createMessage payload ids =>
    simp only [ApiTxn.apply, MessageUseCase.createMessage]
    split
    · rename_i hc
      exact worth_accepted (MessageUseCase.createMessageTx_ok.1 hc).2
    · rfl
  | batchCreateMessage payload ids =>
    simp only [ApiTxn.apply, MessageUseCase.batchCreateMessage]
    split
    · rfl
    · split
      · rename_i hc
        exact worth_accepted (MessageUseCase.batchCreateMessageTx_ok.1 hc).2
      · rfl

end Worth

/-- A step outside the API leaves what credits are worth. -/
theorem Effect.worth_eq {s : Settings} {sys sys' : System} (he : Effect s False sys sys')
    (hacc : sys.db.Accounted) (u : UserId) : sys'.db.worth u = sys.db.worth u := by
  cases he with
  | quiet messages balances log => exact worth_of_same messages balances
  | api is_api change log => exact is_api.elim
  | delivery job_mem message_mem link reserved moved write log operation =>
    have hres := reserved.elim id (hacc.in_flight _ job_mem _ message_mem link)
    exact worth_deliveryWrite message_mem hres moved write

/-! ## Runs -/

/-- The amount a top-up of user `u` adds if it is accepted. -/
def acceptedTopup (db : Db) (u : UserId) : InterleavedAct → List ℚ
  | .act (.api (.topupUserCredits userId amount)) =>
    match BalanceUseCase.topupUserCredits userId amount db with
    | .ok _ => if userId = u then [amount] else []
    | .error _ => []
  | _ => []

/-- The amounts of the accepted top-ups of user `u` along a run. -/
def acceptedTopups (s : Settings) (u : UserId) :
    Interleaved → List (Time × InterleavedAct) → List ℚ
  | _, [] => []
  | f, a :: as => acceptedTopup f.db u a.2 ++ acceptedTopups s u (f.step s a) as

theorem mem_acceptedTopup {db : Db} {u : UserId} {a : InterleavedAct} {amount : ℚ} :
    amount ∈ acceptedTopup db u a ↔ a = .act (.api (.topupUserCredits u amount)) ∧
      ∃ db', BalanceUseCase.topupUserCredits u amount db = .ok db' := by
  constructor
  · intro h
    unfold acceptedTopup at h
    split at h
    · split at h
      · rename_i db' hc
        split_ifs at h with hu
        · obtain rfl := List.mem_singleton.1 h
          exact ⟨by rw [hu], db', hu ▸ hc⟩
        · cases h
      · cases h
    · cases h
  · rintro ⟨rfl, db', hc⟩
    simp [acceptedTopup, hc]

/-- In every state along a run the stored credits of each user are the sum of the accepted
top-ups minus the cost of the messages paid for. -/
def LedgerExact (s : Settings) (acts : List (Time × InterleavedAct)) : Prop :=
  ∀ pre, pre <+: acts → ∀ b ∈ (Interleaved.after s pre).db.balances,
    b.credits.toDecimal = (acceptedTopups s b.userId {} pre).sum -
      ((Interleaved.after s pre).db.deductedCost b.userId).toDecimal

/-- Along a run the response to each accepted top-up shows the balance that a following read
returns. -/
def ResponsesExact (s : Settings) (acts : List (Time × InterleavedAct)) : Prop :=
  ∀ pre a u amount, pre ++ [a] <+: acts → a.2 = .act (.api (.topupUserCredits u amount)) →
    ∀ db response,
      BalanceUseCase.topupUserBalance u amount (Interleaved.after s pre).db = .ok (db, response) →
        UserUseCase.getBalance u (Interleaved.after s (pre ++ [a])).db = some response

section Runs

variable {s : Settings} {u : UserId} {f : Interleaved}

/-- What a step does to the worth of a user's credits. -/
theorem step_worth (hacc : f.db.Accounted) (a : Time × InterleavedAct) (u : UserId) :
    acceptedTopup f.db u a.2 = [] ∧ (f.step s a).db.worth u = f.db.worth u ∨
      ∃ amount, acceptedTopup f.db u a.2 = [amount] ∧
        ∀ c : Cents, amount = c.toDecimal → (f.step s a).db.worth u = f.db.worth u + c := by
  have hother : ∀ a : Time × InterleavedAct, (∀ t, a.2 ≠ .act (.api t)) →
      (f.step s a).db.worth u = f.db.worth u := fun a h =>
    ((Interleaved.step_effect a).imp fun ⟨t, ht⟩ => h t ht).worth_eq hacc u
  have hapi : ∀ (now : Time) (t : ApiTxn), (∀ v amount, t ≠ .topupUserCredits v amount) →
      (f.step s (now, .act (.api t))).db.worth u = f.db.worth u := fun now t h =>
    ApiTxn.worth_eq h
  obtain ⟨now, a⟩ := a
  cases a with
  | select p scan => exact Or.inl ⟨rfl, hother _ (by simp)⟩
  | write i => exact Or.inl ⟨rfl, hother _ (by simp)⟩
  | act b =>
    cases b with
    | api t =>
      cases t with
      | topupUserCredits v amount =>
        have hdb : (f.step s (now, .act (.api (.topupUserCredits v amount)))).db =
          f.db.commit ((BalanceUseCase.topupUserCredits v amount f.db).map (·, ())) := rfl
        cases hc : BalanceUseCase.topupUserCredits v amount f.db with
        | error e =>
          rw [hdb, hc]
          exact Or.inl ⟨by simp [acceptedTopup, hc], rfl⟩
        | ok db' =>
          have hw := worth_topup (u := u) hc
          rw [hdb, hc]
          by_cases hv : v = u
          · subst hv
            refine Or.inr ⟨amount, by simp [acceptedTopup, hc], ?_⟩
            rintro c rfl
            exact worth_topup_cents hacc hc
          · rw [if_neg hv, add_zero] at hw
            exact Or.inl ⟨by simp [acceptedTopup, hc, hv], hw⟩
      | _ => exact Or.inl ⟨rfl, hapi now _ (by simp)⟩
    | _ => exact Or.inl ⟨rfl, hother _ (by simp)⟩

/-- The worth of a user's credits after a run with top-ups of whole cents. -/
theorem run_worth (u : UserId) {acts : List (Time × InterleavedAct)} (hacc : f.db.Accounted)
    (h : ∀ amount ∈ acceptedTopups s u f acts, WholeCents amount) :
    ((run (Interleaved.step s) f acts).db.worth u).toDecimal =
      (f.db.worth u).toDecimal + (acceptedTopups s u f acts).sum := by
  induction acts generalizing f with
  | nil => simp [acceptedTopups]
  | cons a acts ih =>
    have hrest := ih (Interleaved.step_accounted a hacc) fun amount ha =>
      h amount (List.mem_append_right _ ha)
    rw [run_cons, hrest, acceptedTopups, List.sum_append]
    rcases step_worth hacc a u with ⟨hnil, hw⟩ | ⟨amount, hone, hw⟩
    · rw [hnil, hw, List.sum_nil, zero_add]
    · have hmem : amount ∈ acceptedTopup f.db u a.2 := by simp [hone]
      obtain ⟨c, rfl⟩ := h amount (List.mem_append_left _ hmem)
      rw [hone, hw c rfl, Cents.toDecimal_add, List.sum_singleton, add_assoc]

theorem acceptedTopups_append (u : UserId) (as bs : List (Time × InterleavedAct)) :
    acceptedTopups s u f (as ++ bs) =
      acceptedTopups s u f as ++ acceptedTopups s u (run (Interleaved.step s) f as) bs := by
  induction as generalizing f with
  | nil => rfl
  | cons a as ih => simp [acceptedTopups, ih]

/-- An accepted top-up is one of the steps. -/
theorem exists_of_mem_acceptedTopups {amount : ℚ} {acts : List (Time × InterleavedAct)}
    (h : amount ∈ acceptedTopups s u f acts) :
    ∃ pre a post db', acts = pre ++ a :: post ∧
      a.2 = .act (.api (.topupUserCredits u amount)) ∧
        BalanceUseCase.topupUserCredits u amount (run (Interleaved.step s) f pre).db = .ok db' := by
  induction acts generalizing f with
  | nil => cases h
  | cons a acts ih =>
    rcases List.mem_append.1 h with h | h
    · obtain ⟨ha, db', hc⟩ := mem_acceptedTopup.1 h
      exact ⟨[], a, acts, db', rfl, ha, hc⟩
    · obtain ⟨pre, b, post, db', rfl, hb, hc⟩ := ih h
      exact ⟨a :: pre, b, post, db', rfl, hb, hc⟩

/-- The state after an accepted top-up. -/
theorem step_topup {amount : ℚ} {db' : Db} {a : Time × InterleavedAct}
    (ha : a.2 = .act (.api (.topupUserCredits u amount)))
    (hc : BalanceUseCase.topupUserCredits u amount f.db = .ok db') : (f.step s a).db = db' := by
  obtain ⟨now, a⟩ := a
  obtain rfl : a = _ := ha
  show f.db.commit ((BalanceUseCase.topupUserCredits u amount f.db).map (·, ())) = db'
  rw [hc]
  rfl

theorem mem_acceptedTopups {amount : ℚ} {db' : Db} {a : Time × InterleavedAct}
    {pre acts : List (Time × InterleavedAct)} (hpre : pre ++ [a] <+: acts)
    (ha : a.2 = .act (.api (.topupUserCredits u amount)))
    (hc : BalanceUseCase.topupUserCredits u amount (run (Interleaved.step s) f pre).db = .ok db') :
    amount ∈ acceptedTopups s u f acts := by
  obtain ⟨post, rfl⟩ := hpre
  rw [List.append_assoc, acceptedTopups_append]
  exact List.mem_append_right _ (List.mem_append_left _ (mem_acceptedTopup.2 ⟨ha, db', hc⟩))

/-- The response is made of the row that is stored when the amount is in whole cents. -/
theorem topupUserBalance_exact {db db' : Db} {amount : ℚ} {response : BalanceResponse}
    (hacc : db.Accounted) (h : BalanceUseCase.topupUserBalance u amount db = .ok (db', response)) :
    BalanceUseCase.topupUserCredits u amount db = .ok db' ∧
      (WholeCents amount → UserUseCase.getBalance u db' = some response) := by
  simp only [BalanceUseCase.topupUserBalance, bind_eq_ok, BalanceRepository.validateAmount_ok,
    BalanceRepository.getByUserId_ok, Db.writeBalance_ok, pure, Except.pure, Except.ok.injEq,
    Prod.mk.injEq] at h
  obtain ⟨-, ha, row, hf, _, ⟨hcon, rfl⟩, rfl, rfl⟩ := h
  have hflush : SessionBalance.flush { SessionBalance.ofRow row with
      credits := decimalAdd (SessionBalance.ofRow row).credits amount } =
        row.toppedUp amount := by
    rw [SessionBalance.flush, SessionBalance.ofRow, numericColumn_toDecimal]
    rfl
  rw [hflush] at hcon ⊢
  refine ⟨topupUserCredits_iff.2 ⟨ha, row, hf, hcon, rfl⟩, ?_⟩
  rintro ⟨c, rfl⟩
  obtain ⟨hrow, rfl⟩ := Table.find?_eq_some.1 hf
  have hk : row.userId = (row.toppedUp c.toDecimal).userId := rfl
  have hexact := decimalAdd_of_constrained (hacc.constrained.balance row hrow) ha hcon
  rw [UserUseCase.getBalance, Table.find?_put hrow hk, if_pos hk.symm, Option.map_some,
    Balance.toppedUp, hexact, numericColumn_toDecimal, SessionBalance.ofRow, SessionBalance.ofRow,
    hexact]

theorem after_append (s : Settings) (pre : List (Time × InterleavedAct))
    (a : Time × InterleavedAct) :
    Interleaved.after s (pre ++ [a]) = (Interleaved.after s pre).step s a :=
  run_append _ _ pre [a]

/-- Where the ledger is exact before and after a top-up the amount is the difference of two
credits. -/
theorem wholeCents_of_ledgerExact {acts : List (Time × InterleavedAct)} (h : LedgerExact s acts)
    {amount : ℚ} (ha : amount ∈ acceptedTopups s u {} acts) : WholeCents amount := by
  obtain ⟨pre, a, post, db', rfl, ha, hc⟩ := exists_of_mem_acceptedTopups ha
  change BalanceUseCase.topupUserCredits u amount (Interleaved.after s pre).db = .ok db' at hc
  have hstep : (Interleaved.after s (pre ++ [a])).db = db' := by rw [after_append, step_topup ha hc]
  obtain ⟨-, b, hf, -, hdb⟩ := topupUserCredits_iff.1 hc
  obtain ⟨hb, rfl⟩ := Table.find?_eq_some.1 hf
  have hb' : b.toppedUp amount ∈ (Interleaved.after s (pre ++ [a])).db.balances := by
    rw [hstep, hdb]
    exact Table.mem_put_self hb rfl
  have hbefore := h pre ⟨a :: post, rfl⟩ b hb
  have hlater := h (pre ++ [a]) ⟨post, by simp⟩ _ hb'
  have hpaid : (Interleaved.after s (pre ++ [a])).db.deductedCost b.userId =
      (Interleaved.after s pre).db.deductedCost b.userId := by
    rw [hstep, hdb]
    rfl
  have htopup : acceptedTopups s b.userId (run (Interleaved.step s) {} pre) [a] = [amount] := by
    have hc' : BalanceUseCase.topupUserCredits b.userId amount
      (run (Interleaved.step s) {} pre).db = .ok db' := hc
    simp [acceptedTopups, acceptedTopup, ha, hc']
  rw [show (b.toppedUp amount).userId = b.userId from rfl, hpaid, acceptedTopups_append, htopup,
    List.sum_append, List.sum_singleton] at hlater
  refine ⟨(b.toppedUp amount).credits - b.credits, ?_⟩
  rw [sub_eq_add_neg, Cents.toDecimal_add, hlater]
  have hneg : Cents.toDecimal (-b.credits) = -Cents.toDecimal b.credits := by
    simp [Cents.toDecimal, neg_div]
  rw [hneg, hbefore]
  ring

theorem ledgerExact_of_wholeCents {acts : List (Time × InterleavedAct)}
    (h : ∀ u, ∀ amount ∈ acceptedTopups s u {} acts, WholeCents amount) : LedgerExact s acts := by
  intro pre hpre b hb
  have hwhole : ∀ amount ∈ acceptedTopups s b.userId {} pre, WholeCents amount := by
    intro amount ha
    obtain ⟨post, rfl⟩ := hpre
    refine h b.userId amount ?_
    rw [acceptedTopups_append]
    exact List.mem_append_left _ ha
  have hrun : ((Interleaved.after s pre).db.worth b.userId).toDecimal =
      (Db.worth Db.empty b.userId).toDecimal + (acceptedTopups s b.userId {} pre).sum :=
    run_worth b.userId Db.consistent_empty.toAccounted hwhole
  have hzero : (Db.worth Db.empty b.userId).toDecimal = 0 := by
    rw [show Db.worth Db.empty b.userId = 0 from rfl, Cents.toDecimal, Int.cast_zero, zero_div]
  rw [hzero, Db.worth, credits_of_find? (Table.find?_key hb), Cents.toDecimal_add] at hrun
  linarith

theorem responsesExact_of_wholeCents {acts : List (Time × InterleavedAct)}
    (h : ∀ u, ∀ amount ∈ acceptedTopups s u {} acts, WholeCents amount) :
    ResponsesExact s acts := by
  intro pre a u amount hpre ha db response hr
  obtain ⟨hc, hexact⟩ := topupUserBalance_exact (Interleaved.run_charged s pre).accounted hr
  rw [after_append, step_topup ha hc]
  exact hexact (h u amount (mem_acceptedTopups hpre ha hc))

end Runs

/-- The ledger and the responses are exact along a run when the accepted amounts are whole
cents, and only then. -/
theorem ledger_exact_iff (s : Settings) (acts : List (Time × InterleavedAct)) :
    LedgerExact s acts ∧ ResponsesExact s acts ↔
      ∀ u, ∀ amount ∈ acceptedTopups s u {} acts, WholeCents amount := by
  constructor
  · exact fun h u amount ha => wholeCents_of_ledgerExact h.1 ha
  · exact fun h => ⟨ledgerExact_of_wholeCents h, responsesExact_of_wholeCents h⟩

/-- A user tops up half a cent. -/
def halfCentSample : List (Time × InterleavedAct) :=
  [(0, .act (.api (.createUser 1 "user"))), (0, .act (.api (.topupUserCredits 1 (1 / 200))))]

/-- The half cent is stored as a cent, and the response shows none. -/
theorem halfCent_not_exact :
    acceptedTopups {} 1 {} halfCentSample = [1 / 200] ∧
      ¬LedgerExact {} halfCentSample ∧ ¬ResponsesExact {} halfCentSample := by
  have hstored : (Interleaved.after {} halfCentSample).db.balances.find? 1 = some ⟨1, 1, 0⟩ := by
    decide +kernel
  have htopups : acceptedTopups {} 1 {} halfCentSample = [1 / 200] := by decide +kernel
  have hpaid : (Interleaved.after {} halfCentSample).db.deductedCost 1 = 0 := by decide +kernel
  refine ⟨htopups, fun h => ?_, fun h => ?_⟩
  · have he := h _ (List.prefix_refl _) _ (Table.find?_eq_some.1 hstored).1
    rw [htopups, hpaid] at he
    norm_num [Cents.toDecimal] at he
  · have hr : ((BalanceUseCase.topupUserBalance 1 (1 / 200)
        (Interleaved.after {} (halfCentSample.take 1)).db).toOption.map Prod.snd) =
          some ⟨1, "0.00", "0.00", "0.00"⟩ := by decide +kernel
    have hread : UserUseCase.getBalance 1 (Interleaved.after {} halfCentSample).db =
        some ⟨1, "0.01", "0.00", "0.01"⟩ := by decide +kernel
    cases hc : BalanceUseCase.topupUserBalance 1 (1 / 200)
      (Interleaved.after {} (halfCentSample.take 1)).db with
    | error e =>
      rw [hc] at hr
      cases hr
    | ok r =>
      have he := h (halfCentSample.take 1) _ 1 (1 / 200) (List.prefix_refl halfCentSample) rfl
        _ _ hc
      rw [show halfCentSample.take 1 ++ _ = halfCentSample from rfl, hread] at he
      rw [hc] at hr
      exact absurd (he.trans hr) (by decide)

end Abrio
