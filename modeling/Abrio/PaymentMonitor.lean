import Abrio.Consistency
import Abrio.Library.Grouping

/-!
# The payment monitor

`_collect_payment_consistency_metrics` counts the balances that break an invariant of the
payments, in five gauges. It reads the balances, and joins to them what the messages with a
reserved payment cost by user. The gauges are all zero exactly when every user's reservation is
covered by the credits and made up of the reserved messages (`monitor_exact`), on any rows at
all that have a balance for each user and cost something. A balance that no user has is counted
as well (`orphan_counted`). Reachable states are silent (`run_silent`).
-/

open Relational Runs

namespace Abrio

/-- `PAYMENT_VIOLATION_TYPES`. -/
inductive PaymentViolation
  | negativeCredits
  | negativeReservedCredits
  | reservedExceedsCredits
  | reservedWithoutMessage
  | messageBalanceMismatch
  deriving DecidableEq, Repr

/-- All of them. A `frozenset` is read in an order of its own, which moves log lines only. -/
def paymentViolationTypes : List PaymentViolation :=
  [.negativeCredits, .negativeReservedCredits, .reservedExceedsCredits, .reservedWithoutMessage,
    .messageBalanceMismatch]

theorem mem_paymentViolationTypes (t : PaymentViolation) : t ∈ paymentViolationTypes := by
  cases t <;> decide

/-- `abrio_payment_consistency_violations`, by the label `type`. -/
abbrev PaymentGauges := PaymentViolation → ℕ

namespace Metrics

/-! ## The queries -/

/-- The row of `payment_query`. -/
structure PaymentRow where
  negativeCredits : ℕ
  negativeReservedCredits : ℕ
  reservedExceedsCredits : ℕ

/-- `payment_query`, of the balances alone. -/
def paymentQuery (balances : List Balance) : PaymentRow where
  negativeCredits := balances.countP fun b => b.credits < 0
  negativeReservedCredits := balances.countP fun b => b.reservedCredits < 0
  reservedExceedsCredits := balances.countP fun b => b.credits < b.reservedCredits

/-- `sum(cost)` is `NULL` of no rows. -/
def sumCost : List Message → Option Cents
  | [] => none
  | m :: ms => some ((m :: ms).map Message.cost).sum

/-- The subquery `reserved_messages`. -/
def reservedMessages (messages : List Message) : List (UserId × Cents) :=
  groupBy Message.userId (fun group => (sumCost group).getD 0)
    (messages.filter fun m => m.paymentStatus = .reserved)

/-- `coalesce(reserved_messages.reserved_total, 0.00)` of a joined row. -/
def reservedTotal (row : Balance × Option (UserId × Cents)) : Cents :=
  (row.2.map Prod.snd).getD 0

/-- The row of `mismatch_query`. -/
structure MismatchRow where
  reservedWithoutMessage : ℕ
  messageBalanceMismatch : ℕ

/-- `mismatch_query`, of the balances joined with what is reserved for their users. -/
def mismatchQuery (balances : List Balance) (messages : List Message) : MismatchRow :=
  let rows := leftJoin (fun b group => decide (group.1 = b.userId)) balances
    (reservedMessages messages)
  { reservedWithoutMessage :=
      rows.countP fun row => 0 < row.1.reservedCredits ∧ reservedTotal row = 0
    messageBalanceMismatch :=
      rows.countP fun row => row.1.reservedCredits ≠ reservedTotal row }

/-- `values` of `_collect_payment_consistency_metrics`, from its two rows. -/
def violationsOf (row : PaymentRow) (mismatch : MismatchRow) : PaymentGauges
  | .negativeCredits => row.negativeCredits
  | .negativeReservedCredits => row.negativeReservedCredits
  | .reservedExceedsCredits => row.reservedExceedsCredits
  | .reservedWithoutMessage => mismatch.reservedWithoutMessage
  | .messageBalanceMismatch => mismatch.messageBalanceMismatch

/-- `values`, where both queries read one state. -/
def violations (balances : List Balance) (messages : List Message) : PaymentGauges :=
  violationsOf (paymentQuery balances) (mismatchQuery balances messages)

/-! ## The gauges -/

/-- One turn of the loop : the gauge is set, and a count that is not zero is logged. -/
def setGauge (values : PaymentGauges) (state : PaymentGauges × List (PaymentViolation × ℕ))
    (t : PaymentViolation) : PaymentGauges × List (PaymentViolation × ℕ) :=
  (Function.update state.1 t (values t),
    if values t = 0 then state.2 else state.2 ++ [(t, values t)])

/-- `_collect_payment_consistency_metrics` : the gauges, and the warnings in the log. -/
def collectPaymentConsistencyMetrics (balances : List Balance) (messages : List Message)
    (gauges : PaymentGauges) : PaymentGauges × List (PaymentViolation × ℕ) :=
  paymentViolationTypes.foldl (setGauge (violations balances messages)) (gauges, [])

theorem foldl_setGauge_fst (values : PaymentGauges) (types : List PaymentViolation)
    (state : PaymentGauges × List (PaymentViolation × ℕ)) (t : PaymentViolation) :
    (types.foldl (setGauge values) state).1 t = if t ∈ types then values t else state.1 t := by
  induction types generalizing state with
  | nil => rfl
  | cons t' types ih =>
    rw [List.foldl_cons, ih]
    by_cases h : t = t'
    · subst h
      simp [setGauge]
    · simp [setGauge, h]

theorem foldl_setGauge_snd (values : PaymentGauges) (types : List PaymentViolation)
    (state : PaymentGauges × List (PaymentViolation × ℕ)) :
    (types.foldl (setGauge values) state).2 =
      state.2 ++ (types.filter fun t => values t ≠ 0).map fun t => (t, values t) := by
  induction types generalizing state with
  | nil => simp
  | cons t types ih =>
    rw [List.foldl_cons, ih]
    by_cases h : values t = 0
    · simp [setGauge, h]
    · simp [setGauge, h]

/-- A collection sets every gauge, whatever it was. -/
theorem gauges_collect (balances : List Balance) (messages : List Message)
    (gauges : PaymentGauges) :
    (collectPaymentConsistencyMetrics balances messages gauges).1 =
      violations balances messages := by
  funext t
  rw [collectPaymentConsistencyMetrics, foldl_setGauge_fst, if_pos (mem_paymentViolationTypes t)]

/-- A collection logs nothing exactly when it sets every gauge to zero. -/
theorem warnings_collect_eq_nil {balances : List Balance} {messages : List Message}
    {gauges : PaymentGauges} :
    (collectPaymentConsistencyMetrics balances messages gauges).2 = [] ↔
      ∀ t, violations balances messages t = 0 := by
  rw [collectPaymentConsistencyMetrics, foldl_setGauge_snd]
  simp [List.filter_eq_nil_iff, mem_paymentViolationTypes]

end Metrics

/-! ## What the gauges say -/

/-- The rows that the monitor is about. They need not satisfy the constraints of their tables. A
user is an id. -/
structure PaymentRows where
  users : Finset UserId
  balances : List Balance
  messages : List Message

namespace PaymentRows

variable (rows : PaymentRows)

/-- What the messages of a user with a reserved payment cost together. -/
def reservedCost (u : UserId) : Cents :=
  ((rows.messages.filter fun m => m.userId = u ∧ m.paymentStatus = .reserved).map
    Message.cost).sum

/-- The user has a message with a reserved payment. -/
def HasReserved (u : UserId) : Prop :=
  ∃ m ∈ rows.messages, m.userId = u ∧ m.paymentStatus = .reserved

instance (u : UserId) : Decidable (rows.HasReserved u) :=
  inferInstanceAs (Decidable (∃ m ∈ rows.messages, m.userId = u ∧ m.paymentStatus = .reserved))

/-- The reservation is covered by the credits and made up of the reserved messages. -/
structure Backed (b : Balance) : Prop where
  reserved_nonneg : 0 ≤ b.reservedCredits
  credits_ge_reserved : b.reservedCredits ≤ b.credits
  reserved : b.reservedCredits = rows.reservedCost b.userId

/-- The user has a balance whose reservation is so. -/
def Sound (u : UserId) : Prop :=
  ∃ b ∈ rows.balances, b.userId = u ∧ rows.Backed b

/-- What the gauges say of the rows. -/
structure Reports (gauges : PaymentGauges) : Prop where
  silent : (∀ t, gauges t = 0) ↔ ∀ u ∈ rows.users, rows.Sound u
  mismatch : gauges .messageBalanceMismatch = (rows.users.filter fun u =>
    ∃ b ∈ rows.balances, b.userId = u ∧ b.reservedCredits ≠ rows.reservedCost u).card
  unbacked : gauges .reservedWithoutMessage = (rows.users.filter fun u =>
    ∃ b ∈ rows.balances, b.userId = u ∧ 0 < b.reservedCredits ∧ ¬rows.HasReserved u).card

/-- What the monitor makes of the rows. -/
def violations : PaymentGauges :=
  Metrics.violations rows.balances rows.messages

variable {rows}

/-- The joined row of a balance has what its user's reserved messages cost. -/
theorem reservedTotal_group (b : Balance) :
    Metrics.reservedTotal (b, group Message.userId (fun l => (Metrics.sumCost l).getD 0)
      (rows.messages.filter fun m => m.paymentStatus = .reserved) b.userId) =
      rows.reservedCost b.userId := by
  have hsum : ∀ l : List Message, (Metrics.sumCost l).getD 0 = (l.map Message.cost).sum := by
    intro l
    cases l <;> rfl
  have hfilter : ((rows.messages.filter fun m => m.paymentStatus = .reserved).filter fun m =>
      m.userId = b.userId) =
      rows.messages.filter fun m => m.userId = b.userId ∧ m.paymentStatus = .reserved := by
    rw [List.filter_filter]
    exact List.filter_congr fun m _ => (Bool.decide_and _ _).symm
  rw [reservedCost, ← hfilter, ← hsum, Metrics.reservedTotal, group]
  split_ifs with h
  · rfl
  · have hnone : ((rows.messages.filter fun m => m.paymentStatus = .reserved).filter fun m =>
        m.userId = b.userId) = [] := by
      rw [List.filter_eq_nil_iff]
      exact fun m hm hu => h (List.mem_map.2 ⟨m, hm, of_decide_eq_true hu⟩)
    rw [hnone]
    rfl

/-- The two counts of the join are counts of balances. -/
theorem countP_join (p : Balance → Cents → Prop) [∀ b c, Decidable (p b c)] :
    ((leftJoin (fun b group => decide (group.1 = b.userId)) rows.balances
      (Metrics.reservedMessages rows.messages)).countP fun row =>
        decide (p row.1 (Metrics.reservedTotal row))) =
      rows.balances.countP fun b => decide (p b (rows.reservedCost b.userId)) := by
  rw [Metrics.reservedMessages, leftJoin_groupBy, List.countP_map]
  refine List.countP_congr fun b _ => ?_
  rw [Function.comp_apply, reservedTotal_group]

/-- Where messages cost something, none is reserved exactly when they cost nothing. -/
theorem reservedCost_eq_zero (hcost : ∀ m ∈ rows.messages, 0 < m.cost) {u : UserId} :
    rows.reservedCost u = 0 ↔ ¬rows.HasReserved u := by
  refine ⟨?_, ?_⟩
  · rintro hzero ⟨m, hm, hu, hr⟩
    have hmem : m ∈ rows.messages.filter fun m => m.userId = u ∧ m.paymentStatus = .reserved :=
      List.mem_filter.2 ⟨hm, decide_eq_true ⟨hu, hr⟩⟩
    refine (List.sum_pos _ (fun c hc => ?_) ?_).ne' hzero
    · obtain ⟨x, hx, rfl⟩ := List.mem_map.1 hc
      exact hcost x (List.mem_filter.1 hx).1
    · exact List.ne_nil_of_mem (List.mem_map_of_mem hmem)
  · intro hnone
    rw [reservedCost, List.filter_eq_nil_iff.2]
    · rfl
    · exact fun m hm hp => hnone ⟨m, hm, of_decide_eq_true hp⟩

/-- The first count of the join. -/
theorem violations_mismatch (rows : PaymentRows) :
    rows.violations .messageBalanceMismatch =
      rows.balances.countP fun b => b.reservedCredits ≠ rows.reservedCost b.userId :=
  countP_join fun b c => b.reservedCredits ≠ c

/-- The second count of the join. -/
theorem violations_unbacked (rows : PaymentRows) :
    rows.violations .reservedWithoutMessage =
      rows.balances.countP fun b => 0 < b.reservedCredits ∧ rows.reservedCost b.userId = 0 :=
  countP_join fun b c => 0 < b.reservedCredits ∧ c = 0

/-- The gauges are all zero exactly when no balance breaks an invariant. -/
theorem violations_eq_zero {rows : PaymentRows} :
    (∀ t, rows.violations t = 0) ↔ ∀ b ∈ rows.balances, rows.Backed b := by
  refine ⟨?_, ?_⟩
  · intro h b hb
    have hneg := List.countP_eq_zero.1 (h .negativeReservedCredits) b hb
    have hexceeds := List.countP_eq_zero.1 (h .reservedExceedsCredits) b hb
    have hne := List.countP_eq_zero.1
      (rows.violations_mismatch.symm.trans (h .messageBalanceMismatch)) b hb
    simp only [decide_eq_true_eq, not_lt, ne_eq, not_not] at hneg hexceeds hne
    exact ⟨hneg, hexceeds, hne⟩
  · intro h t
    have hzero : ∀ p : Balance → Prop, [DecidablePred p] → (∀ b, rows.Backed b → ¬p b) →
        (rows.balances.countP fun b => decide (p b)) = 0 := by
      intro p _ hp
      exact List.countP_eq_zero.2 fun b hb => by simpa using hp b (h b hb)
    cases t with
    | negativeCredits =>
      exact hzero _ fun b hb => not_lt.2 (hb.reserved_nonneg.trans hb.credits_ge_reserved)
    | negativeReservedCredits => exact hzero _ fun b hb => not_lt.2 hb.reserved_nonneg
    | reservedExceedsCredits => exact hzero _ fun b hb => not_lt.2 hb.credits_ge_reserved
    | reservedWithoutMessage =>
      rw [violations_unbacked]
      exact hzero _ fun b hb hp => hp.1.ne' (hb.reserved.trans hp.2)
    | messageBalanceMismatch =>
      rw [violations_mismatch]
      exact hzero _ fun b hb hp => hp hb.reserved

/-- With a balance for each user, that of the user decides whether the user is sound. -/
theorem forall_sound_iff (hone : OneEach Balance.userId rows.balances rows.users) :
    (∀ u ∈ rows.users, rows.Sound u) ↔ ∀ b ∈ rows.balances, rows.Backed b := by
  refine ⟨?_, ?_⟩
  · intro h b hb
    obtain ⟨b', hb', hu, hbacked⟩ := h _ (hone.owner b hb)
    obtain rfl := List.inj_on_of_nodup_map hone.nodup hb' hb hu
    exact hbacked
  · intro h u hu
    obtain ⟨b, hb, rfl⟩ := hone.exists_row hu
    exact ⟨b, hb, rfl, h b hb⟩

end PaymentRows

/-- The monitor is sound and complete, and counts users : on rows with one balance for each user
and no other, and with messages that cost something, the gauges report the users whose
reservation is not what it should be. -/
theorem monitor_exact (rows : PaymentRows)
    (hone : OneEach Balance.userId rows.balances rows.users)
    (hcost : ∀ m ∈ rows.messages, 0 < m.cost) (gauges : PaymentGauges) :
    rows.Reports
      (Metrics.collectPaymentConsistencyMetrics rows.balances rows.messages gauges).1 := by
  rw [Metrics.gauges_collect]
  refine ⟨?_, ?_, ?_⟩
  · exact PaymentRows.violations_eq_zero.trans (PaymentRows.forall_sound_iff hone).symm
  · have hcount := hone.countP_eq_card fun b => b.reservedCredits ≠ rows.reservedCost b.userId
    refine (rows.violations_mismatch.trans hcount).trans (congrArg _ (Finset.filter_congr ?_))
    refine fun u _ => exists_congr fun b => and_congr_right fun _ => and_congr_right ?_
    rintro rfl
    rfl
  · have hcount := hone.countP_eq_card fun b =>
      0 < b.reservedCredits ∧ rows.reservedCost b.userId = 0
    refine (rows.violations_unbacked.trans hcount).trans (congrArg _ (Finset.filter_congr ?_))
    refine fun u _ => exists_congr fun b => and_congr_right fun _ => and_congr_right ?_
    rintro rfl
    rw [PaymentRows.reservedCost_eq_zero hcost]

/-- A message of the user with a payment status. -/
def Message.charged (userId : UserId) (paymentStatus : PaymentStatus) : Message where
  id := 0
  userId := userId
  recipient := "09121234567"
  body := "hello"
  cost := 100
  priority := .normal
  idempotencyKey := 0
  paymentStatus := paymentStatus
  createdAt := 0
  updatedAt := 0

/-- A user with a reservation for a message, one with a reservation for none, and one with a
message that nothing is reserved for. -/
def PaymentRows.sample : PaymentRows where
  users := {1, 2, 3}
  balances := [⟨1, 500, 100⟩, ⟨2, 500, 100⟩, ⟨3, 500, 0⟩]
  messages := [.charged 1 .reserved, .charged 2 .deducted, .charged 3 .reserved]

theorem monitor_exact_sample :
    PaymentRows.sample.Reports (Metrics.collectPaymentConsistencyMetrics
      PaymentRows.sample.balances PaymentRows.sample.messages fun _ => 0).1 :=
  monitor_exact _ ⟨by decide, by decide⟩ (by decide) _

/-- A balance whose user is missing is counted, though every user is as it should be. -/
theorem orphan_counted :
    ¬∀ (rows : PaymentRows) (gauges : PaymentGauges),
      (∀ u ∈ rows.users, share Balance.userId rows.balances u = 1) →
      (∀ m ∈ rows.messages, 0 < m.cost) →
      rows.Reports
        (Metrics.collectPaymentConsistencyMetrics rows.balances rows.messages gauges).1 := by
  intro h
  have hreports := h ⟨{1}, [⟨1, 500, 0⟩, ⟨2, 500, 100⟩], []⟩ (fun _ => 0) (by decide) (by decide)
  have hmismatch := hreports.mismatch
  revert hmismatch
  decide

/-! ## The stored rows -/

/-- What the monitor reads of a state. -/
def Db.paymentRows (db : Db) : PaymentRows where
  users := (db.users.rows.map User.id).toFinset
  balances := db.balances.rows
  messages := db.messages.rows

/-- Where the money is accounted for, no gauge is raised. -/
theorem Db.Accounted.silent {db : Db} (h : db.Accounted) (t : PaymentViolation) :
    db.paymentRows.violations t = 0 := by
  refine PaymentRows.violations_eq_zero.2 (fun b hb => ?_) t
  have hcon := h.constrained.balance b hb
  exact ⟨hcon.reserved_nonneg, hcon.credits_ge_reserved, h.reserved b hb⟩

/-- In every reachable state the monitor sets every gauge to zero, and logs nothing. -/
theorem run_silent (s : Settings) (txns : List (Time × Txn)) (gauges : PaymentGauges) :
    let db := run (Db.step s) Db.empty txns
    Metrics.collectPaymentConsistencyMetrics db.balances.rows db.messages.rows gauges =
      (fun _ => 0, []) := by
  intro db
  have hzero : ∀ t, Metrics.violations db.balances.rows db.messages.rows t = 0 :=
    (run_consistent s txns).toAccounted.silent
  refine Prod.ext ?_ (Metrics.warnings_collect_eq_nil.2 hzero)
  rw [Metrics.gauges_collect]
  exact funext hzero

end Abrio
