import Abrio.Library.Decimal
import Mathlib.Algebra.Order.Floor.Ring
import Mathlib.Tactic.Linarith

/-!
# Domain types

The enumerations of `domain/enums.py`, the errors a use case can end with, clock
readings, money and the settings. A clock reading counts microseconds, the resolution of
`datetime` and of `TIMESTAMPTZ`. A two-decimal amount counts cents. `Decimal` amounts of any
precision are rationals, whose sums and differences have the 28 digits of the default
context; within the bounds of a column they are exact for cents.
-/

namespace Abrio

/-- Each priority has its own queue, relays and price. -/
inductive MessagePriority
  | normal
  | express
  deriving DecidableEq, Repr

/-- What has become of a message. -/
inductive MessageStatus
  | queued
  | dispatching
  | failed
  | sent
  | permanentFailed
  deriving DecidableEq, Repr

/-- What has become of the credits reserved for a message. -/
inductive PaymentStatus
  | reserved
  | deducted
  | refunded
  deriving DecidableEq, Repr

/-- The states of a dispatch job. -/
inductive DispatchJobStatus
  | pending
  | published
  | dispatching
  | retry
  | completed
  | failed
  deriving DecidableEq, Repr

/-- `TERMINAL_JOB_STATUSES`. -/
def DispatchJobStatus.terminal : DispatchJobStatus → Bool
  | .completed => true
  | .failed => true
  | _ => false

/-- A `users.id`. The API accepts any integer; the column holds 32 bits. -/
abbrev UserId := ℤ

/-- A value drawn by `uuid4()`. -/
abbrev UUID := ℕ

/-- A relay id or a worker id, as `locked_by` holds it. -/
abbrev OwnerId := ℕ

/-! ## Time -/

/-- A clock reading in microseconds. -/
abbrev Time := ℤ

/-- Times are in microseconds. -/
def seconds (n : ℤ) : Time :=
  n * 1000000

/-- `random.uniform(0, 1)` seconds, to the microsecond. -/
abbrev Jitter := Fin 1000001

instance jitterNeZero : NeZero 1000001 :=
  ⟨by decide⟩

/-- `calculate_backoff` of the relay and `_calculate_backoff` of the worker. -/
def calculateBackoff (retryCount : ℕ) (jitter : Jitter) : Time :=
  seconds (min 60 (2 ^ min retryCount 6)) + (jitter : ℕ)

/-! ## Money -/

/-- A `Decimal` with two decimals, in cents. -/
abbrev Cents := ℤ

/-- The `Decimal` a two-decimal amount is. -/
def Cents.toDecimal (c : Cents) : ℚ :=
  c / 100

theorem Cents.toDecimal_nonpos {c : Cents} : Cents.toDecimal c ≤ 0 ↔ c ≤ 0 := by
  rw [Cents.toDecimal, div_nonpos_iff]
  constructor
  · rintro (⟨-, h⟩ | ⟨h, -⟩)
    · norm_num at h
    · exact_mod_cast h
  · intro h
    exact Or.inr ⟨by exact_mod_cast h, by norm_num⟩

/-- A `NUMERIC(10, 2)` column keeps two decimals, rounding half away from zero. -/
def numericColumn (d : ℚ) : Cents :=
  if 0 ≤ d then ⌊d * 100 + 1 / 2⌋ else -⌊-d * 100 + 1 / 2⌋

/-- An amount of whole cents is stored as it is. -/
theorem numericColumn_toDecimal (c : Cents) : numericColumn c.toDecimal = c := by
  have h : Cents.toDecimal c * 100 = (c : ℚ) := by
    rw [Cents.toDecimal]
    ring
  have hfloor : ∀ n : ℤ, ⌊(n : ℚ) + 1 / 2⌋ = n := fun n => by
    rw [Int.floor_eq_iff]
    constructor <;> norm_num
  unfold numericColumn
  split_ifs
  · rw [h, hfloor]
  · rw [neg_mul, h, ← Int.cast_neg, hfloor, neg_neg]

/-- Rounding to the column keeps the order. -/
theorem numericColumn_mono {d d' : ℚ} (hd : 0 ≤ d) (h : d ≤ d') :
    numericColumn d ≤ numericColumn d' := by
  rw [numericColumn, numericColumn, if_pos hd, if_pos (hd.trans h)]
  exact Int.floor_le_floor (by linarith)

/-- `NUMERIC(10, 2)` holds at most eight digits before the point. -/
def fitsNumeric (c : Cents) : Bool :=
  c.natAbs < 10 ^ 10

theorem fitsNumeric_iff {c : Cents} : fitsNumeric c = true ↔ |c| < 10 ^ 10 := by
  rw [fitsNumeric, decide_eq_true_iff, Int.abs_eq_natAbs]
  exact_mod_cast Iff.rfl

/-- `x + y` of two `Decimal`s. -/
def decimalAdd (x y : ℚ) : ℚ :=
  Python.Decimal.roundTo 28 (x + y)

/-- `x - y` of two `Decimal`s. -/
def decimalSub (x y : ℚ) : ℚ :=
  Python.Decimal.roundTo 28 (x - y)

namespace Cents

theorem toDecimal_add (c d : Cents) : Cents.toDecimal (c + d) = c.toDecimal + d.toDecimal := by
  simp only [Cents.toDecimal]
  push_cast
  ring

theorem toDecimal_eq (c : Cents) : c.toDecimal = c * 10 ^ (-2 : ℤ) := by
  rw [Cents.toDecimal, div_eq_mul_inv]
  norm_num

theorem toDecimal_nonneg {c : Cents} (h : 0 ≤ c) : 0 ≤ c.toDecimal :=
  div_nonneg (Int.cast_nonneg h) (by norm_num)

/-- A sum below 10 ^ 26 has two decimals in the context. -/
theorem exponent_le {x : ℚ} (h0 : 0 < x) (h : x < 10 ^ 26) : Python.Decimal.exponent 28 x ≤ -2 :=
  (Python.Decimal.exponent_le h0 h).trans (by norm_num)

/-- Adding to an amount that a column holds does not take from it. -/
theorem le_decimalAdd {c : Cents} {amount : ℚ} (hc : 0 ≤ c) (hf : fitsNumeric c = true)
    (ha : 0 < amount) : c.toDecimal ≤ decimalAdd c.toDecimal amount := by
  have hpos : 0 < c.toDecimal + amount := add_pos_of_nonneg_of_pos (toDecimal_nonneg hc) ha
  have hle : c.toDecimal ≤ c.toDecimal + amount := le_add_of_nonneg_right ha.le
  by_cases hx : c.toDecimal + amount < 10 ^ 26
  · rw [toDecimal_eq] at hle hpos hx ⊢
    exact Python.Decimal.le_roundTo (exponent_le hpos hx) hle
  · refine le_trans ?_ (Python.Decimal.pow_le_roundTo (by norm_num) (not_lt.1 hx))
    have hlt : (c : ℚ) < 10 ^ 10 := by
      exact_mod_cast (abs_lt.1 (fitsNumeric_iff.1 hf)).2
    rw [Cents.toDecimal, div_le_iff₀ (by norm_num)]
    linarith

theorem le_numericColumn_decimalAdd {c : Cents} {amount : ℚ} (hc : 0 ≤ c)
    (hf : fitsNumeric c = true) (ha : 0 < amount) :
    c ≤ numericColumn (decimalAdd c.toDecimal amount) := by
  have hmono := numericColumn_mono (toDecimal_nonneg hc) (le_decimalAdd hc hf ha)
  rwa [numericColumn_toDecimal] at hmono

/-- A sum of cents that a column holds is exact. -/
theorem decimalAdd_eq {c d : Cents} (hc : 0 ≤ c) (hd : 0 < d)
    (hf : fitsNumeric (numericColumn (decimalAdd c.toDecimal d.toDecimal)) = true) :
    decimalAdd c.toDecimal d.toDecimal = Cents.toDecimal (c + d) := by
  have hpos : (0 : ℚ) < Cents.toDecimal (c + d) :=
    div_pos (Int.cast_pos.2 (add_pos_of_nonneg_of_pos hc hd)) (by norm_num)
  rw [decimalAdd, ← toDecimal_add] at hf ⊢
  by_cases hx : Cents.toDecimal (c + d) < 10 ^ 26
  · exact Python.Decimal.roundTo_eq_self (exponent_le hpos hx) (toDecimal_eq _)
  · -- what is as large as this does not fit
    have hround := Python.Decimal.pow_le_roundTo (p := 28) (by norm_num) (not_lt.1 hx)
    have hmono := numericColumn_mono (by positivity) hround
    have hlarge : numericColumn (10 ^ 26) = 10 ^ 28 := by decide +kernel
    have hlt := (abs_lt.1 (fitsNumeric_iff.1 hf)).2
    rw [hlarge] at hmono
    exact absurd (hmono.trans_lt hlt) (by decide)

end Cents

/-! ## Errors -/

/-- The constraints a statement can violate. -/
inductive Constraint
  | usersPkey
  | messagesPkey
  | dispatchJobsPkey
  | balancesUserIdKey
  | dispatchJobsMessageIdKey
  | uniqueUserIdIdempotencyKey
  | messagesUserIdFkey
  | dispatchJobsUserIdFkey
  | dispatchJobsMessageIdFkey
  | checkCostGtZero
  | checkCreditsGeReservedCredits
  | checkCreditsNonNegative
  | checkReservedCreditsNonNegative
  deriving DecidableEq, Repr

/-- What the database raises. The first three are `IntegrityError`s; a value no column of
its type can hold is a `DataError`; a deadlock or a lost connection is an
`OperationalError`. -/
inductive DbError
  | uniqueViolation (c : Constraint)
  | foreignKeyViolation (c : Constraint)
  | checkViolation (c : Constraint)
  | dataError
  | operationalError
  deriving DecidableEq, Repr

/-- The errors of `domain/errors.py`. -/
inductive AppError
  | userNotFound (userId : UserId)
  | invalidAmountValue (amount : ℚ)
  | messageNotFound (idempotencyKey : UUID)
  | idempotencyConflict
  | idempotencyDuplicate (idempotencyKey : UUID)
  | insufficientBalance (userId : UserId) (messageCost : Cents)
  deriving DecidableEq

/-- The `RuntimeError`s of the worker. -/
inductive RuntimeFault
  | paymentNotReserved
  | noProviderMessageId
  deriving DecidableEq, Repr

/-- What a transaction can raise. -/
inductive Exn
  | db (e : DbError)
  | app (e : AppError)
  | runtime (e : RuntimeFault)
  deriving DecidableEq

/-! ## Settings -/

/-- `Settings.validate_cost` : a price must be positive, and is then quantized to two
decimals with `ROUND_HALF_DOWN`. -/
def validateCost (v : ℚ) : Option Cents :=
  if v ≤ 0 then none else some ⌈v * 100 - 1 / 2⌉

theorem validateCost_nonneg {v : ℚ} {c : Cents} (h : validateCost v = some c) : 0 ≤ c := by
  unfold validateCost at h
  split_ifs at h with hv
  obtain rfl := Option.some.inj h
  have h1 : (((-1 : ℤ)) : ℚ) < v * 100 - 1 / 2 := by
    push_cast
    linarith
  exact Int.lt_ceil.2 h1

/-- The settings the modelled code reads, with what their validators leave of them. -/
structure Settings where
  costPerMessage : Cents := 100
  costPerExpressMessage : Cents := 100
  relayNormalBatchSize : ℕ := 80
  relayNormalPerUserLimit : ℕ := 20
  relayExpressBatchSize : ℕ := 20
  relayExpressPerUserLimit : ℕ := 5
  maxDeliveryAttempts : ℕ := 5
  expressTtlSeconds : ℕ := 120
  costPerMessage_nonneg : 0 ≤ costPerMessage := by decide
  costPerExpressMessage_nonneg : 0 ≤ costPerExpressMessage := by decide
  relayNormalBatchSize_pos : 0 < relayNormalBatchSize := by decide
  relayNormalPerUserLimit_pos : 0 < relayNormalPerUserLimit := by decide
  relayExpressBatchSize_pos : 0 < relayExpressBatchSize := by decide
  relayExpressPerUserLimit_pos : 0 < relayExpressPerUserLimit := by decide
  maxDeliveryAttempts_pos : 0 < maxDeliveryAttempts := by decide
  expressTtlSeconds_pos : 0 < expressTtlSeconds := by decide

/-- `MessageUseCase._get_message_cost`. -/
def Settings.messageCost (s : Settings) : MessagePriority → Cents
  | .normal => s.costPerMessage
  | .express => s.costPerExpressMessage

/-- `LEASE_SECONDS` : how long a relay's claim is honoured. -/
def leaseSeconds : ℤ := 60

/-- `INFLIGHT_LEASE_SECONDS` : how long a job may sit in flight before the reaper takes it. -/
def inflightLeaseSeconds : ℤ := 120

/-- `WORKER_LEASE_SECONDS` : how long a worker's delivery lease is honoured. -/
def workerLeaseSeconds : ℤ := 120

/-- `REAP_LIMIT`. -/
def reapLimit : ℕ := 200

end Abrio
