import Abrio.Schema

/-!
# The balance repository

Each operation locks the user's balance, changes it in the session and leaves the write
to the next flush, so it returns the changed row : `Db.writeBalance` is the flush. The
`_ok` lemmas say when an operation succeeds and what the row is then; the proofs of the
use cases read nothing else of this file.
-/

open Relational Runs

namespace Abrio

namespace BalanceRepository

/-- Only a positive amount passes. -/
def validateAmount (amount : ℚ) : Except Exn Unit :=
  if amount ≤ 0 then .error (.app (.invalidAmountValue amount)) else .ok ()

variable (db : Db) (userId : UserId)

/-- `SELECT … FOR UPDATE` of a user's balance. The id is cast to the type of its column, which
fails for an id that no row can have. -/
def getByUserId : Except Exn Balance :=
  match db.balances.find? userId with
  | some balance => .ok balance
  | none =>
    if fitsInt4 userId then .error (.app (.userNotFound userId)) else .error (.db .dataError)

/-- `_topup_user_credits`, with the rounding of the column the sum is written to. A sum whose
exponent the context cannot hold, which raises here, is one that the column cannot hold. -/
def topupUserCredits (amount : ℚ) : Except Exn Balance := do
  validateAmount amount
  let balance ← getByUserId db userId
  return { balance with credits := numericColumn (decimalAdd balance.credits.toDecimal amount) }

/-- `topup_user_reserved_credits`. -/
def topupUserReservedCredits (amount : Cents) : Except Exn Balance := do
  validateAmount amount.toDecimal
  let balance ← getByUserId db userId
  return { balance with reservedCredits := balance.reservedCredits + amount }

/-- `deduct_user_reserved_credits`. The database refuses less than none. -/
def deductUserReservedCredits (amount : Cents) : Except Exn Balance := do
  validateAmount amount.toDecimal
  let balance ← getByUserId db userId
  return { balance with reservedCredits := balance.reservedCredits - amount }

/-- `reserve_credits`, which checks the amount a second time. -/
def reserveCredits (amount : Cents) : Except Exn Balance := do
  validateAmount amount.toDecimal
  topupUserReservedCredits db userId amount

/-- `release_credits`, which checks the amount a second time. -/
def releaseCredits (amount : Cents) : Except Exn Balance := do
  validateAmount amount.toDecimal
  deductUserReservedCredits db userId amount

/-- `settle` : what was reserved is spent. -/
def settle (amount : Cents) : Except Exn Balance := do
  validateAmount amount.toDecimal
  let balance ← getByUserId db userId
  return { balance with
    reservedCredits := balance.reservedCredits - amount
    credits := balance.credits - amount }

/-! ## What the operations return -/

variable {db userId}

theorem validateAmount_ok {amount : ℚ} {u : Unit} : validateAmount amount = .ok u ↔ 0 < amount := by
  unfold validateAmount
  split_ifs with h
  · simpa using h
  · simpa using h

theorem validateCents_ok {amount : Cents} {u : Unit} :
    validateAmount amount.toDecimal = .ok u ↔ 0 < amount := by
  rw [validateAmount_ok, ← not_le, Cents.toDecimal_nonpos, not_le]

theorem getByUserId_ok {balance : Balance} :
    getByUserId db userId = .ok balance ↔ db.balances.find? userId = some balance := by
  unfold getByUserId
  cases db.balances.find? userId with
  | some b => simp
  | none => split_ifs <;> simp

theorem getByUserId_error {e : Exn} (h : getByUserId db userId = .error e) :
    e = .app (.userNotFound userId) ∨ (e = .db .dataError ∧ fitsInt4 userId = false) := by
  unfold getByUserId at h
  split at h
  · cases h
  · split_ifs at h with hfits
    · cases h
      exact .inl rfl
    · cases h
      exact .inr ⟨rfl, by simpa using hfits⟩

theorem topupUserCredits_ok {amount : ℚ} {balance : Balance} :
    topupUserCredits db userId amount = .ok balance ↔ 0 < amount ∧
      ∃ b, db.balances.find? userId = some b ∧
        balance = { b with credits := numericColumn (decimalAdd b.credits.toDecimal amount) } := by
  simp only [topupUserCredits, bind_eq_ok, validateAmount_ok, getByUserId_ok, exists_const,
    pure, Except.pure, Except.ok.injEq, eq_comm (b := balance)]

theorem reserveCredits_ok {amount : Cents} {balance : Balance} :
    reserveCredits db userId amount = .ok balance ↔ 0 < amount ∧
      ∃ b, db.balances.find? userId = some b ∧
        balance = { b with reservedCredits := b.reservedCredits + amount } := by
  simp only [reserveCredits, topupUserReservedCredits, bind_eq_ok, validateCents_ok,
    getByUserId_ok, exists_const, pure, Except.pure, Except.ok.injEq, eq_comm (b := balance),
    and_self_left]

/-- A reservation raises for its amount or for an unknown user. -/
theorem reserveCredits_error {amount : Cents} {e : Exn}
    (h : reserveCredits db userId amount = .error e) :
    e = .app (.invalidAmountValue amount.toDecimal) ∨ e = .app (.userNotFound userId) ∨
      (e = .db .dataError ∧ fitsInt4 userId = false) := by
  have hamount : ∀ {e}, validateAmount amount.toDecimal = .error e →
      e = .app (.invalidAmountValue amount.toDecimal) := by
    intro e h
    unfold validateAmount at h
    split_ifs at h
    cases h
    rfl
  rcases bind_eq_error.1 h with h | ⟨_, -, h⟩
  · exact .inl (hamount h)
  rcases bind_eq_error.1 h with h | ⟨_, -, h⟩
  · exact .inl (hamount h)
  rcases bind_eq_error.1 h with h | ⟨_, -, ⟨⟩⟩
  exact .inr (getByUserId_error h)

theorem releaseCredits_ok {amount : Cents} {balance : Balance} :
    releaseCredits db userId amount = .ok balance ↔ 0 < amount ∧
      ∃ b, db.balances.find? userId = some b ∧
        balance = { b with reservedCredits := b.reservedCredits - amount } := by
  simp only [releaseCredits, deductUserReservedCredits, bind_eq_ok, validateCents_ok,
    getByUserId_ok, exists_const, pure, Except.pure, Except.ok.injEq, eq_comm (b := balance),
    and_self_left]

theorem settle_ok {amount : Cents} {balance : Balance} :
    settle db userId amount = .ok balance ↔ 0 < amount ∧
      ∃ b, db.balances.find? userId = some b ∧
        balance = { b with
          reservedCredits := b.reservedCredits - amount
          credits := b.credits - amount } := by
  simp only [settle, bind_eq_ok, validateCents_ok, getByUserId_ok, exists_const, pure,
    Except.pure, Except.ok.injEq, eq_comm (b := balance)]

end BalanceRepository

/-- A smaller amount fits where a larger one does. -/
theorem fitsNumeric_of_le {c d : Cents} (hc : 0 ≤ c) (hd : c ≤ d) (h : fitsNumeric d = true) :
    fitsNumeric c = true := by
  rw [fitsNumeric_iff, abs_of_nonneg] at h ⊢
  · exact hd.trans_lt h
  · exact hc
  · exact hc.trans hd

theorem Db.writeBalance_ok {db db' : Db} {b : Balance} :
    db.writeBalance b = .ok db' ↔
      b.Constrained ∧ db' = { db with balances := db.balances.put b } := by
  unfold Db.writeBalance
  constructor
  · intro h
    split_ifs at h with hf hge hc hr
    cases h
    simp only [Bool.not_eq_true', Bool.not_eq_false, Bool.and_eq_true] at hf
    exact ⟨⟨not_lt.1 hge, not_lt.1 hr, hf.1⟩, rfl⟩
  · rintro ⟨⟨hge, hr, hf⟩, rfl⟩
    have hfr := fitsNumeric_of_le hr hge hf
    simp [hf, hfr, not_lt.2 hge, not_lt.2 (hr.trans hge), not_lt.2 hr]

end Abrio
