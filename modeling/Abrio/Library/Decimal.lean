import Mathlib.Data.Int.Log
import Mathlib.Data.Rat.Floor
import Mathlib.Tactic.Linarith

/-!
# Decimals of bounded precision

Decimal arithmetic in a context : an operation gives the exact result, rounded to so many
significant digits, half to even (`roundTo`). Rounding keeps what has no more digits than
that (`roundTo_eq_self`), and does not take a number below one of such digits that it was
above (`le_roundTo`), a power of ten for one (`pow_le_roundTo`).
-/

namespace Python.Decimal

/-- Rounds to an integer, half to even. -/
def roundHalfEven (q : ℚ) : ℤ :=
  let r := q - ⌊q⌋
  if r < 1 / 2 then ⌊q⌋
  else if 1 / 2 < r then ⌊q⌋ + 1
  else if ⌊q⌋ % 2 = 0 then ⌊q⌋ else ⌊q⌋ + 1

theorem floor_le_roundHalfEven (q : ℚ) : ⌊q⌋ ≤ roundHalfEven q := by
  unfold roundHalfEven
  dsimp only
  split_ifs <;> omega

theorem roundHalfEven_intCast (n : ℤ) : roundHalfEven n = n := by
  simp [roundHalfEven]

/-- The exponent of the last of the first `p` digits of `x`. -/
def exponent (p : ℕ) (x : ℚ) : ℤ :=
  Int.log 10 |x| + 1 - p

/-- `x` rounded to `p` significant digits. -/
def roundTo (p : ℕ) (x : ℚ) : ℚ :=
  roundHalfEven (x / 10 ^ exponent p x) * 10 ^ exponent p x

variable {p : ℕ} {x : ℚ}

/-- An integer multiple of a power of ten is one of every smaller power. -/
theorem exists_mul_zpow {k e : ℤ} (n : ℤ) (h : e ≤ k) :
    ∃ m : ℤ, (n : ℚ) * 10 ^ k = m * 10 ^ e := by
  obtain ⟨d, rfl⟩ : ∃ d : ℕ, k = e + d := ⟨(k - e).toNat, by omega⟩
  refine ⟨n * 10 ^ d, ?_⟩
  rw [zpow_add₀ (by norm_num), zpow_natCast]
  push_cast
  ring

/-- What has no more digits stays as it is. -/
theorem roundTo_eq_self {k n : ℤ} (hk : exponent p x ≤ k) (hx : x = n * 10 ^ k) :
    roundTo p x = x := by
  obtain ⟨m, hm⟩ := exists_mul_zpow n hk
  have hpos : (0 : ℚ) < 10 ^ exponent p x := zpow_pos (by norm_num) _
  have hdiv : x / 10 ^ exponent p x = m := by
    rw [div_eq_iff hpos.ne', ← hm]
    exact hx
  rw [roundTo, hdiv, roundHalfEven_intCast, ← hdiv, div_mul_cancel₀ _ hpos.ne']

/-- A number of such digits that is not above stays not above. -/
theorem le_roundTo {k n : ℤ} (hk : exponent p x ≤ k) (hx : n * 10 ^ k ≤ x) :
    n * 10 ^ k ≤ roundTo p x := by
  obtain ⟨m, hm⟩ := exists_mul_zpow n hk
  have hpos : (0 : ℚ) < 10 ^ exponent p x := zpow_pos (by norm_num) _
  have hdiv : (m : ℚ) ≤ x / 10 ^ exponent p x := by
    rw [le_div_iff₀ hpos, ← hm]
    exact hx
  have hround : m ≤ roundHalfEven (x / 10 ^ exponent p x) :=
    (Int.le_floor.2 hdiv).trans (floor_le_roundHalfEven _)
  rw [hm, roundTo]
  exact mul_le_mul_of_nonneg_right (by exact_mod_cast hround) hpos.le

/-- A power of ten that is not above. -/
theorem pow_le_roundTo {d : ℕ} (hp : 1 ≤ p) (hx : (10 : ℚ) ^ d ≤ x) : 10 ^ d ≤ roundTo p x := by
  have hpos : 0 < x := lt_of_lt_of_le (by positivity) hx
  have hlog : (d : ℤ) ≤ Int.log 10 x := by
    rw [← Int.zpow_le_iff_le_log (by norm_num) hpos]
    exact_mod_cast hx
  have hself : ((1 : ℤ) : ℚ) * 10 ^ Int.log 10 x ≤ x := by
    rw [Int.cast_one, one_mul]
    exact_mod_cast Int.zpow_log_le_self (b := 10) (by norm_num) hpos
  have hexp : exponent p x ≤ Int.log 10 x := by
    rw [exponent, abs_of_pos hpos]
    omega
  have hle := le_roundTo hexp hself
  rw [Int.cast_one, one_mul] at hle
  refine le_trans ?_ hle
  rw [← zpow_natCast]
  exact zpow_le_zpow_right₀ (by norm_num) hlog

/-- Where a number below a power of ten has its last digit. -/
theorem exponent_le {d : ℕ} (h0 : 0 < x) (h : x < 10 ^ d) : exponent p x ≤ d - p := by
  have hlog : Int.log 10 x < d := by
    rw [← Int.lt_zpow_iff_log_lt (by norm_num) h0]
    exact_mod_cast h
  rw [exponent, abs_of_pos h0]
  omega

end Python.Decimal
