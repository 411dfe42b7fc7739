import Mathlib.Algebra.Order.Ring.Defs
import Mathlib.Tactic.Linarith
import Mathlib.Tactic.Ring

/-!
# Token buckets

A bucket gains `rate` tokens per unit of time and holds at most `capacity`. What is stored
of it is the number of tokens at the last write and the time of that write; its level at a
later time is that number refilled (`refill`), and a bucket that was never written is full.

Time can be split anywhere (`refill_refill`), so writing the present level back changes no
later level (`level_spend_zero`), as long as the clock does not go back. Then what a write takes out
of a bucket is paid for by an earlier level and the time that has passed since (`spend_le`).
-/

set_option linter.unusedSectionVars false

namespace TokenBucket

variable {α : Type*} [CommRing α] [LinearOrder α] [IsStrictOrderedRing α]

/-- The tokens at the last write, and when it was. -/
@[ext]
structure Bucket (α : Type*) where
  tokens : α
  updatedAt : α
  deriving DecidableEq

/-- `tokens` after `elapsed`; a negative time adds nothing. -/
def refill (rate capacity tokens elapsed : α) : α :=
  min capacity (tokens + max 0 elapsed * rate)

/-- The level at `now` of what is stored. -/
def level (rate capacity : α) : Option (Bucket α) → α → α
  | none, _ => capacity
  | some b, now => refill rate capacity b.tokens (now - b.updatedAt)

/-- The last write was at `now` or before. -/
def WrittenBy (now : α) (b : Option (Bucket α)) : Prop :=
  ∀ x ∈ b, x.updatedAt ≤ now

instance decidableWrittenBy (now : α) : ∀ b, Decidable (WrittenBy now b)
  | none => .isTrue (by simp [WrittenBy])
  | some x => decidable_of_iff (x.updatedAt ≤ now) (by simp [WrittenBy])

/-- The tokens are between none and the capacity. -/
def Within (capacity : α) (b : Option (Bucket α)) : Prop :=
  ∀ x ∈ b, 0 ≤ x.tokens ∧ x.tokens ≤ capacity

variable {rate capacity : α}

/-! ## Refills -/

theorem refill_le_capacity (tokens elapsed : α) : refill rate capacity tokens elapsed ≤ capacity :=
  min_le_left _ _

theorem le_refill (hr : 0 ≤ rate) {tokens : α} (ht : tokens ≤ capacity) (elapsed : α) :
    tokens ≤ refill rate capacity tokens elapsed := by
  have : 0 ≤ max 0 elapsed * rate := mul_nonneg (le_max_left _ _) hr
  exact le_min ht (by linarith)

@[simp] theorem refill_zero {tokens : α} (ht : tokens ≤ capacity) :
    refill rate capacity tokens 0 = tokens := by
  simp [refill, ht]

/-- Refilling for `d` and then for `e` is refilling for `d + e`. -/
theorem refill_refill (hr : 0 ≤ rate) (tokens : α) {d e : α} (hd : 0 ≤ d) (he : 0 ≤ e) :
    refill rate capacity (refill rate capacity tokens d) e =
      refill rate capacity tokens (d + e) := by
  unfold refill
  rw [max_eq_right hd, max_eq_right he, max_eq_right (add_nonneg hd he), ← min_add_add_right,
    ← min_assoc, add_mul, add_assoc, min_eq_left (le_add_of_nonneg_right (mul_nonneg he hr))]

theorem refill_le_add (tokens : α) {d : α} (hd : 0 ≤ d) :
    refill rate capacity tokens d ≤ tokens + d * rate := by
  rw [refill, max_eq_right hd]
  exact min_le_right _ _

/-- A bucket covers a cost within its capacity once it has had the time to gain what is missing. -/
theorem le_refill_of_le {tokens elapsed cost : α} (he : 0 ≤ elapsed) (hc : cost ≤ capacity)
    (h : cost ≤ tokens + elapsed * rate) : cost ≤ refill rate capacity tokens elapsed := by
  rw [refill, max_eq_right he]
  exact le_min hc h

/-- A bucket that has had the time to fill up is full. -/
theorem refill_eq_capacity {tokens elapsed : α} (ht : 0 ≤ tokens) (he : 0 ≤ elapsed)
    (h : capacity ≤ elapsed * rate) : refill rate capacity tokens elapsed = capacity := by
  rw [refill, max_eq_right he]
  exact min_eq_left (by linarith)

/-! ## Levels -/

theorem level_le_capacity (b : Option (Bucket α)) (now : α) :
    level rate capacity b now ≤ capacity := by
  rcases b with - | b
  · exact le_rfl
  · exact refill_le_capacity _ _

theorem level_nonneg (hr : 0 ≤ rate) (hc : 0 ≤ capacity) {b : Option (Bucket α)}
    (h : Within capacity b) (now : α) : 0 ≤ level rate capacity b now := by
  rcases b with - | b
  · exact hc
  · obtain ⟨h0, hle⟩ := h b rfl
    exact h0.trans (le_refill hr hle _)

/-- The level at the moment of a write. -/
theorem level_self {tokens now : α} (ht : tokens ≤ capacity) :
    level rate capacity (some ⟨tokens, now⟩) now = tokens := by
  simp [level, ht]

/-- A level refills like a number of tokens. -/
theorem level_eq_refill (hr : 0 ≤ rate) {b : Option (Bucket α)} {s t : α} (hb : WrittenBy s b)
    (hst : s ≤ t) :
    level rate capacity b t = refill rate capacity (level rate capacity b s) (t - s) := by
  rcases b with - | b
  · exact le_antisymm (le_refill hr le_rfl _) (refill_le_capacity _ _)
  · have hs := sub_nonneg.2 (hb b rfl)
    rw [level, level, refill_refill hr _ hs (sub_nonneg.2 hst)]
    congr 1
    ring

/-- A level rises by no more than `rate` per unit of time. -/
theorem level_le_add (hr : 0 ≤ rate) {b : Option (Bucket α)} {s t : α} (hb : WrittenBy s b)
    (hst : s ≤ t) : level rate capacity b t ≤ level rate capacity b s + (t - s) * rate := by
  rw [level_eq_refill hr hb hst]
  exact refill_le_add _ (sub_nonneg.2 hst)

/-- Two buckets that are level at one time stay so. -/
theorem level_congr (hr : 0 ≤ rate) {b b' : Option (Bucket α)} {s t : α} (hb : WrittenBy s b)
    (hb' : WrittenBy s b') (h : level rate capacity b s = level rate capacity b' s) (hst : s ≤ t) :
    level rate capacity b t = level rate capacity b' t := by
  rw [level_eq_refill hr hb hst, level_eq_refill hr hb' hst, h]

/-- A write at `now` that takes `cost` out of the level. -/
def spend (rate capacity : α) (b : Option (Bucket α)) (now cost : α) : Bucket α :=
  ⟨level rate capacity b now - cost, now⟩

/-- What a write takes out and what it leaves is covered by an earlier level and the time that
has passed since. -/
theorem spend_le (hr : 0 ≤ rate) {b : Option (Bucket α)} {s now cost : α} (hb : WrittenBy s b)
    (hs : s ≤ now) (hc : 0 ≤ cost) :
    cost + level rate capacity (some (spend rate capacity b now cost)) now ≤
      level rate capacity b s + (now - s) * rate := by
  have hcap : level rate capacity b now ≤ capacity := level_le_capacity b now
  have hself : level rate capacity (some (spend rate capacity b now cost)) now =
      level rate capacity b now - cost := level_self (by linarith)
  have hrise : level rate capacity b now ≤ level rate capacity b s + (now - s) * rate :=
    level_le_add hr hb hs
  linarith

/-- Writing the present level back changes no later level. -/
theorem level_spend_zero (hr : 0 ≤ rate) {b : Option (Bucket α)} {now t : α}
    (hb : WrittenBy now b) (ht : now ≤ t) :
    level rate capacity (some (spend rate capacity b now 0)) t = level rate capacity b t := by
  rw [level_eq_refill hr hb ht, spend, sub_zero, level]

theorem writtenBy_spend (b : Option (Bucket α)) (now cost : α) :
    WrittenBy now (some (spend rate capacity b now cost)) := by
  rintro x ⟨⟩
  exact le_rfl

/-- A write that takes no more than the level leaves the tokens within the capacity. -/
theorem within_spend {b : Option (Bucket α)} {now cost : α} (hc : 0 ≤ cost)
    (hle : cost ≤ level rate capacity b now) :
    Within capacity (some (spend rate capacity b now cost)) := by
  rintro x ⟨⟩
  have hcap : level rate capacity b now ≤ capacity := level_le_capacity b now
  exact ⟨sub_nonneg.2 hle, by simp only [spend]; linarith⟩

end TokenBucket
