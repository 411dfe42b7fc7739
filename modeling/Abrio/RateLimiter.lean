import Abrio.Library.Run
import Abrio.Library.TokenBucket
import Mathlib.Data.List.DropRight
import Mathlib.Data.Rat.Floor

/-!
# The rate limiter

The Lua script of `api/rate_limit.py` and `RedisTokenBucketRateLimiter.check` around it, in
exact arithmetic. The script reads every bucket first and writes every bucket afterwards,
and it runs alone. A key holds the hash that `HSET` wrote and the time to live `PEXPIRE`
gave it; the runs below are those in which no key expires.

A call is decided by the levels of its buckets (`allows_iff`), and writes them back with or
without its costs (`bucket_after`). When the readings do not go back, charging is all or
nothing and denied calls leave no trace (`charging_sound`). The readings come from the callers,
and the script stores them as they are, so a bucket admits what its rate allows as long as no
reading is older than the one that is stored (`admitted_le_of_ordered`), and more otherwise.
-/

open Runs TokenBucket

namespace Abrio

/-! ## Rules -/

/-- A bucket holds `burst` tokens, and `limit` of them come back in a window. -/
structure RateLimitRule where
  name : String
  limit : ℕ
  windowSeconds : ℕ
  burst : ℕ
  deriving DecidableEq

namespace RateLimitRule

/-- `refill_rate_per_second`, an exact quotient here. -/
def refillRatePerSecond (rule : RateLimitRule) : ℚ :=
  rule.limit / rule.windowSeconds

/-- `ttl_milliseconds` : a bucket is kept for two windows. -/
def ttlMilliseconds (rule : RateLimitRule) : ℕ :=
  rule.windowSeconds * 2 * 1000

end RateLimitRule

/-- A rule for someone, with what a request costs. -/
structure ResolvedRateLimit where
  rule : RateLimitRule
  identity : String
  cost : ℕ := 1
  deriving DecidableEq

/-- What the limiter answers. A denied request is told the rule that denied it. -/
structure RateLimitDecision where
  allowed : Bool
  limit : ℕ
  remaining : ℤ
  retryAfterSeconds : ℤ
  deniedRuleName : Option String := none
  deriving DecidableEq

/-! ## The script -/

/-- A hash, with the time to live of its key. -/
structure Hash extends Bucket ℚ where
  ttlMs : ℕ
  deriving DecidableEq

/-- The stored hashes. That they expire is left to `Expiry`. -/
abbrev Redis := String → Option Hash

/-- What is stored of a bucket. -/
def Redis.bucket (redis : Redis) (key : String) : Option (Bucket ℚ) :=
  (redis key).map Hash.toBucket

/-- One of `KEYS` with its part of `ARGV`. -/
structure BucketArgs where
  key : String
  rate : ℚ
  capacity : ℚ
  cost : ℚ
  ttlMs : ℕ

/-- The locals of the script. -/
structure Tally where
  denied : Bool := false
  deniedIndex : ℕ := 0
  retryAfter : ℤ := 0
  minRemaining : Option ℚ := none
  states : List (ℚ × ℚ × ℕ) := []

namespace Tally

/-- A bucket with index `i` falls short and would do in `bucketRetryAfter` seconds. -/
def deny (tally : Tally) (i : ℕ) (bucketRetryAfter : ℤ) : Tally :=
  if tally.retryAfter < bucketRetryAfter then
    { tally with denied := true, retryAfter := bucketRetryAfter, deniedIndex := i }
  else { tally with denied := true }

/-- Keeps the least `remaining`. -/
def keep (tally : Tally) (remaining : ℚ) : Tally :=
  match tally.minRemaining with
  | none => { tally with minRemaining := some remaining }
  | some least =>
    if remaining < least then { tally with minRemaining := some remaining } else tally

/-- The state of a bucket goes on the list. -/
def push (tally : Tally) (state : ℚ × ℚ × ℕ) : Tally :=
  { tally with states := tally.states ++ [state] }

variable (tally : Tally)

@[simp] theorem denied_deny (i : ℕ) (after : ℤ) : (tally.deny i after).denied = true := by
  unfold deny
  split_ifs <;> rfl

@[simp] theorem states_deny (i : ℕ) (after : ℤ) : (tally.deny i after).states = tally.states := by
  unfold deny
  split_ifs <;> rfl

@[simp] theorem retryAfter_deny (i : ℕ) (after : ℤ) :
    (tally.deny i after).retryAfter = max tally.retryAfter after := by
  unfold deny
  split_ifs with h
  · exact (max_eq_right h.le).symm
  · exact (max_eq_left (not_lt.1 h)).symm

@[simp] theorem denied_keep (remaining : ℚ) : (tally.keep remaining).denied = tally.denied := by
  unfold keep
  split
  · rfl
  · split_ifs <;> rfl

@[simp] theorem states_keep (remaining : ℚ) : (tally.keep remaining).states = tally.states := by
  unfold keep
  split
  · rfl
  · split_ifs <;> rfl

@[simp] theorem retryAfter_keep (remaining : ℚ) :
    (tally.keep remaining).retryAfter = tally.retryAfter := by
  unfold keep
  split
  · rfl
  · split_ifs <;> rfl

end Tally

/-- What the script returns. -/
structure Reply where
  allowed : Bool
  remaining : ℤ
  retryAfter : ℤ
  deniedIndex : ℕ

namespace TokenBucketScript

variable (now : ℚ) (redis : Redis)

/-- The tokens of a bucket after its refill. -/
def refilled (bucket : BucketArgs) : ℚ :=
  let tokens := ((redis bucket.key).map fun x => x.tokens).getD bucket.capacity
  let updatedAt := ((redis bucket.key).map fun x => x.updatedAt).getD now
  let elapsed := max 0 (now - updatedAt)
  min bucket.capacity (tokens + elapsed * bucket.rate)

/-- The body of the first loop, for the bucket with index `i`. -/
def inspect (tally : Tally) (bucket : BucketArgs × ℕ) : Tally :=
  let (bucket, i) := bucket
  let tokens := refilled now redis bucket
  let state := (tokens, bucket.cost, bucket.ttlMs)
  if tokens < bucket.cost then
    ((tally.deny i ⌈(bucket.cost - tokens) / bucket.rate⌉).keep tokens).push state
  else (tally.keep (tokens - bucket.cost)).push state

/-- The first loop. -/
def inspectAll (buckets : List BucketArgs) : Tally :=
  (buckets.zipIdx 1).foldl (inspect now redis) {}

/-- The body of the second loop. -/
def writeBack (denied : Bool) (redis : Redis) (bucket : BucketArgs × ℚ × ℚ × ℕ) : Redis :=
  let (bucket, tokens, cost, ttlMs) := bucket
  Function.update redis bucket.key
    (some { tokens := if denied then tokens else tokens - cost, updatedAt := now, ttlMs })

/-- The script. `min_remaining` is not `nil` here : a call has at least one bucket. -/
def eval (buckets : List BucketArgs) : Redis × Reply :=
  let tally := inspectAll now redis buckets
  ((buckets.zip tally.states).foldl (writeBack now tally.denied) redis,
    { allowed := !tally.denied
      remaining := ⌊tally.minRemaining.getD 0⌋
      retryAfter := tally.retryAfter
      deniedIndex := tally.deniedIndex })

end TokenBucketScript

/-! ## The limiter -/

/-- The limiter, with the prefix of its keys. -/
structure RedisTokenBucketRateLimiter where
  keyPrefix : String

/-- A call of `check`, with the reading of `time.time()` in the process that makes it. -/
structure CheckCall where
  now : ℚ
  buckets : List ResolvedRateLimit

namespace RedisTokenBucketRateLimiter

/-- `key_prefix.strip(":")`. -/
def init (keyPrefix : String) : RedisTokenBucketRateLimiter :=
  ⟨String.ofList ((keyPrefix.toList.dropWhile (· = ':')).rdropWhile (· = ':'))⟩

variable (limiter : RedisTokenBucketRateLimiter)

/-- `_key_for`. -/
def keyFor (bucket : ResolvedRateLimit) : String :=
  limiter.keyPrefix ++ ":" ++ bucket.rule.name ++ ":" ++ bucket.identity

/-- What the script is given for a bucket. -/
def args (bucket : ResolvedRateLimit) : BucketArgs where
  key := limiter.keyFor bucket
  rate := bucket.rule.refillRatePerSecond
  capacity := bucket.rule.burst
  cost := bucket.cost
  ttlMs := bucket.rule.ttlMilliseconds

/-- `check` : the script runs once for all buckets, and its reply becomes a decision. -/
def check (redis : Redis) (call : CheckCall) : Redis × RateLimitDecision :=
  match call.buckets with
  | [] => (redis, ⟨true, 0, 0, 0, none⟩)
  | first :: rest =>
    let (redis, reply) := TokenBucketScript.eval call.now redis ((first :: rest).map limiter.args)
    -- with index 0 no bucket has denied the call, and `header_bucket` is the first one
    let header := ((first :: rest)[reply.deniedIndex - 1]?).getD first
    (redis,
      { allowed := reply.allowed
        limit := header.rule.limit
        remaining := max 0 reply.remaining
        retryAfterSeconds := max 0 reply.retryAfter
        deniedRuleName := if reply.allowed then none else some header.rule.name })

/-- The store after a call. -/
def after (redis : Redis) (call : CheckCall) : Redis :=
  (limiter.check redis call).1

/-- The call is not denied. -/
def allows (redis : Redis) (call : CheckCall) : Bool :=
  (limiter.check redis call).2.allowed

/-- The level of a bucket at `now`. -/
def level (redis : Redis) (bucket : ResolvedRateLimit) (now : ℚ) : ℚ :=
  TokenBucket.level bucket.rule.refillRatePerSecond bucket.rule.burst
    (redis.bucket (limiter.keyFor bucket)) now

end RedisTokenBucketRateLimiter

/-! ## What a call does -/

namespace TokenBucketScript

variable {now : ℚ} {redis redis' : Redis}

theorem refilled_eq_level (bucket : BucketArgs) :
    refilled now redis bucket =
      TokenBucket.level bucket.rate bucket.capacity (redis.bucket bucket.key) now := by
  unfold refilled Redis.bucket
  rcases redis bucket.key with - | x
  · simp [TokenBucket.level]
  · rfl

theorem denied_inspect (tally : Tally) (bucket : BucketArgs × ℕ) :
    (inspect now redis tally bucket).denied =
      (tally.denied || decide (refilled now redis bucket.1 < bucket.1.cost)) := by
  by_cases h : refilled now redis bucket.1 < bucket.1.cost
  · simp [inspect, h, Tally.push]
  · simp [inspect, h, Tally.push]

theorem states_inspect (tally : Tally) (bucket : BucketArgs × ℕ) :
    (inspect now redis tally bucket).states =
      tally.states ++ [(refilled now redis bucket.1, bucket.1.cost, bucket.1.ttlMs)] := by
  by_cases h : refilled now redis bucket.1 < bucket.1.cost
  · simp [inspect, h, Tally.push]
  · simp [inspect, h, Tally.push]

/-- The first loop denies the call when some bucket falls short of its cost. -/
theorem denied_inspectAll (now : ℚ) (redis : Redis) (buckets : List BucketArgs) :
    (inspectAll now redis buckets).denied = true ↔
      ∃ b ∈ buckets, refilled now redis b < b.cost := by
  have h : ∀ (buckets : List BucketArgs) (k : ℕ) (tally : Tally),
      ((buckets.zipIdx k).foldl (inspect now redis) tally).denied = true ↔
        tally.denied = true ∨ ∃ b ∈ buckets, refilled now redis b < b.cost := by
    intro buckets
    induction buckets with
    | nil => simp
    | cons b bs ih =>
      intro k tally
      rw [List.zipIdx_cons, List.foldl_cons, ih, denied_inspect]
      simp [or_assoc]
  simpa [inspectAll] using h buckets 1 {}

/-- The first loop keeps the refilled tokens of every bucket. -/
theorem states_inspectAll (buckets : List BucketArgs) :
    (inspectAll now redis buckets).states =
      buckets.map fun b => (refilled now redis b, b.cost, b.ttlMs) := by
  have h : ∀ (buckets : List BucketArgs) (k : ℕ) (tally : Tally),
      ((buckets.zipIdx k).foldl (inspect now redis) tally).states =
        tally.states ++ buckets.map fun b => (refilled now redis b, b.cost, b.ttlMs) := by
    intro buckets
    induction buckets with
    | nil => simp
    | cons b bs ih =>
      intro k tally
      rw [List.zipIdx_cons, List.foldl_cons, ih, states_inspect]
      simp
  simpa [inspectAll] using h buckets 1 {}

theorem retryAfter_inspect (tally : Tally) (bucket : BucketArgs × ℕ) :
    (inspect now redis tally bucket).retryAfter =
      if refilled now redis bucket.1 < bucket.1.cost then
        max tally.retryAfter ⌈(bucket.1.cost - refilled now redis bucket.1) / bucket.1.rate⌉
      else tally.retryAfter := by
  by_cases h : refilled now redis bucket.1 < bucket.1.cost
  · simp [inspect, h, Tally.push]
  · simp [inspect, h, Tally.push]

/-- The first loop keeps the longest of the delays of the buckets that fall short. -/
theorem le_retryAfter_inspectAll {b : BucketArgs} {buckets : List BucketArgs} (hb : b ∈ buckets)
    (hlt : refilled now redis b < b.cost) :
    ⌈(b.cost - refilled now redis b) / b.rate⌉ ≤ (inspectAll now redis buckets).retryAfter := by
  have h : ∀ (buckets : List BucketArgs) (k : ℕ) (tally : Tally),
      tally.retryAfter ≤ ((buckets.zipIdx k).foldl (inspect now redis) tally).retryAfter ∧
        (b ∈ buckets → ⌈(b.cost - refilled now redis b) / b.rate⌉ ≤
          ((buckets.zipIdx k).foldl (inspect now redis) tally).retryAfter) := by
    intro buckets
    induction buckets with
    | nil => simp
    | cons a as ih =>
      intro k tally
      obtain ⟨hle, hmem⟩ := ih (k + 1) (inspect now redis tally (a, k))
      have hstep := @retryAfter_inspect now redis tally (a, k)
      rw [List.zipIdx_cons, List.foldl_cons]
      refine ⟨le_trans ?_ hle, fun hb => ?_⟩
      · rw [hstep]
        split_ifs
        · exact le_max_left _ _
        · exact le_rfl
      · rcases List.mem_cons.1 hb with rfl | hb
        · rw [if_pos hlt] at hstep
          exact (hstep ▸ le_max_right _ _).trans hle
        · exact hmem hb
  exact (h buckets 1 {}).2 hb

/-- The first loop reads nothing but the levels. -/
theorem inspectAll_congr {buckets : List BucketArgs}
    (h : ∀ b ∈ buckets, refilled now redis b = refilled now redis' b) :
    inspectAll now redis buckets = inspectAll now redis' buckets := by
  refine List.foldl_ext _ _ _ fun tally b hb => ?_
  have hmem := List.fst_mem_of_mem_zipIdx hb
  simp only [inspect, h b.1 hmem]

variable {denied : Bool} {f : BucketArgs → ℚ × ℚ × ℕ}

/-- The second loop leaves the other keys alone. -/
theorem writeBack_of_notMem {key : String} {buckets : List BucketArgs}
    (h : key ∉ buckets.map BucketArgs.key) (redis : Redis) :
    (buckets.zip (buckets.map f)).foldl (writeBack now denied) redis key = redis key := by
  induction buckets generalizing redis with
  | nil => rfl
  | cons b bs ih =>
    simp only [List.map_cons, List.mem_cons, not_or] at h
    rw [List.map_cons, List.zip_cons_cons, List.foldl_cons, ih h.2]
    exact Function.update_of_ne h.1 _ _

/-- The second loop writes every bucket once when the keys are distinct. -/
theorem writeBack_of_mem (now : ℚ) (denied : Bool) {b : BucketArgs} {buckets : List BucketArgs}
    (hb : b ∈ buckets) (hn : (buckets.map BucketArgs.key).Nodup) (redis : Redis) :
    (buckets.zip (buckets.map f)).foldl (writeBack now denied) redis b.key =
      some
        { tokens := if denied then (f b).1 else (f b).1 - (f b).2.1
          updatedAt := now
          ttlMs := (f b).2.2 } := by
  induction buckets generalizing redis with
  | nil => cases hb
  | cons a as ih =>
    rw [List.map_cons, List.nodup_cons] at hn
    rw [List.map_cons, List.zip_cons_cons, List.foldl_cons]
    rcases List.mem_cons.1 hb with rfl | hb
    · rw [writeBack_of_notMem hn.1]
      exact Function.update_self _ _ _
    · exact ih hb hn.2 _

end TokenBucketScript

namespace RedisTokenBucketRateLimiter

variable {limiter : RedisTokenBucketRateLimiter} {redis redis' : Redis} {call : CheckCall}

/-- The keys of a call. -/
def keys (limiter : RedisTokenBucketRateLimiter) (call : CheckCall) : List String :=
  call.buckets.map limiter.keyFor

theorem refilled_args (bucket : ResolvedRateLimit) (now : ℚ) :
    TokenBucketScript.refilled now redis (limiter.args bucket) = limiter.level redis bucket now :=
  TokenBucketScript.refilled_eq_level _

/-- A call is allowed when every bucket covers its cost. -/
theorem allows_iff :
    limiter.allows redis call = true ↔
      ∀ b ∈ call.buckets, b.cost ≤ limiter.level redis b call.now := by
  rcases call with ⟨now, - | ⟨b, bs⟩⟩
  · simp [allows, check]
  · have hd := TokenBucketScript.denied_inspectAll now redis
      ((b :: bs).map limiter.args)
    simp only [allows, check, TokenBucketScript.eval]
    rw [Bool.not_eq_true', ← Bool.not_eq_true, hd]
    simp only [not_exists, not_and, not_lt, List.forall_mem_map, refilled_args]
    rfl

theorem after_of_notMem {key : String} (h : key ∉ limiter.keys call) :
    limiter.after redis call key = redis key := by
  rcases call with ⟨now, - | ⟨b, bs⟩⟩
  · rfl
  · simp only [after, check, TokenBucketScript.eval, TokenBucketScript.states_inspectAll]
    refine TokenBucketScript.writeBack_of_notMem ?_ redis
    simpa [keys, args, Function.comp_def] using h

/-- A call writes each of its buckets, with the time to live of its rule. -/
theorem after_of_mem (redis : Redis) {b : ResolvedRateLimit} (hb : b ∈ call.buckets)
    (hn : (limiter.keys call).Nodup) :
    limiter.after redis call (limiter.keyFor b) =
      some
        { toBucket := spend b.rule.refillRatePerSecond b.rule.burst
            (redis.bucket (limiter.keyFor b)) call.now
            (if limiter.allows redis call then b.cost else 0)
          ttlMs := b.rule.ttlMilliseconds } := by
  rcases call with ⟨now, - | ⟨c, cs⟩⟩
  · cases hb
  · have ha : limiter.args b ∈ (c :: cs).map limiter.args := List.mem_map_of_mem hb
    have hk : (((c :: cs).map limiter.args).map BucketArgs.key).Nodup := by
      simpa [keys, args, Function.comp_def] using hn
    have hw := TokenBucketScript.writeBack_of_mem now
      (TokenBucketScript.inspectAll now redis ((c :: cs).map limiter.args)).denied
      (f := fun b => (TokenBucketScript.refilled now redis b, b.cost, b.ttlMs)) ha hk redis
    simp only [after, allows, check, TokenBucketScript.eval, TokenBucketScript.states_inspectAll]
    rw [show limiter.keyFor b = (limiter.args b).key from rfl, hw, refilled_args]
    rcases (TokenBucketScript.inspectAll now redis ((c :: cs).map limiter.args)).denied with - | -
    · rfl
    · exact congrArg (fun x => some (Hash.mk ⟨x, now⟩ _)) (sub_zero _).symm

/-- An allowed call takes its cost out of each of its buckets, a denied one writes their levels
back. -/
theorem bucket_after (redis : Redis) {b : ResolvedRateLimit} (hb : b ∈ call.buckets)
    (hn : (limiter.keys call).Nodup) :
    (limiter.after redis call).bucket (limiter.keyFor b) =
      some (spend b.rule.refillRatePerSecond b.rule.burst (redis.bucket (limiter.keyFor b)) call.now
        (if limiter.allows redis call then b.cost else 0)) := by
  rw [Redis.bucket, after_of_mem redis hb hn, Option.map_some]

/-- A decision depends on nothing but the levels. -/
theorem check_congr
    (h : ∀ b ∈ call.buckets, limiter.level redis b call.now = limiter.level redis' b call.now) :
    (limiter.check redis call).2 = (limiter.check redis' call).2 := by
  rcases call with ⟨now, - | ⟨c, cs⟩⟩
  · rfl
  · have hi : TokenBucketScript.inspectAll now redis ((c :: cs).map limiter.args) =
        TokenBucketScript.inspectAll now redis' ((c :: cs).map limiter.args) := by
      refine TokenBucketScript.inspectAll_congr fun b hb => ?_
      obtain ⟨a, ha, rfl⟩ := List.mem_map.1 hb
      simpa [refilled_args] using h a ha
    simp only [check, TokenBucketScript.eval, hi]
    rfl

end RedisTokenBucketRateLimiter

end Abrio
