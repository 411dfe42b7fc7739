import Abrio.Library.Table
import Abrio.RateLimiter

/-!
# Charging and the rate bound

Two results about runs of `check`. With readings that do not go back, a bucket stays between
none and its burst, a call takes its cost out of all of its buckets or out of none, and the
run without the denied calls decides and refills alike (`charging_sound`). The proof compares
the two runs : their buckets have one level at every later reading (`Alike`), whatever a
denied call has written.

The script keeps the reading of the caller as `updated_at` even when a later one is stored
already, and the time between the two is then refilled again. As long as no call on a bucket
does so, what the bucket admits is bounded by its burst and its rate
(`admitted_le_of_ordered`); two replicas a second apart admit more (`skewed_replicas`).
-/

open Runs TokenBucket

namespace Abrio

namespace RedisTokenBucketRateLimiter

variable (limiter : RedisTokenBucketRateLimiter)

/-- The calls of a run without those it denies. -/
def admitted : Redis → List CheckCall → List CheckCall
  | _, [] => []
  | redis, call :: calls =>
    if limiter.allows redis call then call :: admitted (limiter.after redis call) calls
    else admitted (limiter.after redis call) calls

/-- The decisions of a run. -/
def decisions : Redis → List CheckCall → List RateLimitDecision
  | _, [] => []
  | redis, call :: calls =>
    (limiter.check redis call).2 :: decisions (limiter.after redis call) calls

/-- Calls on buckets with distinct keys and positive values, where a key has one rule. -/
structure WellFormed (calls : List CheckCall) : Prop where
  keys_nodup : ∀ call ∈ calls, (limiter.keys call).Nodup
  rate_pos : ∀ call ∈ calls, ∀ b ∈ call.buckets, 0 < b.rule.refillRatePerSecond
  burst_pos : ∀ call ∈ calls, ∀ b ∈ call.buckets, 0 < b.rule.burst
  cost_pos : ∀ call ∈ calls, ∀ b ∈ call.buckets, 1 ≤ b.cost
  rule_eq : ∀ call ∈ calls, ∀ b ∈ call.buckets, ∀ call' ∈ calls, ∀ b' ∈ call'.buckets,
    limiter.keyFor b = limiter.keyFor b' → b.rule = b'.rule

/-- The readings do not go back. -/
def Ordered (calls : List CheckCall) : Prop :=
  calls.Pairwise fun c d => c.now ≤ d.now

variable {limiter} {calls : List CheckCall} {redis redis' : Redis} {call : CheckCall}

/-! ## One call -/

/-- `b` has the rule under which the call charges its key. -/
def SameRule (limiter : RedisTokenBucketRateLimiter) (call : CheckCall) (b : ResolvedRateLimit) :
    Prop :=
  ∀ b' ∈ call.buckets, limiter.keyFor b' = limiter.keyFor b → b'.rule = b.rule

/-- What a call does to a bucket. -/
theorem after_cases (redis : Redis) (hn : (limiter.keys call).Nodup) {b : ResolvedRateLimit}
    (hs : SameRule limiter call b) :
    ((limiter.after redis call).bucket (limiter.keyFor b) = redis.bucket (limiter.keyFor b)) ∨
      ∃ b' ∈ call.buckets, limiter.keyFor b' = limiter.keyFor b ∧
        (limiter.after redis call).bucket (limiter.keyFor b) =
          some (spend b.rule.refillRatePerSecond b.rule.burst (redis.bucket (limiter.keyFor b))
            call.now (if limiter.allows redis call then b'.cost else 0)) := by
  by_cases hk : limiter.keyFor b ∈ limiter.keys call
  · obtain ⟨b', hb', he⟩ := List.mem_map.1 hk
    refine Or.inr ⟨b', hb', he, ?_⟩
    have ha := bucket_after redis hb' hn
    rwa [he, hs b' hb' he] at ha
  · refine Or.inl ?_
    rw [Redis.bucket, after_of_notMem hk, Redis.bucket]

section Call

variable (hn : (limiter.keys call).Nodup) {b : ResolvedRateLimit}
  (hs : SameRule limiter call b)

include hn hs

theorem writtenBy_after {s : ℚ} (hw : WrittenBy s (redis.bucket (limiter.keyFor b)))
    (hnow : s ≤ call.now) :
    WrittenBy call.now ((limiter.after redis call).bucket (limiter.keyFor b)) := by
  rcases after_cases redis hn hs with ha | ⟨b', -, -, ha⟩
  · rw [ha]
    exact fun x hx => (hw x hx).trans hnow
  · rw [ha]
    exact writtenBy_spend _ _ _

theorem within_after (hr : 0 ≤ b.rule.refillRatePerSecond)
    (hw : Within (b.rule.burst : ℚ) (redis.bucket (limiter.keyFor b))) :
    Within (b.rule.burst : ℚ) ((limiter.after redis call).bucket (limiter.keyFor b)) := by
  rcases after_cases redis hn hs with ha | ⟨b', hb', he, ha⟩
  · rwa [ha]
  · rw [ha]
    by_cases hall : limiter.allows redis call
    · rw [if_pos hall]
      refine within_spend (Nat.cast_nonneg _) ?_
      have hle := allows_iff.1 hall b' hb'
      rwa [level, he, hs b' hb' he] at hle
    · rw [if_neg hall]
      exact within_spend le_rfl (level_nonneg hr (Nat.cast_nonneg _) hw _)

/-- A denied call changes no later level. -/
theorem level_after_of_denied (hr : 0 ≤ b.rule.refillRatePerSecond)
    (hd : limiter.allows redis call = false)
    (hw : WrittenBy call.now (redis.bucket (limiter.keyFor b))) {t : ℚ} (ht : call.now ≤ t) :
    limiter.level (limiter.after redis call) b t = limiter.level redis b t := by
  rcases after_cases redis hn hs with ha | ⟨b', -, -, ha⟩
  · rw [level, level, ha]
  · rw [level, level, ha, hd]
    exact level_spend_zero hr hw ht

/-- A call that two stores decide alike keeps their levels alike. -/
theorem level_after_congr (hr : 0 ≤ b.rule.refillRatePerSecond)
    (hd : limiter.allows redis call = limiter.allows redis' call)
    (hw : WrittenBy call.now (redis.bucket (limiter.keyFor b)))
    (hw' : WrittenBy call.now (redis'.bucket (limiter.keyFor b)))
    (hl : limiter.level redis b call.now = limiter.level redis' b call.now) {t : ℚ}
    (ht : call.now ≤ t) :
    limiter.level (limiter.after redis call) b t =
      limiter.level (limiter.after redis' call) b t := by
  by_cases hk : limiter.keyFor b ∈ limiter.keys call
  · obtain ⟨b', hb', he⟩ := List.mem_map.1 hk
    have ha := bucket_after redis hb' hn
    have ha' := bucket_after redis' hb' hn
    rw [he, hs b' hb' he] at ha ha'
    rw [level, level] at hl
    rw [level, level, ha, ha', spend, spend, hl, hd]
  · rw [level, level, Redis.bucket, Redis.bucket, after_of_notMem hk, after_of_notMem hk]
    exact level_congr hr hw hw' hl ht

end Call

/-! ## Two runs -/

/-- The buckets of `B` have one level in both stores from `s` on. -/
structure Alike (limiter : RedisTokenBucketRateLimiter) (B : ResolvedRateLimit → Prop) (s : ℚ)
    (redis redis' : Redis) : Prop where
  written : ∀ b, B b → WrittenBy s (redis.bucket (limiter.keyFor b))
  written' : ∀ b, B b → WrittenBy s (redis'.bucket (limiter.keyFor b))
  level : ∀ b, B b → limiter.level redis b s = limiter.level redis' b s

/-- The buckets of the calls. -/
def Charged (calls : List CheckCall) (b : ResolvedRateLimit) : Prop :=
  ∃ call ∈ calls, b ∈ call.buckets

theorem Alike.level_eq {B : ResolvedRateLimit → Prop} {s t : ℚ}
    (h : Alike limiter B s redis redis') {b : ResolvedRateLimit} (hb : B b)
    (hr : 0 ≤ b.rule.refillRatePerSecond) (ht : s ≤ t) :
    limiter.level redis b t = limiter.level redis' b t :=
  level_congr hr (h.written b hb) (h.written' b hb) (h.level b hb) ht

section Runs

variable {all : List CheckCall} (hall : limiter.WellFormed all)

include hall

theorem WellFormed.sameRule (hc : call ∈ all) {b : ResolvedRateLimit} (hb : Charged all b) :
    SameRule limiter call b := by
  obtain ⟨call', hc', hb⟩ := hb
  exact fun b' hb' he => hall.rule_eq call hc b' hb' call' hc' b hb he

theorem WellFormed.rate_nonneg {b : ResolvedRateLimit} (hb : Charged all b) :
    0 ≤ b.rule.refillRatePerSecond := by
  obtain ⟨call', hc', hb⟩ := hb
  exact (hall.rate_pos call' hc' b hb).le

variable {s : ℚ} (hc : call ∈ all) (hnow : s ≤ call.now)
  (h : Alike limiter (Charged all) s redis redis')

include hc hnow h

/-- A denied call leaves its store alike to one it was not made on. -/
theorem Alike.denied (hd : limiter.allows redis call = false) :
    Alike limiter (Charged all) call.now (limiter.after redis call) redis' := by
  have hn := hall.keys_nodup call hc
  refine ⟨fun b hb => writtenBy_after hn (hall.sameRule hc hb) (h.written b hb) hnow,
    fun _ hb x hx => (h.written' _ hb x hx).trans hnow, fun b hb => ?_⟩
  have hw : WrittenBy call.now (redis.bucket (limiter.keyFor b)) :=
    fun x hx => (h.written b hb x hx).trans hnow
  rw [level_after_of_denied hn (hall.sameRule hc hb) (hall.rate_nonneg hb) hd hw le_rfl]
  exact h.level_eq hb (hall.rate_nonneg hb) hnow

/-- Stores that are alike decide alike. -/
theorem Alike.check_eq : (limiter.check redis call).2 = (limiter.check redis' call).2 :=
  check_congr fun _ hb => h.level_eq ⟨call, hc, hb⟩ (hall.rate_nonneg ⟨call, hc, hb⟩) hnow

/-- Stores that are alike stay so after a call. -/
theorem Alike.after :
    Alike limiter (Charged all) call.now (limiter.after redis call)
      (limiter.after redis' call) := by
  have hn := hall.keys_nodup call hc
  refine ⟨fun b hb => writtenBy_after hn (hall.sameRule hc hb) (h.written b hb) hnow,
    fun b hb => writtenBy_after hn (hall.sameRule hc hb) (h.written' b hb) hnow, fun b hb => ?_⟩
  refine level_after_congr hn (hall.sameRule hc hb) (hall.rate_nonneg hb)
    (congrArg RateLimitDecision.allowed (h.check_eq hall hc hnow)) ?_ ?_
    (h.level_eq hb (hall.rate_nonneg hb) hnow) le_rfl
  · exact fun x hx => (h.written b hb x hx).trans hnow
  · exact fun x hx => (h.written' b hb x hx).trans hnow

end Runs

/-- A run and the same run without its denied calls decide alike and end alike. -/
theorem Alike.run {all : List CheckCall} (hall : limiter.WellFormed all) :
    ∀ {calls : List CheckCall} {s : ℚ} {redis redis' : Redis}, (∀ c ∈ calls, c ∈ all) →
      Ordered calls → (∀ c ∈ calls, s ≤ c.now) → Alike limiter (Charged all) s redis redis' →
      limiter.decisions redis' (limiter.admitted redis calls) =
          (limiter.decisions redis calls).filter RateLimitDecision.allowed ∧
        ∀ t, s ≤ t → (∀ c ∈ calls, c.now ≤ t) → Alike limiter (Charged all) t
          (Runs.run limiter.after redis calls)
          (Runs.run limiter.after redis' (limiter.admitted redis calls))
  | [], s, redis, redis', _, _, _, h =>
    ⟨rfl, fun t hst _ => ⟨fun _ hb x hx => (h.written _ hb x hx).trans hst,
      fun _ hb x hx => (h.written' _ hb x hx).trans hst,
      fun b hb => h.level_eq hb (hall.rate_nonneg hb) hst⟩⟩
  | call :: calls, s, redis, redis', hsub, ho, hs, h => by
    have hc := hsub call List.mem_cons_self
    have hnow := hs call List.mem_cons_self
    have ho' := List.pairwise_cons.1 ho
    have hsub' : ∀ c ∈ calls, c ∈ all := fun c hc => hsub c (List.mem_cons_of_mem _ hc)
    have hcheck := h.check_eq hall hc hnow
    cases ha : limiter.allows redis call with
    | true =>
      obtain ⟨hd, hl⟩ := Alike.run hall hsub' ho'.2 ho'.1 (h.after hall hc hnow)
      refine ⟨?_, fun t _ ht => ?_⟩
      · rw [admitted, if_pos ha, decisions, decisions, hd, ← hcheck]
        exact (List.filter_cons_of_pos (p := RateLimitDecision.allowed) ha).symm
      · rw [admitted, if_pos ha]
        exact hl t (ht call List.mem_cons_self) fun c hc => ht c (List.mem_cons_of_mem _ hc)
    | false =>
      obtain ⟨hd, hl⟩ := Alike.run hall hsub' ho'.2 ho'.1 (h.denied hall hc hnow ha)
      have ha' : ¬ limiter.allows redis call = true := by simp [ha]
      refine ⟨?_, fun t _ ht => ?_⟩
      · rw [admitted, if_neg ha', decisions, hd]
        exact (List.filter_cons_of_neg (p := RateLimitDecision.allowed) ha').symm
      · rw [admitted, if_neg ha']
        exact hl t (ht call List.mem_cons_self) fun c hc => ht c (List.mem_cons_of_mem _ hc)

/-! ## All or nothing -/

/-- The tokens of every bucket stay between none and its burst. -/
theorem within_run {all : List CheckCall} (hall : limiter.WellFormed all) {b : ResolvedRateLimit}
    (hb : Charged all b) (calls : List CheckCall) (hsub : ∀ c ∈ calls, c ∈ all) {redis : Redis}
    (h : Within (b.rule.burst : ℚ) (redis.bucket (limiter.keyFor b))) :
    Within (b.rule.burst : ℚ) ((run limiter.after redis calls).bucket (limiter.keyFor b)) := by
  induction calls generalizing redis with
  | nil => exact h
  | cons call calls ih =>
    have hc := hsub call List.mem_cons_self
    exact ih (fun c hc => hsub c (List.mem_cons_of_mem _ hc))
      (within_after (hall.keys_nodup call hc) (hall.sameRule hc hb) (hall.rate_nonneg hb) h)

/-- No key is stored. -/
def fresh : Redis :=
  fun _ => none

theorem bucket_fresh (key : String) : fresh.bucket key = none :=
  rfl

theorem exists_before {calls : List CheckCall} (ho : Ordered calls) (t : ℚ) :
    ∃ s, s ≤ t ∧ ∀ c ∈ calls, s ≤ c.now := by
  rcases calls with - | ⟨call, calls⟩
  · exact ⟨t, le_rfl, by simp⟩
  · refine ⟨min t call.now, min_le_left _ _, fun c hc => (min_le_right _ _).trans ?_⟩
    rcases List.mem_cons.1 hc with rfl | hc
    · exact le_rfl
    · exact (List.pairwise_cons.1 ho).1 c hc

/-- A call is allowed when every bucket covers its cost, and then charges all of them; a denied
call charges none, and the run without the denied calls decides and refills alike. -/
theorem charging_sound (limiter : RedisTokenBucketRateLimiter) {calls : List CheckCall}
    (hwf : limiter.WellFormed calls) (ho : Ordered calls) :
    (∀ b, Charged calls b → ∀ pre, pre <+: calls →
      Within (b.rule.burst : ℚ) ((run limiter.after fresh pre).bucket (limiter.keyFor b))) ∧
    (∀ pre call post, calls = pre ++ call :: post →
      ∀ redis, redis = run limiter.after fresh pre →
        (limiter.allows redis call = true ↔
          ∀ b ∈ call.buckets, b.cost ≤ limiter.level redis b call.now) ∧
        (∀ b ∈ call.buckets, (limiter.after redis call).bucket (limiter.keyFor b) =
          some
            { tokens := limiter.level redis b call.now -
                if limiter.allows redis call then (b.cost : ℚ) else 0
              updatedAt := call.now }) ∧
        ∀ key ∉ limiter.keys call, limiter.after redis call key = redis key) ∧
    limiter.decisions fresh (limiter.admitted fresh calls) =
      (limiter.decisions fresh calls).filter RateLimitDecision.allowed ∧
    ∀ pre, pre <+: calls → ∀ b, Charged calls b → ∀ t, (∀ c ∈ pre, c.now ≤ t) →
      limiter.level (run limiter.after fresh pre) b t =
        limiter.level (run limiter.after fresh (limiter.admitted fresh pre)) b t := by
  have hfresh : ∀ s, Alike limiter (Charged calls) s fresh fresh :=
    fun s => ⟨by simp [bucket_fresh, WrittenBy], by simp [bucket_fresh, WrittenBy],
      fun _ _ => rfl⟩
  refine ⟨fun b hb pre hpre => ?_, fun pre call post he redis _ => ⟨allows_iff, fun b hb => ?_,
    fun key hk => after_of_notMem hk⟩, ?_, fun pre hpre b hb t ht => ?_⟩
  · exact within_run hwf hb pre (fun c hc => hpre.subset hc) (by simp [bucket_fresh, Within])
  · exact bucket_after _ hb (hwf.keys_nodup call (by simp [he]))
  · obtain ⟨s, -, hs⟩ := exists_before ho 0
    exact (Alike.run hwf (fun _ hc => hc) ho hs (hfresh s)).1
  · have hpo : Ordered pre := ho.sublist hpre.sublist
    obtain ⟨s, hst, hs⟩ := exists_before hpo t
    exact ((Alike.run hwf (fun _ hc => hpre.subset hc) hpo hs (hfresh s)).2 t hst ht).level b hb

/-- A bucket of one token that refills once a second. -/
def sampleBucket : ResolvedRateLimit where
  rule := ⟨"users:writes", 60, 60, 1⟩
  identity := "user:1"

/-- Calls on one bucket. -/
def callsOn (b : ResolvedRateLimit) (readings : List ℚ) : List CheckCall :=
  readings.map fun now => ⟨now, [b]⟩

theorem mem_callsOn {b : ResolvedRateLimit} {readings : List ℚ} (h : call ∈ callsOn b readings) :
    call.now ∈ readings ∧ call.buckets = [b] := by
  obtain ⟨now, hn, rfl⟩ := List.mem_map.1 h
  exact ⟨hn, rfl⟩

theorem eq_of_charged_callsOn {b b' : ResolvedRateLimit} {readings : List ℚ}
    (h : Charged (callsOn b readings) b') : b' = b := by
  obtain ⟨call, hcall, hb⟩ := h
  rw [(mem_callsOn hcall).2] at hb
  exact List.mem_singleton.1 hb

theorem callsOn_wellFormed {b : ResolvedRateLimit} (hr : 0 < b.rule.refillRatePerSecond)
    (hb : 0 < b.rule.burst) (hc : 1 ≤ b.cost) (readings : List ℚ) :
    limiter.WellFormed (callsOn b readings) := by
  have hone : ∀ call ∈ callsOn b readings, ∀ b' ∈ call.buckets, b' = b :=
    fun call hcall b' hb' => eq_of_charged_callsOn ⟨call, hcall, hb'⟩
  refine ⟨fun call hcall => ?_, fun call hcall b' h => ?_, fun call hcall b' h => ?_,
    fun call hcall b' h => ?_, fun call hcall b' h call' hcall' b'' h' _ => ?_⟩
  · rw [keys, (mem_callsOn hcall).2]
    exact List.nodup_singleton _
  · rwa [hone call hcall b' h]
  · rwa [hone call hcall b' h]
  · rwa [hone call hcall b' h]
  · rw [hone call hcall b' h, hone call' hcall' b'' h']

/-- The same for a second user. -/
def otherBucket : ResolvedRateLimit :=
  { sampleBucket with identity := "user:2" }

/-- A bucket of two tokens for both users. -/
def sharedBucket : ResolvedRateLimit where
  rule := ⟨"system:requests", 60, 60, 2⟩
  identity := "system"

/-- Calls of the two users, each on the bucket of the user and on the shared one. -/
def sharingCalls : List CheckCall :=
  [⟨0, [sampleBucket, sharedBucket]⟩, ⟨1 / 2, [sampleBucket, sharedBucket]⟩,
    ⟨1 / 2, [otherBucket, sharedBucket]⟩, ⟨1, [sampleBucket, sharedBucket]⟩,
    ⟨1, [otherBucket, sharedBucket]⟩]

/-- The second call is denied by the bucket of its user and takes nothing from the shared one,
which then covers the calls of both users, as it does without the second call. -/
theorem charging_sound_sample :
    (init "app").decisions fresh ((init "app").admitted fresh sharingCalls) =
      ((init "app").decisions fresh sharingCalls).filter RateLimitDecision.allowed ∧
    ((init "app").decisions fresh sharingCalls).map RateLimitDecision.allowed =
      [true, false, true, true, false] := by
  have hwf : (init "app").WellFormed sharingCalls := by
    constructor <;> decide +kernel
  have ho : Ordered sharingCalls := by
    norm_num [Ordered, sharingCalls]
  exact ⟨(charging_sound (init "app") hwf ho).2.2.1, by decide +kernel⟩

/-! ## The rate bound -/

/-- What a call takes from the bucket with `key` when it is allowed. -/
def costOn (limiter : RedisTokenBucketRateLimiter) (key : String) (call : CheckCall) : ℕ :=
  ((call.buckets.filter fun b => limiter.keyFor b = key).map ResolvedRateLimit.cost).sum

/-- What the allowed calls of a run take from the bucket with `key`. -/
def admittedCost (limiter : RedisTokenBucketRateLimiter) (key : String) :
    Redis → List CheckCall → ℕ
  | _, [] => 0
  | redis, call :: calls =>
    (if limiter.allows redis call then limiter.costOn key call else 0) +
      admittedCost limiter key (limiter.after redis call) calls

/-- The reading of a call on the bucket with `key` is not older than the one stored there. -/
def InOrder (limiter : RedisTokenBucketRateLimiter) (key : String) (redis : Redis)
    (call : CheckCall) : Prop :=
  key ∈ limiter.keys call → WrittenBy call.now (redis.bucket key)

instance (key : String) : ∀ redis call, Decidable (InOrder limiter key redis call) :=
  fun _ _ => inferInstanceAs (Decidable (_ → _))

theorem costOn_of_notMem {key : String} (h : key ∉ limiter.keys call) :
    limiter.costOn key call = 0 := by
  have hf : call.buckets.filter (fun b => limiter.keyFor b = key) = [] := by
    refine List.filter_eq_nil_iff.2 fun b hb he => h ?_
    exact List.mem_map.2 ⟨b, hb, of_decide_eq_true he⟩
  rw [costOn, hf]
  rfl

theorem costOn_of_mem {b : ResolvedRateLimit} (hb : b ∈ call.buckets)
    (hn : (limiter.keys call).Nodup) : limiter.costOn (limiter.keyFor b) call = b.cost := by
  rw [costOn, Relational.filter_key_eq hn hb]
  simp

section Bound

variable {b : ResolvedRateLimit} (hr : 0 ≤ b.rule.refillRatePerSecond)

include hr

/-- What a call takes from a bucket and what it leaves there. -/
theorem costOn_add_level_le (hn : (limiter.keys call).Nodup) (hs : SameRule limiter call b) {s : ℚ}
    (hk : limiter.keyFor b ∈ limiter.keys call)
    (hw : WrittenBy s (redis.bucket (limiter.keyFor b))) (hnow : s ≤ call.now) :
    ((if limiter.allows redis call then limiter.costOn (limiter.keyFor b) call else 0 : ℕ) : ℚ) +
        limiter.level (limiter.after redis call) b call.now ≤
      limiter.level redis b s + (call.now - s) * b.rule.refillRatePerSecond := by
  obtain ⟨b', hb', he⟩ := List.mem_map.1 hk
  have hcost := costOn_of_mem hb' hn
  have ha := bucket_after redis hb' hn
  rw [he] at hcost
  rw [he, hs b' hb' he] at ha
  have hnonneg : (0 : ℚ) ≤ if limiter.allows redis call then (b'.cost : ℚ) else 0 := by
    split_ifs <;> positivity
  rw [level, level, ha, hcost, Nat.cast_ite, Nat.cast_zero]
  exact spend_le hr hw hnow hnonneg

variable {calls : List CheckCall} (hn : ∀ call ∈ calls, (limiter.keys call).Nodup)
  (hs : ∀ call ∈ calls, SameRule limiter call b) {t₁ : ℚ}

include hn hs

/-- After a write the run takes no more than the write has left and the time refills. -/
theorem admittedCost_le_of_written {x : Bucket ℚ}
    (hx : redis.bucket (limiter.keyFor b) = some x) (hxt : x.updatedAt ≤ t₁)
    (hwith : Within (b.rule.burst : ℚ) (redis.bucket (limiter.keyFor b)))
    (hlt : ∀ call ∈ calls, limiter.keyFor b ∈ limiter.keys call → call.now ≤ t₁)
    (hord : AllSteps limiter.after (InOrder limiter (limiter.keyFor b)) redis calls) :
    (limiter.admittedCost (limiter.keyFor b) redis calls : ℚ) ≤
      limiter.level redis b x.updatedAt + (t₁ - x.updatedAt) * b.rule.refillRatePerSecond := by
  induction calls generalizing redis x with
  | nil =>
    have hl : 0 ≤ limiter.level redis b x.updatedAt :=
      level_nonneg hr (Nat.cast_nonneg _) hwith _
    have ht := mul_nonneg (sub_nonneg.2 hxt) hr
    rw [admittedCost, Nat.cast_zero]
    linarith
  | cons call calls ih =>
    have hn' := hn call List.mem_cons_self
    have hs' := hs call List.mem_cons_self
    have hrest : ∀ y, (limiter.after redis call).bucket (limiter.keyFor b) = some y →
        y.updatedAt ≤ t₁ → (limiter.admittedCost (limiter.keyFor b) (limiter.after redis call)
          calls : ℚ) ≤ limiter.level (limiter.after redis call) b y.updatedAt +
            (t₁ - y.updatedAt) * b.rule.refillRatePerSecond := fun y hy hyt =>
      ih (fun c hc => hn c (List.mem_cons_of_mem _ hc))
        (fun c hc => hs c (List.mem_cons_of_mem _ hc)) hy hyt (within_after hn' hs' hr hwith)
        (fun c hc => hlt c (List.mem_cons_of_mem _ hc)) hord.2
    rw [admittedCost, Nat.cast_add]
    by_cases hk : limiter.keyFor b ∈ limiter.keys call
    · have hnow : x.updatedAt ≤ call.now := hord.1 hk x hx
      have hw : WrittenBy x.updatedAt (redis.bucket (limiter.keyFor b)) := by
        rw [hx]
        rintro y ⟨⟩
        exact le_rfl
      have hcall := costOn_add_level_le hr hn' hs' hk hw hnow
      obtain ⟨b', hb', he⟩ := List.mem_map.1 hk
      have ha := bucket_after redis hb' hn'
      rw [he] at ha
      have hrest := hrest _ ha (hlt call List.mem_cons_self hk)
      have hsplit : (t₁ - call.now) * b.rule.refillRatePerSecond +
          (call.now - x.updatedAt) * b.rule.refillRatePerSecond =
          (t₁ - x.updatedAt) * b.rule.refillRatePerSecond := by ring
      simp only [spend] at hrest
      linarith
    · have hsame : (limiter.after redis call).bucket (limiter.keyFor b) =
          redis.bucket (limiter.keyFor b) := by
        rw [Redis.bucket, after_of_notMem hk, Redis.bucket]
      have hrest := hrest x (hsame.trans hx) hxt
      rw [level, hsame] at hrest
      rw [costOn_of_notMem hk, ite_self, Nat.cast_zero, zero_add]
      exact hrest

end Bound

/-- As long as no reading on a bucket is older than the stored one, what the bucket admits is
bounded by its burst and its rate. -/
theorem admitted_le_of_ordered (limiter : RedisTokenBucketRateLimiter) (b : ResolvedRateLimit)
    (hr : 0 < b.rule.refillRatePerSecond) {calls : List CheckCall}
    (hn : ∀ call ∈ calls, (limiter.keys call).Nodup)
    (hs : ∀ call ∈ calls, SameRule limiter call b) {t₀ t₁ : ℚ} (ht : t₀ ≤ t₁)
    (hwin : ∀ call ∈ calls, limiter.keyFor b ∈ limiter.keys call → t₀ ≤ call.now ∧ call.now ≤ t₁)
    {redis : Redis} (hwith : Within (b.rule.burst : ℚ) (redis.bucket (limiter.keyFor b)))
    (hord : AllSteps limiter.after (InOrder limiter (limiter.keyFor b)) redis calls) :
    (limiter.admittedCost (limiter.keyFor b) redis calls : ℚ) ≤
      b.rule.burst + b.rule.refillRatePerSecond * (t₁ - t₀) := by
  induction calls generalizing redis with
  | nil =>
    have := mul_nonneg hr.le (sub_nonneg.2 ht)
    rw [admittedCost, Nat.cast_zero]
    positivity
  | cons call calls ih =>
    have hn' := hn call List.mem_cons_self
    have hs' := hs call List.mem_cons_self
    have htail : ∀ c ∈ calls, c ∈ call :: calls := fun c hc => List.mem_cons_of_mem _ hc
    rw [admittedCost, Nat.cast_add]
    by_cases hk : limiter.keyFor b ∈ limiter.keys call
    · -- the first call on the bucket
      obtain ⟨h0, h1⟩ := hwin call List.mem_cons_self hk
      have hcall := costOn_add_level_le hr.le hn' hs' hk (hord.1 hk) le_rfl
      obtain ⟨b', hb', he⟩ := List.mem_map.1 hk
      have ha := bucket_after redis hb' hn'
      rw [he] at ha
      have hrest := admittedCost_le_of_written hr.le (fun c hc => hn c (htail c hc))
        (fun c hc => hs c (htail c hc)) ha h1 (within_after hn' hs' hr.le hwith)
        (fun c hc hk => (hwin c (htail c hc) hk).2) hord.2
      have hcap : limiter.level redis b call.now ≤ b.rule.burst := level_le_capacity _ _
      have hlate := mul_le_mul_of_nonneg_right (sub_le_sub_left h0 t₁) hr.le
      simp only [spend] at hrest
      linarith
    · rw [costOn_of_notMem hk, ite_self, Nat.cast_zero, zero_add]
      refine ih (fun c hc => hn c (htail c hc)) (fun c hc => hs c (htail c hc))
        (fun c hc => hwin c (htail c hc)) ?_ hord.2
      rwa [Redis.bucket, after_of_notMem hk]

theorem admitted_le_of_ordered_sample :
    ((init "app").admittedCost ((init "app").keyFor sampleBucket) fresh
        (callsOn sampleBucket [0, 1 / 2, 1]) : ℚ) ≤
      sampleBucket.rule.burst + sampleBucket.rule.refillRatePerSecond * (1 - 0) := by
  have hwf : (init "app").WellFormed (callsOn sampleBucket [0, 1 / 2, 1]) :=
    callsOn_wellFormed (by decide +kernel) (by decide) (by decide) _
  have hbuckets : ∀ call ∈ callsOn sampleBucket [0, 1 / 2, 1],
      SameRule (init "app") call sampleBucket := fun call hc =>
    hwf.sameRule hc ⟨call, hc, by
      rw [(mem_callsOn hc).2]
      exact List.mem_singleton_self _⟩
  exact admitted_le_of_ordered (init "app") sampleBucket (by decide +kernel) hwf.keys_nodup hbuckets
    zero_le_one (by decide +kernel) (by simp [bucket_fresh, Within]) (by decide +kernel)

/-- Two replicas a second apart call in turn. The bucket may admit two tokens in that second
and admits three. -/
theorem skewed_replicas :
    (∀ call ∈ callsOn sampleBucket [1, 0, 1, 0, 1], 0 ≤ call.now ∧ call.now ≤ 1) ∧
    (sampleBucket.rule.burst : ℚ) + sampleBucket.rule.refillRatePerSecond * (1 - 0) <
      (init "app").admittedCost ((init "app").keyFor sampleBucket) fresh
        (callsOn sampleBucket [1, 0, 1, 0, 1]) := by
  decide +kernel

end RedisTokenBucketRateLimiter

end Abrio
