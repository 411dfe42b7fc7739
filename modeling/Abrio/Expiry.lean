import Abrio.MiddlewareCalls

/-!
# Keys that expire

Redis drops a key at the end of the time to live that its last write gave it, twice the window of
the rule. A bucket that is dropped counts as full. That is what it would be if it had refilled to
its burst by then, and then no decision is changed (`Transparent`). The burst of a rule is a
setting of its own, though, so a bucket may need longer than that to fill up : no decision is ever
changed exactly when every burst is at most twice the limit (`expiry_transparent_iff`).
-/

open Runs TokenBucket

namespace Abrio

/-! ## Dropped keys -/

/-- When the key of a hash is dropped. -/
def Hash.expiresAt (x : Hash) : ℚ :=
  x.updatedAt + x.ttlMs / 1000

/-- What is left of the store at `now`. -/
def Redis.expire (now : ℚ) (redis : Redis) : Redis :=
  fun key => (redis key).filter fun x => now < x.expiresAt

namespace Redis

variable {redis : Redis} {key : String}

theorem expire_of_none (h : redis key = none) (t : ℚ) : redis.expire t key = none := by
  rw [expire, h, Option.filter_none]

theorem expire_of_some {x : Hash} (h : redis key = some x) (t : ℚ) :
    redis.expire t key = if t < x.expiresAt then some x else none := by
  rw [expire, h, Option.filter_some]
  simp only [decide_eq_true_eq]

theorem expire_expire {s t : ℚ} (h : s ≤ t) (redis : Redis) :
    (redis.expire s).expire t = redis.expire t := by
  funext key
  cases hx : redis key with
  | none => rw [expire_of_none (expire_of_none hx s), expire_of_none hx]
  | some x =>
    have hs := expire_of_some hx s
    rw [expire_of_some hx t]
    split_ifs at hs with hlt
    · rw [expire_of_some hs]
    · rw [expire_of_none hs, if_neg fun ht => hlt (h.trans_lt ht)]

end Redis

/-- A rule as the settings admit it. -/
structure RateLimitRule.Admitted (rule : RateLimitRule) : Prop where
  limit_pos : 0 < rule.limit
  burst_pos : 0 < rule.burst
  window : rule.windowSeconds = Abrio.windowSeconds

namespace RateLimitRule.Admitted

variable {rule : RateLimitRule}

theorem rate_pos (h : rule.Admitted) : 0 < rule.refillRatePerSecond := by
  rw [refillRatePerSecond, h.window]
  exact div_pos (Nat.cast_pos.2 h.limit_pos) (by norm_num [Abrio.windowSeconds])

theorem ttlMilliseconds_eq (h : rule.Admitted) : rule.ttlMilliseconds = 120000 := by
  rw [ttlMilliseconds, h.window]
  rfl

/-- In the time to live a bucket gains twice its limit. -/
theorem ttl_mul_rate (h : rule.Admitted) :
    (rule.ttlMilliseconds : ℚ) / 1000 * rule.refillRatePerSecond = 2 * rule.limit := by
  rw [ttlMilliseconds, refillRatePerSecond, h.window, Abrio.windowSeconds]
  push_cast
  ring

end RateLimitRule.Admitted

/-- The rules of the settings are admitted. -/
theorem ApiSettings.admitted_of_mem_rules {s : ApiSettings} {rule : RateLimitRule}
    (h : rule ∈ s.rules) : rule.Admitted := by
  obtain ⟨name, perMinute, burst, rfl⟩ := s.exists_of_mem_rules h
  exact ⟨perMinute.pos, burst.pos, rfl⟩

namespace RedisTokenBucketRateLimiter

variable (limiter : RedisTokenBucketRateLimiter)

/-- The decisions of a run on a store whose keys are dropped. -/
def expiringDecisions : Redis → List CheckCall → List RateLimitDecision
  | _, [] => []
  | redis, call :: calls =>
    (limiter.check (redis.expire call.now) call).2 ::
      expiringDecisions (limiter.after (redis.expire call.now) call) calls

/-! ## The same levels -/

/-- From `s` on the store whose keys are dropped shows the levels of the one whose keys stay. -/
structure Transparent (B : ResolvedRateLimit → Prop) (s : ℚ) (dropping redis : Redis) : Prop where
  within : ∀ b, B b → Within (b.rule.burst : ℚ) (redis.bucket (limiter.keyFor b))
  level : ∀ b, B b → ∀ t, s ≤ t →
    limiter.level (dropping.expire t) b t = limiter.level redis b t

variable {limiter} {redis dropping : Redis} {call : CheckCall}

theorem level_of_key_eq {redis' : Redis} {b : ResolvedRateLimit}
    (h : redis (limiter.keyFor b) = redis' (limiter.keyFor b)) (t : ℚ) :
    limiter.level redis b t = limiter.level redis' b t := by
  rw [level, level, Redis.bucket, Redis.bucket, h]

/-- A bucket that is dropped is full, if its rule refills it within its time to live. -/
theorem level_expire {b : ResolvedRateLimit} {x : Hash}
    (hx : redis (limiter.keyFor b) = some x) (hpos : 0 ≤ x.tokens)
    (hfill : (b.rule.burst : ℚ) ≤ x.ttlMs / 1000 * b.rule.refillRatePerSecond) (t : ℚ) :
    limiter.level (redis.expire t) b t = limiter.level redis b t := by
  have hexpire := Redis.expire_of_some hx t
  by_cases ht : t < x.expiresAt
  · rw [if_pos ht, ← hx] at hexpire
    exact level_of_key_eq hexpire t
  · rw [if_neg ht] at hexpire
    have hage : (x.ttlMs : ℚ) / 1000 ≤ t - x.updatedAt := by
      rw [Hash.expiresAt, not_lt] at ht
      linarith
    have hrate : 0 ≤ b.rule.refillRatePerSecond :=
      div_nonneg (Nat.cast_nonneg _) (Nat.cast_nonneg _)
    rw [level, level, Redis.bucket, Redis.bucket, hexpire, hx]
    refine (refill_eq_capacity hpos (le_trans (by positivity) hage) (hfill.trans ?_)).symm
    exact mul_le_mul_of_nonneg_right hage hrate

section Step

variable {all : List CheckCall} (hall : limiter.WellFormed all) {s : ℚ} (hc : call ∈ all)
  (hnow : s ≤ call.now) (h : limiter.Transparent (Charged all) s dropping redis)

include hc hnow h

theorem Transparent.check_eq :
    (limiter.check (dropping.expire call.now) call).2 = (limiter.check redis call).2 :=
  check_congr fun b hb => h.level b ⟨call, hc, hb⟩ call.now hnow

include hall

theorem Transparent.after (hfill : ∀ b, Charged all b →
      (b.rule.burst : ℚ) ≤ b.rule.ttlMilliseconds / 1000 * b.rule.refillRatePerSecond) :
    limiter.Transparent (Charged all) call.now
      (limiter.after (dropping.expire call.now) call) (limiter.after redis call) := by
  have hn := hall.keys_nodup call hc
  have hallows : limiter.allows (dropping.expire call.now) call = limiter.allows redis call :=
    congrArg RateLimitDecision.allowed (h.check_eq hc hnow)
  have hwithin : ∀ b, Charged all b → Within (b.rule.burst : ℚ)
      ((limiter.after redis call).bucket (limiter.keyFor b)) := fun b hb =>
    within_after hn (hall.sameRule hc hb) (hall.rate_nonneg hb) (h.within b hb)
  refine ⟨hwithin, fun b hb t ht => ?_⟩
  by_cases hk : limiter.keyFor b ∈ limiter.keys call
  · obtain ⟨b', hb', he⟩ := List.mem_map.1 hk
    have hrule : b'.rule = b.rule := hall.sameRule hc hb b' hb' he
    have hlevel : TokenBucket.level b'.rule.refillRatePerSecond (b'.rule.burst : ℚ)
        ((dropping.expire call.now).bucket (limiter.keyFor b')) call.now =
          TokenBucket.level b'.rule.refillRatePerSecond (b'.rule.burst : ℚ)
            (redis.bucket (limiter.keyFor b')) call.now := h.level b' ⟨call, hc, hb'⟩ call.now hnow
    have hsame : limiter.after (dropping.expire call.now) call (limiter.keyFor b) =
        limiter.after redis call (limiter.keyFor b) := by
      rw [← he, after_of_mem _ hb' hn, after_of_mem _ hb' hn, hallows]
      simp only [spend, hlevel]
    have hafter := after_of_mem redis hb' hn
    rw [he, hrule] at hafter
    have hpos := (hwithin b hb _ (by rw [Redis.bucket, hafter, Option.map_some]; rfl)).1
    rw [← level_expire hafter hpos (hfill b hb) t]
    refine level_of_key_eq ?_ t
    rw [Redis.expire, Redis.expire, hsame]
  · rw [level_of_key_eq (after_of_notMem hk) t, ← h.level b hb t (hnow.trans ht),
      ← Redis.expire_expire ht dropping]
    refine level_of_key_eq ?_ t
    exact congrArg (Option.filter _) (after_of_notMem hk)

end Step

/-- A run decides alike on both stores. -/
theorem Transparent.decisions_eq {all : List CheckCall} (hall : limiter.WellFormed all)
    (hfill : ∀ b, Charged all b →
      (b.rule.burst : ℚ) ≤ b.rule.ttlMilliseconds / 1000 * b.rule.refillRatePerSecond) :
    ∀ {calls : List CheckCall} {s : ℚ} {dropping redis : Redis}, (∀ c ∈ calls, c ∈ all) →
      Ordered calls → (∀ c ∈ calls, s ≤ c.now) →
      limiter.Transparent (Charged all) s dropping redis →
      limiter.expiringDecisions dropping calls = limiter.decisions redis calls
  | [], _, _, _, _, _, _, _ => rfl
  | call :: calls, s, dropping, redis, hsub, ho, hs, h => by
    have hc := hsub call List.mem_cons_self
    have hnow := hs call List.mem_cons_self
    have ho' := List.pairwise_cons.1 ho
    rw [expiringDecisions, decisions, h.check_eq hc hnow]
    exact congrArg _ (Transparent.decisions_eq hall hfill
      (fun c hc => hsub c (List.mem_cons_of_mem _ hc)) ho'.2 ho'.1
      (h.after hall hc hnow hfill))

/-! ## Two calls apart by the time to live -/

/-- A bucket that is emptied at 0 s and asked for all of its burst again at 120 s. -/
theorem allowed_emptied {b : ResolvedRateLimit} (h : b.rule.Admitted)
    (hcost : b.cost = b.rule.burst) (hburst : 2 * b.rule.limit < b.rule.burst) :
    (limiter.expiringDecisions fresh (callsOn b [0, 120])).map RateLimitDecision.allowed =
      [true, true] ∧
    (limiter.decisions fresh (callsOn b [0, 120])).map RateLimitDecision.allowed =
      [true, false] := by
  have hn : ∀ now, (limiter.keys ⟨now, [b]⟩).Nodup := fun now => List.nodup_singleton _
  have hfull : ∀ (redis : Redis) (now : ℚ), redis (limiter.keyFor b) = none →
      limiter.allows redis ⟨now, [b]⟩ = true := fun redis now hnone => by
    refine allows_iff.2 fun b' hb' => ?_
    obtain rfl := List.mem_singleton.1 hb'
    rw [level, Redis.bucket, hnone, hcost]
    exact le_rfl
  have hfirst : ∀ redis : Redis, redis (limiter.keyFor b) = none →
      limiter.after redis ⟨0, [b]⟩ (limiter.keyFor b) =
        some ⟨⟨0, 0⟩, b.rule.ttlMilliseconds⟩ := fun redis hnone => by
    rw [after_of_mem redis (List.mem_singleton_self b) (hn 0), hfull redis 0 hnone, Redis.bucket,
      hnone, spend, if_pos rfl, hcost]
    exact congrArg (fun x => some (Hash.mk ⟨x, 0⟩ _)) (sub_self _)
  have hdropped : (fresh.expire 0) (limiter.keyFor b) = none := rfl
  have hexpired : (limiter.after (fresh.expire 0) ⟨0, [b]⟩).expire 120 (limiter.keyFor b) =
      none := by
    rw [Redis.expire_of_some (hfirst _ hdropped) 120, if_neg]
    norm_num [Hash.expiresAt, h.ttlMilliseconds_eq]
  have hdenied : limiter.allows (limiter.after fresh ⟨0, [b]⟩) ⟨120, [b]⟩ = false := by
    rw [← Bool.not_eq_true, allows_iff]
    intro hall
    have hle := hall b (List.mem_singleton_self b)
    have hgain : refill b.rule.refillRatePerSecond b.rule.burst (0 : ℚ) 120 ≤
        0 + 120 * b.rule.refillRatePerSecond := refill_le_add 0 (by norm_num)
    have hrate : (120 : ℚ) * b.rule.refillRatePerSecond = 2 * b.rule.limit := by
      rw [← h.ttl_mul_rate, h.ttlMilliseconds_eq]
      norm_num
    have hburst' : (2 * b.rule.limit : ℚ) < b.rule.burst := by exact_mod_cast hburst
    rw [level, Redis.bucket, hfirst fresh rfl, hcost] at hle
    simp only [Option.map_some, TokenBucket.level, sub_zero] at hle
    linarith
  refine ⟨?_, ?_⟩
  · exact congrArg₂ (fun x y => [x, y]) (hfull _ 0 hdropped) (hfull _ 120 hexpired)
  · exact congrArg₂ (fun x y => [x, y]) (hfull fresh 0 rfl) hdenied

/-- Dropping keys at the end of their time to live changes no decision of any run exactly when
every burst is at most twice the limit. -/
theorem expiry_transparent_iff (limiter : RedisTokenBucketRateLimiter) {rules : Set RateLimitRule}
    (hrules : ∀ rule ∈ rules, rule.Admitted) :
    (∀ calls, limiter.WellFormed calls → (∀ b, Charged calls b → b.rule ∈ rules) →
      Ordered calls →
      (limiter.expiringDecisions fresh calls).map RateLimitDecision.allowed =
        (limiter.decisions fresh calls).map RateLimitDecision.allowed) ↔
      ∀ rule ∈ rules, rule.burst ≤ 2 * rule.limit := by
  refine ⟨?_, ?_⟩
  · intro h rule hrule
    by_contra hburst
    have hadm := hrules rule hrule
    obtain ⟨hexpiring, hstays⟩ :=
      @allowed_emptied limiter ⟨rule, "", rule.burst⟩ hadm rfl (not_le.1 hburst)
    have hcharged : ∀ b, Charged (callsOn ⟨rule, "", rule.burst⟩ [0, 120]) b → b.rule ∈ rules := by
      intro b hb
      rwa [eq_of_charged_callsOn hb]
    have heq := h _ (callsOn_wellFormed hadm.rate_pos hadm.burst_pos
      (show 1 ≤ rule.burst from hadm.burst_pos) _) hcharged (by norm_num [Ordered, callsOn])
    rw [hexpiring, hstays] at heq
    simp at heq
  · intro h calls hwf hmem ho
    have hfill : ∀ b, Charged calls b →
        (b.rule.burst : ℚ) ≤ b.rule.ttlMilliseconds / 1000 * b.rule.refillRatePerSecond := by
      intro b hb
      rw [(hrules b.rule (hmem b hb)).ttl_mul_rate]
      exact_mod_cast h b.rule (hmem b hb)
    obtain ⟨s, -, hs⟩ := exists_before ho 0
    have hfresh : limiter.Transparent (Charged calls) s fresh fresh :=
      ⟨by simp [bucket_fresh, Within], fun b _ t _ => level_of_key_eq rfl t⟩
    exact congrArg _ (Transparent.decisions_eq hwf hfill (fun _ hc => hc) ho hs hfresh)

/-- With the default settings a bucket that is dropped between two requests makes no difference. -/
theorem expiry_transparent_sample :
    ((init "app").expiringDecisions fresh
        (callsOn ⟨({} : ApiSettings).userCreatesRule, "ip:10.0.0.1", 1⟩ [0, 130])).map
          RateLimitDecision.allowed =
      ((init "app").decisions fresh
        (callsOn ⟨({} : ApiSettings).userCreatesRule, "ip:10.0.0.1", 1⟩ [0, 130])).map
          RateLimitDecision.allowed := by
  refine (@expiry_transparent_iff (init "app") (fun rule => rule ∈ ({} : ApiSettings).rules)
    fun _ h => ApiSettings.admitted_of_mem_rules h).2
      (show ∀ rule ∈ ({} : ApiSettings).rules, rule.burst ≤ 2 * rule.limit by decide) _
      (callsOn_wellFormed (by decide +kernel) (by decide) le_rfl _) (fun b hb => ?_)
      (by norm_num [Ordered, callsOn])
  obtain rfl := eq_of_charged_callsOn hb
  exact List.mem_of_getElem? (i := 14) rfl

/-- With one token a minute and a burst of three, the third of three requests two minutes after the
first three is allowed because the bucket has been dropped. -/
theorem expiry_refills_early :
    ¬∀ (limiter : RedisTokenBucketRateLimiter) (s : ApiSettings) (calls : List CheckCall),
      limiter.WellFormed calls → (∀ b, Charged calls b → b.rule ∈ s.rules) → Ordered calls →
      (limiter.expiringDecisions fresh calls).map RateLimitDecision.allowed =
        (limiter.decisions fresh calls).map RateLimitDecision.allowed := by
  intro h
  let s : ApiSettings := { rateLimitUserCreatesPerMinute := 1, rateLimitUserCreatesBurst := 3 }
  have heq := h (init "app") s (callsOn ⟨s.userCreatesRule, "ip:10.0.0.1", 1⟩
    [0, 0, 0, 120, 120, 120])
    (callsOn_wellFormed (by decide +kernel) (by decide) le_rfl _) ?_
    (by norm_num [Ordered, callsOn])
  · revert heq
    decide +kernel
  · intro b hb
    obtain rfl := eq_of_charged_callsOn hb
    simp [ApiSettings.rules]

end RedisTokenBucketRateLimiter

end Abrio
