import Abrio.RateLimits
import Abrio.Throttling

/-!
# The calls of the middleware

The middleware resolves the buckets of every request under the same settings. Each of them has
one of the rules of the settings, a call has no rule twice, and every cost counts. A key names
its rule, since no name of a rule with its colon begins another one, so distinct buckets have
distinct keys and a key is charged under one rule only : the calls are well formed
(`RateLimitMiddleware.wellFormed`).
-/

open Python Runs

namespace Abrio

/-! ## Rules and keys -/

/-- The names of the rules. -/
def ruleNames : List String :=
  ["messages:normal", "messages:express", "global:messages:normal", "global:messages:express",
    "messages:batch_requests", "global:messages:batch_requests", "messages:status",
    "global:messages:status", "messages:reports", "global:messages:reports", "users:reads",
    "global:users:reads", "users:writes", "global:users:writes", "users:creates",
    "global:users:creates", "pricing", "global:pricing", "system:requests", "system:messages"]

namespace ApiSettings

variable (s : ApiSettings)

/-- The rules of the settings. -/
def rules : List RateLimitRule :=
  let express := some (.str (MessagePriority.value .express))
  [s.messageSubmissionRule none, s.messageSubmissionRule express,
    s.globalMessageSubmissionRule none, s.globalMessageSubmissionRule express,
    s.batchRequestsRule, s.globalBatchRequestsRule, s.messageStatusRule, s.globalMessageStatusRule,
    s.messageReportsRule, s.globalMessageReportsRule, s.userReadsRule, s.globalUserReadsRule,
    s.userWritesRule, s.globalUserWritesRule, s.userCreatesRule, s.globalUserCreatesRule,
    s.pricingRule, s.globalPricingRule, s.systemRequestsRule, s.systemMessagesRule]

theorem map_name_rules : s.rules.map RateLimitRule.name = ruleNames :=
  rfl

theorem name_mem {rule : RateLimitRule} (h : rule ∈ s.rules) : rule.name ∈ ruleNames :=
  s.map_name_rules ▸ List.mem_map_of_mem h

/-- A rule is found by its name. -/
theorem eq_of_name_eq {rule rule' : RateLimitRule} (h : rule ∈ s.rules) (h' : rule' ∈ s.rules)
    (hn : rule.name = rule'.name) : rule = rule' :=
  List.inj_on_of_nodup_map (s.map_name_rules ▸ by decide) h h' hn

theorem exists_of_mem_rules {rule : RateLimitRule} (h : rule ∈ s.rules) :
    ∃ name perMinute burst, rule = ApiSettings.rule name perMinute burst := by
  simp only [rules, List.mem_cons, List.not_mem_nil, or_false] at h
  rcases h with rfl | rfl | rfl | rfl | rfl | rfl | rfl | rfl | rfl | rfl | rfl | rfl | rfl |
    rfl | rfl | rfl | rfl | rfl | rfl | rfl <;> exact ⟨_, _, _, rfl⟩

/-- Every rule refills and holds tokens. -/
theorem pos_of_mem_rules {rule : RateLimitRule} (h : rule ∈ s.rules) :
    0 < rule.refillRatePerSecond ∧ 0 < rule.burst := by
  obtain ⟨name, perMinute, burst, rfl⟩ := s.exists_of_mem_rules h
  refine ⟨div_pos ?_ ?_, burst.pos⟩
  · exact_mod_cast perMinute.pos
  · norm_num [ApiSettings.rule, windowSeconds]

theorem messageSubmissionRule_mem (priority : Option Json) :
    s.messageSubmissionRule priority ∈ s.rules ∧
      s.globalMessageSubmissionRule priority ∈ s.rules := by
  unfold messageSubmissionRule globalMessageSubmissionRule
  split_ifs
  · exact ⟨List.mem_of_getElem? (i := 1) rfl, List.mem_of_getElem? (i := 3) rfl⟩
  · exact ⟨List.mem_of_getElem? (i := 0) rfl, List.mem_of_getElem? (i := 2) rfl⟩

theorem systemRules_mem : s.systemRequestsRule ∈ s.rules ∧ s.systemMessagesRule ∈ s.rules := by
  simp [rules]

theorem batchRules_mem : s.batchRequestsRule ∈ s.rules ∧ s.globalBatchRequestsRule ∈ s.rules := by
  simp [rules]

end ApiSettings

/-- A key names its rule. -/
theorem name_eq_of_keyFor_eq {limiter : RedisTokenBucketRateLimiter} {b b' : ResolvedRateLimit}
    (hb : b.rule.name ∈ ruleNames) (hb' : b'.rule.name ∈ ruleNames)
    (h : limiter.keyFor b = limiter.keyFor b') : b.rule.name = b'.rule.name := by
  have hnames : ∀ n ∈ ruleNames, ∀ n' ∈ ruleNames,
      (n.toList ++ [':']) <+: (n'.toList ++ [':']) → n = n' := by
    decide +kernel
  have hl : b.rule.name.toList ++ [':'] ++ b.identity.toList =
      b'.rule.name.toList ++ [':'] ++ b'.identity.toList := by
    simpa [RedisTokenBucketRateLimiter.keyFor] using congrArg String.toList h
  have hp : b.rule.name.toList ++ [':'] <+: b'.rule.name.toList ++ [':'] ++ b'.identity.toList :=
    ⟨b.identity.toList, hl⟩
  rcases List.prefix_or_prefix_of_prefix hp (List.prefix_append _ _) with hp | hp
  · exact hnames _ hb _ hb' hp
  · exact (hnames _ hb' _ hb hp).symm

/-! ## The buckets of a call -/

/-- Buckets with rules of the settings, no rule twice, and costs that count. -/
structure Resolved (s : ApiSettings) (limits : List ResolvedRateLimit) : Prop where
  names_nodup : (limits.map fun limit => limit.rule.name).Nodup
  rule_mem : ∀ limit ∈ limits, limit.rule ∈ s.rules
  cost_pos : ∀ limit ∈ limits, 1 ≤ limit.cost

section Resolved

variable (s : ApiSettings)

theorem resolved_systemRequestLimits : Resolved s (systemRequestLimits s) :=
  ⟨List.nodup_singleton _, by simp [systemRequestLimits, s.systemRules_mem],
    by simp [systemRequestLimits]⟩

theorem resolved_endpointLimits {rule globalRule : RateLimitRule} (hr : rule ∈ s.rules)
    (hg : globalRule ∈ s.rules)
    (hn : [rule.name, globalRule.name, s.systemRequestsRule.name].Nodup) (identity : String) :
    Resolved s (endpointLimits s rule identity globalRule) := by
  refine ⟨hn, ?_, ?_⟩
  · simp [endpointLimits, systemRequestLimits, hr, hg, s.systemRules_mem]
  · simp [endpointLimits, systemRequestLimits]

theorem resolved_messageLimits (priority : Option Json) (identity : String) {cost : ℕ}
    (hc : 1 ≤ cost) : Resolved s (messageLimits s priority identity cost true true) := by
  obtain ⟨hr, hg⟩ := s.messageSubmissionRule_mem priority
  refine ⟨?_, ?_, ?_⟩
  · cases h : isExpress priority <;> simp [messageLimits, systemRequestLimits, h]
  · simp [messageLimits, systemRequestLimits, hr, hg, s.systemRules_mem]
  · simp [messageLimits, systemRequestLimits, hc]

theorem resolved_resolveBatchMessageLimits (payload : List (Str × Json)) (client : String) :
    Resolved s (resolveBatchMessageLimits s payload client) := by
  unfold resolveBatchMessageLimits
  rcases countBatchPriorities (Json.get? (.ofString "messages") payload) with ⟨normal, express⟩
  dsimp only
  refine ⟨?_, ?_, ?_⟩
  · by_cases hn : normal = 0 <;> by_cases he : express = 0 <;>
      simp [messageLimits, systemRequestLimits, isExpress_normal, isExpress_express, hn, he]
  · by_cases hn : normal = 0 <;> by_cases he : express = 0 <;>
      simp [messageLimits, systemRequestLimits, hn, he, s.systemRules_mem, s.batchRules_mem,
        s.messageSubmissionRule_mem]
  · by_cases hn : normal = 0 <;> by_cases he : express = 0 <;>
      simp [messageLimits, systemRequestLimits, hn, he] <;> omega

theorem resolved_resolvePathLimits (scope : Scope) (relativePath : Str)
    (payload : List (Str × Json)) :
    Resolved s (resolvePathLimits s scope relativePath payload) := by
  unfold resolvePathLimits
  dsimp only
  split_ifs
  · exact resolved_messageLimits s _ _ le_rfl
  · exact resolved_resolveBatchMessageLimits s _ _
  all_goals
    first
    | exact resolved_systemRequestLimits s
    | refine resolved_endpointLimits s ?_ ?_ ?_ _
      · simp [ApiSettings.rules]
      · simp [ApiSettings.rules]
      · exact of_decide_eq_true rfl

/-- The buckets of a call of the middleware. -/
theorem RateLimitMiddleware.resolved {scope : Scope} {body : Bytes}
    {limits : List ResolvedRateLimit}
    (h : RateLimitMiddleware.buckets s scope body = .ok limits) : Resolved s limits := by
  unfold RateLimitMiddleware.buckets resolveRateLimits at h
  split at h
  · cases h
    exact ⟨List.nodup_nil, by simp, by simp⟩
  · generalize (if requestMayNeedBody s scope then body else []) = body at h
    split_ifs at h
    · cases h
      exact ⟨List.nodup_nil, by simp, by simp⟩
    · obtain ⟨payload, -, h⟩ := bind_eq_ok.1 h
      cases h
      exact resolved_resolvePathLimits s _ _ _

end Resolved

/-- The keys of a call are distinct, since its rules are. -/
theorem Resolved.keys_nodup {s : ApiSettings} {limits : List ResolvedRateLimit}
    (h : Resolved s limits) (limiter : RedisTokenBucketRateLimiter) :
    (limits.map limiter.keyFor).Nodup := by
  refine List.pairwise_map.2 ((List.pairwise_map.1 h.names_nodup).imp_of_mem ?_)
  exact fun hb hb' hne hk => hne
    (name_eq_of_keyFor_eq (s.name_mem (h.rule_mem _ hb)) (s.name_mem (h.rule_mem _ hb')) hk)

/-- The calls that the middleware makes are well formed. -/
theorem RateLimitMiddleware.wellFormed (s : ApiSettings) (limiter : RedisTokenBucketRateLimiter)
    {calls : List CheckCall}
    (h : ∀ call ∈ calls, ∃ scope body, buckets s scope body = .ok call.buckets) :
    limiter.WellFormed calls := by
  have hres : ∀ call ∈ calls, Resolved s call.buckets := fun call hc => by
    obtain ⟨scope, body, hb⟩ := h call hc
    exact resolved s hb
  have hpos : ∀ call ∈ calls, ∀ b ∈ call.buckets,
      0 < b.rule.refillRatePerSecond ∧ 0 < b.rule.burst := fun call hc b hb =>
    s.pos_of_mem_rules ((hres call hc).rule_mem b hb)
  have hname : ∀ call ∈ calls, ∀ b ∈ call.buckets, b.rule.name ∈ ruleNames := fun call hc b hb =>
    s.name_mem ((hres call hc).rule_mem b hb)
  refine ⟨fun call hc => (hres call hc).keys_nodup limiter,
    fun call hc b hb => (hpos call hc b hb).1, fun call hc b hb => (hpos call hc b hb).2,
    fun call hc => (hres call hc).cost_pos, fun call hc b hb call' hc' b' hb' hk => ?_⟩
  exact s.eq_of_name_eq ((hres call hc).rule_mem b hb) ((hres call' hc').rule_mem b' hb')
    (name_eq_of_keyFor_eq (hname call hc b hb) (hname call' hc' b' hb') hk)

end Abrio
