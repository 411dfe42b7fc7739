import Abrio.MiddlewareCalls
import Abrio.SubmissionLimits

/-!
# The announced delay

A denied call announces the longest of the delays that its buckets need, each rounded up, and
writes their levels back. After that delay every bucket holds its cost, unless the cost is more
than the bucket can hold : then the request is denied for ever, whatever delay it was told
(`honestRetry_iff`). A single submission costs one token. The costs of a batch are the numbers of
its messages, which `max_messages_per_batch` bounds and no burst does (`retry_after_honest_iff`).
-/

open Python Runs TokenBucket

namespace Abrio

/-! ## The delay of a call -/

namespace RedisTokenBucketRateLimiter

variable {limiter : RedisTokenBucketRateLimiter} {redis redis' : Redis}
  {limits : List ResolvedRateLimit} {now later : ℚ}

/-- A denied call is allowed when it is made again `retry_after_seconds` later or after that, if
nobody else touches its buckets : of each the store holds what the denied call wrote, or it has
expired. -/
def HonestRetry (limiter : RedisTokenBucketRateLimiter) (limits : List ResolvedRateLimit) : Prop :=
  ∀ (redis redis' : Redis) (now later : ℚ),
    (limiter.check redis ⟨now, limits⟩).2.allowed = false →
    now + (limiter.check redis ⟨now, limits⟩).2.retryAfterSeconds ≤ later →
    (∀ b ∈ limits,
      redis' (limiter.keyFor b) = limiter.after redis ⟨now, limits⟩ (limiter.keyFor b) ∨
        redis' (limiter.keyFor b) = none) →
    (limiter.check redis' ⟨later, limits⟩).2.allowed = true

/-- The delay is enough for every bucket that falls short. -/
theorem le_retryAfterSeconds {b : ResolvedRateLimit} (hb : b ∈ limits)
    (hlt : limiter.level redis b now < b.cost) :
    (b.cost - limiter.level redis b now) / b.rule.refillRatePerSecond ≤
      (limiter.check redis ⟨now, limits⟩).2.retryAfterSeconds := by
  rcases limits with - | ⟨c, cs⟩
  · cases hb
  · have hmem : limiter.args b ∈ (c :: cs).map limiter.args := List.mem_map_of_mem hb
    have hlt' : TokenBucketScript.refilled now redis (limiter.args b) < (limiter.args b).cost := by
      rwa [refilled_args]
    have hle := (TokenBucketScript.le_retryAfter_inspectAll hmem hlt').trans (le_max_right 0 _)
    rw [refilled_args] at hle
    exact (Int.le_ceil _).trans (by exact_mod_cast hle)

theorem retryAfterSeconds_nonneg (call : CheckCall) :
    0 ≤ (limiter.check redis call).2.retryAfterSeconds := by
  rcases call with ⟨now, - | ⟨c, cs⟩⟩
  · exact le_rfl
  · exact le_max_left _ _

/-- After the delay a bucket that the denied call has written covers what it can hold. -/
theorem cost_le_level {b : ResolvedRateLimit} (hb : b ∈ limits)
    (hn : (limits.map limiter.keyFor).Nodup) (hr : 0 < b.rule.refillRatePerSecond)
    (hc : b.cost ≤ b.rule.burst)
    (hdenied : (limiter.check redis ⟨now, limits⟩).2.allowed = false)
    (hlater : now + (limiter.check redis ⟨now, limits⟩).2.retryAfterSeconds ≤ later)
    (hkey : redis' (limiter.keyFor b) = limiter.after redis ⟨now, limits⟩ (limiter.keyFor b)) :
    b.cost ≤ limiter.level redis' b later := by
  have hwait : (0 : ℚ) ≤ (limiter.check redis ⟨now, limits⟩).2.retryAfterSeconds := by
    exact_mod_cast retryAfterSeconds_nonneg _
  have hwritten := @after_of_mem limiter ⟨now, limits⟩ redis b hb hn
  have hbucket : redis'.bucket (limiter.keyFor b) =
      some ⟨limiter.level redis b now - 0, now⟩ := by
    rw [Redis.bucket, hkey, hwritten, allows, hdenied]
    rfl
  rw [level, hbucket, sub_zero]
  refine le_refill_of_le (by linarith) (by exact_mod_cast hc) ?_
  by_cases hlt : limiter.level redis b now < b.cost
  · have hdelay := (div_le_iff₀ hr).1 (le_retryAfterSeconds hb hlt)
    have hmono : ((limiter.check redis ⟨now, limits⟩).2.retryAfterSeconds : ℚ) *
        b.rule.refillRatePerSecond ≤ (later - now) * b.rule.refillRatePerSecond :=
      mul_le_mul_of_nonneg_right (by linarith) hr.le
    linarith
  · have hgain : 0 ≤ (later - now) * b.rule.refillRatePerSecond :=
      mul_nonneg (by linarith) hr.le
    linarith

/-- A bucket that cannot hold its cost denies every call. -/
theorem allows_eq_false {b : ResolvedRateLimit} (hb : b ∈ limits) (hc : b.rule.burst < b.cost) :
    limiter.allows redis ⟨now, limits⟩ = false := by
  rw [← Bool.not_eq_true, allows_iff]
  intro h
  have hle := (h b hb).trans (level_le_capacity _ _)
  exact absurd (by exact_mod_cast hle) (not_le.2 hc)

/-- The delay of a call is honest exactly when every bucket can hold its cost. -/
theorem honestRetry_iff (hn : (limits.map limiter.keyFor).Nodup)
    (hr : ∀ b ∈ limits, 0 < b.rule.refillRatePerSecond) :
    limiter.HonestRetry limits ↔ ∀ b ∈ limits, b.cost ≤ b.rule.burst := by
  refine ⟨?_, ?_⟩
  · intro h b hb
    by_contra hc
    have hfirst : limiter.allows fresh ⟨0, limits⟩ = false := allows_eq_false hb (not_le.1 hc)
    have hagain := h fresh (limiter.after fresh ⟨0, limits⟩) 0 _ hfirst le_rfl
      fun _ _ => .inl rfl
    exact Bool.false_ne_true ((allows_eq_false hb (not_le.1 hc)).symm.trans hagain)
  · intro hc redis redis' now later hdenied hlater hkeys
    refine allows_iff.2 fun b hb => ?_
    obtain hkey | hnone := hkeys b hb
    · exact cost_le_level hb hn (hr b hb) (hc b hb) hdenied hlater hkey
    · have hfull : limiter.level redis' b later = b.rule.burst := by
        rw [level, Redis.bucket, hnone]
        rfl
      rw [hfull]
      exact_mod_cast hc b hb

end RedisTokenBucketRateLimiter

/-! ## The costs of a submission -/

/-- Numbers of messages with normal and with express priority for which no burst is too small. -/
structure ApiSettings.Admits (s : ApiSettings) (normal express : ℕ) : Prop where
  normal_le : normal ≤ s.rateLimitNormalMessagesBurst
  globalNormal_le : normal ≤ s.rateLimitGlobalNormalMessagesBurst
  express_le : express ≤ s.rateLimitExpressMessagesBurst
  globalExpress_le : express ≤ s.rateLimitGlobalExpressMessagesBurst
  total_le : normal + express ≤ s.rateLimitSystemMessagesBurst

theorem ApiSettings.admits_zero (s : ApiSettings) : s.Admits 0 0 :=
  ⟨zero_le, zero_le, zero_le, zero_le, zero_le⟩

/-- The limiter reads the text that the application reads : UTF-8 without a byte order mark and
without surrogates. -/
structure LegibleBody (body : Bytes) : Prop where
  encoding : detectEncoding body = .utf8
  utf8 : (decodeUtf8 false body).isSome

section Costs

variable (s : ApiSettings)

/-- A bucket of the settings holds one token. -/
theorem Resolved.one_le_burst {limits : List ResolvedRateLimit} (h : Resolved s limits)
    {b : ResolvedRateLimit} (hb : b ∈ limits) : 1 ≤ b.rule.burst :=
  (s.pos_of_mem_rules (h.rule_mem b hb)).2

/-- Every bucket of a single submission holds its cost. -/
theorem single_cost_le_burst (payload : List (Str × Json)) (client : String) :
    ∀ b ∈ resolveSingleMessageLimits s payload client, b.cost ≤ b.rule.burst := by
  intro b hb
  have hone : b.cost = 1 := by
    simp only [resolveSingleMessageLimits, messageLimits, systemRequestLimits, if_true,
      List.mem_append, List.mem_cons, List.not_mem_nil, or_false] at hb
    rcases hb with ((rfl | rfl) | rfl) | rfl <;> rfl
  rw [hone]
  exact (resolved_messageLimits s _ _ le_rfl).one_le_burst s hb

/-- Buckets that are there for a cost hold it when it is within their bursts. -/
theorem cost_le_burst_ite_iff {limits : List ResolvedRateLimit} {cost : ℕ}
    (h : ∀ b ∈ limits, b.cost = cost) :
    (∀ b ∈ (if cost ≠ 0 then limits else []), b.cost ≤ b.rule.burst) ↔
      ∀ b ∈ limits, cost ≤ b.rule.burst := by
  split_ifs with hc
  · exact forall₂_congr fun b hb => by rw [h b hb]
  · simp [not_not.1 hc]

/-- The buckets of a batch hold their costs when no burst is too small for its messages. -/
theorem batch_cost_le_burst_iff (payload : List (Str × Json)) (client : String) :
    (∀ b ∈ resolveBatchMessageLimits s payload client, b.cost ≤ b.rule.burst) ↔
      s.Admits (countBatchPriorities (Json.get? (.ofString "messages") payload)).1
        (countBatchPriorities (Json.get? (.ofString "messages") payload)).2 := by
  unfold resolveBatchMessageLimits
  rcases countBatchPriorities (Json.get? (.ofString "messages") payload) with ⟨normal, express⟩
  have hrequests : (∀ b ∈ systemRequestLimits s, b.cost ≤ b.rule.burst) := fun b hb => by
    obtain rfl := List.mem_singleton.1 hb
    exact (resolved_systemRequestLimits s).one_le_burst s hb
  have hbatch : 1 ≤ s.batchRequestsRule.burst ∧ 1 ≤ s.globalBatchRequestsRule.burst :=
    ⟨(s.pos_of_mem_rules s.batchRules_mem.1).2, (s.pos_of_mem_rules s.batchRules_mem.2).2⟩
  dsimp only
  rw [List.forall_mem_append, List.forall_mem_append, List.forall_mem_append,
    List.forall_mem_append, cost_le_burst_ite_iff (by simp [messageLimits]),
    cost_le_burst_ite_iff (by simp [messageLimits]), cost_le_burst_ite_iff (by simp)]
  rw [and_iff_left hrequests]
  simp only [messageLimits, List.append_nil, List.forall_mem_cons, List.not_mem_nil, false_implies,
    implies_true, and_true, hbatch, true_and, Bool.false_eq_true, if_false]
  refine ⟨?_, ?_⟩
  · rintro ⟨⟨⟨hn, hgn⟩, he, hge⟩, ht⟩
    exact ⟨hn, hgn, he, hge, ht⟩
  · rintro ⟨hn, hgn, he, hge, ht⟩
    exact ⟨⟨⟨hn, hgn⟩, he, hge⟩, ht⟩

end Costs

/-! ## Accepted submissions -/

section Accepted

variable (limiter : RedisTokenBucketRateLimiter) (s : ApiSettings) (types : FieldTypes)

theorem Resolved.honestRetry_iff {limits : List ResolvedRateLimit} (h : Resolved s limits) :
    limiter.HonestRetry limits ↔ ∀ b ∈ limits, b.cost ≤ b.rule.burst :=
  RedisTokenBucketRateLimiter.honestRetry_iff (h.keys_nodup limiter) fun b hb =>
    (s.pos_of_mem_rules (h.rule_mem b hb)).1

/-- A single submission has the buckets of some payload. -/
theorem exists_buckets_sendMessage {queryString body : Bytes} {client : Option String}
    {limits : List ResolvedRateLimit}
    (h : RateLimitMiddleware.buckets s
      ((⟨.sendMessage, queryString, client⟩ : Request).scope s) body = .ok limits) :
    ∃ payload identity, limits = resolveSingleMessageLimits s payload identity := by
  rw [RateLimitMiddleware.buckets, (requestMayNeedBody_submission s queryString client).1,
    if_pos rfl, resolveRateLimits_sendMessage] at h
  obtain ⟨payload, -, rfl⟩ := map_eq_ok.1 h
  exact ⟨payload, _, rfl⟩

theorem buckets_batchSendMessage (queryString : Bytes) (client : Option String) (body : Bytes) :
    let scope := (⟨.batchSendMessage, queryString, client⟩ : Request).scope s
    RateLimitMiddleware.buckets s scope body = (readPayload s body).map fun payload =>
      resolveBatchMessageLimits s payload (getClientIdentity scope) := by
  intro scope
  rw [RateLimitMiddleware.buckets, (requestMayNeedBody_submission s queryString client).2,
    if_pos rfl, resolveRateLimits_batchSendMessage]

variable {s types} {body : Bytes} {request : BatchMessageRequest}

/-- Of an accepted batch the limiter reads the messages, if it is legible. -/
theorem exists_payload_of_acceptBatch (h : types.acceptBatch s body = some request)
    (hlegible : LegibleBody body) :
    ∃ payload, readPayload s body = .ok payload ∧
      countBatchPriorities (Json.get? (.ofString "messages") payload) =
        ((request.messages.map (·.priority)).count .normal,
          (request.messages.map (·.priority)).count .express) := by
  obtain ⟨payload, _, items, hl, -, -, hget, hm⟩ := exists_of_acceptBatch h
  refine ⟨payload, readPayload_of_plain hlegible.encoding hlegible.utf8 hl, ?_⟩
  rw [hget, countBatchPriorities_eq hm]

/-- Of one that is not it reads nothing. -/
theorem eq_nil_of_not_legible (h : types.acceptBatch s body = some request)
    (hlegible : ¬LegibleBody body) {payload : List (Str × Json)}
    (hread : readPayload s body = .ok payload) : payload = [] := by
  obtain ⟨_, _, _, hl, -⟩ := exists_of_acceptBatch h
  obtain hnil | ⟨he, hu, -⟩ := eq_nil_or_of_readPayload hl hread
  · exact hnil
  · exact absurd ⟨he, hu⟩ hlegible

/-- The delay that a denied submission is told is honest for every single one, and for a batch
exactly when no burst is too small for its messages, or the limiter does not read it. -/
theorem retry_after_honest_iff (limiter : RedisTokenBucketRateLimiter) (s : ApiSettings)
    (types : FieldTypes) (queryString : Bytes) (client : Option String) (body : Bytes) :
    (∀ request limits, types.acceptMessage s body = some request →
      RateLimitMiddleware.buckets s
          ((⟨.sendMessage, queryString, client⟩ : Request).scope s) body =
        .ok limits →
      limiter.HonestRetry limits) ∧
    ∀ request limits, types.acceptBatch s body = some request →
      RateLimitMiddleware.buckets s
          ((⟨.batchSendMessage, queryString, client⟩ : Request).scope s) body =
        .ok limits →
      (limiter.HonestRetry limits ↔
        (LegibleBody body →
          s.Admits ((request.messages.map (·.priority)).count .normal)
            ((request.messages.map (·.priority)).count .express))) := by
  refine ⟨fun request limits _ hlimits => ?_, fun request limits h hlimits => ?_⟩
  · rw [(RateLimitMiddleware.resolved s hlimits).honestRetry_iff limiter s]
    obtain ⟨payload, identity, rfl⟩ := exists_buckets_sendMessage s hlimits
    exact single_cost_le_burst s payload identity
  · rw [(RateLimitMiddleware.resolved s hlimits).honestRetry_iff limiter s]
    rw [buckets_batchSendMessage] at hlimits
    obtain ⟨payload, hread, rfl⟩ := map_eq_ok.1 hlimits
    rw [batch_cost_le_burst_iff]
    by_cases hlegible : LegibleBody body
    · obtain ⟨payload', hread', hcount⟩ := exists_payload_of_acceptBatch h hlegible
      obtain rfl := Except.ok.inj (hread'.symm.trans hread)
      rw [hcount]
      exact ⟨fun hadmits _ => hadmits, fun hadmits => hadmits hlegible⟩
    · obtain rfl := eq_nil_of_not_legible h hlegible hread
      exact ⟨fun _ h => absurd h hlegible, fun _ => s.admits_zero⟩

end Accepted

/-- A batch of user 42 with two express messages, as the bytes of its JSON text. -/
def expressBatchBody : Bytes :=
  ("\x7b\"user_id\": 42, \"messages\": [" ++
    "\x7b\"recipient\": \"09121234567\", \"body\": \"hello\", \"priority\": \"express\", " ++
    "\"idempotency_key\": \"00000000000000000000000000000007\"\x7d, " ++
    "\x7b\"recipient\": \"09121234567\", \"body\": \"hello\", \"priority\": \"express\", " ++
    "\"idempotency_key\": \"00000000000000000000000000000008\"\x7d]\x7d").toUTF8.toList

/-- The limiter reads it, and it is accepted where a batch may have as many messages, and a text
be nested as deep, as by default. -/
theorem exists_expressBatch {s : ApiSettings} (hs : s.maxMessagesPerBatch = 100)
    (hn : s.nestingLimit = 10_000) :
    LegibleBody expressBatchBody ∧ ∃ request,
      FieldTypes.sample.acceptBatch s expressBatchBody = some request ∧
        request.messages.map (·.priority) = [.express, .express] := by
  have hany : (FieldTypes.sample.acceptBatch {} expressBatchBody).any
      (fun request => request.messages.map (·.priority) = [.express, .express]) = true := by
    decide +kernel
  have heq : FieldTypes.sample.acceptBatch s expressBatchBody =
      FieldTypes.sample.acceptBatch {} expressBatchBody := by
    simp only [FieldTypes.acceptBatch, FieldTypes.batchMessageRequest, hs, hn]
  obtain ⟨request, h, hp⟩ := (Option.any_eq_true _ _).1 hany
  exact ⟨⟨by decide +kernel, by decide +kernel⟩, request, heq.trans h, of_decide_eq_true hp⟩

/-- With the default settings the batch is told an honest delay. -/
theorem retry_after_honest_sample : ∃ request limits,
    FieldTypes.sample.acceptBatch {} expressBatchBody = some request ∧
      RateLimitMiddleware.buckets {} ((⟨.batchSendMessage, [], none⟩ : Request).scope {})
        expressBatchBody = .ok limits ∧
      (RedisTokenBucketRateLimiter.init "app").HonestRetry limits := by
  obtain ⟨hlegible, request, h, hp⟩ := @exists_expressBatch {} rfl rfl
  obtain ⟨payload, hread, -⟩ := exists_payload_of_acceptBatch h hlegible
  have hlimits := buckets_batchSendMessage {} [] none expressBatchBody
  rw [hread] at hlimits
  refine ⟨request, _, h, hlimits, ?_⟩
  refine ((retry_after_honest_iff _ {} .sample [] none _).2 request _ h hlimits).2 fun _ => ?_
  rw [hp]
  exact ⟨by decide, by decide, by decide, by decide, by decide⟩

/-- With an express burst of one the batch is denied, and so it is after the delay it is told. -/
theorem retry_after_dishonest :
    ¬∀ (limiter : RedisTokenBucketRateLimiter) (s : ApiSettings) (types : FieldTypes)
      (queryString : Bytes) (client : Option String) (body : Bytes) (request : BatchMessageRequest)
      (limits : List ResolvedRateLimit), types.acceptBatch s body = some request →
      RateLimitMiddleware.buckets s
          ((⟨.batchSendMessage, queryString, client⟩ : Request).scope s) body =
        .ok limits →
      limiter.HonestRetry limits := by
  intro hall
  let s : ApiSettings := { rateLimitExpressMessagesBurst := 1 }
  obtain ⟨hlegible, request, h, hp⟩ := @exists_expressBatch s rfl rfl
  obtain ⟨payload, hread, hcount⟩ := exists_payload_of_acceptBatch h hlegible
  have hlimits := buckets_batchSendMessage s [] none expressBatchBody
  rw [hread] at hlimits
  have hhonest := hall (.init "app") s .sample [] none _ request _ h hlimits
  have hcosts := ((RateLimitMiddleware.resolved s hlimits).honestRetry_iff _ s).1 hhonest
  have hadmits := (batch_cost_le_burst_iff s payload _).1 hcosts
  rw [hcount, hp] at hadmits
  exact absurd hadmits.express_le (by decide)

end Abrio
