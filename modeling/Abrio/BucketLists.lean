import Abrio.RetryAfter

/-!
# Bucket lists

What every list of buckets that `resolve_rate_limits` returns looks like : which paths have none,
the one bucket for the request itself, distinct keys, and the costs of a batch, which are the
number of its messages. It returns one unless the JSON text has an integer of too many digits or
is nested too deep, and it counts the messages of a batch unless the body is another text for the
application (`bucket_list_iff`).
-/

open Python Runs

namespace Abrio

/-- The path of the API. -/
def ApiSettings.base (s : ApiSettings) : Str :=
  s.apiPrefix ++ .ofString "/v1"

/-- A path that is neither the one of the API nor below it, or the one of a health check. -/
def Unlimited (s : ApiSettings) (path : Str) : Prop :=
  (path ≠ s.base ∧ ¬s.base ++ [0x2F] <+: path) ∨
    ∃ rest, path = s.base ++ rest ∧ Str.ofString "/health/" <+: rest.rstrip 0x2F

/-- A batch request of the messages `items`, of whatever kind they are. -/
def BatchOf (s : ApiSettings) (scope : Scope) (body : Bytes) (items : List Json) : Prop :=
  scope.method = .post ∧ relativeApiPath s scope = some (.ofString "/messages/batch") ∧
    ∃ payload, Json.loadsBytes s.nestingLimit body = .ok (.dict payload) ∧
      Json.get? (.ofString "messages") payload = some (.list items)

/-- Each of the messages is charged once to its user, once globally and once to the system. -/
structure ChargesEach (limits : List ResolvedRateLimit) (n : ℕ) : Prop where
  user : charged limits "messages:normal" + charged limits "messages:express" = n
  global : charged limits "global:messages:normal" + charged limits "global:messages:express" = n
  system : charged limits "system:messages" = n

/-- The buckets of a request. -/
structure BucketList (s : ApiSettings) (scope : Scope) (body : Bytes)
    (limits : List ResolvedRateLimit) : Prop where
  nil_iff : limits = [] ↔ Unlimited s scope.path
  requests : ¬Unlimited s scope.path → ∃ limit,
    (limits.filter fun limit => limit.rule.name = "system:requests") = [limit] ∧ limit.cost = 1
  cost_pos : ∀ limit ∈ limits, 1 ≤ limit.cost
  keys_nodup : ∀ limiter : RedisTokenBucketRateLimiter, (limits.map limiter.keyFor).Nodup
  batch : ∀ items, BatchOf s scope body items → items ≠ [] → ChargesEach limits items.length

/-- Python reads the text of the body up to where it raises `e`. -/
def RaisesOn (s : ApiSettings) (e : Json.LoadsError) (body : Bytes) : Prop :=
  ∃ text, decodeUtf8 false body = some text ∧ Json.loads s.nestingLimit text = .error e

/-- The text of the body has an integer that Python refuses to read. -/
def LongInteger (s : ApiSettings) (body : Bytes) : Prop :=
  RaisesOn s .valueError body

/-- The text of the body has more lists and objects in each other than Python reads. -/
def DeepNesting (s : ApiSettings) (body : Bytes) : Prop :=
  RaisesOn s .recursionError body

/-! ## Paths -/

section Paths

variable {s : ApiSettings} {scope : Scope}

/-- The limits are resolved below the path of the API, health checks apart. -/
theorem unlimited_iff : Unlimited s scope.path ↔ ∀ relativePath,
    relativeApiPath s scope = some relativePath →
      relativePath.startsWith (.ofString "/health/") = true := by
  have hbase : Str.rstrip s.apiPrefix 0x2F ++ .ofString "/v1" = s.base := by
    rw [Str.rstrip_eq_self s.apiPrefix_last]
    rfl
  by_cases hout : scope.path ≠ s.base ∧ ¬s.base ++ [0x2F] <+: scope.path
  · refine iff_of_true (.inl hout) fun _ h => ?_
    rw [← Str.startsWith_iff, Bool.not_eq_true] at hout
    rw [relativeApiPath, hbase, if_pos hout] at h
    cases h
  · have hin : ¬(scope.path ≠ s.base ∧ scope.path.startsWith (s.base ++ [0x2F]) = false) := by
      rwa [← Bool.not_eq_true, Str.startsWith_iff]
    obtain ⟨rest, hrest⟩ : s.base <+: scope.path := by
      by_cases hp : scope.path = s.base
      · rw [hp]
      · exact (List.prefix_append s.base [0x2F]).trans (by tauto)
    have hdrop : scope.path.drop s.base.length = rest := by
      rw [← hrest, List.drop_left]
    rw [relativeApiPath, hbase, if_neg hin, hdrop]
    simp only [Option.some.injEq, forall_eq', Str.startsWith_iff]
    refine ⟨?_, ?_⟩
    · rintro (h | ⟨rest', he, hh⟩)
      · exact absurd h hout
      · obtain rfl := List.append_cancel_left (hrest.trans he)
        have hne : Str.rstrip rest 0x2F ≠ [] := by
          intro hnil
          rw [hnil] at hh
          exact absurd hh (by decide)
        rwa [if_neg hne]
    · intro hh
      refine .inr ⟨rest, hrest.symm, ?_⟩
      split_ifs at hh
      · exact absurd hh (by decide)
      · exact hh

end Paths

/-! ## Costs -/

section Costs

variable (s : ApiSettings)

/-- Every element of the list is counted, with one of the two priorities. -/
theorem countBatchPriorities_add (items : List Json) :
    (countBatchPriorities (some (.list items))).1 + (countBatchPriorities (some (.list items))).2 =
      items.length := by
  -- the loop from any counts
  suffices hfold : ∀ counts : ℕ × ℕ, (items.foldl countPriority counts).1 +
      (items.foldl countPriority counts).2 = counts.1 + counts.2 + items.length by
    exact (hfold (0, 0)).trans (Nat.zero_add _)
  induction items with
  | nil => exact fun counts => rfl
  | cons item items ih =>
    intro counts
    have hitem : (countPriority counts item).1 + (countPriority counts item).2 =
        counts.1 + counts.2 + 1 := by
      cases item with
      | dict entries =>
        by_cases h : isExpress (Json.get? (.ofString "priority") entries) = true <;>
          simp [countPriority, h] <;> omega
      | _ => exact Nat.succ_add _ _
    rw [List.foldl_cons, ih, hitem, List.length_cons]
    omega

/-- What the buckets of a batch are charged are the counts. -/
theorem charged_resolveBatchMessageLimits {payload : List (Str × Json)} {client : String}
    {normal express : ℕ}
    (h : countBatchPriorities (Json.get? (.ofString "messages") payload) = (normal, express)) :
    ChargesEach (resolveBatchMessageLimits s payload client) (normal + express) := by
  have hself : ∀ n : ℕ, (if n = 0 then 0 else n) = n := fun n => by split_ifs <;> omega
  rw [resolveBatchMessageLimits, h]
  dsimp only
  constructor <;> simp only [charged_append, charged_cons, charged_nil, charged_ite,
    messageLimits, systemRequestLimits, ApiSettings.name_messageSubmissionRule,
    ApiSettings.name_globalMessageSubmissionRule, isExpress_normal, isExpress_express] <;>
    simp [hself]
  omega

/-- The request itself is charged to the system. -/
theorem systemRequest_mem (scope : Scope) (relativePath : Str) (payload : List (Str × Json)) :
    ⟨s.systemRequestsRule, systemIdentity, 1⟩ ∈ resolvePathLimits s scope relativePath payload := by
  unfold resolvePathLimits
  dsimp only
  split_ifs <;> simp [resolveSingleMessageLimits, resolveBatchMessageLimits, messageLimits,
    endpointLimits, systemRequestLimits]

end Costs

/-- The buckets of a rule are one, when no rule has two. -/
theorem filter_name_eq {limits : List ResolvedRateLimit} {limit : ResolvedRateLimit}
    (h : (limits.map fun limit => limit.rule.name).Nodup) (hm : limit ∈ limits) :
    (limits.filter fun limit' => limit'.rule.name = limit.rule.name) = [limit] := by
  induction limits with
  | nil => cases hm
  | cons limit' limits ih =>
    obtain ⟨hnotin, h⟩ := List.nodup_cons.1 h
    rcases List.mem_cons.1 hm with rfl | hm
    · rw [List.filter_cons_of_pos (by simp), List.filter_eq_nil_iff.2]
      intro limit' hm hname
      exact hnotin (List.mem_map.2 ⟨limit', hm, of_decide_eq_true hname⟩)
    · rw [List.filter_cons_of_neg, ih h hm]
      intro hname
      exact hnotin (List.mem_map.2 ⟨limit, hm, (of_decide_eq_true hname).symm⟩)

/-! ## Bodies -/

theorem loads_ne_outOfFuel (limit : ℕ) (text : Str) :
    Json.loads limit text ≠ .error .outOfFuel := by
  unfold Json.loads
  split_ifs
  · exact fun h => by cases h
  · exact Json.decode_ne_outOfFuel text

/-- Of no text at all nothing but the error of the decoder is raised. -/
theorem RaisesOn.eq_of_nil {s : ApiSettings} {e : Json.LoadsError} (h : RaisesOn s e []) :
    e = .jsonDecodeError := by
  obtain ⟨text, ht, hl⟩ := h
  cases ht
  cases hl
  rfl

/-- The limiter reads a payload, unless there is too long an integer or too deep a nesting. -/
theorem exists_readPayload_iff {s : ApiSettings} {body : Bytes} :
    (∃ payload, readPayload s body = .ok payload) ↔
      ¬LongInteger s body ∧ ¬DeepNesting s body := by
  unfold readPayload parseJsonBody
  by_cases hb : body = []
  · subst hb
    exact iff_of_true ⟨[], if_pos rfl⟩
      ⟨fun h => absurd h.eq_of_nil (by decide), fun h => absurd h.eq_of_nil (by decide)⟩
  unfold LongInteger DeepNesting RaisesOn
  rw [if_neg hb]
  cases decodeUtf8 false body with
  | none => simp
  | some text =>
    simp only [Option.some.injEq, exists_eq_left']
    split
    · rename_i hl
      simp [hl]
    · rename_i hl
      simp [hl]
    · rename_i hl
      simp [hl]
    · rename_i e hne hl
      cases e with
      | jsonDecodeError => exact absurd rfl (hne ·)
      | valueError => simp [hl]
      | recursionError => simp [hl]
      | outOfFuel => exact absurd hl (loads_ne_outOfFuel _ text)

/-! ## The list -/

section List

variable {s : ApiSettings} {scope : Scope} {body : Bytes}

theorem resolveRateLimits_of_unlimited (h : Unlimited s scope.path) :
    resolveRateLimits s scope body = .ok [] := by
  rw [unlimited_iff] at h
  unfold resolveRateLimits
  split
  · rfl
  · rename_i relativePath hp
    rw [if_pos (h relativePath hp)]

/-- Below the path of the API the limits are those of the path, for the payload that is read. -/
theorem exists_relativePath (h : ¬Unlimited s scope.path) (body : Bytes) :
    ∃ relativePath, relativeApiPath s scope = some relativePath ∧
      resolveRateLimits s scope body =
        (readPayload s body).map (resolvePathLimits s scope relativePath) := by
  rw [unlimited_iff] at h
  push Not at h
  obtain ⟨relativePath, hp, hh⟩ := h
  exact ⟨relativePath, hp, resolveRateLimits_eq s hp (Bool.not_eq_true _ ▸ hh) body⟩

theorem not_unlimited_of_batch {items : List Json} (h : BatchOf s scope body items) :
    ¬Unlimited s scope.path := fun hunlimited =>
  absurd (unlimited_iff.1 hunlimited _ h.2.1) (by decide)

/-- A batch is charged right exactly when the limiter reads it. -/
theorem chargesEach_iff {items : List Json} (h : BatchOf s scope body items) (hne : items ≠ [])
    {payload : List (Str × Json)} (hread : readPayload s body = .ok payload) :
    ChargesEach (resolveBatchMessageLimits s payload (getClientIdentity scope)) items.length ↔
      LegibleBody body := by
  obtain ⟨-, -, payload', hl, hget⟩ := h
  refine ⟨?_, ?_⟩
  · intro hcost
    obtain rfl | ⟨he, hu, -⟩ := eq_nil_or_of_readPayload hl hread
    · have hzero : ChargesEach (resolveBatchMessageLimits s [] (getClientIdentity scope)) (0 + 0) :=
        charged_resolveBatchMessageLimits s rfl
      have hlength := hcost.user.symm.trans hzero.user
      exact absurd (List.length_eq_zero_iff.1 hlength) hne
    · exact ⟨he, hu⟩
  · intro hlegible
    obtain rfl := Except.ok.inj
      (hread.symm.trans (readPayload_of_plain hlegible.encoding hlegible.utf8 hl))
    rw [← countBatchPriorities_add items]
    exact charged_resolveBatchMessageLimits s (by rw [hget])

end List

/-- The list of buckets is returned and is as it should be exactly when the path has none or the
text of the body has no integer of too many digits and is not nested too deep, and when the
messages of a batch are in a text that the limiter reads. -/
theorem bucket_list_iff (s : ApiSettings) (scope : Scope) (body : Bytes) :
    (∃ limits, resolveRateLimits s scope body = .ok limits ∧ BucketList s scope body limits) ↔
      (Unlimited s scope.path ∨ ¬LongInteger s body ∧ ¬DeepNesting s body) ∧
        ∀ items, BatchOf s scope body items → items ≠ [] → LegibleBody body := by
  by_cases hpath : Unlimited s scope.path
  · have hbatch : ∀ items, ¬BatchOf s scope body items := fun items h =>
      not_unlimited_of_batch h hpath
    refine iff_of_true ⟨[], resolveRateLimits_of_unlimited hpath, ?_⟩
      ⟨.inl hpath, fun items h => absurd h (hbatch items)⟩
    exact ⟨iff_of_true rfl hpath, fun h => absurd hpath h, fun _ h => absurd h List.not_mem_nil,
      fun _ => List.nodup_nil, fun items h => absurd h (hbatch items)⟩
  obtain ⟨relativePath, hp, hresolve⟩ := exists_relativePath hpath body
  have hbatch : ∀ {items payload}, BatchOf s scope body items → items ≠ [] →
      readPayload s body = .ok payload →
      (ChargesEach (resolvePathLimits s scope relativePath payload) items.length ↔
        LegibleBody body) := by
    intro items payload h hne hread
    obtain rfl := Option.some.inj (hp.symm.trans h.2.1)
    rw [resolvePathLimits_batch s h.1]
    exact chargesEach_iff h hne hread
  rw [hresolve]
  refine ⟨?_, ?_⟩
  · rintro ⟨_, hok, hlist⟩
    obtain ⟨payload, hread, rfl⟩ := map_eq_ok.1 hok
    exact ⟨.inr (exists_readPayload_iff.1 ⟨payload, hread⟩), fun items h hne =>
      (hbatch h hne hread).1 (hlist.batch items h hne)⟩
  · rintro ⟨hreadable, hlegible⟩
    obtain ⟨payload, hread⟩ := exists_readPayload_iff.2 (hreadable.resolve_left hpath)
    have hresolved := resolved_resolvePathLimits s scope relativePath payload
    have hmem := systemRequest_mem s scope relativePath payload
    refine ⟨_, map_eq_ok.2 ⟨payload, hread, rfl⟩, ?_, fun _ => ?_, hresolved.cost_pos,
      hresolved.keys_nodup, fun items h hne => (hbatch h hne hread).2 (hlegible items h hne)⟩
    · exact iff_of_false (List.ne_nil_of_mem hmem) hpath
    · exact ⟨_, filter_name_eq hresolved.names_nodup hmem, rfl⟩

/-! ## Bodies that raise -/

theorem decodeUtf8_replicate_ascii {byte : UInt8} (hbyte : byte < 0x80) (n : ℕ) :
    decodeUtf8 false (List.replicate n byte) = some (List.replicate n byte.toNat) := by
  induction n with
  | zero => rfl
  | succ n ih =>
    rw [List.replicate_succ, decodeUtf8_cons_ascii false hbyte, ih]
    rfl

/-- Brackets that open more lists than Python reads. -/
theorem deepNesting_brackets {s : ApiSettings} {n : ℕ} (h : s.nestingLimit < n) :
    DeepNesting s (List.replicate n 0x5B) := by
  refine ⟨_, decodeUtf8_replicate_ascii (by decide) n, ?_⟩
  have hbrackets := Json.loads_brackets h []
  rwa [List.append_nil] at hbrackets

/-- An integer of `n` ones. -/
theorem longInteger_ones {s : ApiSettings} {n : ℕ} (h : Json.intMaxStrDigits < n) :
    LongInteger s (List.replicate n 0x31) := by
  refine ⟨List.replicate n 0x31, decodeUtf8_replicate_ascii (by decide) n, ?_⟩
  obtain ⟨m, rfl⟩ : ∃ m, n = m + 1 := ⟨n - 1, by omega⟩
  have hdigits : (List.replicate (m + 1) 0x31).takeWhile Str.isDigit =
      List.replicate (m + 1) 0x31 := by
    rw [List.takeWhile_replicate, if_pos (by decide)]
  have hrest : (List.replicate (m + 1) 0x31).dropWhile Str.isDigit = [] := by
    rw [List.dropWhile_replicate, if_pos (by decide)]
  rw [List.replicate_succ] at hdigits hrest ⊢
  have hinteger : Json.scanInteger (0x31 :: List.replicate m 0x31) =
      some (0x31 :: List.replicate m 0x31, []) := by
    simp only [Json.scanInteger, hdigits, hrest]
    rfl
  have hnumber : Json.scanNumber (0x31 :: List.replicate m 0x31) = .error .valueError := by
    simp only [Json.scanNumber, Json.scanSign, hinteger, Json.scanFraction, Json.scanExponent]
    simp [h]
  have hscalar : Json.scanScalar (0x31 :: List.replicate m 0x31) = .error .valueError := by
    rw [← hnumber]
    rfl
  have honce : ∀ fuel limit, Json.scanOnce (fuel + 1) limit (0x31 :: List.replicate m 0x31) =
      .error .valueError := fun fuel limit => by
    rw [Json.scanOnce, hscalar] <;> simp
  have hwhite : Json.skipWhitespace (0x31 :: List.replicate m 0x31) =
      0x31 :: List.replicate m 0x31 := rfl
  rw [Json.loads, if_neg (by simp), Json.decode, hwhite, honce]
  rfl

/-- An integer of 4301 digits for a body is not read, and no list of buckets is returned. -/
theorem long_integer_raises :
    ¬∀ (s : ApiSettings) (scope : Scope) (body : Bytes),
      ∃ limits, resolveRateLimits s scope body = .ok limits ∧ BucketList s scope body limits := by
  intro h
  obtain ⟨limits, hok, -⟩ := h {} ((⟨.sendMessage, [], none⟩ : Request).scope {})
    (List.replicate 4301 0x31)
  rw [resolveRateLimits_sendMessage] at hok
  obtain ⟨payload, hread, -⟩ := map_eq_ok.1 hok
  exact (exists_readPayload_iff.1 ⟨payload, hread⟩).1 (longInteger_ones (by decide))

end Abrio
