import Abrio.RateLimits

/-!
# What a submission is charged

A body is parsed twice, by the limiter and by the application, and the two read it differently.
The application detects the encoding and lets encoded surrogates pass, and a user may be an
integral float or a numeral with leading zeros. The limiter charges the request that the
application executes exactly when the body is plain UTF-8 and the user is spelled as the number
(`submission_charged_iff`). Otherwise the address of the client is charged, or the bucket of
another spelling of the user.
-/

open Python Runs

namespace Abrio

/-! ## Plain bodies -/

/-- The user is an integer, or a string that is the numeral of one. -/
def PlainUserId (payload : List (Str × Json)) : Prop :=
  (∃ n, Json.get? (.ofString "user_id") payload = some (.int n)) ∨
    ∃ n, Json.get? (.ofString "user_id") payload = some (.str (.numeral n))

/-- The body is UTF-8, without a byte order mark and without surrogates, and the user is plain. -/
structure PlainBody (s : ApiSettings) (body : Bytes) : Prop where
  encoding : detectEncoding body = .utf8
  utf8 : (decodeUtf8 false body).isSome
  userId : ∀ payload, Json.loadsBytes s.nestingLimit body = .ok (.dict payload) →
    PlainUserId payload

/-- Where the limiter reads a payload the application reads the same one. -/
theorem loadsBytes_of_decodeUtf8 {limit : ℕ} {body : Bytes} {text : Str} {value : Json}
    (ht : decodeUtf8 false body = some text) (hl : Json.loads limit text = .ok value) :
    detectEncoding body = .utf8 ∧ Json.loadsBytes limit body = .ok value := by
  unfold Json.loads at hl
  split_ifs at hl with hbom
  have he : detectEncoding body = .utf8 := by
    by_contra hne
    rcases of_detectEncoding_ne ht hne with hz | hh
    · exact Json.zero_not_mem_of_decode hl hz
    · exact hbom hh
  refine ⟨he, ?_⟩
  rw [Json.loadsBytes, he]
  simp only [decodeSurrogatepass, decodeUtf8_surrogatepass ht, hl]

/-- The limiter reads a plain body as the application does. -/
theorem parseJsonBody_of_plain {s : ApiSettings} {body : Bytes} {payload : List (Str × Json)}
    (he : detectEncoding body = .utf8) (hu : (decodeUtf8 false body).isSome)
    (hl : Json.loadsBytes s.nestingLimit body = .ok (.dict payload)) :
    parseJsonBody s body = .ok payload := by
  obtain ⟨text, ht⟩ := Option.isSome_iff_exists.1 hu
  rw [Json.loadsBytes, he] at hl
  simp only [decodeSurrogatepass, decodeUtf8_surrogatepass ht] at hl
  have hbom : text.head? ≠ some 0xFEFF := by
    intro hh
    have hp := bomUtf8_of_head ht hh
    obtain ⟨rest, rfl⟩ := List.isPrefixOf_iff_prefix.1 hp
    simp [detectEncoding, bomUtf8, bomUtf16Be, bomUtf16Le, bomUtf32Be, bomUtf32Le] at he
  simp only [parseJsonBody, ht, Json.loads, if_neg hbom, hl]

/-- Of an object that the application reads, the limiter reads all or nothing. -/
theorem eq_nil_or_of_readPayload {s : ApiSettings} {body : Bytes}
    {payload payload' : List (Str × Json)}
    (hl : Json.loadsBytes s.nestingLimit body = .ok (.dict payload))
    (h : readPayload s body = .ok payload') :
    payload' = [] ∨
      detectEncoding body = .utf8 ∧ (decodeUtf8 false body).isSome ∧ payload' = payload := by
  unfold readPayload parseJsonBody at h
  split_ifs at h with hb
  · exact .inl (Except.ok.inj h).symm
  split at h
  · exact .inl (Except.ok.inj h).symm
  rename_i text ht
  split at h
  · rename_i entries hloads
    cases h
    obtain ⟨he, hl'⟩ := loadsBytes_of_decodeUtf8 ht hloads
    cases hl.symm.trans hl'
    exact .inr ⟨he, by rw [ht]; rfl, rfl⟩
  · exact .inl (Except.ok.inj h).symm
  · exact .inl (Except.ok.inj h).symm
  · cases h

/-- The limiter reads the payload that the application reads from a legible body. -/
theorem readPayload_of_plain {s : ApiSettings} {body : Bytes} {payload : List (Str × Json)}
    (he : detectEncoding body = .utf8) (hu : (decodeUtf8 false body).isSome)
    (hl : Json.loadsBytes s.nestingLimit body = .ok (.dict payload)) :
    readPayload s body = .ok payload := by
  have hb : body ≠ [] := by
    rintro rfl
    cases hl
  rw [readPayload, if_neg hb]
  exact parseJsonBody_of_plain he hu hl

/-! ## The user -/

/-- A decimal string spells an integer only as its numeral. -/
theorem toString_eq_toString_iff {userId : Str} (hd : userId.isDecimal = true) {n : ℤ} :
    userId.toString = toString n ↔ ∃ m : ℕ, n = m ∧ userId = .numeral m := by
  constructor
  · intro h
    cases n with
    | ofNat m =>
      have hm : userId.toString = (Str.numeral m).toString := h.trans (Str.toString_numeral m).symm
      exact ⟨m, rfl, (Str.toString_inj hd (Str.isDecimal_numeral m)).1 hm⟩
    | negSucc m =>
      -- a sign is no digit
      have hs := Str.ofString_toString hd
      rw [h, show toString (Int.negSucc m) = "-" ++ toString (m + 1) from rfl] at hs
      simp only [Str.isDecimal, Bool.and_eq_true, List.all_eq_true] at hd
      have := hd.2 '-'.toNat (hs ▸ by simp [Str.ofString])
      exact absurd this (by decide)
  · rintro ⟨m, rfl, rfl⟩
    exact Str.toString_numeral m

/-- The limiter charges the validated user exactly when the user is plain. -/
theorem userIdentityFromPayload_iff {types : FieldTypes} {payload : List (Str × Json)}
    {value : Json} {userId : UserId} (hget : Json.get? (.ofString "user_id") payload = some value)
    (hint : types.int value = some userId) (scope : Scope) :
    (userIdentityFromPayload payload).getD (getClientIdentity scope) =
      "user:" ++ toString userId ↔ PlainUserId payload := by
  have hne := getClientIdentity_ne scope (toString userId)
  simp only [userIdentityFromPayload, PlainUserId, hget, Option.some.injEq]
  cases value with
  | int n =>
    obtain rfl := types.int_int hint
    simp
  | str s =>
    by_cases hd : s.isDecimal = true
    · simp only [hd, if_true, Option.getD_some, String.append_right_inj,
        toString_eq_toString_iff hd, Json.str.injEq, reduceCtorEq, exists_false, false_or]
      refine exists_congr fun n => and_iff_right_of_imp ?_
      rintro rfl
      exact types.int_decimal (k := 0) hint
    · have hs : ∀ n, s ≠ .numeral n := fun n he => hd (he ▸ Str.isDecimal_numeral n)
      simpa [hd, hs] using hne
  | _ => simpa using hne

/-! ## The cost -/

/-- What the buckets of a rule are charged together. -/
def charged (limits : List ResolvedRateLimit) (name : String) : ℕ :=
  ((limits.filter fun limit => limit.rule.name = name).map fun limit => limit.cost).sum

/-- The rule of a user's messages with a priority. -/
def userRule : MessagePriority → String
  | .normal => "messages:normal"
  | .express => "messages:express"

/-- The rules of a user's submissions. -/
def userRules : List String :=
  ["messages:normal", "messages:express", "messages:batch_requests"]

/-- The user's buckets are those of `userId`, and each message is charged once, to the bucket of
its priority and to the one of the system. -/
structure ChargesSubmission (limits : List ResolvedRateLimit) (userId : UserId)
    (priorities : List MessagePriority) : Prop where
  identity : ∀ limit ∈ limits, limit.rule.name ∈ userRules →
    limit.identity = "user:" ++ toString userId
  cost : ∀ priority, charged limits (userRule priority) = priorities.count priority
  total : charged limits "system:messages" = priorities.length

@[simp] theorem charged_nil (name : String) : charged [] name = 0 :=
  rfl

theorem charged_cons (limit : ResolvedRateLimit) (limits : List ResolvedRateLimit)
    (name : String) : charged (limit :: limits) name =
      (if limit.rule.name = name then limit.cost else 0) + charged limits name := by
  unfold charged
  by_cases h : limit.rule.name = name <;> simp [h]

theorem charged_append (limits limits' : List ResolvedRateLimit) (name : String) :
    charged (limits ++ limits') name = charged limits name + charged limits' name := by
  simp [charged]

theorem charged_ite (n : ℕ) (limits : List ResolvedRateLimit) (name : String) :
    charged (if n ≠ 0 then limits else []) name = if n ≠ 0 then charged limits name else 0 := by
  split_ifs <;> rfl

/-- An accepted priority is the one of its value. -/
theorem isExpress_of_ofJson? {value : Json} {priority : MessagePriority}
    (h : MessagePriority.ofJson? value = some priority) :
    isExpress (some value) = decide (priority = .express) := by
  unfold MessagePriority.ofJson? at h
  split at h
  · split_ifs at h with hn he
    · cases h
      rw [hn]
      decide
    · cases h
      rw [he]
      decide
  · cases h

/-- What the messages of one priority are charged. -/
theorem charged_messageLimits (s : ApiSettings) {value : Option Json} {priority : MessagePriority}
    (hv : isExpress value = decide (priority = .express)) (identity : String) (cost : ℕ)
    (request messages : Bool) :
    (∀ priority', charged (messageLimits s value identity cost request messages)
      (userRule priority') = if priority' = priority then cost else 0) ∧
      charged (messageLimits s value identity cost request messages) "system:messages" =
        (if messages then cost else 0) ∧
      ∀ limit ∈ messageLimits s value identity cost request messages,
        limit.rule.name ∈ userRules → limit.identity = identity := by
  refine ⟨fun priority' => ?_, ?_, ?_⟩
  · cases priority <;> cases priority' <;> cases request <;> cases messages <;>
      simp [messageLimits, systemRequestLimits, charged_cons, hv, userRule]
  · cases priority <;> cases request <;> cases messages <;>
      simp [messageLimits, systemRequestLimits, charged_cons, hv]
  · cases priority <;> cases request <;> cases messages <;>
      simp [messageLimits, systemRequestLimits, hv, userRules]

theorem identity_of_charges_single {s : ApiSettings} {payload : List (Str × Json)}
    {priorities : List MessagePriority} {client : String} {userId : UserId}
    (h : ChargesSubmission (resolveSingleMessageLimits s payload client) userId priorities) :
    (userIdentityFromPayload payload).getD client = "user:" ++ toString userId := by
  refine h.identity ⟨s.messageSubmissionRule _, _, 1⟩ List.mem_cons_self ?_
  rw [ApiSettings.name_messageSubmissionRule]
  split_ifs <;> simp [userRules]

/-- A single submission is charged right when its user is. -/
theorem chargesSubmission_single (s : ApiSettings) {payload : List (Str × Json)} {value : Json}
    {priority : MessagePriority} (hget : Json.get? (.ofString "priority") payload = some value)
    (hp : MessagePriority.ofJson? value = some priority) {client : String} {userId : UserId}
    (hid : (userIdentityFromPayload payload).getD client = "user:" ++ toString userId) :
    ChargesSubmission (resolveSingleMessageLimits s payload client) userId [priority] := by
  rw [resolveSingleMessageLimits, hget, hid]
  obtain ⟨hcost, htotal, hlimits⟩ :=
    charged_messageLimits s (isExpress_of_ofJson? hp) ("user:" ++ toString userId) 1 true true
  refine ⟨hlimits, fun priority' => ?_, htotal⟩
  rw [hcost]
  cases priority <;> cases priority' <;> rfl

/-! ## Batches -/

theorem count_add_count (priorities : List MessagePriority) :
    priorities.count .normal + priorities.count .express = priorities.length := by
  induction priorities with
  | nil => rfl
  | cons priority priorities ih =>
    cases priority <;> simp <;> omega

/-- The priority of an accepted item. -/
theorem isExpress_of_item {types : FieldTypes} {item : Json} {message : BatchMessageRequestItem}
    (h : types.batchMessageRequestItem item = some message) :
    ∃ entries, item = .dict entries ∧
      isExpress (Json.get? (.ofString "priority") entries) =
        decide (message.priority = .express) := by
  cases item with
  | dict entries =>
    simp only [FieldTypes.batchMessageRequestItem, Option.bind_eq_bind,
      Option.bind_eq_some_iff] at h
    obtain ⟨_, -, _, -, _, -, _, -, value, hv, priority, hp, _, -, _, -, h⟩ := h
    cases h
    exact ⟨entries, rfl, hv ▸ isExpress_of_ofJson? hp⟩
  | _ => cases h

/-- The limiter counts the priorities of the accepted messages. -/
theorem countBatchPriorities_eq {types : FieldTypes} {items : List Json}
    {messages : List BatchMessageRequestItem}
    (h : items.mapM types.batchMessageRequestItem = some messages) :
    countBatchPriorities (some (.list items)) =
      ((messages.map (·.priority)).count .normal, (messages.map (·.priority)).count .express) := by
  -- the loop from any counts
  suffices hfold : ∀ counts : ℕ × ℕ, items.foldl countPriority counts =
      (counts.1 + (messages.map (·.priority)).count .normal,
        counts.2 + (messages.map (·.priority)).count .express) by
    have h₀ := hfold (0, 0)
    rwa [Nat.zero_add, Nat.zero_add] at h₀
  induction items generalizing messages with
  | nil =>
    cases h
    simp
  | cons item items ih =>
    rw [List.mapM_cons] at h
    simp only [Option.bind_eq_bind, Option.bind_eq_some_iff] at h
    obtain ⟨message, hm, rest, hrest, h⟩ := h
    cases h
    intro counts
    obtain ⟨entries, rfl, he⟩ := isExpress_of_item hm
    rw [List.foldl_cons, ih hrest]
    cases hp : message.priority <;> simp [countPriority, he, hp] <;> omega

theorem identity_of_charges_batch {s : ApiSettings} {payload : List (Str × Json)}
    {priorities : List MessagePriority} {client : String} {userId : UserId}
    (h : ChargesSubmission (resolveBatchMessageLimits s payload client) userId priorities) :
    (userIdentityFromPayload payload).getD client = "user:" ++ toString userId :=
  h.identity ⟨s.batchRequestsRule, _, 1⟩ List.mem_cons_self (by simp [userRules])

/-- A batch is charged right when its user is. -/
theorem chargesSubmission_batch (s : ApiSettings) {types : FieldTypes}
    {payload : List (Str × Json)} {value : Json} {messages : List BatchMessageRequestItem}
    (hget : Json.get? (.ofString "messages") payload = some value)
    (hm : types.batchMessages value = some messages) {client : String} {userId : UserId}
    (hid : (userIdentityFromPayload payload).getD client = "user:" ++ toString userId) :
    ChargesSubmission (resolveBatchMessageLimits s payload client) userId
      (messages.map (·.priority)) := by
  cases value with
  | list items =>
    have htotal := count_add_count (messages.map (·.priority))
    rw [resolveBatchMessageLimits, hget, countBatchPriorities_eq hm, hid]
    generalize messages.map (·.priority) = priorities at *
    obtain ⟨hn, hn', hnid⟩ := charged_messageLimits s isExpress_normal
      ("user:" ++ toString userId) (priorities.count .normal) false false
    obtain ⟨he, he', heid⟩ := charged_messageLimits s isExpress_express
      ("user:" ++ toString userId) (priorities.count .express) false false
    dsimp only
    refine ⟨fun limit hl hr => ?_, fun priority => ?_, ?_⟩
    · simp only [List.mem_append, List.mem_ite_nil_right, List.mem_cons, List.not_mem_nil,
        or_false, systemRequestLimits] at hl
      rcases hl with ((((rfl | rfl) | ⟨-, hl⟩) | ⟨-, hl⟩) | ⟨-, rfl⟩) | rfl
      · rfl
      · simp [userRules] at hr
      · exact hnid limit hl hr
      · exact heid limit hl hr
      · simp [userRules] at hr
      · simp [userRules] at hr
    · simp only [charged_append, charged_cons, charged_nil, charged_ite, hn, he,
        systemRequestLimits]
      cases priority <;> simp [userRule, eq_comm]
    · simp only [charged_append, charged_cons, charged_nil, charged_ite, hn', he',
        systemRequestLimits, htotal]
      simp [eq_comm]
  | _ => cases hm

/-! ## Both parsers -/

/-- What is charged right when the user is, and only then, is charged right exactly when the
body is plain. -/
theorem exists_limits_iff {s : ApiSettings} {types : FieldTypes} {body : Bytes}
    {payload : List (Str × Json)} {value : Json} {userId : UserId}
    (hl : Json.loadsBytes s.nestingLimit body = .ok (.dict payload))
    (hget : Json.get? (.ofString "user_id") payload = some value)
    (hint : types.int value = some userId) (scope : Scope)
    {f : List (Str × Json) → List ResolvedRateLimit} {C : List ResolvedRateLimit → Prop}
    (hid : ∀ payload, C (f payload) →
      (userIdentityFromPayload payload).getD (getClientIdentity scope) =
        "user:" ++ toString userId)
    (hC : (userIdentityFromPayload payload).getD (getClientIdentity scope) =
      "user:" ++ toString userId → C (f payload)) :
    (∃ limits, (readPayload s body).map f = .ok limits ∧ C limits) ↔ PlainBody s body := by
  have hplain := userIdentityFromPayload_iff hget hint scope
  constructor
  · rintro ⟨limits, hmap, hc⟩
    obtain ⟨payload', hread, rfl⟩ := map_eq_ok.1 hmap
    have huser := hid payload' hc
    -- a payload that counts as empty names no user
    have hne : payload' ≠ [] := by
      rintro rfl
      exact getClientIdentity_ne scope _ huser
    obtain rfl | ⟨he, hu, rfl⟩ := eq_nil_or_of_readPayload hl hread
    · exact absurd rfl hne
    · refine ⟨he, hu, fun entries hl' => ?_⟩
      cases hl.symm.trans hl'
      exact hplain.1 huser
  · intro h
    have hread := readPayload_of_plain h.encoding h.utf8 hl
    exact ⟨f payload, map_eq_ok.2 ⟨payload, hread, rfl⟩, hC (hplain.2 (h.userId payload hl))⟩

/-- What an accepted batch was read from. -/
theorem exists_of_acceptBatch {s : ApiSettings} {types : FieldTypes} {body : Bytes}
    {request : BatchMessageRequest} (h : types.acceptBatch s body = some request) :
    ∃ payload value items, Json.loadsBytes s.nestingLimit body = .ok (.dict payload) ∧
      Json.get? (.ofString "user_id") payload = some value ∧
      types.int value = some request.userId ∧
      Json.get? (.ofString "messages") payload = some (.list items) ∧
      types.batchMessages (.list items) = some request.messages := by
  unfold FieldTypes.acceptBatch at h
  split at h
  swap
  · cases h
  rename_i json hl
  cases json with
  | dict payload =>
    simp only [FieldTypes.batchMessageRequest, Option.bind_eq_bind, Option.bind_eq_some_iff] at h
    obtain ⟨value, hget, userId, hint, v, hv, messages, hm, h⟩ := h
    split_ifs at h
    cases h
    cases v with
    | list items => exact ⟨payload, value, items, hl, hget, hint, hv, hm⟩
    | _ => cases hm
  | _ => cases h

/-- An accepted submission is charged to its user, and for each of its messages, exactly when
its body is plain. -/
theorem submission_charged_iff (s : ApiSettings) (types : FieldTypes) (queryString : Bytes)
    (client : Option String) (body : Bytes) :
    (∀ request, types.acceptMessage s body = some request →
      ((∃ limits, resolveRateLimits s
          ((⟨.sendMessage, queryString, client⟩ : Request).scope s) body = .ok limits ∧
        ChargesSubmission limits request.userId [request.priority]) ↔ PlainBody s body)) ∧
    ∀ request, types.acceptBatch s body = some request →
      ((∃ limits, resolveRateLimits s
          ((⟨.batchSendMessage, queryString, client⟩ : Request).scope s) body = .ok limits ∧
        ChargesSubmission limits request.userId (request.messages.map (·.priority))) ↔
          PlainBody s body) := by
  refine ⟨fun request h => ?_, fun request h => ?_⟩
  · unfold FieldTypes.acceptMessage at h
    split at h
    swap
    · cases h
    rename_i json hl
    cases json with
    | dict payload =>
      simp only [FieldTypes.messageRequest, Option.bind_eq_bind, Option.bind_eq_some_iff] at h
      obtain ⟨value, hget, userId, hint, _, -, _, -, _, -, _, -, v, hv, priority, hp, _, -, _, -,
        h⟩ := h
      cases h
      rw [resolveRateLimits_sendMessage]
      exact exists_limits_iff hl hget hint _ (fun _ => identity_of_charges_single)
        (chargesSubmission_single s hv hp)
    | _ => cases h
  · obtain ⟨payload, value, items, hl, hget, hint, hv, hm⟩ := exists_of_acceptBatch h
    rw [resolveRateLimits_batchSendMessage]
    exact exists_limits_iff hl hget hint _ (fun _ => identity_of_charges_batch)
      (chargesSubmission_batch s hv hm)

/-- A request of user 42 for an express message, as the bytes of its JSON text. -/
def expressBody : Bytes :=
  ("\x7b\"user_id\": 42, \"recipient\": \"09121234567\", \"body\": \"hello\", " ++
    "\"priority\": \"express\", \"idempotency_key\": " ++
    "\"00000000-0000-0000-0000-000000000007\"\x7d").toUTF8.toList

theorem submission_charged_iff_sample :
    ∃ request, FieldTypes.sample.acceptMessage {} expressBody = some request ∧
      ((∃ limits, resolveRateLimits {} ((⟨.sendMessage, [], none⟩ : Request).scope {})
          expressBody = .ok limits ∧
        ChargesSubmission limits request.userId [request.priority]) ↔
          PlainBody {} expressBody) := by
  have hsome : (FieldTypes.sample.acceptMessage {} expressBody).isSome := by
    decide +kernel
  obtain ⟨request, h⟩ := Option.isSome_iff_exists.1 hsome
  exact ⟨request, h, (submission_charged_iff {} .sample [] none expressBody).1 request h⟩

/-- With a byte order mark the same request is accepted, and the limiter finds no payload : it
charges a normal message to the address of the client. -/
theorem bom_not_charged :
    let body := bomUtf8 ++ expressBody
    let scope := (⟨.sendMessage, [], some "10.0.0.1"⟩ : Request).scope {}
    ∃ request, FieldTypes.sample.acceptMessage {} body = some request ∧ request.userId = 42 ∧
      request.priority = .express ∧
      resolveRateLimits {} scope body = .ok (messageLimits {} none "ip:10.0.0.1" 1 true true) ∧
      ¬ChargesSubmission (messageLimits {} none "ip:10.0.0.1" 1 true true) 42 [.express] := by
  intro body scope
  have hsome : (FieldTypes.sample.acceptMessage {} body).any
      (fun request => request.userId = 42 && request.priority = .express) = true := by
    decide +kernel
  obtain ⟨request, h, hr⟩ := (Option.any_eq_true _ _).1 hsome
  simp only [Bool.and_eq_true, decide_eq_true_eq] at hr
  refine ⟨request, h, hr.1, hr.2, by decide +kernel, fun hc => ?_⟩
  have := hc.cost .express
  exact absurd this (by decide)

end Abrio
