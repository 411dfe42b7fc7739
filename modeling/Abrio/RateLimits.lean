import Abrio.Api
import Abrio.RateLimiter

/-!
# Which buckets a request is charged

`resolve_rate_limits` of `api/rate_limit.py`. It reads the user of a request a second time, from
the body, the query string or the path, with rules of its own, and charges the address of the
client where it finds none. The body is parsed here too, from strictly decoded UTF-8, and one
that does not parse counts as empty; an integer of too many digits raises instead.
-/

open Python Runs

namespace Abrio

/-- `WINDOW_SECONDS`. -/
def windowSeconds : ℕ :=
  60

/-- `GLOBAL_IDENTITY`. -/
def globalIdentity : String :=
  "global"

/-- `SYSTEM_IDENTITY`. -/
def systemIdentity : String :=
  "system"

/-- The comparison with `MessagePriority.EXPRESS.value`. -/
def isExpress (priority : Option Json) : Bool :=
  match priority with
  | some (.str s) => s = MessagePriority.value .express
  | _ => false

theorem isExpress_normal : isExpress (some (.str (MessagePriority.value .normal))) =
    decide (MessagePriority.normal = .express) := by
  decide

theorem isExpress_express : isExpress (some (.str (MessagePriority.value .express))) =
    decide (MessagePriority.express = .express) := by
  decide

/-! ## Rules -/

namespace ApiSettings

/-- A rule for each minute. -/
def rule (name : String) (perMinute burst : ℕ+) : RateLimitRule where
  name := name
  limit := perMinute
  windowSeconds := windowSeconds
  burst := burst

variable (s : ApiSettings)

/-- The messages of a user, by priority. -/
def messageSubmissionRule (priority : Option Json) : RateLimitRule :=
  if isExpress priority then
    rule "messages:express" s.rateLimitExpressMessagesPerMinute s.rateLimitExpressMessagesBurst
  else rule "messages:normal" s.rateLimitNormalMessagesPerMinute s.rateLimitNormalMessagesBurst

/-- The messages of all users, by priority. -/
def globalMessageSubmissionRule (priority : Option Json) : RateLimitRule :=
  if isExpress priority then
    rule "global:messages:express" s.rateLimitGlobalExpressMessagesPerMinute
      s.rateLimitGlobalExpressMessagesBurst
  else
    rule "global:messages:normal" s.rateLimitGlobalNormalMessagesPerMinute
      s.rateLimitGlobalNormalMessagesBurst

/-- The batches of a user. -/
def batchRequestsRule : RateLimitRule :=
  rule "messages:batch_requests" s.rateLimitBatchRequestsPerMinute s.rateLimitBatchRequestsBurst

/-- The batches of all users. -/
def globalBatchRequestsRule : RateLimitRule :=
  rule "global:messages:batch_requests" s.rateLimitGlobalBatchRequestsPerMinute
    s.rateLimitGlobalBatchRequestsBurst

/-- The look-ups of single messages. -/
def messageStatusRule : RateLimitRule :=
  rule "messages:status" s.rateLimitMessageStatusPerMinute s.rateLimitMessageStatusBurst

/-- The same, for all users. -/
def globalMessageStatusRule : RateLimitRule :=
  rule "global:messages:status" s.rateLimitGlobalMessageStatusPerMinute
    s.rateLimitGlobalMessageStatusBurst

/-- The summaries and listings of messages. -/
def messageReportsRule : RateLimitRule :=
  rule "messages:reports" s.rateLimitMessageReportsPerMinute s.rateLimitMessageReportsBurst

/-- The same, for all users. -/
def globalMessageReportsRule : RateLimitRule :=
  rule "global:messages:reports" s.rateLimitGlobalMessageReportsPerMinute
    s.rateLimitGlobalMessageReportsBurst

/-- The look-ups of users. -/
def userReadsRule : RateLimitRule :=
  rule "users:reads" s.rateLimitUserReadsPerMinute s.rateLimitUserReadsBurst

/-- The same, for all clients. -/
def globalUserReadsRule : RateLimitRule :=
  rule "global:users:reads" s.rateLimitGlobalUserReadsPerMinute s.rateLimitGlobalUserReadsBurst

/-- The top-ups of a user, and what else is posted to one. -/
def userWritesRule : RateLimitRule :=
  rule "users:writes" s.rateLimitUserWritesPerMinute s.rateLimitUserWritesBurst

/-- The same, for all users. -/
def globalUserWritesRule : RateLimitRule :=
  rule "global:users:writes" s.rateLimitGlobalUserWritesPerMinute s.rateLimitGlobalUserWritesBurst

/-- The users that a client creates. -/
def userCreatesRule : RateLimitRule :=
  rule "users:creates" s.rateLimitUserCreatesPerMinute s.rateLimitUserCreatesBurst

/-- The same, for all clients. -/
def globalUserCreatesRule : RateLimitRule :=
  rule "global:users:creates" s.rateLimitGlobalUserCreatesPerMinute
    s.rateLimitGlobalUserCreatesBurst

/-- The look-ups of the prices. -/
def pricingRule : RateLimitRule :=
  rule "pricing" s.rateLimitPricingPerMinute s.rateLimitPricingBurst

/-- The same, for all clients. -/
def globalPricingRule : RateLimitRule :=
  rule "global:pricing" s.rateLimitGlobalPricingPerMinute s.rateLimitGlobalPricingBurst

/-- All requests together. -/
def systemRequestsRule : RateLimitRule :=
  rule "system:requests" s.rateLimitSystemRequestsPerMinute s.rateLimitSystemRequestsBurst

/-- All messages together. -/
def systemMessagesRule : RateLimitRule :=
  rule "system:messages" s.rateLimitSystemMessagesPerMinute s.rateLimitSystemMessagesBurst

@[simp] theorem name_messageSubmissionRule (priority : Option Json) :
    (s.messageSubmissionRule priority).name =
      if isExpress priority then "messages:express" else "messages:normal" := by
  unfold messageSubmissionRule
  split_ifs <;> rfl

@[simp] theorem name_globalMessageSubmissionRule (priority : Option Json) :
    (s.globalMessageSubmissionRule priority).name =
      if isExpress priority then "global:messages:express" else "global:messages:normal" := by
  unfold globalMessageSubmissionRule
  split_ifs <;> rfl

@[simp] theorem name_batchRequestsRule : s.batchRequestsRule.name = "messages:batch_requests" :=
  rfl

@[simp] theorem name_globalBatchRequestsRule :
    s.globalBatchRequestsRule.name = "global:messages:batch_requests" :=
  rfl

@[simp] theorem name_systemRequestsRule : s.systemRequestsRule.name = "system:requests" :=
  rfl

@[simp] theorem name_systemMessagesRule : s.systemMessagesRule.name = "system:messages" :=
  rfl

end ApiSettings

/-! ## Limits -/

section Limits

variable (s : ApiSettings)

/-- The bucket that every request draws from. -/
def systemRequestLimits : List ResolvedRateLimit :=
  [{ rule := s.systemRequestsRule, identity := systemIdentity }]

/-- The limits of an endpoint that takes no messages. -/
def endpointLimits (perIdentityRule : RateLimitRule) (identity : String)
    (globalRule : RateLimitRule) : List ResolvedRateLimit :=
  [{ rule := perIdentityRule, identity }, { rule := globalRule, identity := globalIdentity }] ++
    systemRequestLimits s

/-- The limits of messages of one priority. -/
def messageLimits (priority : Option Json) (identity : String) (cost : ℕ)
    (includeSystemRequest includeSystemMessages : Bool) : List ResolvedRateLimit :=
  [{ rule := s.messageSubmissionRule priority, identity, cost },
    { rule := s.globalMessageSubmissionRule priority, identity := globalIdentity, cost }] ++
  (if includeSystemMessages then
    [{ rule := s.systemMessagesRule, identity := systemIdentity, cost }] else []) ++
  if includeSystemRequest then systemRequestLimits s else []

/-- The body of the loop. What is no object counts as normal. -/
def countPriority (counts : ℕ × ℕ) (message : Json) : ℕ × ℕ :=
  let (normalCount, expressCount) := counts
  match message with
  | .dict entries =>
    if isExpress (Json.get? (.ofString "priority") entries) then (normalCount, expressCount + 1)
    else (normalCount + 1, expressCount)
  | _ => (normalCount + 1, expressCount)

/-- The messages with normal and with express priority. -/
def countBatchPriorities : Option Json → ℕ × ℕ
  | some (.list messages) => messages.foldl countPriority (0, 0)
  | _ => (0, 0)

/-- The user of a body. A number is spelled anew, and a string is kept as it is. -/
def userIdentityFromPayload (payload : List (Str × Json)) : Option String :=
  match Json.get? (.ofString "user_id") payload with
  | some (.int n) => some ("user:" ++ toString n)
  | some (.str userId) => if userId.isDecimal then some ("user:" ++ userId.toString) else none
  | _ => none

/-- The limits of a single submission. It costs one token of each bucket. -/
def resolveSingleMessageLimits (payload : List (Str × Json)) (fallbackIdentity : String) :
    List ResolvedRateLimit :=
  let identity := (userIdentityFromPayload payload).getD fallbackIdentity
  messageLimits s (Json.get? (.ofString "priority") payload) identity 1 true true

/-- The limits of a batch. Its items are counted by priority, whatever else they are. -/
def resolveBatchMessageLimits (payload : List (Str × Json)) (fallbackIdentity : String) :
    List ResolvedRateLimit :=
  let identity := (userIdentityFromPayload payload).getD fallbackIdentity
  let (normalCount, expressCount) :=
    countBatchPriorities (Json.get? (.ofString "messages") payload)
  let totalCount := normalCount + expressCount
  [{ rule := s.batchRequestsRule, identity },
    { rule := s.globalBatchRequestsRule, identity := globalIdentity }] ++
  (if normalCount ≠ 0 then
    messageLimits s (some (.str (MessagePriority.value .normal))) identity normalCount false false
    else []) ++
  (if expressCount ≠ 0 then
    messageLimits s (some (.str (MessagePriority.value .express))) identity expressCount false false
    else []) ++
  (if totalCount ≠ 0 then
    [{ rule := s.systemMessagesRule, identity := systemIdentity, cost := totalCount }] else []) ++
  systemRequestLimits s

end Limits

/-! ## Identities -/

/-- The address of the client, as the server sees it. -/
def getClientIdentity (scope : Scope) : String :=
  match scope.client with
  | some host => "ip:" ++ host
  | none => "ip:unknown"

theorem getClientIdentity_ne (scope : Scope) (userId : String) :
    getClientIdentity scope ≠ "user:" ++ userId := by
  intro h
  have hl := congrArg String.toList h
  unfold getClientIdentity at hl
  split at hl <;> simp at hl

/-- `params["user_id"][0]` : of the values that are not blank the first one. -/
def firstUserId (queryString : Bytes) : Option Str :=
  ((parseQsl false (decodeLatin1 queryString)).find? fun pair =>
    pair.1 = .ofString "user_id").map Prod.snd

/-- The user, if the text is decimal. -/
def userIdentity (userId : Str) : Option String :=
  if userId.isDecimal then some ("user:" ++ userId.toString) else none

/-- The user of the query string. -/
def userIdentityFromQuery (scope : Scope) : Option String :=
  (firstUserId scope.queryString).bind userIdentity

/-- The user of a path below `/users`. -/
def userIdentityFromUserPath (relativePath : Str) : Option String :=
  match (relativePath.strip 0x2F).splitOn 0x2F with
  | users :: userId :: _ => if users = Str.ofString "users" then userIdentity userId else none
  | _ => none

/-! ## The resolution -/

/-- The path below the one of the API, without slashes at its end. -/
def relativeApiPath (s : ApiSettings) (scope : Scope) : Option Str :=
  let apiBase := s.apiPrefix.rstrip 0x2F ++ .ofString "/v1"
  if scope.path ≠ apiBase ∧ scope.path.startsWith (apiBase ++ [0x2F]) = false then none
  else
    let relativePath := Str.rstrip (scope.path.drop apiBase.length) 0x2F
    some (if relativePath = [] then [0x2F] else relativePath)

/-- A body that does not decode or parse, or that is no object, counts as `{}`. What else
`json.loads` raises is not caught. -/
def parseJsonBody (s : ApiSettings) (body : Bytes) : Except Json.LoadsError (List (Str × Json)) :=
  match decodeUtf8 false body with
  | none => .ok []
  | some text =>
    match Json.loads s.nestingLimit text with
    | .ok (.dict entries) => .ok entries
    | .ok _ => .ok []
    | .error .jsonDecodeError => .ok []
    | .error e => .error e

/-- The payload of a request, which only the submissions have. -/
def readPayload (s : ApiSettings) (body : Bytes) : Except Json.LoadsError (List (Str × Json)) :=
  if body = [] then .ok [] else parseJsonBody s body

/-- The limits of a path. -/
def resolvePathLimits (s : ApiSettings) (scope : Scope) (relativePath : Str)
    (payload : List (Str × Json)) : List ResolvedRateLimit :=
  let clientIdentity := getClientIdentity scope
  if scope.method = .post ∧ relativePath = .ofString "/messages" then
    resolveSingleMessageLimits s payload clientIdentity
  else if scope.method = .post ∧ relativePath = .ofString "/messages/batch" then
    resolveBatchMessageLimits s payload clientIdentity
  else if scope.method = .get ∧ relativePath = .ofString "/messages/summary" then
    endpointLimits s s.messageReportsRule ((userIdentityFromQuery scope).getD clientIdentity)
      s.globalMessageReportsRule
  else if scope.method = .get ∧ relativePath = .ofString "/messages" then
    endpointLimits s s.messageReportsRule ((userIdentityFromQuery scope).getD clientIdentity)
      s.globalMessageReportsRule
  else if scope.method = .get ∧ relativePath.startsWith (.ofString "/messages/") then
    endpointLimits s s.messageStatusRule ((userIdentityFromQuery scope).getD clientIdentity)
      s.globalMessageStatusRule
  else if scope.method = .post ∧ relativePath = .ofString "/users" then
    endpointLimits s s.userCreatesRule clientIdentity s.globalUserCreatesRule
  else if scope.method = .get ∧
      (relativePath = .ofString "/users" ∨ relativePath.startsWith (.ofString "/users/")) then
    endpointLimits s s.userReadsRule clientIdentity s.globalUserReadsRule
  else if scope.method = .post ∧ relativePath.startsWith (.ofString "/users/") then
    endpointLimits s s.userWritesRule
      ((userIdentityFromUserPath relativePath).getD clientIdentity) s.globalUserWritesRule
  else if scope.method = .get ∧ relativePath = .ofString "/pricing" then
    endpointLimits s s.pricingRule clientIdentity s.globalPricingRule
  else systemRequestLimits s

/-- `resolve_rate_limits`. Nothing is charged outside the API or for a health check. -/
def resolveRateLimits (s : ApiSettings) (scope : Scope) (body : Bytes) :
    Except Json.LoadsError (List ResolvedRateLimit) :=
  match relativeApiPath s scope with
  | none => .ok []
  | some relativePath =>
    if relativePath.startsWith (.ofString "/health/") then .ok []
    else do
      let payload ← readPayload s body
      return resolvePathLimits s scope relativePath payload

/-- The body is read for the submissions only. -/
def requestMayNeedBody (s : ApiSettings) (scope : Scope) : Bool :=
  scope.method = .post ∧
    (relativeApiPath s scope = some (.ofString "/messages") ∨
      relativeApiPath s scope = some (.ofString "/messages/batch"))

/-- The buckets of a call of the middleware. -/
def RateLimitMiddleware.buckets (s : ApiSettings) (scope : Scope) (body : Bytes) :
    Except Json.LoadsError (List ResolvedRateLimit) :=
  resolveRateLimits s scope (if requestMayNeedBody s scope then body else [])

/-! ## The routes with a user -/

variable (s : ApiSettings)

theorem relativeApiPath_scope (r : Request) {path : Str} (hp : r.endpoint.path = 0x2F :: path) :
    relativeApiPath s (r.scope s) =
      some (if Str.rstrip (0x2F :: path) 0x2F = [] then [0x2F]
        else Str.rstrip (0x2F :: path) 0x2F) := by
  have hprefix : Str.rstrip s.apiPrefix 0x2F = s.apiPrefix :=
    Str.rstrip_eq_self s.apiPrefix_last
  have hstarts : (s.apiPrefix ++ Str.ofString "/v1" ++ 0x2F :: path).startsWith
      (s.apiPrefix ++ Str.ofString "/v1" ++ [0x2F]) = true :=
    Str.startsWith_iff.2 ⟨path, by simp⟩
  simp only [relativeApiPath, Request.scope, hp, hprefix, hstarts]
  simp

theorem resolveRateLimits_eq {scope : Scope} {relativePath : Str}
    (hp : relativeApiPath s scope = some relativePath)
    (hh : relativePath.startsWith (.ofString "/health/") = false) (body : Bytes) :
    resolveRateLimits s scope body =
      (readPayload s body).map (resolvePathLimits s scope relativePath) := by
  rw [resolveRateLimits, hp]
  simp only [hh]
  cases readPayload s body <;> rfl

theorem relativeApiPath_sendMessage (queryString : Bytes) (client : Option String) :
    relativeApiPath s ((⟨.sendMessage, queryString, client⟩ : Request).scope s) =
      some (.ofString "/messages") := by
  have hpath : Endpoint.sendMessage.path = 0x2F :: Str.ofString "messages/" := rfl
  exact (relativeApiPath_scope s _ hpath).trans (by decide)

theorem relativeApiPath_batchSendMessage (queryString : Bytes) (client : Option String) :
    relativeApiPath s ((⟨.batchSendMessage, queryString, client⟩ : Request).scope s) =
      some (.ofString "/messages/batch") := by
  have hpath : Endpoint.batchSendMessage.path = 0x2F :: Str.ofString "messages/batch" := rfl
  exact (relativeApiPath_scope s _ hpath).trans (by decide)

theorem resolveRateLimits_sendMessage (queryString : Bytes) (client : Option String)
    (body : Bytes) :
    let scope := (⟨.sendMessage, queryString, client⟩ : Request).scope s
    resolveRateLimits s scope body = (readPayload s body).map fun payload =>
      resolveSingleMessageLimits s payload (getClientIdentity scope) := by
  intro scope
  rw [resolveRateLimits_eq s (relativeApiPath_sendMessage s queryString client) (by decide)]
  refine congrArg (Except.map · _) (funext fun payload => ?_)
  rw [resolvePathLimits, if_pos ⟨rfl, rfl⟩]

/-- The limits of a batch are those of its messages. -/
theorem resolvePathLimits_batch {scope : Scope} (hmethod : scope.method = .post)
    (payload : List (Str × Json)) :
    resolvePathLimits s scope (.ofString "/messages/batch") payload =
      resolveBatchMessageLimits s payload (getClientIdentity scope) := by
  rw [resolvePathLimits, if_neg (fun h => absurd h.2 (by decide)), if_pos ⟨hmethod, rfl⟩]

theorem resolveRateLimits_batchSendMessage (queryString : Bytes) (client : Option String)
    (body : Bytes) :
    let scope := (⟨.batchSendMessage, queryString, client⟩ : Request).scope s
    resolveRateLimits s scope body = (readPayload s body).map fun payload =>
      resolveBatchMessageLimits s payload (getClientIdentity scope) := by
  intro scope
  rw [resolveRateLimits_eq s (relativeApiPath_batchSendMessage s queryString client) (by decide)]
  exact congrArg (Except.map · _) (funext (resolvePathLimits_batch s rfl))

/-- The middleware reads the body of a submission. -/
theorem requestMayNeedBody_submission (queryString : Bytes) (client : Option String) :
    requestMayNeedBody s ((⟨.sendMessage, queryString, client⟩ : Request).scope s) = true ∧
      requestMayNeedBody s ((⟨.batchSendMessage, queryString, client⟩ : Request).scope s) =
        true := by
  refine ⟨decide_eq_true ⟨rfl, .inl ?_⟩, decide_eq_true ⟨rfl, .inr ?_⟩⟩
  · exact relativeApiPath_sendMessage s queryString client
  · exact relativeApiPath_batchSendMessage s queryString client

end Abrio
