import Abrio.Library.Json
import Abrio.Library.QueryString
import Abrio.Submission
import Mathlib.Data.PNat.Notation

/-!
# Requests to the API

The requests that are limited by user, as the server passes them on, and what the application
makes of them. What pydantic makes of the value of a field is a parameter (`FieldTypes`), of
which only this is relied on : an accepted integer is the number itself, and an accepted
decimal string is its number, whatever the leading zeros.
-/

open Python

namespace Abrio

/-- The settings the API layer reads, and the depth to which the interpreter reads JSON texts. A
router's prefix must not end in a slash. -/
structure ApiSettings where
  /-- How many lists and objects of a JSON text may be open at once. The C stack of the interpreter
  decides on it, for the limiter and for the application alike. -/
  nestingLimit : ℕ := 10_000
  appDebug : Bool := false
  apiPrefix : Str := .ofString "/api"
  maxMessagesPerBatch : ℕ := 100
  rateLimitNormalMessagesPerMinute : ℕ+ := 1_200
  rateLimitNormalMessagesBurst : ℕ+ := 200
  rateLimitExpressMessagesPerMinute : ℕ+ := 300
  rateLimitExpressMessagesBurst : ℕ+ := 100
  rateLimitBatchRequestsPerMinute : ℕ+ := 120
  rateLimitBatchRequestsBurst : ℕ+ := 20
  rateLimitMessageStatusPerMinute : ℕ+ := 2_400
  rateLimitMessageStatusBurst : ℕ+ := 400
  rateLimitMessageReportsPerMinute : ℕ+ := 240
  rateLimitMessageReportsBurst : ℕ+ := 40
  rateLimitUserReadsPerMinute : ℕ+ := 600
  rateLimitUserReadsBurst : ℕ+ := 100
  rateLimitUserWritesPerMinute : ℕ+ := 60
  rateLimitUserWritesBurst : ℕ+ := 15
  rateLimitUserCreatesPerMinute : ℕ+ := 20
  rateLimitUserCreatesBurst : ℕ+ := 5
  rateLimitPricingPerMinute : ℕ+ := 240
  rateLimitPricingBurst : ℕ+ := 40
  rateLimitGlobalNormalMessagesPerMinute : ℕ+ := 300_000
  rateLimitGlobalNormalMessagesBurst : ℕ+ := 30_000
  rateLimitGlobalExpressMessagesPerMinute : ℕ+ := 75_000
  rateLimitGlobalExpressMessagesBurst : ℕ+ := 15_000
  rateLimitGlobalBatchRequestsPerMinute : ℕ+ := 3_000
  rateLimitGlobalBatchRequestsBurst : ℕ+ := 300
  rateLimitGlobalMessageStatusPerMinute : ℕ+ := 120_000
  rateLimitGlobalMessageStatusBurst : ℕ+ := 12_000
  rateLimitGlobalMessageReportsPerMinute : ℕ+ := 12_000
  rateLimitGlobalMessageReportsBurst : ℕ+ := 1_200
  rateLimitGlobalUserReadsPerMinute : ℕ+ := 30_000
  rateLimitGlobalUserReadsBurst : ℕ+ := 3_000
  rateLimitGlobalUserWritesPerMinute : ℕ+ := 6_000
  rateLimitGlobalUserWritesBurst : ℕ+ := 600
  rateLimitGlobalUserCreatesPerMinute : ℕ+ := 1_200
  rateLimitGlobalUserCreatesBurst : ℕ+ := 120
  rateLimitGlobalPricingPerMinute : ℕ+ := 12_000
  rateLimitGlobalPricingBurst : ℕ+ := 1_200
  rateLimitSystemRequestsPerMinute : ℕ+ := 450_000
  rateLimitSystemRequestsBurst : ℕ+ := 45_000
  rateLimitSystemMessagesPerMinute : ℕ+ := 375_000
  rateLimitSystemMessagesBurst : ℕ+ := 37_500
  apiPrefix_last : apiPrefix.getLast? ≠ some 0x2F := by decide

/-! ## What the server passes on -/

/-- The methods that the limits tell apart. -/
inductive Method
  | get
  | post
  | other
  deriving DecidableEq

/-- The ASGI scope of a request : the path is decoded, the query string is not. -/
structure Scope where
  method : Method
  path : Str
  queryString : Bytes
  client : Option String

/-- A path parameter : characters up to the next slash. -/
structure Segment where
  text : Str
  ne_nil : text ≠ []
  no_slash : 0x2F ∉ text
  deriving DecidableEq

/-- What a user is asked to be done, with `/zero` for debugging only. -/
inductive UserAction
  | topup
  | zero
  deriving DecidableEq

/-- The routes with a user. `/messages/summary` is matched before `/messages/{message_id}`. -/
inductive Endpoint
  | sendMessage
  | batchSendMessage
  | getMessages
  | getUserMessagesSummary
  | getMessageById (messageId : Segment) (h : messageId.text ≠ .ofString "summary")
  | userWrite (userId : Segment) (action : UserAction)

/-- The last segment of its path. -/
def UserAction.path : UserAction → Str
  | .topup => .ofString "topup"
  | .zero => .ofString "zero"

namespace Endpoint

/-- The method of the route. -/
def method : Endpoint → Method
  | .sendMessage => .post
  | .batchSendMessage => .post
  | .userWrite _ _ => .post
  | _ => .get

/-- The path below the one of the API. -/
def path : Endpoint → Str
  | .sendMessage => .ofString "/messages/"
  | .batchSendMessage => .ofString "/messages/batch"
  | .getMessages => .ofString "/messages/"
  | .getUserMessagesSummary => .ofString "/messages/summary"
  | .getMessageById messageId _ => .ofString "/messages/" ++ messageId.text
  | .userWrite userId action => .ofString "/users/" ++ userId.text ++ .ofString "/" ++ action.path

end Endpoint

/-- A request to one of the routes. -/
structure Request where
  endpoint : Endpoint
  queryString : Bytes
  client : Option String

/-- The scope of the request, as the server passes it to the middlewares. -/
def Request.scope (s : ApiSettings) (r : Request) : Scope where
  method := r.endpoint.method
  path := s.apiPrefix ++ .ofString "/v1" ++ r.endpoint.path
  queryString := r.queryString
  client := r.client

/-! ## What the application accepts -/

/-- `MessagePriority.value`. -/
def MessagePriority.value : MessagePriority → Str
  | .normal => .ofString "normal"
  | .express => .ofString "express"

/-- The member with a value. -/
def MessagePriority.ofJson? : Json → Option MessagePriority
  | .str s =>
    if s = value .normal then some .normal
    else if s = value .express then some .express
    else none
  | _ => none

/-- What pydantic makes of a value, for the types of the fields. -/
structure FieldTypes where
  int : Json → Option ℤ
  recipient : Json → Option String
  body : Json → Option String
  uuid : Json → Option UUID
  int_int : ∀ {n m : ℤ}, int (.int n) = some m → m = n
  int_decimal : ∀ {k n : ℕ} {m : ℤ}, int (.str (Str.zeros k ++ Str.numeral n)) = some m → m = n

namespace FieldTypes

variable (types : FieldTypes)

/-- `MessageRequest`. -/
def messageRequest : Json → Option MessageRequest
  | .dict entries => do
    let userId ← types.int (← Json.get? (.ofString "user_id") entries)
    let recipient ← types.recipient (← Json.get? (.ofString "recipient") entries)
    let body ← types.body (← Json.get? (.ofString "body") entries)
    let priority ← MessagePriority.ofJson? (← Json.get? (.ofString "priority") entries)
    let idempotencyKey ← types.uuid (← Json.get? (.ofString "idempotency_key") entries)
    return { userId, recipient, body, priority, idempotencyKey }
  | _ => none

/-- `BatchMessageRequestItem`. -/
def batchMessageRequestItem : Json → Option BatchMessageRequestItem
  | .dict entries => do
    let recipient ← types.recipient (← Json.get? (.ofString "recipient") entries)
    let body ← types.body (← Json.get? (.ofString "body") entries)
    let priority ← MessagePriority.ofJson? (← Json.get? (.ofString "priority") entries)
    let idempotencyKey ← types.uuid (← Json.get? (.ofString "idempotency_key") entries)
    return { recipient, body, priority, idempotencyKey }
  | _ => none

/-- A list of `BatchMessageRequestItem`. -/
def batchMessages : Json → Option (List BatchMessageRequestItem)
  | .list items => items.mapM types.batchMessageRequestItem
  | _ => none

/-- `BatchMessageRequest`. -/
def batchMessageRequest (s : ApiSettings) : Json → Option BatchMessageRequest
  | .dict entries => do
    let userId ← types.int (← Json.get? (.ofString "user_id") entries)
    let messages ← types.batchMessages (← Json.get? (.ofString "messages") entries)
    if h : messages ≠ [] ∧ messages.length ≤ s.maxMessagesPerBatch then
      return { userId, messages, messages_ne := h.1 }
    else none
  | _ => none

/-- The application parses the bytes of the body. -/
def acceptMessage (s : ApiSettings) (body : Bytes) : Option MessageRequest :=
  match Json.loadsBytes s.nestingLimit body with
  | .ok json => types.messageRequest json
  | .error _ => none

/-- The same for a batch. -/
def acceptBatch (s : ApiSettings) (body : Bytes) : Option BatchMessageRequest :=
  match Json.loadsBytes s.nestingLimit body with
  | .ok json => types.batchMessageRequest s json
  | .error _ => none

end FieldTypes

/-- `QueryParams.get` : of the values of a name the last one, blank or not. -/
def queryParam (queryString : Bytes) (name : Str) : Option Str :=
  ((parseQsl true (decodeLatin1 queryString)).reverse.find? fun pair => pair.1 = name).map Prod.snd

/-- The user that a request without a body is for. -/
def Request.userId? (s : ApiSettings) (types : FieldTypes) (r : Request) : Option UserId :=
  match r.endpoint with
  | .sendMessage => none
  | .batchSendMessage => none
  | .userWrite userId action =>
    if action = .zero ∧ s.appDebug = false then none else types.int (.str userId.text)
  | _ => do types.int (.str (← queryParam r.queryString (.ofString "user_id")))

/-- Validators that take integers, small integral floats, and strings of ASCII digits. -/
def FieldTypes.sample : FieldTypes where
  int
    | .int n => some n
    | .float literal =>
      let digits := literal.takeWhile Str.isDigit
      if digits ≠ [] ∧ literal = digits ++ .ofString ".0" then some (Str.ofDigits digits) else none
    | .str s => if s ≠ [] ∧ s.all Str.isDigit then some (Str.ofDigits s) else none
    | _ => none
  recipient
    | .str s => some s.toString
    | _ => none
  body
    | .str s => some s.toString
    | _ => none
  uuid
    | .str s => some ((s.filterMap Str.hexDigit?).foldl (fun n digit => n * 16 + digit) 0)
    | _ => none
  int_int h := (Option.some.inj h).symm
  int_decimal {k n m} h := by
    simp only [Str.ofDigits_zeros_append] at h
    split_ifs at h
    exact (Option.some.inj h).symm

end Abrio
