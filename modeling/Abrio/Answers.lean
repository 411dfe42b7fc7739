import Abrio.Metrics
import Abrio.Replay

/-!
# Answers to submissions

What a client is told of a submission, and what is counted of it. A request passes the limiter,
which may answer it ; then FastAPI, which refuses a body that is not valid ; then its use case, and
an `AppError` of it becomes the answer. Each of them counts rejections of its own.

In every run the counters of an API process are what its clients were told (`answers_counted`),
except that bodies which are not valid are counted for the default prefix of the API alone, the
routes being compared with it, and an error of the database that is no violation is not counted.
-/

open Relational Runs Python

namespace Abrio

open Metrics MessageUseCase

/-! ## Answers -/

namespace AppError

/-- `status_code`. -/
def statusCode : AppError → ℕ
  | .userNotFound _ => 404
  | .messageNotFound _ => 404
  | .insufficientBalance _ _ => 402
  | _ => 400

/-- The code by which an error is known to clients. -/
def code : AppError → String
  | .userNotFound _ => "user_not_found"
  | .invalidAmountValue _ => "invalid_amount_value"
  | .messageNotFound _ => "message_not_found"
  | .idempotencyConflict => "idempotency_conflict"
  | .idempotencyDuplicate _ => "idempotency_duplicate"
  | .insufficientBalance _ _ => "insufficient_balance"

end AppError

/-- What a client is told of a submission, with the number of messages in it. -/
structure Response where
  submissionType : SubmissionType
  statusCode : ℕ
  code : Option String := none
  messages : ℕ := 0

/-- The response of a route, with `app_error_handler` for what it raises. -/
def Response.ofResult {α : Type} (t : SubmissionType) (count : α → ℕ) : Except Exn α → Response
  | .ok a => { submissionType := t, statusCode := 201, messages := count a }
  | .error (.app e) => { submissionType := t, statusCode := e.statusCode, code := some e.code }
  | .error _ => { submissionType := t, statusCode := 500 }

/-! ## The limiter -/

/-- `submission_type_for_scope`. -/
def submissionTypeForScope (s : ApiSettings) (scope : Scope) : Option SubmissionType :=
  if scope.method = .post ∧ relativeApiPath s scope = some (.ofString "/messages") then
    some .single
  else if scope.method = .post ∧
      relativeApiPath s scope = some (.ofString "/messages/batch") then
    some .batch
  else none

/-- What a rejection counts as, by the prefix of the rule that denied it. -/
def rateLimitRejectionReason : Option String → RejectionReason
  | none => .rateLimited
  | some deniedRuleName =>
    if "global:".toList.isPrefixOf deniedRuleName.toList then .globalRateLimited
    else if "system:".toList.isPrefixOf deniedRuleName.toList then .systemRateLimited
    else .rateLimited

/-- Only a submission that is turned away is counted. -/
def recordRateLimitRejection (s : ApiSettings) (scope : Scope) (reason : RejectionReason) :
    List (Increment Counter) :=
  match submissionTypeForScope s scope with
  | none => []
  | some submissionType => recordSubmissionRejected reason submissionType

namespace RateLimitMiddleware

variable (self : RateLimitMiddleware)

/-- What is recorded with `answer`. -/
def answerRecords (scope : Scope) (buckets : List ResolvedRateLimit) : List (Increment Counter) :=
  if buckets = [] then []
  else
    match self.check buckets with
    | none =>
      if self.rateLimitFailOpen then []
      else recordRateLimitRejection self.settings scope .systemRateLimited
    | some decision =>
      if decision.allowed = false then
        recordRateLimitRejection self.settings scope
          (rateLimitRejectionReason decision.deniedRuleName)
      else []

/-- What `call` records. -/
def callRecords (scope : Scope) (messages : List ReceiveMessage) : List (Increment Counter) :=
  if self.rateLimitEnabled = false then []
  else
    let body := if requestMayNeedBody self.settings scope then readBody [] messages else []
    match resolveRateLimits self.settings scope body with
    | .error _ => []
    | .ok buckets => self.answerRecords scope buckets

end RateLimitMiddleware

/-! ## A submission -/

/-- What FastAPI makes of the body of a submission, if it is valid, with the ids for its rows. -/
inductive Payload
  | single (payload : Option MessageRequest) (ids : Ids)
  | batch (payload : Option BatchMessageRequest) (ids : ℕ → Ids)

namespace Payload

/-- The label of the metrics. -/
def submissionType : Payload → SubmissionType
  | .single _ _ => .single
  | .batch _ _ => .batch

/-- Where the payload is posted. -/
def endpoint : Payload → Endpoint
  | .single _ _ => .sendMessage
  | .batch _ _ => .batchSendMessage

/-- The transaction of the route. -/
def txn? : Payload → Option ApiTxn
  | .single payload ids => payload.map (.createMessage · ids)
  | .batch payload ids => payload.map (.batchCreateMessage · ids)

/-- `send_message` and `batch_send_message`. -/
def answer (s : Settings) (now : Time) (db : Db) : Payload → Response
  | .single (some payload) ids =>
    .ofResult .single (fun _ => 1) (createMessage s payload ids now db).2
  | .batch (some payload) ids =>
    .ofResult .batch List.length (batchCreateMessage s payload ids now db).2
  | p => { submissionType := p.submissionType, statusCode := 422 }

/-- What the use case records. -/
def records (s : Settings) (now : Time) (db : Db) (p : Payload) : List (Increment Counter) :=
  match p.txn? with
  | none => []
  | some t => t.records s now db

end Payload

/-- The path of a route without parameters. -/
def Endpoint.route (s : ApiSettings) (e : Endpoint) : Str :=
  s.apiPrefix ++ .ofString "/v1" ++ e.path

/-- `_submission_type_for_scope`, of a `POST`. -/
def submissionTypeForRoute (route : Str) : Option SubmissionType :=
  if route = .ofString "/api/v1/messages/" then some .single
  else if route = .ofString "/api/v1/messages/batch" then some .batch
  else none

/-- `_record_validation_rejection`. -/
def recordValidationRejection (route : Str) (statusCode : ℕ) : List (Increment Counter) :=
  if statusCode = 422 then
    match submissionTypeForRoute route with
    | none => []
    | some submissionType => recordSubmissionRejected .invalidRequest submissionType
  else []

/-- A submission as a client sends it : the payload, and the messages its body comes in. -/
structure SubmissionRequest where
  payload : Payload
  queryString : Bytes
  client : Option String
  received : List ReceiveMessage

namespace SubmissionRequest

/-- What the server makes of the request. -/
def scope (r : SubmissionRequest) (s : ApiSettings) : Scope :=
  (⟨r.payload.endpoint, r.queryString, r.client⟩ : Request).scope s

/-- The application with both middlewares : the next state, the answer, and what is recorded. An
answer of the limiter comes before the request has a route. -/
def handle (s : Settings) (limiter : RateLimitMiddleware) (now : Time) (sys : System)
    (r : SubmissionRequest) : System × Response × List (Increment Counter) :=
  let scope := r.scope limiter.settings
  match limiter.call scope r.received with
  | .error _ => (sys, { submissionType := r.payload.submissionType, statusCode := 500 }, [])
  | .ok (.response response :: _) =>
    (sys, { submissionType := r.payload.submissionType, statusCode := response.statusCode,
            code := some response.code }, limiter.callRecords scope r.received)
  | .ok _ =>
    let answer := r.payload.answer s now sys.db
    let sys' := match r.payload.txn? with
      | none => sys
      | some t => sys.step s (now, .api t)
    (sys', answer, limiter.callRecords scope r.received ++ r.payload.records s now sys.db ++
      recordValidationRejection (r.payload.endpoint.route limiter.settings) answer.statusCode)

end SubmissionRequest

/-! ## An API process -/

/-- The system with an API process : what it has answered, and what it has recorded. -/
structure FrontEnd where
  sys : System := {}
  answers : List Response := []
  records : List (Increment Counter) := []

/-- A submission, with what Redis says to it, or a step of the rest of the system. -/
inductive FrontAct
  | act (a : Time × Act)
  | submit (now : Time) (check : List ResolvedRateLimit → Option RateLimitDecision)
      (r : SubmissionRequest)

namespace FrontEnd

/-- An act of the rest of the system, or a request that is handled. -/
def step (s : Settings) (limiter : RateLimitMiddleware) (f : FrontEnd) : FrontAct → FrontEnd
  | .act a => { f with sys := f.sys.step s a }
  | .submit now check r =>
    let (sys, answer, records) := r.handle s { limiter with check } now f.sys
    { sys, answers := f.answers ++ [answer], records := f.records ++ records }

/-- A run of the process from an empty system. -/
def after (s : Settings) (limiter : RateLimitMiddleware) (acts : List FrontAct) : FrontEnd :=
  run (step s limiter) {} acts

end FrontEnd

/-- How many answers to submissions of the type `p` holds of. -/
def countOf (t : SubmissionType) (p : Response → Bool) (answers : List Response) : ℕ :=
  answers.countP fun a => a.submissionType = t && p a

/-- What the counters of a type of submission are, by the answers. -/
structure Counted (s : ApiSettings) (answers : List Response) (c : Counter → ℕ)
    (t : SubmissionType) : Prop where
  accepted : c (.idempotentReplays t) + (c (.messagesSubmitted .normal t) +
    c (.messagesSubmitted .express t)) =
      (answers.map fun a => if a.submissionType = t then a.messages else 0).sum
  insufficientBalance : c (.messageSubmissionRejected .insufficientBalance t) =
    countOf t (fun a => a.code = some "insufficient_balance") answers
  idempotencyConflict : c (.messageSubmissionRejected .idempotencyConflict t) =
    countOf t (fun a => a.code = some "idempotency_conflict" ||
      a.code = some "idempotency_duplicate") answers
  invalidRequest : c (.messageSubmissionRejected .invalidRequest t) =
    countOf t (fun a => a.code = some "user_not_found") answers +
      if s.apiPrefix = .ofString "/api" then countOf t (fun a => a.statusCode = 422) answers else 0
  rateLimited : c (.messageSubmissionRejected .rateLimited t) +
    c (.messageSubmissionRejected .globalRateLimited t) +
      c (.messageSubmissionRejected .systemRateLimited t) =
        countOf t (fun a => a.statusCode = 429 || a.statusCode = 503) answers
  databaseError : c (.messageSubmissionRejected .databaseError t) ≤
    countOf t (fun a => a.statusCode = 500) answers

namespace Counted

variable {s : ApiSettings} {as as' : List Response} {c c' : Counter → ℕ} {t : SubmissionType}

theorem nil (s : ApiSettings) (t : SubmissionType) : Counted s [] 0 t := by
  constructor <;> simp [countOf]

theorem append (h : Counted s as c t) (h' : Counted s as' c' t) :
    Counted s (as ++ as') (c + c') t := by
  have hcount (p : Response → Bool) : countOf t p (as ++ as') = countOf t p as + countOf t p as' :=
    List.countP_append
  constructor
  · have := h.accepted
    have := h'.accepted
    simp only [Pi.add_apply, List.map_append, List.sum_append]
    omega
  · simp only [Pi.add_apply, hcount, h.insufficientBalance, h'.insufficientBalance]
  · simp only [Pi.add_apply, hcount, h.idempotencyConflict, h'.idempotencyConflict]
  · simp only [Pi.add_apply, hcount, h.invalidRequest, h'.invalidRequest]
    split_ifs <;> omega
  · have := h.rateLimited
    have := h'.rateLimited
    simp only [Pi.add_apply, hcount]
    omega
  · have := h.databaseError
    have := h'.databaseError
    simp only [Pi.add_apply, hcount]
    omega

end Counted

/-! ## What the limiter turns away -/

/-- How the limiter answers a submission itself, and why. -/
inductive Turns : ErrorResponse → RejectionReason → Prop
  | denied (decision : RateLimitDecision) :
    Turns (rateLimitedResponse decision) (rateLimitRejectionReason decision.deniedRuleName)
  | unavailable : Turns rateLimitUnavailableResponse .systemRateLimited

theorem rateLimitRejectionReason_cases (name : Option String) :
    rateLimitRejectionReason name = .rateLimited ∨
      rateLimitRejectionReason name = .globalRateLimited ∨
        rateLimitRejectionReason name = .systemRateLimited := by
  unfold rateLimitRejectionReason
  split
  · exact .inl rfl
  · split_ifs <;> simp

theorem Turns.counted (s : ApiSettings) {response : ErrorResponse} {reason : RejectionReason}
    (h : Turns response reason) (t₀ t : SubmissionType) :
    Counted s [{ submissionType := t₀, statusCode := response.statusCode,
                 code := some response.code }] (tally (recordSubmissionRejected reason t₀)) t := by
  cases h with
  | denied decision =>
    rcases rateLimitRejectionReason_cases decision.deniedRuleName with h | h | h <;> rw [h] <;>
      constructor <;> simp [countOf, recordSubmissionRejected, tally_singleton, rateLimitedResponse,
        List.countP_singleton]
  | unavailable =>
    constructor <;> simp [countOf, recordSubmissionRejected, tally_singleton,
      rateLimitUnavailableResponse, List.countP_singleton]

namespace RateLimitMiddleware

variable {self : RateLimitMiddleware} {scope : Scope} {t : SubmissionType}

theorem answer_turns (ht : submissionTypeForScope self.settings scope = some t) (receive : Receive)
    (buckets : List ResolvedRateLimit) :
    (self.answer receive buckets = .app receive ∧ self.answerRecords scope buckets = []) ∨
      ∃ response reason, Turns response reason ∧
        self.answer receive buckets = .response response ∧
          self.answerRecords scope buckets = recordSubmissionRejected reason t := by
  have hrecord (reason : RejectionReason) :
      recordRateLimitRejection self.settings scope reason = recordSubmissionRejected reason t := by
    rw [recordRateLimitRejection, ht]
  unfold answer answerRecords
  simp only [hrecord]
  by_cases hb : buckets = []
  · exact .inl ⟨if_pos hb, if_pos hb⟩
  rw [if_neg hb, if_neg hb]
  cases self.check buckets with
  | none =>
    by_cases ho : self.rateLimitFailOpen = true
    · exact .inl ⟨if_pos ho, if_pos ho⟩
    · exact .inr ⟨_, _, .unavailable, if_neg ho, if_neg ho⟩
  | some decision =>
    by_cases ha : decision.allowed = false
    · exact .inr ⟨_, _, .denied decision, if_pos ha, if_pos ha⟩
    · exact .inl ⟨if_neg ha, if_neg ha⟩

/-- A call of the middleware raises, hands the request on, or turns it away. -/
theorem call_turns (ht : submissionTypeForScope self.settings scope = some t)
    (messages : List ReceiveMessage) :
    (∃ e, self.call scope messages = .error e) ∨
      (∃ receive, self.call scope messages = .ok [.app receive] ∧
        self.callRecords scope messages = []) ∨
      ∃ response reason, Turns response reason ∧
        self.call scope messages = .ok [.response response] ∧
          self.callRecords scope messages = recordSubmissionRejected reason t := by
  cases he : self.rateLimitEnabled with
  | false => exact .inr (.inl ⟨.server messages, by simp [call, he], by simp [callRecords, he]⟩)
  | true =>
    obtain ⟨receive, body, hcall, hrecords⟩ : ∃ receive body,
        self.call scope messages = (resolveRateLimits self.settings scope body).map
          (fun buckets => [self.answer receive buckets]) ∧
        self.callRecords scope messages = match resolveRateLimits self.settings scope body with
          | .error _ => []
          | .ok buckets => self.answerRecords scope buckets := by
      cases hn : requestMayNeedBody self.settings scope with
      | false =>
        refine ⟨.server messages, [], ?_, by simp [callRecords, he, hn]⟩
        simp only [call, he, hn, Bool.true_eq_false, if_false, Bool.false_eq_true]
        cases resolveRateLimits self.settings scope [] <;> rfl
      | true =>
        refine ⟨replayBody (readBody [] messages), readBody [] messages, ?_,
          by simp [callRecords, he, hn]⟩
        simp only [call, he, hn, Bool.true_eq_false, if_false, if_true]
        cases resolveRateLimits self.settings scope (readBody [] messages) <;> rfl
    rw [hcall, hrecords]
    cases resolveRateLimits self.settings scope body with
    | error e => exact .inl ⟨e, rfl⟩
    | ok buckets =>
      rcases answer_turns ht receive buckets with ⟨ha, hr⟩ | ⟨response, reason, hturns, ha, hr⟩
      · exact .inr (.inl ⟨receive, congrArg (fun a => Except.ok [a]) ha, hr⟩)
      · exact .inr (.inr ⟨response, reason, hturns, congrArg (fun a => Except.ok [a]) ha, hr⟩)

end RateLimitMiddleware

theorem submissionTypeForScope_scope (s : ApiSettings) (r : SubmissionRequest) :
    submissionTypeForScope s (r.scope s) = some r.payload.submissionType := by
  obtain ⟨payload, queryString, client, received⟩ := r
  cases payload with
  | single payload ids => exact if_pos ⟨rfl, relativeApiPath_sendMessage s queryString client⟩
  | batch payload ids =>
    have hpath := relativeApiPath_batchSendMessage s queryString client
    have hne : ¬((SubmissionRequest.scope ⟨.batch payload ids, queryString, client, received⟩
        s).method = .post ∧ relativeApiPath s (SubmissionRequest.scope
          ⟨.batch payload ids, queryString, client, received⟩ s) = some (.ofString "/messages")) :=
      fun h => absurd (hpath.symm.trans h.2) (by decide)
    exact (if_neg hne).trans (if_pos ⟨rfl, hpath⟩)

/-- The routes of the submissions are known by the default prefix. -/
theorem submissionTypeForRoute_route (s : ApiSettings) (p : Payload) :
    submissionTypeForRoute (p.endpoint.route s) =
      if s.apiPrefix = .ofString "/api" then some p.submissionType else none := by
  have hsingle : Str.ofString "/api/v1/messages/" =
      .ofString "/api" ++ .ofString "/v1" ++ Endpoint.sendMessage.path := by decide
  have hbatch : Str.ofString "/api/v1/messages/batch" =
      .ofString "/api" ++ .ofString "/v1" ++ Endpoint.batchSendMessage.path := by decide
  have hlast (l : Str) : (l ++ Endpoint.sendMessage.path).getLast? = some 0x2F :=
    List.getLast?_append.trans rfl
  have hlast' (l : Str) : (l ++ Endpoint.batchSendMessage.path).getLast? = some 0x68 :=
    List.getLast?_append.trans rfl
  have hne (l l' : Str) :
      l ++ Endpoint.sendMessage.path ≠ l' ++ Endpoint.batchSendMessage.path := by
    intro h
    have hlasts := congrArg List.getLast? h
    rw [hlast, hlast'] at hlasts
    exact absurd hlasts (by decide)
  rw [submissionTypeForRoute, hsingle, hbatch]
  cases p with
  | single payload ids =>
    simp only [Payload.endpoint, Payload.submissionType, Endpoint.route, List.append_left_inj,
      hne, if_false]
  | batch payload ids =>
    simp only [Payload.endpoint, Payload.submissionType, Endpoint.route, List.append_left_inj,
      if_neg (hne _ _).symm]

/-! ## The use cases -/

/-- An answer to a submission that is refused, with what is recorded of it. -/
inductive Refused (t : SubmissionType) : Response → List (Increment Counter) → Prop
  | user : Refused t ⟨t, 404, some "user_not_found", 0⟩ (recordSubmissionRejected .invalidRequest t)
  | balance :
    Refused t ⟨t, 402, some "insufficient_balance", 0⟩
      (recordSubmissionRejected .insufficientBalance t)
  | conflict :
    Refused t ⟨t, 400, some "idempotency_conflict", 0⟩
      (recordSubmissionRejected .idempotencyConflict t)
  | duplicate :
    Refused t ⟨t, 400, some "idempotency_duplicate", 0⟩
      (recordSubmissionRejected .idempotencyConflict t)
  | violation : Refused t ⟨t, 500, none, 0⟩ (recordSubmissionRejected .databaseError t)
  | failure : Refused t ⟨t, 500, none, 0⟩ []
  | message : Refused t ⟨t, 404, some "message_not_found", 0⟩ []
  | amount : Refused t ⟨t, 400, some "invalid_amount_value", 0⟩ []

theorem Refused.counted (api : ApiSettings) {t₀ : SubmissionType} {a : Response}
    {records : List (Increment Counter)} (h : Refused t₀ a records) (t : SubmissionType) :
    Counted api [a] (tally records) t := by
  cases h <;> constructor <;>
    simp [countOf, recordSubmissionRejected, tally_singleton, List.countP_singleton]

namespace MessageUseCase

variable {s : Settings} {db db' : Db} {now : Time}

theorem insertMessages_not_app {ms : List Message} {a : AppError}
    (he : db.insertMessages ms = .error (.app a)) : False := by
  rcases Db.insertMessages_error he with h | ⟨h, -⟩ | ⟨c, h⟩ | h <;> cases h

theorem insertJobs_not_app {js : List DispatchJob} {a : AppError}
    (he : db.insertJobs js = .error (.app a)) : False := by
  rcases Db.insertJobs_error he with ⟨⟨⟩, -⟩ | ⟨c, ⟨⟩⟩ | ⟨⟨⟩, -⟩ | ⟨⟨⟩, -⟩

theorem writeBalance_not_app {b : Balance} {a : AppError}
    (he : db.writeBalance b = .error (.app a)) : False := by
  unfold Db.writeBalance at he
  split_ifs at he <;> cases he

/-- A user with a balance is found, so a reservation raises for its amount alone. -/
theorem reserveCredits_app (hdb : db.Accounted) {u : UserId} (hu : db.hasUser u)
    (hb : db'.balances = db.balances) {amount : Cents} {a : AppError}
    (he : BalanceRepository.reserveCredits db' u amount = .error (.app a)) :
    ∃ v, a = .invalidAmountValue v := by
  obtain ⟨x, hx, rfl⟩ := hu
  obtain ⟨b, hmem, hi⟩ := hdb.user_balance x hx
  have hfind : db'.balances.find? x.id = some b := by
    rw [hb, ← hi]
    exact Table.find?_key hmem
  by_cases hpos : 0 < amount
  · rw [BalanceRepository.reserveCredits_ok.2 ⟨hpos, b, hfind, rfl⟩] at he
    cases he
  · have hinvalid : BalanceRepository.validateAmount amount.toDecimal =
        .error (.app (.invalidAmountValue amount.toDecimal)) :=
      if_pos (Cents.toDecimal_nonpos.2 (not_lt.1 hpos))
    rcases bind_eq_error.1 he with he | ⟨_, hok, -⟩
    · cases hinvalid.symm.trans he
      exact ⟨_, rfl⟩
    · cases hinvalid.symm.trans hok

/-- What the transaction of a submission raises of the domain : an amount, which is answered for
without being counted. -/
theorem createMessageTx_app (hdb : db.Accounted) {payload : MessageRequest} {ids : Ids}
    {a : AppError} (he : createMessageTx s payload ids now db = .error (.app a)) :
    ∃ v, a = .invalidAmountValue v := by
  rw [createMessageTx_eq] at he
  rcases bind_eq_error.1 he with he | ⟨db₁, h₁, he⟩
  · cases insertMessages_not_app he
  obtain ⟨hnew, t, -, rfl⟩ := Db.insertMessages_ok.1 h₁
  rcases bind_eq_error.1 he with he | ⟨b, -, he⟩
  · exact reserveCredits_app hdb (hnew.user _ (List.mem_singleton.2 rfl)) rfl he
  rcases bind_eq_error.1 he with he | ⟨db₂, -, he⟩
  · cases insertJobs_not_app he
  rcases bind_eq_error.1 he with he | ⟨db₃, -, ⟨⟩⟩
  cases writeBalance_not_app he

theorem batchCreateMessageTx_app (hdb : db.Accounted) {payload : BatchMessageRequest}
    {ids : ℕ → Ids} {a : AppError}
    (he : batchCreateMessageTx s payload ids now db = .error (.app a)) :
    ∃ v, a = .invalidAmountValue v := by
  rw [batchCreateMessageTx_eq] at he
  rcases bind_eq_error.1 he with he | ⟨db₁, h₁, he⟩
  · cases insertMessages_not_app he
  obtain ⟨hnew, t, -, rfl⟩ := Db.insertMessages_ok.1 h₁
  rcases bind_eq_error.1 he with he | ⟨db₂, h₂, he⟩
  · cases insertJobs_not_app he
  obtain ⟨-, t', -, rfl⟩ := Db.insertJobs_ok.1 h₂
  rcases bind_eq_error.1 he with he | ⟨b, -, he⟩
  · obtain ⟨sub, hsub⟩ := List.exists_mem_of_ne_nil _ (batchSubmissions_ne payload ids now)
    obtain ⟨x, hx, hi⟩ := hnew.user _ (List.mem_map_of_mem hsub)
    exact reserveCredits_app hdb ⟨x, hx, hi.trans (user_of_mem_batchSubmissions hsub)⟩ rfl he
  rcases bind_eq_error.1 he with he | ⟨db₃, -, ⟨⟩⟩
  cases writeBalance_not_app he

theorem counted_createMessage (hdb : db.Accounted) (api : ApiSettings) (payload : MessageRequest)
    (ids : Ids) (t : SubmissionType) :
    Counted api [.ofResult .single (fun _ => 1) (createMessage s payload ids now db).2]
      (tally ((ApiTxn.createMessage payload ids).records s now db)) t := by
  simp only [ApiTxn.records, createMessage]
  cases htx : createMessageTx s payload ids now db with
  | ok result =>
    constructor <;> cases hp : payload.priority <;> cases t <;>
      simp [hp, Response.ofResult, createMessageRecords, recordMessagesSubmitted, tally_inc,
        countOf]
  | error e =>
    rcases e with (c | c | c | _ | _) | a | f
    · simp only [createMessageHandler, createMessageRecords,
        MessageRepository.getUserMessageByIdempotencyKey]
      cases db.messageWithKey payload.userId payload.idempotencyKey with
      | none => exact Refused.message.counted api t
      | some m =>
        constructor <;> cases t <;> simp [Response.ofResult, recordIdempotentReplay,
          tally_singleton, countOf, bind, Except.bind, pure, Except.pure]
    · exact Refused.user.counted api t
    · cases c
      case checkCreditsGeReservedCredits => exact Refused.balance.counted api t
      all_goals exact Refused.violation.counted api t
    · exact Refused.failure.counted api t
    · exact Refused.failure.counted api t
    · obtain ⟨v, rfl⟩ := createMessageTx_app hdb htx
      exact Refused.amount.counted api t
    · exact Refused.failure.counted api t

theorem count_normal_add_express (l : List MessagePriority) :
    l.count .normal + l.count .express = l.length := by
  induction l with
  | nil => rfl
  | cons p l ih =>
    cases p <;> simp <;> omega

theorem counted_batchCreateMessage (hdb : db.Accounted) (api : ApiSettings)
    (payload : BatchMessageRequest) (ids : ℕ → Ids) (t : SubmissionType) :
    Counted api [.ofResult .batch List.length (batchCreateMessage s payload ids now db).2]
      (tally ((ApiTxn.batchCreateMessage payload ids).records s now db)) t := by
  simp only [ApiTxn.records, batchCreateMessage, batchCreateMessageRecords]
  cases checkDuplicateIdempotencyKeys [] payload.messages with
  | some key => exact Refused.duplicate.counted api t
  | none =>
    cases htx : batchCreateMessageTx s payload ids now db with
    | ok result =>
      have hlength : result.2.length = (payload.messages.map (·.priority)).length := by
        rw [(batchCreateMessageTx_ok.1 htx).1, List.length_map, List.length_map,
          ← List.length_map Submission.request, map_request_batchSubmissions, List.length_map]
      have hrecords (c : Counter) (hc : ∀ p t, c ≠ .messagesSubmitted p t) :
          tally (batchCreateMessageTxRecords payload (.ok result)) c = 0 :=
        tally_batchSubmitted_of_ne _ hc
      refine ⟨?_, ?_, ?_, ?_, ?_, ?_⟩
      · rw [hrecords _ (by simp)]
        simp only [batchCreateMessageTxRecords, tally_batchSubmitted, tally_counts]
        have hsum := count_normal_add_express (payload.messages.map (·.priority))
        cases t <;> simp [Response.ofResult, hlength, hsum]
      all_goals simp [hrecords, Response.ofResult, countOf]
    | error e =>
      rcases e with (c | c | c | _ | _) | a | f
      · exact Refused.conflict.counted api t
      · exact Refused.user.counted api t
      · cases c
        case checkCreditsGeReservedCredits => exact Refused.balance.counted api t
        all_goals exact Refused.violation.counted api t
      · exact Refused.failure.counted api t
      · exact Refused.failure.counted api t
      · obtain ⟨v, rfl⟩ := batchCreateMessageTx_app hdb htx
        exact Refused.amount.counted api t
      · exact Refused.failure.counted api t

end MessageUseCase

/-! ## Steps and runs -/

/-- No use case answers like FastAPI does for a body that is not valid. -/
theorem Response.statusCode_ofResult_ne {α : Type} (t : SubmissionType) (count : α → ℕ)
    (r : Except Exn α) : (Response.ofResult t count r).statusCode ≠ 422 := by
  rcases r with (_ | a | _) | _
  · simp [ofResult]
  · cases a <;> simp [ofResult, AppError.statusCode]
  · simp [ofResult]
  · simp [ofResult]

/-- What FastAPI refuses is counted by its route. -/
theorem counted_invalid (api : ApiSettings) (p : Payload) (t : SubmissionType) :
    Counted api [{ submissionType := p.submissionType, statusCode := 422 }]
      (tally (recordValidationRejection (p.endpoint.route api) 422)) t := by
  rw [recordValidationRejection, if_pos rfl, submissionTypeForRoute_route]
  by_cases h : api.apiPrefix = .ofString "/api"
  · rw [if_pos h]
    constructor <;> simp [h, countOf, recordSubmissionRejected, tally_singleton,
      List.countP_singleton]
  · rw [if_neg h]
    constructor <;> simp [h, countOf]

theorem Payload.counted {s : Settings} {now : Time} {db : Db} (hdb : db.Accounted)
    (api : ApiSettings) (p : Payload) (t : SubmissionType) :
    let answer := p.answer s now db
    Counted api [answer] (tally (p.records s now db ++
      recordValidationRejection (p.endpoint.route api) answer.statusCode)) t := by
  intro answer
  have hroute (h : answer.statusCode ≠ 422) :
      recordValidationRejection (p.endpoint.route api) answer.statusCode = [] := if_neg h
  cases p with
  | single payload ids =>
    cases payload with
    | none => exact counted_invalid api (.single none ids) t
    | some payload =>
      rw [hroute (Response.statusCode_ofResult_ne _ _ _), List.append_nil]
      exact counted_createMessage hdb api payload ids t
  | batch payload ids =>
    cases payload with
    | none => exact counted_invalid api (.batch none ids) t
    | some payload =>
      rw [hroute (Response.statusCode_ofResult_ne _ _ _), List.append_nil]
      exact counted_batchCreateMessage hdb api payload ids t

theorem SubmissionRequest.handle_counted {s : Settings} (limiter : RateLimitMiddleware) {now : Time}
    {sys : System} (hsys : sys.db.Consistent) (r : SubmissionRequest) (t : SubmissionType) :
    let result := r.handle s limiter now sys
    result.1.db.Consistent ∧ Counted limiter.settings [result.2.1] (tally result.2.2) t := by
  rcases RateLimitMiddleware.call_turns (submissionTypeForScope_scope limiter.settings r)
    r.received with ⟨e, hcall⟩ | ⟨receive, hcall, hrecords⟩ | ⟨response, reason, hturns, hcall,
      hrecords⟩
  · simp only [handle, hcall]
    exact ⟨hsys, Refused.failure.counted _ t⟩
  · simp only [handle, hcall, hrecords, List.nil_append]
    refine ⟨?_, r.payload.counted hsys.toAccounted limiter.settings t⟩
    cases r.payload.txn? with
    | none => exact hsys
    | some txn => exact System.step_consistent _ hsys
  · simp only [handle, hcall, hrecords]
    exact ⟨hsys, hturns.counted _ _ t⟩

/-- What the clients of an API process were told and what the process counted, in every run with
any other steps of the system between. -/
theorem answers_counted (s : Settings) (limiter : RateLimitMiddleware) (acts : List FrontAct)
    (t : SubmissionType) :
    let f := FrontEnd.after s limiter acts
    Counted limiter.settings f.answers (tally f.records) t := by
  intro f
  have h : f.sys.db.Consistent ∧ Counted limiter.settings f.answers (tally f.records) t := by
    refine run_induction (P := fun f : FrontEnd => f.sys.db.Consistent ∧
      Counted limiter.settings f.answers (tally f.records) t) (fun f a h => ?_) acts
        ⟨Db.consistent_empty, .nil _ t⟩
    cases a with
    | act a => exact ⟨System.step_consistent a h.1, h.2⟩
    | submit now check r =>
      obtain ⟨hdb, hcounted⟩ := r.handle_counted { limiter with check } h.1 t
      refine ⟨hdb, ?_⟩
      have happend := h.2.append hcounted
      rw [← tally_append] at happend
      exact happend
  exact h.2

end Abrio
