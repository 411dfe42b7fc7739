import Abrio.BucketLists

/-!
# The request that is handed on

The middleware reads the body of a submission to find its user, and hands the application a
`receive` of its own that gives the body back. The loop that reads ends at the last part of the
body and at a disconnect alike, so what comes before a disconnect is handed on as a complete
body. The request is handed on as it was sent exactly when the body is complete, or the limiter
rejects what there is of it (`hands_on_iff`).
-/

open Python Runs

namespace Abrio

/-! ## Messages -/

/-- A message of `receive`, with the keys that may be missing. -/
inductive ReceiveMessage
  | request (body : Option Bytes := none) (moreBody : Option Bool := none)
  | disconnect

/-- An ASGI `receive` : the server's, with the messages that it still has to return, or the one of
`replay_body`, with its `body_sent`. -/
inductive Receive
  | server (messages : List ReceiveMessage)
  | replay (body : Bytes) (bodySent : Bool)

/-- What a call returns and leaves. After the last message the client has gone. -/
def Receive.call : Receive → ReceiveMessage × Receive
  | .server [] => (.disconnect, .server [])
  | .server (message :: rest) => (message, .server rest)
  | .replay body bodySent =>
    if bodySent then (.request (some []) (some false), .replay body true)
    else (.request (some body) (some false), .replay body true)

/-- The bytes that a client sends, and whether they are all of a body : the last part of it has no
more to come, and a disconnect cuts it short. -/
inductive Sends : List ReceiveMessage → Bytes → Bool → Prop
  | gone : Sends [] [] false
  | disconnect {rest} : Sends (.disconnect :: rest) [] false
  | last {chunk moreBody rest} (h : moreBody.getD false = false) :
    Sends (.request chunk moreBody :: rest) (chunk.getD []) true
  | more {chunk moreBody rest body complete} (h : moreBody.getD false = true)
    (hrest : Sends rest body complete) :
    Sends (.request chunk moreBody :: rest) (chunk.getD [] ++ body) complete

/-- Whoever calls `receive` until there is no more body gets this body. -/
inductive Receive.Reads : Receive → Bytes → Prop
  | last {receive chunk moreBody} (hcall : receive.call.1 = .request chunk moreBody)
    (h : moreBody.getD false = false) : Reads receive (chunk.getD [])
  | more {receive chunk moreBody body} (hcall : receive.call.1 = .request chunk moreBody)
    (h : moreBody.getD false = true) (hrest : Reads receive.call.2 body) :
    Reads receive (chunk.getD [] ++ body)

/-! ## The middleware -/

/-- `read_body`, from what has been read of the messages. -/
def readBody (body : Bytes) : List ReceiveMessage → Bytes
  | [] => body
  | .disconnect :: _ => body
  | .request chunk moreBody :: rest =>
    let body := body ++ chunk.getD []
    if moreBody.getD false then readBody body rest else body

/-- `replay_body` : what was read is presented as all of the body. -/
def replayBody (body : Bytes) : Receive :=
  .replay body false

/-- A `JSONResponse` with an error for its content. -/
structure ErrorResponse where
  statusCode : ℕ
  code : String
  message : String
  headers : List (String × String) := []
  deriving DecidableEq

/-- The response to a denied request. -/
def rateLimitedResponse (decision : RateLimitDecision) : ErrorResponse :=
  let retryAfter := max 1 decision.retryAfterSeconds
  { statusCode := 429
    code := "rate_limited"
    message := "Too many requests. Retry after " ++ toString retryAfter ++ " seconds."
    headers := [("Retry-After", toString retryAfter),
      ("X-RateLimit-Limit", toString decision.limit),
      ("X-RateLimit-Remaining", toString (max 0 decision.remaining)),
      ("X-RateLimit-Reset", toString retryAfter)] }

/-- The response where the limiter fails and is closed. -/
def rateLimitUnavailableResponse : ErrorResponse where
  statusCode := 503
  code := "rate_limit_unavailable"
  message := "Rate limiting is temporarily unavailable."

/-- What the middleware does with a request : it calls the application or responds itself. -/
inductive MiddlewareAction
  | app (receive : Receive)
  | response (response : ErrorResponse)

/-- The settings and the limiter, which has no decision where Redis fails. -/
structure RateLimitMiddleware where
  settings : ApiSettings
  rateLimitEnabled : Bool := false
  rateLimitFailOpen : Bool := true
  check : List ResolvedRateLimit → Option RateLimitDecision

namespace RateLimitMiddleware

variable (self : RateLimitMiddleware)

/-- What becomes of a request with these buckets. -/
def answer (requestReceive : Receive) (buckets : List ResolvedRateLimit) : MiddlewareAction :=
  if buckets = [] then .app requestReceive
  else
    match self.check buckets with
    | none =>
      if self.rateLimitFailOpen then .app requestReceive
      else .response rateLimitUnavailableResponse
    | some decision =>
      if decision.allowed = false then .response (rateLimitedResponse decision)
      else .app requestReceive

/-- `RateLimitMiddleware.__call__`, of an HTTP request. -/
def call (scope : Scope) (messages : List ReceiveMessage) :
    Except Json.LoadsError (List MiddlewareAction) :=
  if self.rateLimitEnabled = false then .ok [.app (.server messages)]
  else do
    let (requestReceive, body) :=
      if requestMayNeedBody self.settings scope then
        let body := readBody [] messages
        (replayBody body, body)
      else (.server messages, [])
    let buckets ← resolveRateLimits self.settings scope body
    return [self.answer requestReceive buckets]

/-- The middleware responds once, or it calls the application once, which reads a body exactly
when the client sends all of it. -/
def HandsOn (scope : Scope) (messages : List ReceiveMessage) : Prop :=
  (∃ response, self.call scope messages = .ok [.response response]) ∨
    ∃ receive, self.call scope messages = .ok [.app receive] ∧
      ∀ body, receive.Reads body ↔ Sends messages body true

/-- The limiter denies the buckets, or fails closed. -/
def rejects (buckets : List ResolvedRateLimit) : Bool :=
  match self.check buckets with
  | none => !self.rateLimitFailOpen
  | some decision => !decision.allowed

end RateLimitMiddleware

/-! ## Bodies -/

section Bodies

variable {messages messages' : List ReceiveMessage} {body body' : Bytes} {complete complete' : Bool}

theorem exists_sends : ∀ messages, ∃ body complete, Sends messages body complete
  | [] => ⟨_, _, .gone⟩
  | .disconnect :: _ => ⟨_, _, .disconnect⟩
  | .request chunk moreBody :: rest => by
    obtain ⟨body, complete, hrest⟩ := exists_sends rest
    by_cases h : moreBody.getD false = true
    · exact ⟨_, _, .more h hrest⟩
    · exact ⟨_, _, .last (Bool.not_eq_true _ ▸ h)⟩

/-- The middleware reads what is sent, however it ends. -/
theorem readBody_of_sends (h : Sends messages body complete) (read : Bytes) :
    readBody read messages = read ++ body := by
  induction h generalizing read with
  | gone => exact (List.append_nil read).symm
  | disconnect => exact (List.append_nil read).symm
  | last h => rw [readBody, h, if_neg Bool.false_ne_true]
  | more h _ ih => rw [readBody, if_pos h, ih, List.append_assoc]

theorem sends_unique (h : Sends messages body complete) (h' : Sends messages body' complete') :
    body = body' ∧ complete = complete' := by
  induction h generalizing body' complete' with
  | gone => cases h'; exact ⟨rfl, rfl⟩
  | disconnect => cases h'; exact ⟨rfl, rfl⟩
  | last h =>
    cases h' with
    | last h' => exact ⟨rfl, rfl⟩
    | more h' _ => simp [h] at h'
  | more h _ ih =>
    cases h' with
    | last h' => simp [h] at h'
    | more _ hrest' =>
      obtain ⟨rfl, rfl⟩ := ih hrest'
      exact ⟨rfl, rfl⟩

/-- From the server's `receive` a body is read exactly when the client sends all of it. -/
theorem server_reads_iff :
    (Receive.server messages).Reads body ↔ Sends messages body true := by
  refine ⟨?_, ?_⟩
  · intro h
    generalize hr : Receive.server messages = receive at h
    induction h generalizing messages with
    | last hcall h =>
      subst hr
      cases messages with
      | nil => cases hcall
      | cons message rest =>
        obtain rfl : message = _ := hcall
        exact .last h
    | more hcall h _ ih =>
      subst hr
      cases messages with
      | nil => cases hcall
      | cons message rest =>
        obtain rfl : message = _ := hcall
        exact .more h (ih rfl)
  · intro h
    generalize hc : true = complete at h
    induction h with
    | gone => cases hc
    | disconnect => cases hc
    | last h => exact .last rfl h
    | more h _ ih => exact .more rfl h (ih hc)

/-- From the other one it is the body that the middleware has read. -/
theorem replay_reads_iff : (replayBody body).Reads body' ↔ body' = body := by
  refine ⟨?_, ?_⟩
  · intro h
    cases h with
    | last hcall _ => cases hcall; rfl
    | more hcall h _ => cases hcall; cases h
  · rintro rfl
    exact @Receive.Reads.last (replayBody _) (some _) (some false) rfl rfl

end Bodies

/-! ## Requests -/

namespace RateLimitMiddleware

variable {self : RateLimitMiddleware} {scope : Scope} {messages : List ReceiveMessage}
  {body : Bytes} {complete : Bool} {buckets : List ResolvedRateLimit}

theorem answer_of_rejects (hne : buckets ≠ []) (h : self.rejects buckets = true) :
    ∃ response, ∀ receive, self.answer receive buckets = .response response := by
  unfold rejects at h
  unfold answer
  cases hc : self.check buckets with
  | none =>
    simp only [hc, Bool.not_eq_true'] at h
    exact ⟨rateLimitUnavailableResponse, fun receive => by simp [hne, h]⟩
  | some decision =>
    simp only [hc, Bool.not_eq_true'] at h
    exact ⟨rateLimitedResponse decision, fun receive => by simp [hne, h]⟩

theorem answer_of_not_rejects (h : self.rejects buckets = false) (receive : Receive) :
    self.answer receive buckets = .app receive := by
  unfold rejects at h
  unfold answer
  cases hc : self.check buckets with
  | none =>
    simp only [hc, Bool.not_eq_false'] at h
    simp [h]
  | some decision =>
    simp only [hc, Bool.not_eq_false'] at h
    simp [h]

/-- The answer is one response whatever is handed on, or what is handed on. -/
theorem answer_cases (self : RateLimitMiddleware) (buckets : List ResolvedRateLimit) :
    (∃ response, ∀ receive, self.answer receive buckets = .response response) ∨
      ∀ receive, self.answer receive buckets = .app receive := by
  by_cases hne : buckets = []
  · exact .inr fun receive => if_pos hne
  · cases h : self.rejects buckets with
    | true => exact .inl (answer_of_rejects hne h)
    | false => exact .inr (answer_of_not_rejects h)

/-- A submission is limited. -/
theorem not_unlimited_of_needsBody (h : requestMayNeedBody self.settings scope = true) :
    ¬Unlimited self.settings scope.path := by
  rintro hunlimited
  obtain ⟨-, hp | hp⟩ := of_decide_eq_true h
  · exact absurd (unlimited_iff.1 hunlimited _ hp) (by decide)
  · exact absurd (unlimited_iff.1 hunlimited _ hp) (by decide)

/-- A submission is decided by the buckets of what is sent, which the application gets back. -/
theorem call_submission (he : self.rateLimitEnabled = true)
    (hn : requestMayNeedBody self.settings scope = true) (hs : Sends messages body complete) :
    self.call scope messages = (resolveRateLimits self.settings scope body).map fun buckets =>
      [self.answer (replayBody body) buckets] := by
  have hbody : readBody [] messages = body := readBody_of_sends hs []
  simp only [call, he, hn, hbody, if_true, Bool.true_eq_false, if_false]
  cases resolveRateLimits self.settings scope body <;> rfl

/-- Any other request is handed on with the `receive` of the server. -/
theorem call_of_not_needsBody (he : self.rateLimitEnabled = true)
    (hn : requestMayNeedBody self.settings scope = false) :
    ∃ buckets, ∀ messages,
      self.call scope messages = .ok [self.answer (.server messages) buckets] := by
  obtain ⟨buckets, hbuckets⟩ : ∃ buckets,
      resolveRateLimits self.settings scope [] = .ok buckets := by
    by_cases h : Unlimited self.settings scope.path
    · exact ⟨_, resolveRateLimits_of_unlimited h⟩
    · obtain ⟨_, -, hresolve⟩ := exists_relativePath h []
      exact ⟨_, hresolve⟩
  refine ⟨buckets, fun messages => ?_⟩
  simp only [call, he, hn, hbuckets, Bool.true_eq_false, if_false, Bool.false_eq_true]
  rfl

/-- What is handed on for what is sent is what was sent, when it is a body. -/
theorem replay_iff (hs : Sends messages body complete) :
    (∀ body', (replayBody body).Reads body' ↔ Sends messages body' true) ↔ complete = true := by
  simp only [replay_reads_iff]
  refine ⟨?_, ?_⟩
  · intro h
    exact (sends_unique hs ((h body).1 rfl)).2
  · rintro rfl body'
    exact ⟨fun h => h ▸ hs, fun h => (sends_unique h hs).1⟩

/-- The limiter rejects what is sent of a submission. -/
def Rejects (self : RateLimitMiddleware) (scope : Scope) (body : Bytes) : Prop :=
  ∃ buckets, resolveRateLimits self.settings scope body = .ok buckets ∧
    self.rejects buckets = true

/-- A submission is handed on as it is sent exactly when its text has no integer of too many
digits and is not nested too deep, and it is complete or rejected. -/
theorem handsOn_submission_iff (he : self.rateLimitEnabled = true)
    (hn : requestMayNeedBody self.settings scope = true) (hs : Sends messages body complete) :
    self.HandsOn scope messages ↔
      (¬LongInteger self.settings body ∧ ¬DeepNesting self.settings body) ∧
        (complete = true ∨ self.Rejects scope body) := by
  obtain ⟨relativePath, hp, hresolve⟩ := exists_relativePath (not_unlimited_of_needsBody hn) body
  have hcall := call_submission he hn hs
  rw [HandsOn, Rejects, hcall, hresolve]
  by_cases hreadable : ¬LongInteger self.settings body ∧ ¬DeepNesting self.settings body
  swap
  · have hread : ∀ payload, readPayload self.settings body ≠ .ok payload := fun payload h =>
      hreadable (exists_readPayload_iff.1 ⟨payload, h⟩)
    cases hr : readPayload self.settings body with
    | ok payload => exact absurd hr (hread payload)
    | error e => simp [Except.map, hreadable]
  · obtain ⟨payload, hread⟩ := exists_readPayload_iff.2 hreadable
    have hne : resolvePathLimits self.settings scope relativePath payload ≠ [] :=
      List.ne_nil_of_mem (systemRequest_mem self.settings scope relativePath payload)
    simp only [hread, Except.map, Except.ok.injEq, List.cons.injEq, and_true, hreadable,
      not_false_eq_true, true_and, exists_eq_left']
    generalize resolvePathLimits self.settings scope relativePath payload = buckets at hne
    cases h : self.rejects buckets with
    | true =>
      obtain ⟨response, hanswer⟩ := answer_of_rejects hne h
      simp [hanswer]
    | false =>
      simp only [answer_of_not_rejects h, reduceCtorEq, exists_false, false_or,
        MiddlewareAction.app.injEq, exists_eq_left', replay_iff hs, Bool.false_eq_true, or_false]

/-- The middleware hands on what it is sent exactly when what it reads of a submission has no
integer of too many digits, is not nested too deep, and is complete or rejected. Whether and how a
request is rejected depends on the bytes that are sent only. -/
theorem hands_on_iff (self : RateLimitMiddleware) (scope : Scope)
    (messages : List ReceiveMessage) :
    (self.HandsOn scope messages ↔
      (self.rateLimitEnabled = true → requestMayNeedBody self.settings scope = true →
        ∀ body complete, Sends messages body complete →
          (¬LongInteger self.settings body ∧ ¬DeepNesting self.settings body) ∧
            (complete = true ∨ self.Rejects scope body))) ∧
    ∀ messages' body complete complete' response, Sends messages body complete →
      Sends messages' body complete' →
      (self.call scope messages = .ok [.response response] ↔
        self.call scope messages' = .ok [.response response]) := by
  cases he : self.rateLimitEnabled with
  | false =>
    have hcall : ∀ messages, self.call scope messages = .ok [.app (.server messages)] :=
      fun messages => if_pos he
    refine ⟨iff_of_true (.inr ⟨_, hcall _, fun body => server_reads_iff⟩)
      fun h => absurd h Bool.false_ne_true, ?_⟩
    intro messages' body complete complete' response _ _
    simp [hcall]
  | true =>
    cases hn : requestMayNeedBody self.settings scope with
    | false =>
      obtain ⟨buckets, hcall⟩ := call_of_not_needsBody he hn
      refine ⟨iff_of_true ?_ fun _ h => absurd h Bool.false_ne_true, ?_⟩
      · rcases self.answer_cases buckets with ⟨response, hanswer⟩ | hanswer
        · exact .inl ⟨response, by rw [hcall, hanswer]⟩
        · exact .inr ⟨_, by rw [hcall, hanswer], fun body => server_reads_iff⟩
      · intro messages' body complete complete' response _ _
        rw [hcall, hcall]
        rcases self.answer_cases buckets with ⟨_, hanswer⟩ | hanswer <;> simp [hanswer]
    | true =>
      refine ⟨?_, ?_⟩
      · obtain ⟨body, complete, hs⟩ := exists_sends messages
        rw [handsOn_submission_iff he hn hs]
        refine ⟨fun h _ _ body' complete' hs' => ?_, fun h => h rfl rfl body complete hs⟩
        obtain ⟨rfl, rfl⟩ := sends_unique hs hs'
        exact h
      · intro messages' body complete complete' response hs hs'
        rw [call_submission he hn hs, call_submission he hn hs']

/-- A middleware whose limiter allows every request. -/
def allowing : RateLimitMiddleware where
  settings := {}
  rateLimitEnabled := true
  check _ := some ⟨true, 1200, 199, 0, none⟩

/-- The first byte of a body, and then the client is gone : the application gets that byte for all
of the body. -/
theorem truncated_handed_on :
    let scope := (⟨.sendMessage, [], none⟩ : Request).scope {}
    let messages := [.request (some [0x7B]) (some true), .disconnect]
    allowing.call scope messages = .ok [.app (replayBody [0x7B])] ∧
      ¬allowing.HandsOn scope messages := by
  intro scope messages
  have hs : Sends messages [0x7B] false := .more rfl .disconnect
  have hn : requestMayNeedBody allowing.settings scope = true :=
    (requestMayNeedBody_submission {} [] none).1
  refine ⟨?_, ?_⟩
  · have hresolve : resolveRateLimits allowing.settings scope [0x7B] =
        .ok (resolveSingleMessageLimits {} [] (getClientIdentity scope)) :=
      resolveRateLimits_sendMessage {} [] none [0x7B]
    rw [call_submission rfl hn hs, hresolve]
    rfl
  · rw [handsOn_submission_iff rfl hn hs]
    rintro ⟨-, h | ⟨_, -, h⟩⟩
    · cases h
    · cases h

end RateLimitMiddleware

end Abrio
