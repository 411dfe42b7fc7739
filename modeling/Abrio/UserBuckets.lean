import Abrio.RateLimits

/-!
# One user, one bucket

The limiter reads the user of a report, a status read or a write of the balance from the query
string or the path, and keeps the text as it is spelled. The application takes the last value of
a repeated parameter and the number it spells. Two requests of one user are charged to one
bucket exactly when the limiter reads the same decimal text in both, or in neither and both come
from one address (`user_bucket_eq_iff`).
-/

open Python

namespace Abrio

/-- The same endpoint, of those with the user in the query string or in the path. -/
def Endpoint.Same : Endpoint → Endpoint → Prop
  | .getMessages, .getMessages => True
  | .getUserMessagesSummary, .getUserMessagesSummary => True
  | .getMessageById _ _, .getMessageById _ _ => True
  | .userWrite _ _, .userWrite _ _ => True
  | _, _ => False

/-- The keys of the buckets that are neither global nor the system's. -/
def RedisTokenBucketRateLimiter.userKeys (limiter : RedisTokenBucketRateLimiter)
    (limits : List ResolvedRateLimit) : List String :=
  (limits.filter fun limit =>
    limit.identity ≠ globalIdentity ∧ limit.identity ≠ systemIdentity).map limiter.keyFor

namespace Request

/-- The keys that a request is charged for its user. -/
def userKeys (limiter : RedisTokenBucketRateLimiter) (s : ApiSettings) (r : Request)
    (body : Bytes) : Except Json.LoadsError (List String) :=
  (RateLimitMiddleware.buckets s (r.scope s) body).map limiter.userKeys

/-- Where the limiter looks for the user : the first value that is not blank, or the path. -/
def spelling (r : Request) : Option Str :=
  match r.endpoint with
  | .sendMessage => none
  | .batchSendMessage => none
  | .userWrite userId _ => some userId.text
  | _ => firstUserId r.queryString

/-- The text the limiter takes for the user. -/
def userText (r : Request) : Option Str :=
  r.spelling.filter Str.isDecimal

/-- The address a request comes from. -/
def address (r : Request) : String :=
  r.client.getD "unknown"

/-- Both have one decimal text for the user, or neither has one and they come from one address. -/
def Alike (r₁ r₂ : Request) : Prop :=
  r₁.userText = r₂.userText ∧ (r₁.userText = none → r₁.address = r₂.address)

/-- The limiter finds the numeral of the user that the application finds. -/
def Canonical (s : ApiSettings) (types : FieldTypes) (r : Request) : Prop :=
  ∃ n : ℕ, r.userId? s types = some n ∧ r.spelling = some (.numeral n)

/-- The identity a request is charged to. -/
def identity (s : ApiSettings) (r : Request) : String :=
  (r.spelling.bind userIdentity).getD (getClientIdentity (r.scope s))

end Request

/-! ## The limits of a request -/

/-- The rules of an endpoint, for the user and for all users. -/
def Endpoint.rules (s : ApiSettings) : Endpoint → Option (RateLimitRule × RateLimitRule)
  | .sendMessage => none
  | .batchSendMessage => none
  | .getMessages => some (s.messageReportsRule, s.globalMessageReportsRule)
  | .getUserMessagesSummary => some (s.messageReportsRule, s.globalMessageReportsRule)
  | .getMessageById _ _ => some (s.messageStatusRule, s.globalMessageStatusRule)
  | .userWrite _ _ => some (s.userWritesRule, s.globalUserWritesRule)

theorem Endpoint.Same.exists_rules {e₁ e₂ : Endpoint} (h : e₁.Same e₂) (s : ApiSettings) :
    ∃ rules, e₁.rules s = some rules ∧ e₂.rules s = some rules := by
  cases e₁ <;> cases e₂ <;> first | exact h.elim | exact ⟨_, rfl, rfl⟩

namespace Request

variable {s : ApiSettings} {r : Request}

/-- Where the last character of the path is no slash, the limiter sees the path itself. -/
theorem relativeApiPath_eq {path : Str} (hp : r.endpoint.path = 0x2F :: path)
    (hl : (0x2F :: path).getLast? ≠ some 0x2F) :
    relativeApiPath s (r.scope s) = some r.endpoint.path := by
  rw [relativeApiPath_scope s r hp, Str.rstrip_eq_self hl, if_neg (List.cons_ne_nil _ _), hp]

theorem buckets_of_relativeApiPath {relativePath : Str} {body : Bytes}
    (hp : relativeApiPath s (r.scope s) = some relativePath)
    (hh : relativePath.startsWith (.ofString "/health/") = false)
    (hn : requestMayNeedBody s (r.scope s) = false) :
    RateLimitMiddleware.buckets s (r.scope s) body =
      .ok (resolvePathLimits s (r.scope s) relativePath []) := by
  rw [RateLimitMiddleware.buckets, hn, if_neg Bool.false_ne_true, resolveRateLimits_eq s hp hh]
  rfl

end Request

/-! ## The path -/

theorem Segment.getLast?_append (path : Str) (segment : Segment) :
    (path ++ segment.text).getLast? ≠ some 0x2F := by
  rw [List.getLast?_append, List.getLast?_eq_some_getLast segment.ne_nil]
  intro h
  exact segment.no_slash (Option.some.inj h ▸ List.getLast_mem segment.ne_nil)

theorem UserAction.getLast?_append (path : Str) (action : UserAction) :
    (path ++ action.path).getLast? ≠ some 0x2F := by
  rw [List.getLast?_append]
  cases action <;> simp [UserAction.path, Str.ofString]

/-- The user of a write, from its path. -/
theorem userIdentityFromUserPath_eq (userId : Segment) (action : UserAction) :
    userIdentityFromUserPath (Endpoint.path (.userWrite userId action)) =
      userIdentity userId.text := by
  have hstrip : Str.strip (Endpoint.path (.userWrite userId action)) 0x2F =
      Str.ofString "users" ++ 0x2F :: (userId.text ++ 0x2F :: action.path) := by
    calc Str.strip (Endpoint.path (.userWrite userId action)) 0x2F
      _ = Str.rstrip (Str.ofString "users/" ++ userId.text ++ Str.ofString "/" ++ action.path)
          0x2F := rfl
      _ = Str.ofString "users/" ++ userId.text ++ Str.ofString "/" ++ action.path :=
          Str.rstrip_eq_self (action.getLast?_append _)
      _ = Str.ofString "users" ++ 0x2F :: (userId.text ++ 0x2F :: action.path) := by
          simp [Str.ofString]
  rw [userIdentityFromUserPath, hstrip, List.splitOn_append_cons_self_of_not_mem (by decide),
    List.splitOn_append_cons_self_of_not_mem userId.no_slash]
  exact if_pos rfl

namespace Request

variable {s : ApiSettings} {r : Request}

/-- What a request is charged. -/
theorem buckets_eq {rules : RateLimitRule × RateLimitRule} (h : r.endpoint.rules s = some rules)
    (body : Bytes) : RateLimitMiddleware.buckets s (r.scope s) body =
      .ok (endpointLimits s rules.1 (r.identity s) rules.2) := by
  rcases r with ⟨endpoint, queryString, client⟩
  cases endpoint with
  | sendMessage => cases h
  | batchSendMessage => cases h
  | getMessages =>
    cases h
    have hpath : Endpoint.getMessages.path = 0x2F :: Str.ofString "messages/" := rfl
    have hrel : relativeApiPath s (scope s ⟨.getMessages, queryString, client⟩) =
        some (.ofString "/messages") :=
      (relativeApiPath_scope s _ hpath).trans (by decide)
    rw [buckets_of_relativeApiPath hrel (by decide) rfl]
    rfl
  | getUserMessagesSummary =>
    cases h
    have hrel : relativeApiPath s (scope s ⟨.getUserMessagesSummary, queryString, client⟩) =
        some (.ofString "/messages/summary") :=
      relativeApiPath_eq rfl (by decide)
    rw [buckets_of_relativeApiPath hrel (by decide) rfl]
    rfl
  | getMessageById messageId hm =>
    cases h
    have hrel : relativeApiPath s (scope s ⟨.getMessageById messageId hm, queryString, client⟩) =
        some (.ofString "/messages/" ++ messageId.text) :=
      relativeApiPath_eq rfl (messageId.getLast?_append (.ofString "/messages/"))
    have hne : Str.ofString "/messages/" ++ messageId.text ≠
        .ofString "/messages/" ++ .ofString "summary" :=
      fun he => hm (List.append_cancel_left he)
    rw [buckets_of_relativeApiPath hrel rfl rfl, resolvePathLimits,
      if_neg (by rintro ⟨⟨⟩, -⟩), if_neg (by rintro ⟨⟨⟩, -⟩), if_neg (fun hc => hne hc.2),
      if_neg (by rintro ⟨-, ⟨⟩⟩), if_pos ⟨rfl, rfl⟩]
    rfl
  | userWrite userId action =>
    cases h
    have hrel : relativeApiPath s (scope s ⟨.userWrite userId action, queryString, client⟩) =
        some (Endpoint.path (.userWrite userId action)) :=
      relativeApiPath_eq rfl (action.getLast?_append (.ofString "/users/" ++ userId.text ++ _))
    have hbody : requestMayNeedBody s (scope s ⟨.userWrite userId action, queryString, client⟩) =
        false := by
      rw [requestMayNeedBody, hrel]
      refine decide_eq_false fun hc => ?_
      rcases hc.2 with he | he
      · cases Option.some.inj he
      · cases Option.some.inj he
    rw [buckets_of_relativeApiPath hrel rfl hbody, resolvePathLimits, userIdentityFromUserPath_eq,
      if_neg (by rintro ⟨-, ⟨⟩⟩), if_neg (by rintro ⟨-, ⟨⟩⟩),
      if_neg (by rintro ⟨⟨⟩, -⟩), if_neg (by rintro ⟨⟨⟩, -⟩),
      if_neg (by rintro ⟨⟨⟩, -⟩), if_neg (by rintro ⟨-, ⟨⟩⟩),
      if_neg (by rintro ⟨⟨⟩, -⟩), if_pos ⟨rfl, rfl⟩]
    rfl

end Request

/-! ## The bucket of a user -/

namespace Request

theorem getClientIdentity_scope (s : ApiSettings) (r : Request) :
    getClientIdentity (r.scope s) = "ip:" ++ r.address := by
  rcases r with ⟨endpoint, queryString, - | client⟩ <;> rfl

theorem identity_of_userText {r : Request} {text : Str} (h : r.userText = some text)
    (s : ApiSettings) : r.identity s = "user:" ++ text.toString ∧ text.isDecimal = true := by
  obtain ⟨hs, hd⟩ := Option.filter_eq_some_iff.1 h
  simp [identity, userIdentity, hs, hd]

theorem identity_of_userText_none {r : Request} (h : r.userText = none) (s : ApiSettings) :
    r.identity s = "ip:" ++ r.address := by
  rw [identity, ← getClientIdentity_scope]
  cases hs : r.spelling with
  | none => rfl
  | some text =>
    have hd : ¬text.isDecimal = true := by
      simpa [userText, hs, Option.filter] using h
    simp [userIdentity, hd]

theorem userText_eq_numeral_iff {r : Request} {n : ℕ} :
    r.userText = some (.numeral n) ↔ r.spelling = some (.numeral n) := by
  rw [userText, Option.filter_eq_some_iff, and_iff_left (Str.isDecimal_numeral n)]

/-- The identity is neither the one of all users nor the system's. -/
theorem identity_ne (s : ApiSettings) (r : Request) :
    r.identity s ≠ globalIdentity ∧ r.identity s ≠ systemIdentity := by
  cases h : r.userText with
  | none =>
    rw [identity_of_userText_none h]
    refine ⟨fun he => ?_, fun he => ?_⟩ <;>
      simpa [globalIdentity, systemIdentity] using congrArg String.toList he
  | some text =>
    rw [(identity_of_userText h s).1]
    refine ⟨fun he => ?_, fun he => ?_⟩ <;>
      simpa [globalIdentity, systemIdentity] using congrArg String.toList he

/-- Two requests have one identity when they are alike. -/
theorem identity_eq_iff (s : ApiSettings) (r₁ r₂ : Request) :
    r₁.identity s = r₂.identity s ↔ r₁.Alike r₂ := by
  unfold Alike
  cases h₁ : r₁.userText with
  | none =>
    rw [identity_of_userText_none h₁]
    cases h₂ : r₂.userText with
    | none => simp [identity_of_userText_none h₂]
    | some text₂ =>
      rw [(identity_of_userText h₂ s).1, ← getClientIdentity_scope s]
      simp [getClientIdentity_ne]
  | some text₁ =>
    obtain ⟨hi₁, hd₁⟩ := identity_of_userText h₁ s
    rw [hi₁]
    cases h₂ : r₂.userText with
    | none =>
      rw [identity_of_userText_none h₂, ← getClientIdentity_scope s]
      simp [Ne.symm (getClientIdentity_ne _ _)]
    | some text₂ =>
      obtain ⟨hi₂, hd₂⟩ := identity_of_userText h₂ s
      simp [hi₂, Str.toString_inj hd₁ hd₂]

/-- A request is charged one bucket for its user. -/
theorem userKeys_eq {limiter : RedisTokenBucketRateLimiter} {s : ApiSettings} {r : Request}
    {rules : RateLimitRule × RateLimitRule} (h : r.endpoint.rules s = some rules) (body : Bytes) :
    r.userKeys limiter s body =
      .ok [limiter.keyFor { rule := rules.1, identity := r.identity s }] := by
  obtain ⟨hg, hs⟩ := r.identity_ne s
  rw [userKeys, buckets_eq h]
  simp [RedisTokenBucketRateLimiter.userKeys, endpointLimits, systemRequestLimits, Except.map, hg,
    hs]

end Request

/-- Two requests of one user are charged to one bucket exactly when they are alike, and where one
of them spells the user as its numeral, exactly when the other does. -/
theorem user_bucket_eq_iff (limiter : RedisTokenBucketRateLimiter) (s : ApiSettings)
    (types : FieldTypes) {r₁ r₂ : Request} (hsame : r₁.endpoint.Same r₂.endpoint)
    {userId : UserId} (h₁ : r₁.userId? s types = some userId)
    (h₂ : r₂.userId? s types = some userId) (body₁ body₂ : Bytes) :
    (r₁.userKeys limiter s body₁ = r₂.userKeys limiter s body₂ ↔ r₁.Alike r₂) ∧
      (r₁.Canonical s types →
        (r₁.userKeys limiter s body₁ = r₂.userKeys limiter s body₂ ↔ r₂.Canonical s types)) := by
  obtain ⟨rules, hr₁, hr₂⟩ := hsame.exists_rules s
  have hkeys : r₁.userKeys limiter s body₁ = r₂.userKeys limiter s body₂ ↔ r₁.Alike r₂ := by
    rw [Request.userKeys_eq hr₁, Request.userKeys_eq hr₂, ← Request.identity_eq_iff s]
    simp [RedisTokenBucketRateLimiter.keyFor]
  refine ⟨hkeys, ?_⟩
  rintro ⟨n, hn, hs⟩
  cases h₁.symm.trans hn
  have htext : r₁.userText = some (.numeral n) := Request.userText_eq_numeral_iff.2 hs
  rw [hkeys, Request.Alike, htext, and_iff_left (by simp), eq_comm,
    Request.userText_eq_numeral_iff]
  constructor
  · exact fun hs₂ => ⟨n, h₂, hs₂⟩
  · rintro ⟨m, hm, hs₂⟩
    cases Int.ofNat.inj (Option.some.inj (h₂.symm.trans hm))
    exact hs₂

/-- The limiter with its prefix by default. -/
def defaultLimiter : RedisTokenBucketRateLimiter where
  keyPrefix := "sms_gateway:rate_limit"

/-- A request for the summary of a user, with a query string. -/
def summaryRequest (queryString : String) : Request where
  endpoint := .getUserMessagesSummary
  queryString := queryString.toUTF8.toList
  client := some "10.0.0.1"

/-- A topup of the user with one text. -/
def topupRequest (userId : Segment) : Request where
  endpoint := .userWrite userId .topup
  queryString := []
  client := some "10.0.0.1"

theorem user_bucket_eq_iff_sample :
    let r₁ := summaryRequest "user_id=7"
    let r₂ := summaryRequest "user_id=9&user_id=7"
    (r₁.userKeys defaultLimiter {} [] = r₂.userKeys defaultLimiter {} [] ↔ r₁.Alike r₂) ∧
      (r₁.Canonical {} .sample →
        (r₁.userKeys defaultLimiter {} [] = r₂.userKeys defaultLimiter {} [] ↔
          r₂.Canonical {} .sample)) := by
  intro r₁ r₂
  have h₁ : r₁.userId? {} .sample = some 7 := by decide +kernel
  have h₂ : r₂.userId? {} .sample = some 7 := by decide +kernel
  have hsame : r₁.endpoint.Same r₂.endpoint := trivial
  exact user_bucket_eq_iff defaultLimiter {} .sample hsame h₁ h₂ [] []

/-- Leading zeros give user 7 another bucket, in the query string and in the path, and a repeated
parameter gives the one of user 9. -/
theorem spelled_users_other_buckets :
    let keys (r : Request) := r.userKeys defaultLimiter {} []
    let user (r : Request) := r.userId? {} .sample
    let seven := topupRequest ⟨.ofString "7", by decide, by decide⟩
    let zeroSeven := topupRequest ⟨.ofString "07", by decide, by decide⟩
    (user (summaryRequest "user_id=7") = some 7 ∧ user (summaryRequest "user_id=007") = some 7 ∧
      keys (summaryRequest "user_id=7") ≠ keys (summaryRequest "user_id=007")) ∧
    (user (summaryRequest "user_id=9&user_id=7") = some 7 ∧
      keys (summaryRequest "user_id=9&user_id=7") = keys (summaryRequest "user_id=9")) ∧
    user seven = some 7 ∧ user zeroSeven = some 7 ∧ keys seven ≠ keys zeroSeven := by
  refine ⟨⟨?_, ?_, ?_⟩, ⟨?_, ?_⟩, ?_, ?_, ?_⟩ <;> decide +kernel

end Abrio
