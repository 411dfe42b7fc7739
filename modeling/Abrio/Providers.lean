import Abrio.Contents
import Abrio.Library.Uuid
import Mathlib.Data.List.Infix

/-!
# The providers

`_build_provider` gives a task its provider, from the settings. The dummy accepts every message;
the mock goes by markers in the body, and then by a draw against its failure rate. `outcomes` lists
what each can answer to a body.

`Receipt` is what the rows of a job and its message keep of the answers, for any provider. In a run
with a provider of the settings a message is sent, waits for a retry or is given up only where that
provider can answer so, and the receipt of a completed job names its message (`provider_decides`).
-/

open Relational Runs

namespace Abrio

open DispatchJobRepository DispatchUseCase MessageUseCase MessageRepository

/-- `str(uuid)`. -/
def UUID.str (id : UUID) : String :=
  (Python.Uuid.format id).toString

/-! ## The providers -/

/-- The settings of the provider, with the bounds `Settings` validates. -/
structure ProviderSettings where
  smsProvider : String := "dummy"
  smsMockFailRate : ℚ := 0
  failRate_nonneg : 0 ≤ smsMockFailRate := by decide
  failRate_le_one : smsMockFailRate ≤ 1 := by decide

/-- A number that `random.random()` draws. -/
structure Draw where
  value : ℚ
  value_nonneg : 0 ≤ value
  value_lt_one : value < 1

/-- `marker in body`. -/
def contains (marker body : String) : Bool :=
  marker.toList <:+: body.toList

/-- `PERMANENT_MARKER`. -/
def permanentMarker : String := "[FAIL_PERMANENT]"

/-- `TEMPORARY_MARKER`. -/
def temporaryMarker : String := "[FAIL_TEMP]"

/-- `DummySmsProvider.send`. -/
def DummySmsProvider.send (context : DeliveryContext) : ProviderResult where
  outcome := .success
  providerMessageId := some ("dummy-" ++ UUID.str context.messageId)

/-- `MockSmsProvider.send`. -/
def MockSmsProvider.send (failRate : ℚ) (draw : Draw) (context : DeliveryContext) :
    ProviderResult :=
  if contains permanentMarker context.body then
    { outcome := .permanentFailure, error := some "mock: forced permanent failure" }
  else if contains temporaryMarker context.body then
    { outcome := .temporaryFailure, error := some "mock: forced temporary failure" }
  else if 0 < failRate ∧ draw.value < failRate then
    { outcome := .temporaryFailure, error := some "mock: random temporary failure" }
  else
    { outcome := .success, providerMessageId := some ("mock-" ++ UUID.str context.messageId) }

/-- The providers that `_build_provider` knows. -/
inductive SmsProvider
  | dummy
  | mock (failRate : ℚ)

/-- `send`. What a mock draws comes from outside. -/
def SmsProvider.send (draw : Draw) (context : DeliveryContext) : SmsProvider → ProviderResult
  | .dummy => DummySmsProvider.send context
  | .mock failRate => MockSmsProvider.send failRate draw context

namespace ProviderSettings

variable (ps : ProviderSettings)

/-- `_build_provider`. -/
def buildProvider : SmsProvider :=
  if ps.smsProvider = "mock" then .mock ps.smsMockFailRate else .dummy

/-- The provider of the settings answers so. -/
def Sends (context : DeliveryContext) (result : ProviderResult) : Prop :=
  ∃ draw, ps.buildProvider.send draw context = result

/-- What the provider of the settings can answer to a body. -/
def outcomes (body : String) : List ProviderOutcome :=
  if ps.smsProvider ≠ "mock" then [.success]
  else if contains permanentMarker body then [.permanentFailure]
  else if contains temporaryMarker body then [.temporaryFailure]
  else (if 0 < ps.smsMockFailRate then [.temporaryFailure] else []) ++
    if ps.smsMockFailRate < 1 then [.success] else []

/-- What the provider message ids begin with. -/
def receiptPrefix : String :=
  if ps.smsProvider = "mock" then "mock-" else "dummy-"

variable {ps}

theorem send_mock (h : ps.smsProvider = "mock") (draw : Draw) (context : DeliveryContext) :
    ps.buildProvider.send draw context =
      MockSmsProvider.send ps.smsMockFailRate draw context := by
  rw [buildProvider, if_pos h]
  rfl

theorem send_dummy (h : ps.smsProvider ≠ "mock") (draw : Draw) (context : DeliveryContext) :
    ps.buildProvider.send draw context = DummySmsProvider.send context := by
  rw [buildProvider, if_neg h]
  rfl

theorem Sends.outcome_mem {context : DeliveryContext} {result : ProviderResult}
    (h : ps.Sends context result) : result.outcome ∈ ps.outcomes context.body := by
  obtain ⟨draw, rfl⟩ := h
  unfold outcomes
  by_cases hmock : ps.smsProvider = "mock"
  · rw [send_mock hmock, if_neg (not_not.2 hmock)]
    unfold MockSmsProvider.send
    by_cases hp : contains permanentMarker context.body = true
    · rw [if_pos hp, if_pos hp]
      exact List.mem_singleton.2 rfl
    by_cases ht : contains temporaryMarker context.body = true
    · rw [if_neg hp, if_neg hp, if_pos ht, if_pos ht]
      exact List.mem_singleton.2 rfl
    rw [if_neg hp, if_neg hp, if_neg ht, if_neg ht]
    by_cases hr : 0 < ps.smsMockFailRate ∧ draw.value < ps.smsMockFailRate
    · rw [if_pos hr, if_pos hr.1]
      exact List.mem_append_left _ (List.mem_singleton.2 rfl)
    · have hrate : ps.smsMockFailRate < 1 := by
        rcases ps.failRate_nonneg.eq_or_lt with he | hpos
        · rw [← he]
          exact zero_lt_one
        · exact (not_lt.1 fun hd => hr ⟨hpos, hd⟩).trans_lt draw.value_lt_one
      rw [if_neg hr, if_pos hrate]
      exact List.mem_append_right _ (List.mem_singleton.2 rfl)
  · rw [send_dummy hmock, if_pos hmock]
    exact List.mem_singleton.2 rfl

/-- The list of the outcomes is exact. -/
theorem mem_outcomes {o : ProviderOutcome} {context : DeliveryContext} :
    o ∈ ps.outcomes context.body ↔ ∃ result, ps.Sends context result ∧ result.outcome = o := by
  refine ⟨fun h => ?_, ?_⟩
  · suffices hdraw : ∃ draw, (ps.buildProvider.send draw context).outcome = o by
      obtain ⟨draw, hdraw⟩ := hdraw
      exact ⟨_, ⟨draw, rfl⟩, hdraw⟩
    have hzero : ∃ draw : Draw, draw.value = 0 := ⟨⟨0, le_rfl, zero_lt_one⟩, rfl⟩
    obtain ⟨zero, hzero⟩ := hzero
    unfold outcomes at h
    by_cases hmock : ps.smsProvider = "mock"
    · simp only [send_mock hmock]
      rw [if_neg (not_not.2 hmock)] at h
      unfold MockSmsProvider.send
      split_ifs at h ⊢ with hp ht hpos hone hone
      · exact ⟨zero, (List.mem_singleton.1 h).symm⟩
      · exact ⟨zero, (List.mem_singleton.1 h).symm⟩
      · rcases List.mem_append.1 h with h | h
        · refine ⟨zero, ?_⟩
          rw [if_pos ⟨hpos, by rwa [hzero]⟩, List.mem_singleton.1 h]
        · refine ⟨⟨ps.smsMockFailRate, ps.failRate_nonneg, hone⟩, ?_⟩
          rw [if_neg fun hr => lt_irrefl _ hr.2, List.mem_singleton.1 h]
      · rw [List.append_nil] at h
        refine ⟨zero, ?_⟩
        rw [if_pos ⟨hpos, by rwa [hzero]⟩, List.mem_singleton.1 h]
      · refine ⟨zero, ?_⟩
        rw [if_neg fun hr => hpos hr.1, List.mem_singleton.1 h]
      · cases h
    · refine ⟨zero, ?_⟩
      rw [if_pos hmock] at h
      rw [send_dummy hmock, List.mem_singleton.1 h]
      rfl
  · rintro ⟨result, hsends, rfl⟩
    exact hsends.outcome_mem

theorem Sends.receipt {context : DeliveryContext} {result : ProviderResult}
    (h : ps.Sends context result) (hs : result.outcome = .success) :
    result.providerMessageId = some (ps.receiptPrefix ++ UUID.str context.messageId) := by
  obtain ⟨draw, rfl⟩ := h
  unfold receiptPrefix
  by_cases hmock : ps.smsProvider = "mock"
  · rw [send_mock hmock] at hs ⊢
    rw [if_pos hmock]
    unfold MockSmsProvider.send at hs ⊢
    split_ifs at hs ⊢
    rfl
  · rw [send_dummy hmock, if_neg hmock]
    rfl

end ProviderSettings

/-! ## What the rows keep of the answers -/

/-- The answers that the rows of a job and its message speak of. -/
structure Receipt (P : DeliveryContext → ProviderResult → Prop) (s : Settings) (j : DispatchJob)
    (m : Message) : Prop where
  completed : j.status = .completed → ∃ result, P m.context result ∧ result.outcome = .success ∧
    j.providerMessageId = result.providerMessageId
  retried : m.status = .failed → ∃ result, P m.context result ∧ result.outcome = .temporaryFailure
  failed : j.status = .failed → m.priority = .express ∨
    (∃ result, P m.context result ∧ result.outcome = .permanentFailure) ∨
      s.maxDeliveryAttempts ≤ j.deliveryAttempts + 1 ∧
        ∃ result, P m.context result ∧ result.outcome = .temporaryFailure

namespace Receipt

variable {P : DeliveryContext → ProviderResult → Prop} {s : Settings} {now : Time}
  {j j' : DispatchJob} {m m' : Message}

theorem of_open (hj : j.status.terminal = false) (hm : m.status ≠ .failed) : Receipt P s j m := by
  refine ⟨fun hs => ?_, fun hs => absurd hs hm, fun hs => ?_⟩ <;>
  · rw [hs] at hj
    cases hj

/-- A job that is still open, or has not changed. -/
theorem keep (h : Receipt P s j m) (hj : j' = j ∨ j'.status.terminal = false) :
    Receipt P s j' m := by
  rcases hj with rfl | hj
  · exact h
  · refine ⟨fun hs => ?_, h.retried, fun hs => ?_⟩ <;>
    · rw [hs] at hj
      cases hj

theorem express (hpri : m.priority = .express) (hj : j.status = .failed)
    (hm : m.status = .permanentFailed) : Receipt P s j m := by
  refine ⟨fun hs => ?_, fun hs => ?_, fun _ => Or.inl hpri⟩
  · rw [hj] at hs
    cases hs
  · rw [hm] at hs
    cases hs

/-- The outcome of an answer leaves its receipt. -/
theorem of_outcome {result : ProviderResult} {jitter : Jitter} {r : Recorded}
    (h : Outcome s.dispatchConfig result jitter now j m r m' j') (hP : P m'.context result) :
    Receipt P s j' m' := by
  cases h with
  | succeeded id success provider_id =>
    refine ⟨fun _ => ⟨result, hP, success, provider_id.symm⟩, ?_, ?_⟩ <;> rintro ⟨⟩
  | providerPermanentFailure failed =>
    refine ⟨?_, ?_, fun _ => Or.inr (Or.inl ⟨result, hP, failed⟩)⟩ <;> rintro ⟨⟩
  | maxDeliveryAttemptsReached failed attempts =>
    refine ⟨?_, ?_, fun _ => Or.inr (Or.inr ⟨attempts, result, hP, failed⟩)⟩ <;> rintro ⟨⟩
  | expressDeadlineExceeded failed attempts exceeded =>
    exact express (expressDeadlineExceeded_iff.1 exceeded).1 rfl rfl
  | providerTemporaryFailure failed =>
    refine ⟨?_, fun _ => ⟨result, hP, failed⟩, ?_⟩ <;> rintro ⟨⟩

end Receipt

/-- A move other than the recording of an outcome keeps the receipts. -/
theorem DbMove.receipts {P : DeliveryContext → ProviderResult → Prop} {s : Settings} {now : Time}
    {db db' : Db} {a : Act} {es : List Event} (hmove : DbMove s now db a es db')
    (ha : ∀ w jitter, a ≠ .record w jitter) (hdb : db.Constrained)
    (h : db.ForLinked (Receipt P s)) : db'.ForLinked (Receipt P s) := by
  cases hmove with
  | @api t =>
    rcases t.rows s now db with ⟨hm, hj⟩ | ⟨u, -, accepted⟩
    · exact h.of_same hm hj
    · refine accepted.forLinked hdb h fun sub _ => .of_open rfl ?_
      rintro ⟨⟩
  | @jobs a jobs move moved =>
    intro j' hj' m hm hi
    have hj' : j' ∈ jobs.rows := hj'
    rw [moved.rows] at hj'
    obtain ⟨j, hj, rfl⟩ := List.mem_map.1 hj'
    rw [DispatchJob.messageId_eq (moved.original j)] at hi
    refine (h j hj m hm hi).keep ((moved.moved j hj).imp_right ?_)
    rintro ⟨hopen, hs | hs | hs⟩ <;> rw [hs]
    · exact hopen
    · rfl
    · rfl
  | worker written write =>
    obtain ⟨hj, hm, hi⟩ := written.found
    refine h.deliveryWrite hdb hj hi written.moved write ?_
    cases written with
    | expired claimable exceeded =>
      exact .express (expressDeadlineExceeded_iff.1 exceeded).1 rfl rfl
    | claimed claimable in_time =>
      refine .of_open rfl ?_
      rintro ⟨⟩
    | recorded held outcome => exact absurd rfl (ha _ _)

namespace System

variable {P : DeliveryContext → ProviderResult → Prop} {s : Settings} {sys : System}

theorem record_receipts (hc : ContextInv P sys) (hdb : sys.db.Constrained) (now : Time)
    (w : OwnerId) (jitter : Jitter) (h : sys.db.ForLinked (Receipt P s)) :
    (sys.record s now w jitter).db.ForLinked (Receipt P s) := by
  rcases sys.record_cases s now w jitter with
    he | ⟨jobId, result, hp, he | ⟨db', recorded, hr, he⟩⟩ <;> rw [he]
  · exact h
  · exact h
  rcases recordOutcome_ok hr with
    ⟨rfl, rfl⟩ | ⟨job, message, r, message', job', rfl, hh, ho, hd⟩
  · exact h
  · obtain ⟨m, hm, hP⟩ := hc.answered _ (Table.find?_eq_some.1 hp).1 result rfl
    obtain ⟨j, hj, hmf⟩ := messageOf_eq_some.1 hm
    obtain rfl : job = j := Option.some.inj (hh.job_found.symm.trans hj)
    obtain rfl : message = m := Option.some.inj (hh.message_found.symm.trans hmf)
    have hcontext := Message.context_eq ho.moved.message_original
    exact h.deliveryWrite hdb (Table.find?_eq_some.1 hj).1 (Table.find?_eq_some.1 hmf).2.symm
      ho.moved hd (.of_outcome ho (hcontext ▸ hP))

/-- The calls and the rows speak of the provider's answers. -/
structure ReceiptInv (P : DeliveryContext → ProviderResult → Prop) (s : Settings) (sys : System) :
    Prop where
  contexts : ContextInv P sys
  consistent : sys.db.Consistent
  receipts : sys.db.ForLinked (Receipt P s)

theorem ReceiptInv.step (h : ReceiptInv P s sys) {a : Time × Act} (ha : sys.Answers P a) :
    ReceiptInv P s (sys.step s a) := by
  refine ⟨h.contexts.step ha, step_consistent a h.consistent, ?_⟩
  obtain ⟨es, hmove, -⟩ := step_moved s sys a
  obtain ⟨now, a⟩ := a
  cases a with
  | record w jitter =>
    exact record_receipts h.contexts h.consistent.constrained now w jitter h.receipts
  | _ => exact hmove.receipts (by rintro w jitter ⟨⟩) h.consistent.constrained h.receipts

theorem after_receiptInv {acts : List (Time × Act)}
    (h : AllSteps (step s) (Answers P) {} acts) : ReceiptInv P s (after s acts) := by
  have hstart : AllSteps (step s) (Answers P) {} [] := trivial
  exact AllSteps.invariant (P := ReceiptInv P s) (fun _ _ ha h => h.step ha) acts h
    ⟨after_contextInv hstart, Db.consistent_empty, fun _ hj => absurd hj (Table.not_mem_empty _)⟩

/-- Only a call is answered. -/
theorem answers_of_not_isSend {a : Time × Act} (h : ∀ w result, a.2 ≠ .send w result) :
    sys.Answers P a :=
  fun w result _ _ ha => absurd ha (h w result)

end System

/-! ## What the settings decide -/

theorem StatusPair.completed {j : DispatchJob} {m : Message} (h : StatusPair j m)
    (hs : m.status = .sent) : j.status = .completed := by
  unfold StatusPair at h
  revert h hs
  cases j.status <;> cases m.status <;> decide

theorem StatusPair.failed {j : DispatchJob} {m : Message} (h : StatusPair j m)
    (hs : m.status = .permanentFailed) : j.status = .failed := by
  unfold StatusPair at h
  revert h hs
  cases j.status <;> cases m.status <;> decide

/-- In every run with a provider of the settings, a sent message has a body that this provider can
accept, and its job names it as the provider did. A message waiting for a retry has a body that can
fail for a time. A message given up is an express message, or one that can be refused, or one that
can fail for a time and has used its attempts. -/
theorem provider_decides (s : Settings) (ps : ProviderSettings) (acts : List (Time × Act))
    (h : AllSteps (System.step s) (System.Answers ps.Sends) {} acts) :
    let sys := System.after s acts
    ∀ j ∈ sys.db.jobs, ∀ m ∈ sys.db.messages, j.messageId = m.id →
      (m.status = .sent → .success ∈ ps.outcomes m.body ∧
        j.providerMessageId = some (ps.receiptPrefix ++ UUID.str m.id)) ∧
      (m.status = .failed → .temporaryFailure ∈ ps.outcomes m.body) ∧
      (m.status = .permanentFailed → m.priority = .express ∨
        .permanentFailure ∈ ps.outcomes m.body ∨
          s.maxDeliveryAttempts ≤ j.deliveryAttempts + 1 ∧
            .temporaryFailure ∈ ps.outcomes m.body) := by
  intro sys j hj m hm hi
  have hreceipt := (System.after_receiptInv h).receipts j hj m hm hi
  have hpair := (System.after_messageInv s acts).pair j hj m hm hi
  have hcan : ∀ o, (∃ result, ps.Sends m.context result ∧ result.outcome = o) →
      o ∈ ps.outcomes m.body := by
    rintro _ ⟨result, hsends, rfl⟩
    exact hsends.outcome_mem
  refine ⟨fun hs => ?_, fun hs => hcan _ (hreceipt.retried hs), fun hs => ?_⟩
  · obtain ⟨result, hsends, hsuccess, hid⟩ := hreceipt.completed (hpair.completed hs)
    exact ⟨hcan _ ⟨result, hsends, hsuccess⟩, hid.trans (hsends.receipt hsuccess)⟩
  · rcases hreceipt.failed (hpair.failed hs) with hpri | hrefused | ⟨hattempts, htemporary⟩
    · exact Or.inl hpri
    · exact Or.inr (Or.inl (hcan _ hrefused))
    · exact Or.inr (Or.inr ⟨hattempts, hcan _ htemporary⟩)

/-- The mock, without random failures. -/
def mockSettings : ProviderSettings where
  smsProvider := "mock"

/-- A message with a marker, whose only attempt fails. -/
def markedSample : List (Time × Act) :=
  [(0, .api (.createUser 1 "user")), (0, .api (.topupUserCredits 1 5)),
    (0, .api (.createMessage ⟨1, "09121234567", "hi [FAIL_TEMP]", .normal, 7⟩ ⟨10, 20⟩)),
    (0, .relayClaim 3 .normal {}), (0, .publish 3 (fun _ => true) fun _ => true),
    (0, .relayRecord 3 "" 0), (0, .claim 5 20),
    (0, .send 5 ⟨.temporaryFailure, none, some "mock: forced temporary failure"⟩),
    (1, .record 5 0)]

/-- What the provider is given in the run. -/
def markedContext : DeliveryContext :=
  ⟨10, "09121234567", "hi [FAIL_TEMP]", .normal⟩

theorem markedSample_answers :
    AllSteps (System.step { maxDeliveryAttempts := 1 }) (System.Answers mockSettings.Sends) {}
      markedSample := by
  refine ⟨?_, ?_, ?_, ?_, ?_, ?_, ?_, ?_, ?_, trivial⟩
  case refine_8 =>
    have hstate : ((System.after { maxDeliveryAttempts := 1 } (markedSample.take 7)).processes.find?
        5).map Process.state = some (.delivering markedContext) := by
      decide +kernel
    rintro w result jobId context ⟨⟩ hp
    obtain rfl : markedContext = context :=
      ProcessState.delivering.inj
        (Option.some.inj (hstate.symm.trans (congrArg (Option.map Process.state) hp)))
    exact ⟨⟨0, le_rfl, zero_lt_one⟩, by decide +kernel⟩
  all_goals exact System.answers_of_not_isSend (by rintro w result ⟨⟩)

theorem provider_decides_sample :
    let sys := System.after { maxDeliveryAttempts := 1 } markedSample
    ∃ m ∈ sys.db.messages, m.status = .permanentFailed ∧
      (m.priority = .express ∨ .permanentFailure ∈ mockSettings.outcomes m.body ∨
        .temporaryFailure ∈ mockSettings.outcomes m.body) := by
  intro sys
  obtain ⟨j, hj, m, hm, hi, hs⟩ : ∃ j ∈ sys.db.jobs.rows, ∃ m ∈ sys.db.messages.rows,
      j.messageId = m.id ∧ m.status = .permanentFailed := by
    decide +kernel
  have hdecides := provider_decides _ mockSettings markedSample markedSample_answers j hj m hm hi
  exact ⟨m, hm, hs, (hdecides.2.2 hs).imp_right (Or.imp_right And.right)⟩

end Abrio
