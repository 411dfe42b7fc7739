import Abrio.Charging
import Abrio.Recovery

/-!
# Zeroing a balance

With `app_debug` the API has one more operation, `zero_user_credits`, which sets both columns
of a balance to zero and does not look at the user's open messages. A recording that ends a
delivery takes the cost of the message out of the reservation, so it commits when the
reservation covers the cost, and only then (`record_commits_iff`). As long as no balance is
zeroed under an open message every reservation is covered, in every state a run reaches
(`recordings_commit`). Otherwise a message can be left whose every recording is rolled back
(`zeroed_reservation`).
-/

open Relational Runs

namespace Abrio

open DispatchJobRepository DispatchUseCase

/-! ## The operation -/

/-- `_zero_user_credits`. -/
def BalanceRepository.zeroUserCredits (db : Db) (userId : UserId) : Except Exn Balance := do
  let balance ← getByUserId db userId
  return { balance with credits := 0, reservedCredits := 0 }

/-- `zero_user_credits`, of the debug endpoint. -/
def BalanceUseCase.zeroUserCredits (userId : UserId) (db : Db) : Except Exn Db := do
  let balance ← BalanceRepository.zeroUserCredits db userId
  db.writeBalance balance

/-- The acts with `app_debug` on. -/
inductive DebugAct
  | act (a : InterleavedAct)
  | zeroUserCredits (userId : UserId)

namespace Interleaved

variable (s : Settings) (f : Interleaved)

/-- The debug endpoint beside everything else. -/
def debugStep (a : Time × DebugAct) : Interleaved :=
  match a.2 with
  | .act b => f.step s (a.1, b)
  | .zeroUserCredits userId =>
    { f with
      db := f.db.commit ((BalanceUseCase.zeroUserCredits userId f.db).map (·, ()))
      clock := a.1 }

/-- No balance is zeroed whose user has a message with a reserved payment. -/
def zeroesNoReservation (a : Time × DebugAct) : Bool :=
  match a.2 with
  | .act _ => true
  | .zeroUserCredits userId =>
    f.db.messages.rows.all fun m => !decide (m.userId = userId ∧ m.paymentStatus = .reserved)

/-- The system after a run from the empty database. -/
def debugAfter (acts : List (Time × DebugAct)) : Interleaved :=
  run (debugStep s) {} acts

end Interleaved

/-! ## Recordings that end a delivery -/

/-- The provider succeeded, with an id, or failed for good. -/
def ProviderResult.Final (result : ProviderResult) : Prop :=
  result.outcome = .success ∧ result.providerMessageId.isSome = true ∨
    result.outcome = .permanentFailure

/-- The texts of the result fit their columns. -/
def ProviderResult.fits (result : ProviderResult) : Bool :=
  result.providerMessageId.all (storableVarchar 255) &&
    storableText (truncateError (result.errorOr "Permanent provider failure"))

section Record

variable {cfg : DispatchConfig} {db : Db} {jobId : UUID} {w : OwnerId} {job : DispatchJob}
  {message : Message} {result : ProviderResult} {b : Balance}

theorem writeJob_error {j : DispatchJob} {e : Exn} (h : db.writeJob j = .error e) :
    e = .db .dataError := by
  unfold Db.writeJob at h
  split_ifs at h
  exact (Except.error.inj h).symm

/-- A balance that takes the operation leaves only the write of the job to fail. -/
theorem recordSuccess_error {providerMessageId : String} {now : Time} {e : Exn}
    (hc : 0 < message.cost) (hf : db.balances.find? message.userId = some b)
    (hcon : (BalanceOp.settle.apply message.cost b).Constrained)
    (h : recordSuccess job message providerMessageId now db = .error e) : e = .db .dataError := by
  have hs := BalanceRepository.settle_ok.2 ⟨hc, b, hf, rfl⟩
  have hw : db.writeBalance (BalanceOp.settle.apply message.cost b) = .ok _ :=
    Db.writeBalance_ok.2 ⟨hcon, rfl⟩
  unfold recordSuccess at h
  replace h := error_of_bind hs h
  replace h := error_of_bind hw h
  exact writeJob_error h

theorem permanentlyFail_error {error : String} {now : Time} {e : Exn}
    (hc : 0 < message.cost) (hf : db.balances.find? message.userId = some b)
    (hcon : (BalanceOp.release.apply message.cost b).Constrained)
    (h : permanentlyFail job message error now db = .error e) : e = .db .dataError := by
  have hs := BalanceRepository.releaseCredits_ok.2 ⟨hc, b, hf, rfl⟩
  have hw : db.writeBalance (BalanceOp.release.apply message.cost b) = .ok _ :=
    Db.writeBalance_ok.2 ⟨hcon, rfl⟩
  unfold permanentlyFail at h
  replace h := error_of_bind hs h
  replace h := error_of_bind hw h
  exact writeJob_error h

/-- A recording that ends the delivery takes the cost out of the reservation. -/
theorem cost_le_of_recorded (hh : Held db jobId w job message) (hr : result.Final)
    (hf : db.balances.find? message.userId = some b) {jitter : Jitter} {now : Time} {db' : Db}
    {r : Recorded}
    (h : recordOutcome cfg jobId w result jitter now db = .ok (db', some (message.id, r))) :
    message.cost ≤ b.reservedCredits := by
  have hop : ∃ op m' j', m'.original = message.original ∧
      DeliveryWrite db (some op) m' j' db' := by
    rcases recordOutcome_ok h with ⟨h, -⟩ | ⟨j, m, r', m', j', he, hh', ho, hd⟩
    · cases h
    · obtain ⟨-, rfl⟩ : message.id = m.id ∧ r = r' := by simpa using he
      obtain rfl : j = job := Option.some.inj (hh'.job_found.symm.trans hh.job_found)
      obtain rfl : m = message := Option.some.inj (hh'.message_found.symm.trans hh.message_found)
      have hm := ho.moved.message_original
      cases ho with
      | succeeded => exact ⟨.settle, _, _, hm, hd⟩
      | providerTemporaryFailure failed =>
        rcases hr with ⟨hr, -⟩ | hr <;> rw [hr] at failed <;> cases failed
      | _ => exact ⟨.release, _, _, hm, hd⟩
  obtain ⟨op, m', j', hm, hd⟩ := hop
  obtain ⟨-, b', hf', hcon, -⟩ := DeliveryWrite.of_op.1 hd
  rw [Message.userId_eq hm, hf] at hf'
  obtain rfl := Option.some.inj hf'
  have hnonneg := hcon.reserved_nonneg
  rw [BalanceOp.apply_reservedCredits, Message.cost_eq hm] at hnonneg
  exact sub_nonneg.1 hnonneg

/-- A recording that ends the delivery commits when the reservation covers the cost, and only
then. -/
theorem record_commits_iff (hh : Held db jobId w job message) (hr : result.Final)
    (hfit : result.fits = true) (hw : job.Writable) (hc : 0 < message.cost)
    (hf : db.balances.find? message.userId = some b) (hb : b.Constrained) (jitter : Jitter)
    (now : Time) :
    (∃ db' r, recordOutcome cfg jobId w result jitter now db = .ok (db', some (message.id, r)) ∧
        ∃ job', db'.jobs.find? jobId = some job' ∧ job'.status.terminal = true) ↔
      message.cost ≤ b.reservedCredits := by
  obtain ⟨hj, rfl⟩ := Table.find?_eq_some.1 hh.job_found
  simp only [ProviderResult.fits, Bool.and_eq_true] at hfit
  constructor
  · rintro ⟨db', r, h, -⟩
    exact cost_le_of_recorded hh hr hf h
  · intro hle
    rcases hr with ⟨hr, hp⟩ | hr
    · obtain ⟨pid, hp⟩ := Option.isSome_iff_exists.1 hp
      have hs : (markCompleted pid now job).storable = true :=
        hw.markCompleted now (by simpa [hp] using hfit.1)
      have hd : DeliveryWrite db (some .settle) (MessageRepository.markSent now message)
          (markCompleted pid now job) _ := DeliveryWrite.of_op.2
        ⟨hc, b, hf, BalanceOp.settle.apply_constrained hb hc hle, hs, rfl⟩
      exact ⟨_, _, recordOutcome_of_outcome hh (.succeeded _ hr hp) hd, _,
        (System.find?_deliveryWrite hd hh.job_found rfl job.id).trans (if_pos rfl), rfl⟩
    · have hs := hw.markFailed now hfit.2
      have hd : DeliveryWrite db (some .release)
          (MessageRepository.markPermanentFailure now message)
          (markFailed (result.errorOr "Permanent provider failure") now job) _ :=
        DeliveryWrite.of_op.2
          ⟨hc, b, hf, BalanceOp.release.apply_constrained hb hc hle, hs, rfl⟩
      exact ⟨_, _, recordOutcome_of_outcome hh (.providerPermanentFailure hr) hd, _,
        (System.find?_deliveryWrite hd hh.job_found rfl job.id).trans (if_pos rfl), rfl⟩

/-- A recording that ends the delivery raises no check violation when the reservation covers the
cost. -/
theorem record_error (hh : Held db jobId w job message) (hr : result.Final)
    (hc : 0 < message.cost) (hf : db.balances.find? message.userId = some b) (hb : b.Constrained)
    (hle : message.cost ≤ b.reservedCredits) {jitter : Jitter} {now : Time} {e : Exn}
    (h : recordOutcome cfg jobId w result jitter now db = .error e) : e = .db .dataError := by
  have hm := MessageRepository.getForUpdate_ok.2 hh.message_found
  unfold recordOutcome at h
  simp only [hh.job_found, hh.dispatching, hh.locked_by, ne_eq, not_true, or_self, if_false] at h
  replace h := error_of_bind hm h
  rcases bind_eq_error.1 h with h | ⟨_, -, h⟩
  · rcases hr with ⟨hr, hp⟩ | hr
    · obtain ⟨pid, hp⟩ := Option.isSome_iff_exists.1 hp
      simp only [recordHeld, hr, hp] at h
      rcases bind_eq_error.1 h with h | ⟨_, -, h⟩
      · exact recordSuccess_error hc hf (BalanceOp.settle.apply_constrained hb hc hle) h
      · cases h
    · simp only [recordHeld, hr] at h
      rcases bind_eq_error.1 h with h | ⟨_, -, h⟩
      · exact permanentlyFail_error hc hf (BalanceOp.release.apply_constrained hb hc hle) h
      · cases h
  · cases h

end Record

/-! ## Runs -/

namespace Interleaved

variable {s : Settings} {f : Interleaved}

/-- What a recording needs of the state : the money is accounted for, and every row can be
written again. -/
structure Covered (f : Interleaved) : Prop where
  accounted : f.db.Accounted
  wellFormed : ∀ j ∈ f.db.jobs, j.WellFormed

theorem step_wellFormed (h : ∀ j ∈ f.db.jobs, j.WellFormed) (a : Time × InterleavedAct) :
    ∀ j ∈ (f.step s a).db.jobs, j.WellFormed := by
  obtain ⟨now, a⟩ := a
  cases a with
  | act b =>
    intro j hj
    obtain ⟨es, -, hmove⟩ := System.step_moves s f.toSystem (now, b) j.id
    exact hmove.wellFormed (fun j hj => h j (Table.find?_eq_some.1 hj).1) j (Table.find?_key hj)
  | select p scan => exact h
  | write i =>
    simp only [step, write]
    split
    · exact h
    · rename_i sel _
      intro j hj
      replace hj : j ∈ f.db.jobs.updateWhere (fun j => j.id ∈ [sel.seen.id]) (reclaimRow sel.now)
        fun _ _ => rfl := hj
      obtain ⟨x, hx, rfl⟩ := Table.mem_updateWhere.1 hj
      split_ifs
      · exact ⟨fun _ => ⟨.waiting, Or.inr rfl, rfl⟩, (h x hx).writable⟩
      · exact h x hx

theorem step_covered (h : f.Covered) (a : Time × InterleavedAct) : (f.step s a).Covered :=
  ⟨step_accounted a h.accounted, step_wellFormed h.wellFormed a⟩

theorem debugStep_covered (a : Time × DebugAct) (ha : f.zeroesNoReservation a = true)
    (h : f.Covered) : (f.debugStep s a).Covered := by
  obtain ⟨now, a⟩ := a
  cases a with
  | act b => exact step_covered h (now, b)
  | zeroUserCredits userId =>
    simp only [debugStep]
    cases hz : BalanceUseCase.zeroUserCredits userId f.db with
    | error e => exact ⟨h.accounted, h.wellFormed⟩
    | ok db' =>
      simp only [BalanceUseCase.zeroUserCredits, BalanceRepository.zeroUserCredits, bind_eq_ok,
        BalanceRepository.getByUserId_ok, pure, Except.pure, Except.ok.injEq,
        Db.writeBalance_ok] at hz
      obtain ⟨_, ⟨b, hf, rfl⟩, hcon, rfl⟩ := hz
      obtain ⟨hb, rfl⟩ := Table.find?_eq_some.1 hf
      refine ⟨h.accounted.putBalance hb rfl hcon ?_, h.wellFormed⟩
      -- the user has no reserved message, so nothing is held
      refine Eq.symm (List.sum_eq_zero fun c hc => ?_)
      obtain ⟨m, hm, -⟩ := List.mem_map.1 hc
      obtain ⟨hm, hr⟩ := List.mem_filter.1 hm
      have hnone := List.all_eq_true.1 ha m hm
      simp only [hr, Bool.not_true, Bool.false_eq_true] at hnone

end Interleaved

/-- In every state of a run that zeroes no balance under a reserved message, a recording of a
success or of a permanent failure by the worker that holds the job passes the balance's checks,
and ends the job when the provider's texts fit. -/
theorem recordings_commit (s : Settings) (acts : List (Time × DebugAct))
    (hacts : AllSteps (Interleaved.debugStep s) (fun f a => f.zeroesNoReservation a = true) {} acts)
    {jobId : UUID} {w : OwnerId} {job : DispatchJob} {message : Message} {result : ProviderResult}
    (hh : Held (Interleaved.debugAfter s acts).db jobId w job message) (hr : result.Final)
    (jitter : Jitter) (now : Time) :
    let record := recordOutcome s.dispatchConfig jobId w result jitter now
      (Interleaved.debugAfter s acts).db
    (∀ c, record ≠ .error (.db (.checkViolation c))) ∧
      (result.fits = true → ∃ db' r, record = .ok (db', some (message.id, r)) ∧
        ∃ job', db'.jobs.find? jobId = some job' ∧ job'.status.terminal = true) := by
  have hcov : (Interleaved.debugAfter s acts).Covered :=
    AllSteps.invariant (fun f a ha h => Interleaved.debugStep_covered a ha h) acts hacts
      ⟨Db.consistent_empty.toAccounted, by simp [Db.empty]⟩
  have hacc := hcov.accounted
  obtain ⟨hj, -⟩ := Table.find?_eq_some.1 hh.job_found
  obtain ⟨hm, hi⟩ := Table.find?_eq_some.1 hh.message_found
  obtain ⟨u, hu, hui⟩ := hacc.constrained.message_user message hm
  obtain ⟨b, hb, hbi⟩ := hacc.user_balance u hu
  have hres := hacc.in_flight job hj message hm hi.symm hh.dispatching
  have hle : message.cost ≤ b.reservedCredits := by
    rw [hacc.reserved b hb, hbi, hui]
    exact hacc.cost_le_reserved hm hres
  have hc := hacc.constrained.message_cost message hm
  have hcon := hacc.constrained.balance b hb
  have hf : (Interleaved.debugAfter s acts).db.balances.find? message.userId = some b :=
    Table.find?_eq_some.2 ⟨hb, hbi.trans hui⟩
  refine ⟨fun c he => ?_, fun hfit => ?_⟩
  · exact absurd (record_error hh hr hc hf hcon hle he) (by simp)
  · exact (record_commits_iff hh hr hfit (hcov.wellFormed job hj).writable hc hf hcon jitter now).2
      hle

/-- The submission of `publishedSample`. -/
def sampleSubmission : Submission :=
  ⟨⟨1, "09121234567", "hello", .normal, 7⟩, ⟨10, 20⟩, 0⟩

/-- A balance is zeroed before its user submits a message, which a worker then delivers. -/
def zeroedFirstSample : List (Time × DebugAct) :=
  (0, .act (.act (.api (.createUser 1 "user")))) :: (0, .zeroUserCredits 1) ::
    (publishedSample.drop 1).map (fun a => (a.1, .act (.act a.2))) ++
      [(0, .act (.act (.claim 5 20)))]

theorem recordings_commit_sample :
    ∃ db' r, recordOutcome (Settings.dispatchConfig {}) 20 5 System.success 0 0
      (Interleaved.debugAfter {} zeroedFirstSample).db = .ok (db', some (10, r)) ∧
        ∃ job', db'.jobs.find? 20 = some job' ∧ job'.status.terminal = true := by
  have hjob : (Interleaved.debugAfter {} zeroedFirstSample).db.jobs.find? 20 =
      some (markDispatching 5 0 (publishedRow 0 (MessageUseCase.newJob {} sampleSubmission))) := by
    decide +kernel
  have hmessage : (Interleaved.debugAfter {} zeroedFirstSample).db.messages.find? 10 =
      some (MessageRepository.markDispatching 0
        (MessageUseCase.newMessage {} sampleSubmission)) := by
    decide +kernel
  exact (recordings_commit {} zeroedFirstSample (by decide +kernel) ⟨hjob, rfl, rfl, hmessage⟩
    (Or.inl ⟨rfl, rfl⟩) 0 0).2 (by decide +kernel)

/-- A worker has the job of a published message, and the balance of its user is zeroed. -/
def zeroedSample : List (Time × DebugAct) :=
  (publishedSample.map fun a => (a.1, .act (.act a.2))) ++
    [(0, .act (.act (.claim 5 20))), (0, .zeroUserCredits 1)]

/-- A provider refuses for good. -/
def failure : ProviderResult :=
  ⟨.permanentFailure, none, none⟩

/-- Neither outcome of the delivery can be recorded. -/
theorem zeroed_reservation :
    (∃ job message, Held (Interleaved.debugAfter {} zeroedSample).db 20 5 job message) ∧
      System.success.Final ∧ failure.Final ∧
      ∀ result ∈ [System.success, failure], ∃ c,
        recordOutcome (Settings.dispatchConfig {}) 20 5 result 0 0
          (Interleaved.debugAfter {} zeroedSample).db = .error (.db (.checkViolation c)) := by
  have hjob : (Interleaved.debugAfter {} zeroedSample).db.jobs.find? 20 = some (markDispatching 5 0
      (publishedRow 0 (MessageUseCase.newJob {} sampleSubmission))) := by
    decide +kernel
  have hmessage : (Interleaved.debugAfter {} zeroedSample).db.messages.find? 10 =
      some (MessageRepository.markDispatching 0
        (MessageUseCase.newMessage {} sampleSubmission)) := by
    decide +kernel
  have hsettle : errorOf (recordOutcome (Settings.dispatchConfig {}) 20 5 System.success 0 0
      (Interleaved.debugAfter {} zeroedSample).db) =
        some (.db (.checkViolation .checkCreditsNonNegative)) := by
    decide +kernel
  have hrelease : errorOf (recordOutcome (Settings.dispatchConfig {}) 20 5 failure 0 0
      (Interleaved.debugAfter {} zeroedSample).db) =
        some (.db (.checkViolation .checkReservedCreditsNonNegative)) := by
    decide +kernel
  refine ⟨⟨_, _, hjob, rfl, rfl, hmessage⟩, Or.inl ⟨rfl, rfl⟩, Or.inr rfl, ?_⟩
  intro result hr
  simp only [List.mem_cons, List.not_mem_nil, or_false] at hr
  rcases hr with rfl | rfl
  · exact ⟨_, errorOf_eq_some.1 hsettle⟩
  · exact ⟨_, errorOf_eq_some.1 hrelease⟩

end Abrio
