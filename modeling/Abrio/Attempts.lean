import Abrio.Calls
import Abrio.Leases
import Abrio.Zeroing

/-!
# The attempt limit

The limit on the deliveries of a job is tested in one place, the temporary-failure branch of
phase 3 : the last failure retires the job. A worker that dies never gets there. Its job is
reclaimed by a sweep, which raises `delivery_attempts` without a test, or taken over by
another worker, which does not raise it at all; phase 1 claims it whatever the counter says.
So `bounded_attempts` has three parts, for runs in which sweeps select and write apart :

* a job is sent at most `max_delivery_attempts` times as long as no worker takes over a
  delivery of it and no sweep reclaims its last one;
* claimed that often it is retired, or in its last delivery with the worker at it, if every
  delivery of it records its outcome;
* if none does it is never retired, but by the deadline of an express message.

`attempts_not_bounded` has runs with one attempt too many.
-/

open Relational Runs

namespace Abrio

open DispatchJobRepository DispatchUseCase

/-! ## Claims and sends -/

/-- A worker has claimed the job for delivery. -/
def Event.isClaim : Event → Bool
  | .claimed _ _ _ => true
  | _ => false

/-- The provider has been called. -/
def Event.isSend : Event → Bool
  | .sent _ _ => true
  | _ => false

namespace System

variable (s : Settings) (sys : System) (id : UUID)

/-- How often a worker has claimed the job for delivery. -/
def claims : ℕ :=
  (sys.jobLog id).countP Event.isClaim

/-- How often `provider.send` was invoked for the job. -/
def sends : ℕ :=
  (sys.jobLog id).countP Event.isSend

/-- Whether a call has claimed the job and not invoked the provider. -/
def delivering (p : Process) : ℕ :=
  match p.state with
  | .delivering _ => if p.jobId = id then 1 else 0
  | _ => 0

/-- Every call to the provider follows a claim of its own. -/
def SendsCovered : Prop :=
  sys.sends id + (sys.processes.rows.map (delivering id)).sum ≤ sys.claims id

variable {s sys id}

theorem sends_append (log : List Event) : ({ sys with log := sys.log ++ log } : System).sends id =
    sys.sends id + (log.filter fun e => e.jobId = id).countP Event.isSend := by
  rw [sends, jobLog_append, List.countP_append]
  rfl

theorem claims_append (log : List Event) : ({ sys with log := sys.log ++ log } : System).claims id =
    sys.claims id + (log.filter fun e => e.jobId = id).countP Event.isClaim := by
  rw [claims, jobLog_append, List.countP_append]
  rfl

/-- Events that are no sends. -/
theorem SendsCovered.append (h : sys.SendsCovered id) {log : List Event}
    (hs : ∀ e ∈ log, e.isSend = false) :
    ({ sys with log := sys.log ++ log } : System).SendsCovered id := by
  have hsend : (log.filter fun e => e.jobId = id).countP Event.isSend = 0 :=
    List.countP_eq_zero.2 fun e he => by simp [hs e (List.mem_filter.1 he).1]
  unfold SendsCovered at h ⊢
  rw [sends_append, claims_append, hsend]
  exact Nat.le_add_right_of_le h

/-- A call that is over. -/
theorem SendsCovered.ended (h : sys.SendsCovered id) {w : OwnerId} {jobId : UUID}
    {state : ProcessState} (hp : sys.processes.find? w = some ⟨w, jobId, state⟩) :
    ({ sys with processes := sys.processes.put ⟨w, jobId, .ended⟩ } : System).SendsCovered id := by
  have hsum := Table.sum_put (delivering id) (Table.find?_eq_some.1 hp).1
    (r := (⟨w, jobId, .ended⟩ : Process)) rfl
  have h' : sys.sends id + (sys.processes.rows.map (delivering id)).sum ≤ sys.claims id := h
  have hzero : delivering id ⟨w, jobId, .ended⟩ = 0 := rfl
  show sys.sends id + ((sys.processes.put ⟨w, jobId, .ended⟩).rows.map (delivering id)).sum ≤
    sys.claims id
  omega

theorem SendsCovered.claim (h : sys.SendsCovered id) (now : Time) (w : OwnerId) (jobId : UUID) :
    (sys.claim s now w jobId).SendsCovered id := by
  rcases sys.claim_cases s now w jobId with he | ⟨db', c, processes, -, hi, he⟩ <;> rw [he]
  · exact h
  have hsum := Table.sum_insert (delivering id) hi
  show ({ sys with log := sys.log ++ (claimEnd now jobId w c).2 } : System).sends id +
    (processes.rows.map (delivering id)).sum ≤
      ({ sys with log := sys.log ++ (claimEnd now jobId w c).2 } : System).claims id
  unfold SendsCovered at h
  rw [sends_append, claims_append, hsum]
  cases c with
  | nothing => simpa [claimEnd, delivering] using h
  | expired messageId =>
    by_cases hid : jobId = id <;>
      simpa [claimEnd, delivering, Event.jobId, hid, Event.isClaim, Event.isSend] using h
  | delivery context =>
    by_cases hid : jobId = id
    · simp [claimEnd, delivering, Event.jobId, hid, Event.isClaim, Event.isSend]
      omega
    · simpa [claimEnd, delivering, Event.jobId, hid] using h

theorem SendsCovered.send (h : sys.SendsCovered id) (w : OwnerId) (result : ProviderResult) :
    (sys.send w result).SendsCovered id := by
  rcases sys.send_cases w result with he | ⟨jobId, context, hp, he⟩ <;> rw [he]
  · exact h
  have hsum := Table.sum_put (delivering id) (Table.find?_eq_some.1 hp).1
    (r := (⟨w, jobId, .answered result⟩ : Process)) rfl
  show ({ sys with log := sys.log ++ [.sent jobId w] } : System).sends id +
    ((sys.processes.put ⟨w, jobId, .answered result⟩).rows.map (delivering id)).sum ≤
      ({ sys with log := sys.log ++ [.sent jobId w] } : System).claims id
  have hs : ([Event.sent jobId w].filter fun e => e.jobId = id).countP Event.isSend =
      if jobId = id then 1 else 0 := by
    by_cases hid : jobId = id <;> simp [Event.jobId, Event.isSend, hid]
  have hc : ([Event.sent jobId w].filter fun e => e.jobId = id).countP Event.isClaim = 0 := by
    by_cases hid : jobId = id <;> simp [Event.jobId, Event.isClaim, hid]
  unfold SendsCovered at h
  rw [sends_append, claims_append, hs, hc]
  simp only [delivering] at hsum
  omega

theorem SendsCovered.record (h : sys.SendsCovered id) (now : Time) (w : OwnerId)
    (jitter : Jitter) : (sys.record s now w jitter).SendsCovered id := by
  rcases sys.record_cases s now w jitter with
    he | ⟨jobId, result, hp, he | ⟨db', recorded, -, he⟩⟩ <;> rw [he]
  · exact h
  · exact h.ended hp
  · have hs : ∀ e ∈ recordEnd jobId w recorded, e.isSend = false := by
      cases recorded <;> simp [recordEnd, Event.isSend]
    exact (h.ended hp).append hs

theorem SendsCovered.step (h : sys.SendsCovered id) (a : Time × Act) :
    (sys.step s a).SendsCovered id := by
  have hact : (sys.act s a.1 a.2).SendsCovered id := by
    obtain ⟨now, a⟩ := a
    cases a with
    | api t => exact h
    | reap p scan => exact h.append (by simp [Event.isSend])
    | relayClaim r p scans =>
      rcases sys.relayClaim_cases s now r p scans with he | ⟨_, he⟩ <;> rw [act, he] <;> exact h
    | publish r accepts delivered =>
      obtain ⟨_, _, he⟩ := sys.publish_cases r accepts delivered
      rw [act, he]
      exact h
    | relayRecord r error jitter =>
      rcases sys.relayRecord_cases now r error jitter with he | ⟨_, _, _, he⟩ <;> rw [act, he] <;>
        exact h
    | relayCrash r => exact h
    | dropTask jobId => exact h
    | claim w jobId => exact h.claim now w jobId
    | send w result => exact h.send w result
    | record w jitter => exact h.record now w jitter
    | workerCrash w =>
      rcases sys.workerCrash_cases w with he | ⟨jobId, state, hp, he⟩ <;> rw [act, he]
      · exact h
      · exact h.ended hp
  exact hact

end System

namespace Interleaved

theorem step_sendsCovered {s : Settings} {f : Interleaved} {id : UUID}
    (h : f.toSystem.SendsCovered id) (a : Time × InterleavedAct) :
    (f.step s a).toSystem.SendsCovered id := by
  obtain ⟨now, a⟩ := a
  cases a with
  | act b => exact h.step (now, b)
  | select p scan => exact h
  | write i =>
    simp only [step, write]
    split
    · exact h
    · exact h.append (by simp [Event.isSend])

/-- The provider is not invoked more often for a job than workers claimed it. -/
theorem sends_le_claims (s : Settings) (acts : List (Time × InterleavedAct)) (id : UUID) :
    (after s acts).sends id ≤ (after s acts).claims id := by
  have h : (after s acts).toSystem.SendsCovered id :=
    run_induction (P := fun f : Interleaved => f.toSystem.SendsCovered id)
      (fun _ a h => step_sendsCovered h a) acts
      (by simp [System.SendsCovered, System.sends, System.claims, System.jobLog, Table.empty])
  exact (Nat.le_add_right _ _).trans h

end Interleaved

/-! ## Answers that can be recorded -/

/-- The answer can be recorded : a success has an id, and the texts fit. -/
def ProviderResult.recordable (result : ProviderResult) : Bool :=
  (result.outcome ≠ .success || result.providerMessageId.isSome) && result.fits

/-- A call that has an answer has one that can be recorded. -/
def ProcessState.recordable : ProcessState → Bool
  | .answered result => result.recordable
  | _ => true

theorem storableText_errorOr {result : ProviderResult} (h : result.fits = true)
    {fallback : String} (hf : storableText (truncateError fallback) = true) :
    storableText (truncateError (result.errorOr fallback)) = true := by
  simp only [ProviderResult.fits, Bool.and_eq_true] at h
  have hfits := h.2
  unfold ProviderResult.errorOr at hfits ⊢
  split at hfits
  · split_ifs at hfits ⊢
    · exact hf
    · exact hfits
  · exact hf

namespace DispatchUseCase

variable (cfg : DispatchConfig) {db : Db} {job : DispatchJob} {message : Message}
  {result : ProviderResult}

/-- Such an answer has an outcome, which fits the job's row. -/
theorem exists_outcome (message : Message) (hr : result.recordable = true) (hw : job.Writable)
    (jitter : Jitter) (now : Time) :
    ∃ r message' job', Outcome cfg result jitter now job message r message' job' ∧
      job'.storable = true := by
  simp only [ProviderResult.recordable, Bool.and_eq_true, Bool.or_eq_true] at hr
  obtain ⟨hid, hfits⟩ := hr
  have hpid : result.providerMessageId.all (storableVarchar 255) = true := by
    simp only [ProviderResult.fits, Bool.and_eq_true] at hfits
    exact hfits.1
  cases ho : result.outcome with
  | success =>
    obtain ⟨pid, hp⟩ := Option.isSome_iff_exists.1 (hid.resolve_left (by simp [ho]))
    exact ⟨_, _, _, .succeeded pid ho hp, hw.markCompleted now (by simpa [hp] using hpid)⟩
  | permanentFailure =>
    exact ⟨_, _, _, .providerPermanentFailure ho,
      hw.markFailed now (storableText_errorOr hfits (by decide +kernel))⟩
  | temporaryFailure =>
    by_cases ha : cfg.maxDeliveryAttempts ≤ job.deliveryAttempts + 1
    · exact ⟨_, _, _, .maxDeliveryAttemptsReached ho ha,
        hw.markFailed now (storableText_errorOr hfits (by decide +kernel))⟩
    · by_cases hx : expressDeadlineExceeded cfg now message
          (calculateBackoff (job.deliveryAttempts + 1) jitter) = true
      · exact ⟨_, _, _, .expressDeadlineExceeded ho (not_le.1 ha) hx,
          hw.markFailed now (by decide +kernel)⟩
      · exact ⟨_, _, _, .providerTemporaryFailure ho (not_le.1 ha) (by simpa using hx),
          hw.markDeliveryRetry now _ (storableText_errorOr hfits (by decide +kernel))⟩

/-- The call that holds a job records such an answer, and the delivery is over. -/
theorem exists_recorded {jobId : UUID} {w : OwnerId} (h : db.Accounted)
    (hh : Held db jobId w job message) (hw : job.Writable) (hr : result.recordable = true)
    (jitter : Jitter) (now : Time) :
    ∃ db' r job', recordOutcome cfg jobId w result jitter now db = .ok (db', some (message.id, r)) ∧
      db'.jobs.find? jobId = some job' ∧ job'.status ≠ .dispatching := by
  obtain ⟨hj, rfl⟩ := Table.find?_eq_some.1 hh.job_found
  obtain ⟨hm, hi⟩ := Table.find?_eq_some.1 hh.message_found
  have hres := h.in_flight job hj message hm hi.symm hh.dispatching
  obtain ⟨r, message', job', ho, hs⟩ := exists_outcome cfg message hr hw jitter now
  have hd : ∃ db', DeliveryWrite db r.balanceOp message' job' db' := by
    cases hop : r.balanceOp with
    | none => exact ⟨_, DeliveryWrite.of_none.2 ⟨hs, rfl⟩⟩
    | some op => exact h.exists_deliveryWrite message' hm hres ho.moved.message_original hs op
  obtain ⟨db', hd⟩ := hd
  have hrow := System.find?_deliveryWrite hd hh.job_found
    (DispatchJob.id_eq ho.moved.job_original) job.id
  exact ⟨db', r, job', recordOutcome_of_outcome hh ho hd, hrow.trans (if_pos rfl),
    ho.not_dispatching⟩

end DispatchUseCase

/-! ## Conditions on a step -/

namespace Interleaved

variable (s : Settings) (id : UUID) (f : Interleaved) (a : Time × InterleavedAct)

/-- A worker takes over a delivery of job `id`. -/
def takesOver : Bool :=
  match a.2 with
  | .act (.claim _ jobId) => jobId = id && (f.db.jobs.find? id).any fun j =>
      j.status = .dispatching && isClaimable s.dispatchConfig a.1 j
  | _ => false

/-- No worker takes over a delivery of job `id`, and a sweep changes it only before its
deliveries and between them, or while there is another attempt left. -/
def withinLimit : Bool :=
  !f.takesOver s id a && (f.swept a).all fun j => j.id ≠ id ||
    (!j.status.terminal &&
      (j.status ≠ .dispatching || j.deliveryAttempts + 1 < s.maxDeliveryAttempts))

/-- A call that delivers job `id` dies, or gets an answer that cannot be recorded. -/
def losesCall : Bool :=
  match a.2 with
  | .act (.workerCrash w) =>
    (f.processes.find? w).any fun p => p.jobId = id && p.state ≠ .ended
  | .act (.record w _) =>
    (f.processes.find? w).any fun p => p.jobId = id && !p.state.recordable
  | _ => false

/-- Every delivery of job `id` records its outcome : its call is not lost, no worker takes it
over, and no sweep changes a delivery or what is left of one. -/
def recordsDeliveries : Bool :=
  !f.takesOver s id a && !f.losesCall id a && (f.swept a).all fun j => j.id ≠ id ||
    (!j.status.terminal && j.status ≠ .dispatching)

/-- No call gets to record an outcome of job `id`. -/
def recordsNothing : Bool :=
  match a.2 with
  | .act (.record w _) => (f.processes.find? w).all fun p => p.jobId ≠ id
  | _ => true

end Interleaved

/-! ## The bound -/

/-- A delivery that is in progress or over, and not counted as failed. -/
def DispatchJob.delivery (j : DispatchJob) : ℕ :=
  if j.status = .dispatching ∨ j.status.terminal = true then 1 else 0

/-- What the log of a job within the limit says of its attempts. -/
structure LimitInv (s : Settings) (row : Option DispatchJob) (log : List Event) : Prop where
  fresh : row = none → log.countP Event.isClaim = 0
  claims : ∀ j, row = some j → log.countP Event.isClaim ≤ j.deliveryAttempts + j.delivery
  spare : ∀ j, row = some j → j.status.terminal = false → j.status ≠ .dispatching →
    log.countP Event.isClaim < s.maxDeliveryAttempts
  limit : log.countP Event.isClaim ≤ s.maxDeliveryAttempts

namespace LimitInv

variable {s : Settings} {log : List Event} {j j' : DispatchJob}

/-- A move without a claim. -/
theorem keep (h : LimitInv s (some j) log) {e : List Event} (he : e.countP Event.isClaim = 0)
    (hd : j.deliveryAttempts + j.delivery ≤ j'.deliveryAttempts + j'.delivery)
    (hs : j'.status.terminal = false → j'.status ≠ .dispatching →
      log.countP Event.isClaim < s.maxDeliveryAttempts) : LimitInv s (some j') (log ++ e) := by
  have hcount : (log ++ e).countP Event.isClaim = log.countP Event.isClaim := by
    rw [List.countP_append, he, add_zero]
  refine ⟨by simp, fun k hk => ?_, fun k hk hkt hkd => ?_, hcount ▸ h.limit⟩
  · cases hk
    have := h.claims j rfl
    omega
  · cases hk
    rw [hcount]
    exact hs hkt hkd

/-- A move of a job that is out of delivery before. -/
theorem waiting (h : LimitInv s (some j) log) {e : List Event} (he : e.countP Event.isClaim = 0)
    (ht : j.status.terminal = false) (hd : j.status ≠ .dispatching)
    (ha : j.deliveryAttempts ≤ j'.deliveryAttempts) : LimitInv s (some j') (log ++ e) := by
  have hzero : j.delivery = 0 := by simp [DispatchJob.delivery, ht, hd]
  exact h.keep he (by omega) fun _ _ => h.spare j rfl ht hd

/-- A delivery that failed, and was not the last one allowed. -/
theorem failed (h : LimitInv s (some j) log) {e : List Event} (he : e.countP Event.isClaim = 0)
    (ha : j'.deliveryAttempts = j.deliveryAttempts + 1)
    (hlast : j.deliveryAttempts + 1 < s.maxDeliveryAttempts) :
    LimitInv s (some j') (log ++ e) := by
  have hclaims := h.claims j rfl
  have hone : j.delivery ≤ 1 := by
    unfold DispatchJob.delivery
    split_ifs <;> omega
  exact h.keep he (by omega) fun _ _ => by omega

/-- A move that ends the job. -/
theorem ended (h : LimitInv s (some j) log) {e : List Event} (he : e.countP Event.isClaim = 0)
    (ha : j'.deliveryAttempts = j.deliveryAttempts) (ht : j'.status.terminal = true) :
    LimitInv s (some j') (log ++ e) := by
  have hone : j.delivery ≤ 1 := by
    unfold DispatchJob.delivery
    split_ifs <;> omega
  have hone' : j'.delivery = 1 := by simp [DispatchJob.delivery, ht]
  exact h.keep he (by omega) fun hn => by simp [ht] at hn

/-- A claim of a job that is not in delivery. -/
theorem claimed (h : LimitInv s (some j) log) {e : Event} (ht : j.status.terminal = false)
    (hd : j.status ≠ .dispatching) (he : e.isClaim = true)
    (ha : j'.deliveryAttempts = j.deliveryAttempts) (hs : j'.status = .dispatching) :
    LimitInv s (some j') (log ++ [e]) := by
  have hcount : (log ++ [e]).countP Event.isClaim = log.countP Event.isClaim + 1 := by
    rw [List.countP_append, List.countP_singleton, if_pos he]
  have hspare := h.spare j rfl ht hd
  have hclaims := h.claims j rfl
  have hzero : j.delivery = 0 := by simp [DispatchJob.delivery, ht, hd]
  have hone : j'.delivery = 1 := by simp [DispatchJob.delivery, hs]
  refine ⟨by simp, fun k hk => ?_, fun k hk _ hkd => ?_, by omega⟩
  · cases hk
    omega
  · cases hk
    exact absurd hs hkd

/-- A sweep, in one statement or by a late write. -/
theorem swept (h : LimitInv s (some j) log) {k : DispatchJob} {now : Time}
    (ht : j.status.terminal = false)
    (hd : j.status = .dispatching → j.deliveryAttempts + 1 < s.maxDeliveryAttempts) :
    LimitInv s (some (reclaimRow now j)) (log ++ [.reclaimed k]) := by
  by_cases hs : j.status = .dispatching
  · exact h.failed rfl rfl (hd hs)
  · exact h.waiting rfl ht hs (Nat.le_succ _)

end LimitInv

namespace Interleaved

variable {s : Settings} {id : UUID} {f : Interleaved} {a : Time × InterleavedAct}

theorem takesOver_eq_false {now : Time} {w : OwnerId} {j : DispatchJob}
    (hj : f.db.jobs.find? id = some j) (hc : isClaimable s.dispatchConfig now j = true)
    (h : f.takesOver s id (now, .act (.claim w id)) = false) : j.status ≠ .dispatching := by
  intro hd
  simp [takesOver, hj, hd, hc] at h

/-- Every move within the limit keeps the invariant. -/
theorem limitInv_move (hw : f.withinLimit s id a = true) {row' : Option DispatchJob}
    {es : List Event} (hm : InterleavedMove s f id a.1 a.2 (f.db.jobs.find? id) es row')
    (h : LimitInv s (f.db.jobs.find? id) (f.jobLog id)) :
    LimitInv s row' (f.jobLog id ++ es) := by
  obtain ⟨now, a⟩ := a
  simp only [withinLimit, Bool.and_eq_true, Bool.not_eq_true', List.all_eq_true] at hw
  obtain ⟨htake, hsweep⟩ := hw
  have hswept : ∀ j ∈ f.swept (now, a), j.id = id → j.status.terminal = false ∧
      (j.status = .dispatching → j.deliveryAttempts + 1 < s.maxDeliveryAttempts) := by
    intro j hj hid
    have := hsweep j hj
    simp only [hid, ne_eq, not_true_eq_false, decide_false, Bool.false_or, Bool.and_eq_true,
      Bool.not_eq_true', Bool.or_eq_true, decide_eq_true_eq] at this
    exact ⟨this.1, fun hd => this.2.resolve_left (not_not.2 hd)⟩
  generalize hrow : f.db.jobs.find? id = row at hm h
  cases hm with
  | same => simpa using h
  | write selected job =>
    subst job
    cases row with
    | none => exact ⟨fun _ => by simpa [Event.isClaim] using h.fresh rfl, by simp, by simp,
        by simpa [Event.isClaim] using h.limit⟩
    | some j =>
      obtain ⟨ht, hd⟩ := hswept j (mem_swept_write selected hrow) (Table.find?_eq_some.1 hrow).2
      exact h.swept ht hd
  | act move =>
    cases move with
    | same => simpa using h
    | sent =>
      exact ⟨fun hn => by simpa [Event.isClaim] using h.fresh hn,
        fun j hj => by simpa [Event.isClaim] using h.claims j hj,
        fun j hj ht hd => by simpa [Event.isClaim] using h.spare j hj ht hd,
        by simpa [Event.isClaim] using h.limit⟩
    | created storable =>
      have hfresh := h.fresh rfl
      have hpos : 0 < s.maxDeliveryAttempts := s.maxDeliveryAttempts_pos
      exact ⟨by simp, by simp [hfresh], by simp [hfresh, hpos], by simp [hfresh]⟩
    | row hmove =>
      rename_i j j'
      obtain ⟨-, rfl⟩ := Table.find?_eq_some.1 hrow
      cases hmove with
      | locked due =>
        have hp := (eligible_iff.1 due).2.1
        exact h.waiting rfl (not_terminal_of_publishable hp) (not_dispatching_of_publishable hp)
          le_rfl
      | published isOpen locked_by =>
        exact h.waiting rfl (not_terminal_of_publishable isOpen)
          (not_dispatching_of_publishable isOpen) le_rfl
      | publishRetry isOpen locked_by =>
        exact h.waiting rfl (not_terminal_of_publishable isOpen)
          (not_dispatching_of_publishable isOpen) le_rfl
      | reclaimed taken =>
        obtain ⟨ht, hd⟩ := hswept j taken rfl
        exact h.swept ht hd
      | expired not_terminal claimable storable => exact h.ended rfl rfl rfl
      | claimed not_terminal claimable storable =>
        exact h.claimed not_terminal (takesOver_eq_false hrow claimable htake) rfl rfl rfl
      | recorded dispatching locked_by outcome storable =>
        cases outcome with
        | providerTemporaryFailure failed attempts in_time => exact h.failed rfl rfl attempts
        | _ => exact h.ended rfl rfl rfl

theorem run_limitInv (s : Settings) (id : UUID) {acts : List (Time × InterleavedAct)}
    (h : AllSteps (step s) (fun f a => f.withinLimit s id a = true) {} acts) :
    LimitInv s ((after s acts).db.jobs.find? id) ((after s acts).jobLog id) :=
  job_invariant (P := fun row log => LimitInv s row log)
    (fun _ _ _ _ hw hm h => limitInv_move hw hm h) acts h
    ⟨fun _ => rfl, fun _ hj => (by cases hj), fun _ hj => (by cases hj), Nat.zero_le _⟩

end Interleaved

/-! ## The retirement -/

/-- The job is in delivery, and the call of the worker that has it goes on. -/
def System.AtWork (sys : System) (j : DispatchJob) : Prop :=
  j.status = .dispatching ∧ ∃ w state, j.lockedBy = some w ∧
    sys.processes.find? w = some ⟨w, j.id, state⟩ ∧ state ≠ .ended

/-- A delivery of job `id` in progress has its worker at it. -/
def System.Attended (id : UUID) (sys : System) : Prop :=
  ∀ j, sys.db.jobs.find? id = some j → j.status = .dispatching → sys.AtWork j

/-- A job that is in delivery after an act other than a claim was before. -/
theorem JobMove.eq_of_dispatching {s : Settings} {sys : System} {now : Time} {a : Act}
    {row : Option DispatchJob} {j' : DispatchJob} {es : List Event}
    (h : JobMove s sys now a row es (some j')) (hd : j'.status = .dispatching)
    (ha : ∀ w jobId, a ≠ .claim w jobId) : row = some j' := by
  cases h with
  | same => rfl
  | sent => rfl
  | created storable => cases hd
  | row hmove =>
    cases hmove with
    | locked due =>
      exact absurd hd (not_dispatching_of_publishable (eligible_iff.1 due).2.1)
    | published isOpen locked_by => cases hd
    | publishRetry isOpen locked_by => cases hd
    | reclaimed taken => cases hd
    | expired not_terminal claimable storable => cases hd
    | claimed not_terminal claimable storable => exact absurd rfl (ha _ _)
    | recorded dispatching locked_by outcome storable => exact absurd hd outcome.not_dispatching

namespace System

variable {s : Settings} {now : Time} {sys : System} {id : UUID}

theorem Attended.claim (h : sys.Attended id) (w : OwnerId) (jobId : UUID) :
    (sys.claim s now w jobId).Attended id := by
  rcases sys.claim_cases s now w jobId with he | ⟨db', c, processes, hc, hins, he⟩ <;> rw [he]
  · exact h
  have hkeep : ∀ {w' p}, sys.processes.find? w' = some p → processes.find? w' = some p := by
    intro w' p hp
    rw [Table.find?_insert hins, if_neg, hp]
    rintro rfl
    exact Table.key_ne_of_insert hins (Table.find?_eq_some.1 hp).1 (Table.find?_eq_some.1 hp).2
  have hold : ∀ j, sys.db.jobs.find? id = some j → j.status = .dispatching →
      ({ sys with db := db', processes, log := sys.log ++ (claimEnd now jobId w c).2 } :
        System).AtWork j := by
    intro j hj hd
    obtain ⟨-, w', state, hw, hp, hs⟩ := h j hj hd
    exact ⟨hd, w', state, hw, hkeep hp, hs⟩
  rcases claimForDelivery_ok hc with
    ⟨-, rfl⟩ | ⟨job, message, op, message', job', hcl, hw, hd⟩
  · exact hold
  · obtain ⟨-, rfl⟩ := Table.find?_eq_some.1 hcl.job_found
    intro j hj hj'
    have hrow := find?_deliveryWrite hd hcl.job_found
      (DispatchJob.id_eq (hw.moved hcl.reserved).job_original) id
    have hfind : db'.jobs.find? id = some j := hj
    rw [hrow] at hfind
    split_ifs at hfind
    · obtain rfl := Option.some.inj hfind
      cases hw with
      | expired => cases hj'
      | delivery =>
        refine ⟨rfl, w, _, rfl, (Table.find?_insert hins w).trans (if_pos rfl), ?_⟩
        simp [claimEnd]
    · exact hold j hfind hj'

end System

namespace Interleaved

variable {s : Settings} {id : UUID} {f : Interleaved} {now : Time}

/-- A step of the system that loses no call of the job keeps it attended. -/
theorem attended_act (hcov : f.Covered) (h : f.toSystem.Attended id) {b : Act}
    (hl : f.losesCall id (now, .act b) = false) : (f.toSystem.step s (now, b)).Attended id := by
  by_cases hb : ∃ w jobId, b = .claim w jobId
  · obtain ⟨w, jobId, rfl⟩ := hb
    exact h.claim w jobId
  intro j hj hd
  obtain ⟨es, -, hm⟩ := System.step_moves s f.toSystem (now, b) id
  rw [hj] at hm
  have hrow := hm.eq_of_dispatching hd fun w jobId he => hb ⟨w, jobId, he⟩
  obtain ⟨-, w, state, hw, hp, hs⟩ := h j hrow hd
  obtain ⟨hmem, rfl⟩ := Table.find?_eq_some.1 hrow
  obtain ⟨es', -, hcall⟩ := System.step_calls s f.toSystem (now, b) w
  rw [hp] at hcall
  refine ⟨hd, w, ?_⟩
  generalize hp' : (f.toSystem.step s (now, b)).processes.find? w = p' at hcall
  cases hcall with
  | same => exact ⟨state, hw, rfl, hs⟩
  | sent => exact ⟨_, hw, rfl, by simp⟩
  | @recorded _ result jitter outcome =>
    -- the call holds the job and its answer can be recorded, so the delivery would be over
    have hr : result.recordable = true := by
      simpa [losesCall, hp, ProcessState.recordable] using hl
    obtain ⟨m, hm, hlink⟩ := hcov.accounted.message_of_job hmem
    have hheld : Held f.db j.id w j m :=
      ⟨hrow, hd, hw, Table.find?_eq_some.2 ⟨hm, hlink.messageId.symm⟩⟩
    obtain ⟨db', r, job', hrec, hjob', hnot⟩ := exists_recorded s.dispatchConfig
      hcov.accounted hheld (hcov.wellFormed j hmem).writable hr jitter now
    have hdb : (f.toSystem.step s (now, .record w jitter)).db = db' := by
      simp [System.step, System.act, System.record, hp, hrec]
    rw [hdb, hjob'] at hj
    obtain rfl := Option.some.inj hj
    exact absurd hd hnot
  | crashed => simp [losesCall, hp, hs] at hl

/-- What holds of job `id` along a run in which every delivery of it records its outcome. -/
structure RetireInv (s : Settings) (id : UUID) (f : Interleaved) : Prop where
  covered : f.Covered
  limit : LimitInv s (f.db.jobs.find? id) (f.jobLog id)
  attended : f.toSystem.Attended id
  agree : f.db.ForLinked fun j m => j.id = id → StatusAgree j m

theorem attended_step {a : Time × InterleavedAct} (hcov : f.Covered)
    (h : f.toSystem.Attended id) (hl : f.losesCall id a = false) :
    (f.step s a).toSystem.Attended id := by
  obtain ⟨now, a⟩ := a
  cases a with
  | act b => exact attended_act hcov h hl
  | select p scan => exact h
  | write i =>
    intro j hj hd
    have hprocesses : (f.step s (now, .write i)).processes = f.processes := by
      simp only [step, write]
      split <;> rfl
    obtain ⟨es, -, hm⟩ := step_moves s f (now, .write i) id
    rw [show (f.step s (now, .write i)).db.jobs.find? id = some j from hj] at hm
    have hrow : f.db.jobs.find? id = some j := by
      generalize f.db.jobs.find? id = row at hm ⊢
      generalize hj' : some j = row' at hm ⊢
      cases hm with
      | same => rfl
      | write selected job =>
        obtain ⟨k, -, rfl⟩ := Option.map_eq_some_iff.1 hj'.symm
        cases hd
    obtain ⟨-, w, state, hw, hp, hs⟩ := h j hrow hd
    exact ⟨hd, w, state, hw, hprocesses ▸ hp, hs⟩

theorem withinLimit_of_recordsDeliveries {a : Time × InterleavedAct}
    (h : f.recordsDeliveries s id a = true) : f.withinLimit s id a = true := by
  simp only [recordsDeliveries, withinLimit, Bool.and_eq_true, List.all_eq_true] at h ⊢
  refine ⟨h.1.1, fun j hj => ?_⟩
  have := h.2 j hj
  simp only [Bool.or_eq_true, Bool.and_eq_true] at this ⊢
  exact this.imp_right fun ⟨ht, hd⟩ => ⟨ht, Or.inl hd⟩

theorem retireInv_step {a : Time × InterleavedAct} (hr : f.recordsDeliveries s id a = true)
    (h : RetireInv s id f) : RetireInv s id (f.step s a) := by
  have hlimit := withinLimit_of_recordsDeliveries hr
  simp only [recordsDeliveries, Bool.and_eq_true, Bool.not_eq_true', List.all_eq_true] at hr
  refine ⟨step_covered h.covered a, ?_, attended_step h.covered h.attended hr.1.2, ?_⟩
  · obtain ⟨es, hlog, hmove⟩ := step_moves s f a id
    rw [hlog]
    exact limitInv_move hlimit hmove h.limit
  · obtain ⟨now, a⟩ := a
    cases a with
    | act b =>
      have hq : ∀ j j' : DispatchJob, j'.original = j.original → j'.id = id → j.id = id :=
        fun j j' ho hi => (DispatchJob.id_eq ho).symm.trans hi
      have hpair : (f.toSystem.step s (now, b)).db.Accounted ∧
          (f.toSystem.step s (now, b)).db.ForLinked fun j m => j.id = id → StatusAgree j m :=
        System.step_preserves
          (P := fun db => db.Accounted ∧ db.ForLinked fun j m => j.id = id → StatusAgree j m)
          (fun _ _ hc h => ⟨h.1.change hc, h.1.agree_change hq h.2 hc⟩) (now, b)
          ⟨h.covered.accounted, h.agree⟩
      exact hpair.2
    | select p scan => exact h.agree
    | write i =>
      simp only [step, write]
      split
      · exact h.agree
      · rename_i sel hsel
        refine h.agree.updateJobs (fun _ => rfl) fun j hj hp m hm hid => (hm hid).of_open ?_ rfl
        have hseen : j.id = sel.seen.id := by simpa using hp
        have hswept := hr.2 j (mem_swept_write hsel (hseen ▸ Table.find?_key hj))
        have hj : j.id = id := hid
        simp only [hj, ne_eq, not_true_eq_false, decide_false, Bool.false_or, Bool.and_eq_true,
          Bool.not_eq_true'] at hswept
        exact hswept.1

theorem run_retireInv (s : Settings) (id : UUID) {acts : List (Time × InterleavedAct)}
    (h : AllSteps (step s) (fun f a => f.recordsDeliveries s id a = true) {} acts) :
    RetireInv s id (after s acts) :=
  AllSteps.invariant (P := RetireInv s id) (fun _ _ hr h => retireInv_step hr h) acts h
    ⟨⟨Db.consistent_empty.toAccounted, by simp [Db.empty]⟩,
      ⟨fun _ => rfl, fun _ hj => (by cases hj), fun _ hj => (by cases hj), Nat.zero_le _⟩,
      fun _ hj => (by cases hj), fun _ hj => (by simp [Db.empty] at hj)⟩

/-- The job has been given up for its deadline, if it is over. -/
def OnlyExpired (id : UUID) (row : Option DispatchJob) (log : List Event) : Prop :=
  ∀ j, row = some j → j.status.terminal = true →
    j.status = .failed ∧ ∃ w m, .expired id w m ∈ log

theorem onlyExpired_move {a : Time × InterleavedAct} (hr : f.recordsNothing id a = true)
    {row' : Option DispatchJob} {es : List Event}
    (hm : InterleavedMove s f id a.1 a.2 (f.db.jobs.find? id) es row')
    (h : OnlyExpired id (f.db.jobs.find? id) (f.jobLog id)) :
    OnlyExpired id row' (f.jobLog id ++ es) := by
  obtain ⟨now, a⟩ := a
  have hkeep : ∀ es, OnlyExpired id (f.db.jobs.find? id) (f.jobLog id ++ es) := fun es j hj ht =>
    let ⟨hf, w, m, hm⟩ := h j hj ht
    ⟨hf, w, m, List.mem_append_left _ hm⟩
  generalize hrow : f.db.jobs.find? id = row at hm hkeep
  intro j' hj' ht
  cases hm with
  | same => exact hkeep _ j' hj' ht
  | write selected job =>
    obtain ⟨j, -, rfl⟩ := Option.map_eq_some_iff.1 hj'
    cases ht
  | act move =>
    cases move with
    | same => exact hkeep _ j' hj' ht
    | sent => exact hkeep _ j' hj' ht
    | created storable =>
      cases hj'
      cases ht
    | row hmove =>
      rename_i j j'
      obtain ⟨-, rfl⟩ := Table.find?_eq_some.1 hrow
      cases hj'
      cases hmove with
      | locked due =>
        have hn := not_terminal_of_publishable (eligible_iff.1 due).2.1
        have ht' : j.status.terminal = true := ht
        rw [hn] at ht'
        cases ht'
      | published isOpen locked_by => cases ht
      | publishRetry isOpen locked_by => cases ht
      | reclaimed taken => cases ht
      | expired not_terminal claimable storable =>
        exact ⟨rfl, _, _, List.mem_append_right _ (List.mem_singleton.2 rfl)⟩
      | claimed not_terminal claimable storable => cases ht
      | recorded dispatching locked_by outcome storable called =>
        have hp : f.processes.find? _ = some _ := called
        simp [recordsNothing, hp] at hr

theorem run_onlyExpired (s : Settings) (id : UUID) {acts : List (Time × InterleavedAct)}
    (h : AllSteps (step s) (fun f a => f.recordsNothing id a = true) {} acts) :
    OnlyExpired id ((after s acts).db.jobs.find? id) ((after s acts).jobLog id) :=
  job_invariant (P := OnlyExpired id) (fun _ _ _ _ hr hm h => onlyExpired_move hr hm h) acts h
    fun _ hj => (by cases hj)

end Interleaved

/-- A job is sent at most `max_delivery_attempts` times as long as no worker takes over a
delivery of it and no sweep reclaims its last one. If every delivery of it records its outcome,
then once it has been claimed that often it is in its last delivery, or completed, or failed and
refunded. If none does it is never over, unless an express message's deadline has passed. -/
theorem bounded_attempts (s : Settings) (id : UUID) (acts : List (Time × InterleavedAct)) :
    let f := Interleaved.after s acts
    (AllSteps (Interleaved.step s) (fun f a => f.withinLimit s id a = true) {} acts →
      f.sends id ≤ s.maxDeliveryAttempts) ∧
    (AllSteps (Interleaved.step s) (fun f a => f.recordsDeliveries s id a = true) {} acts →
      ∀ j, f.db.jobs.find? id = some j → s.maxDeliveryAttempts ≤ f.claims id →
        f.AtWork j ∨ j.status = .completed ∨ (j.status = .failed ∧
          ∃ m ∈ f.db.messages, m.id = j.messageId ∧ m.paymentStatus = .refunded)) ∧
    (AllSteps (Interleaved.step s) (fun f a => f.recordsNothing id a = true) {} acts →
      ∀ j, f.db.jobs.find? id = some j → j.status.terminal = true →
        j.status = .failed ∧ ∃ w m, .expired id w m ∈ f.log) := by
  intro f
  refine ⟨fun h => ?_, fun h j hj hclaims => ?_, fun h j hj ht => ?_⟩
  · exact (Interleaved.sends_le_claims s acts id).trans (Interleaved.run_limitInv s id h).limit
  · have hinv := Interleaved.run_retireInv s id h
    by_cases hd : j.status = .dispatching
    · exact Or.inl (hinv.attended j hj hd)
    have hterm : j.status.terminal = true := by
      by_contra hn
      rw [Bool.not_eq_true] at hn
      exact absurd hclaims (not_le.2 (hinv.limit.spare j hj hn hd))
    obtain ⟨hmem, hid⟩ := Table.find?_eq_some.1 hj
    obtain ⟨m, hm, hl⟩ := hinv.covered.accounted.message_of_job hmem
    have hagree := hinv.agree j hmem m hm hl.messageId hid
    cases hs : j.status with
    | completed => exact Or.inr (Or.inl rfl)
    | failed =>
      exact Or.inr (Or.inr ⟨rfl, m, hm, hl.messageId.symm,
        hagree.refunded.1 (hagree.failed.1 hs)⟩)
    | _ =>
      rw [hs] at hterm
      cases hterm
  · obtain ⟨hf, w, m, hm⟩ := Interleaved.run_onlyExpired s id h j hj ht
    exact ⟨hf, w, m, (List.mem_filter.1 hm).1⟩

/-- The first attempt of a job fails. -/
def lastAttemptSample : List (Time × Act) :=
  publishedSample ++ [(0, .claim 5 20), (0, .send 5 ⟨.temporaryFailure, none, none⟩),
    (1, .record 5 0)]

/-- So does its second one. -/
def failedTwiceSample : List (Time × Act) :=
  lastAttemptSample ++ [(seconds 3, .relayClaim 3 .normal {}),
    (seconds 3, .publish 3 (fun _ => true) fun _ => true), (seconds 3, .relayRecord 3 "" 0),
    (seconds 4, .claim 6 20), (seconds 4, .send 6 ⟨.temporaryFailure, none, none⟩),
    (seconds 5, .record 6 0)]

/-- The worker of an express job dies, and the next one finds the deadline passed. -/
def expiredSample : List (Time × Act) :=
  [(0, .api (.createUser 1 "user")), (0, .api (.topupUserCredits 1 5)),
    (0, .api (.createMessage ⟨1, "09121234567", "hello", .express, 7⟩ ⟨10, 20⟩)),
    (0, .relayClaim 3 .express {}), (0, .publish 3 (fun _ => true) fun _ => true),
    (0, .relayRecord 3 "" 0), (0, .claim 5 20), (0, .send 5 ⟨.success, some "id", none⟩),
    (0, .workerCrash 5), (seconds 1000, .claim 6 20)]

theorem bounded_attempts_sample :
    let f := Interleaved.after { maxDeliveryAttempts := 2 }
      (failedTwiceSample.map fun a => (a.1, .act a.2))
    let g := Interleaved.after {} (expiredSample.map fun a => (a.1, .act a.2))
    f.sends 20 ≤ 2 ∧ (∃ j, f.db.jobs.find? 20 = some j ∧
      (f.AtWork j ∨ j.status = .completed ∨ (j.status = .failed ∧
        ∃ m ∈ f.db.messages, m.id = j.messageId ∧ m.paymentStatus = .refunded))) ∧
      ∃ j, g.db.jobs.find? 20 = some j ∧ j.status = .failed ∧
        ∃ w m, .expired 20 w m ∈ g.log := by
  intro f g
  obtain ⟨hbound, hretired, -⟩ := bounded_attempts { maxDeliveryAttempts := 2 } 20
    (failedTwiceSample.map fun a => (a.1, .act a.2))
  obtain ⟨-, -, hexpired⟩ := bounded_attempts {} 20
    (expiredSample.map fun a => (a.1, .act a.2))
  obtain ⟨j, hj⟩ := Option.isSome_iff_exists.1
    (show (f.db.jobs.find? 20).isSome = true by decide +kernel)
  have hg : (g.db.jobs.find? 20).any (fun k => k.status.terminal) = true := by decide +kernel
  obtain ⟨k, hk, ht⟩ := (Option.any_eq_true _ _).1 hg
  exact ⟨hbound (by decide +kernel),
    ⟨j, hj, hretired (by decide +kernel) j hj (by decide +kernel)⟩,
    k, hk, hexpired (by decide +kernel) k hk ht⟩

/-- A worker that dies after its call to the provider, once found by a sweep and once by
another worker : with one attempt allowed the job is sent twice, and is in delivery still. -/
def reapedSample : List (Time × InterleavedAct) :=
  publishedSample.map (fun a => (a.1, .act a.2)) ++ [(0, .act (.claim 5 20)),
    (0, .act (.send 5 ⟨.success, some "id", none⟩)), (0, .act (.workerCrash 5)),
    (seconds 121, .select .normal .stored), (seconds 121, .write 0),
    (seconds 121, .act (.relayClaim 3 .normal {})),
    (seconds 121, .act (.publish 3 (fun _ => true) fun _ => true)),
    (seconds 121, .act (.relayRecord 3 "" 0)), (seconds 121, .act (.claim 6 20)),
    (seconds 121, .act (.send 6 ⟨.success, some "id", none⟩))]

/-- The worker dies after its only attempt, and another one takes the job over at 120 s. -/
def takenOverSample : List (Time × InterleavedAct) :=
  publishedSample.map (fun a => (a.1, .act a.2)) ++ [(0, .act (.claim 5 20)),
    (0, .act (.send 5 ⟨.success, some "id", none⟩)), (0, .act (.workerCrash 5)),
    (seconds 120, .act (.claim 6 20)), (seconds 120, .act (.send 6 ⟨.success, some "id", none⟩))]

theorem attempts_not_bounded :
    let reaped := Interleaved.after { maxDeliveryAttempts := 1 } reapedSample
    let takenOver := Interleaved.after { maxDeliveryAttempts := 1 } takenOverSample
    (reaped.sends 20 = 2 ∧
      (reaped.db.jobs.find? 20).map (fun j => (j.status, j.deliveryAttempts)) =
        some (.dispatching, 1)) ∧
    (takenOver.sends 20 = 2 ∧
      (takenOver.db.jobs.find? 20).map (fun j => (j.status, j.deliveryAttempts)) =
        some (.dispatching, 0)) := by
  decide +kernel

end Abrio
