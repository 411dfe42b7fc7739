import Abrio.Lifecycle

/-!
# No job is stranded

A job that is not over is in one of three forms (`LeaseForm`), and each has a way out. A
published job or one in delivery is swept once its stamp is older than the lease, and it
waits then; a waiting job is claimed by a relay once its lock is old, and published; a
worker that takes the task of a published job ends it, by its deadline or with the
provider's success. `no_job_stranded` strings these together from any state a run can
reach : a run that lets time pass, in which no transaction raises, ends the job.

A sweep and a claim are bounded, and other jobs may come first. Each sweep takes some stale
job and each claim some due one, so the number of those left falls until the job's own turn
(`exists_swept`, `exists_published`), in whatever order the queries visit the rows.
-/

open Relational Runs

namespace Abrio

open DispatchJobRepository DispatchUseCase

/-! ## The forms of an open job -/

/-- Who may take the job next : a relay, a worker with its task, or the holder of a lease. -/
inductive LeaseForm
  | waiting
  | published
  | delivering

namespace DispatchJob

/-- The columns of an open job are those of one form. -/
def HasForm (j : DispatchJob) : LeaseForm → Prop
  | .waiting => (j.status = .pending ∨ j.status = .retry) ∧ j.lockedAt.isSome = j.lockedBy.isSome
  | .published => j.status = .published ∧ j.lockedAt = none ∧ j.lockedBy = none ∧
      j.publishedAt.isSome = true
  | .delivering => j.status = .dispatching ∧ j.lockedAt.isSome = true ∧ j.lockedBy.isSome = true

theorem HasForm.unique {j : DispatchJob} {f g : LeaseForm} (hf : j.HasForm f) (hg : j.HasForm g) :
    f = g := by
  cases f <;> cases g <;> simp_all [HasForm]

/-- The values of the row fit their columns, whatever its last error is. -/
def Writable (j : DispatchJob) : Prop :=
  ({ j with lastError := none } : DispatchJob).storable = true

/-- What holds of every row : an open job has a form, and the row can be written again. -/
structure WellFormed (j : DispatchJob) : Prop where
  form : j.status.terminal = false → ∃ f, j.HasForm f
  writable : j.Writable

theorem Writable.markFailed {j : DispatchJob} (h : j.Writable) (now : Time) {error : String}
    (he : storableText (truncateError error) = true) :
    (DispatchJobRepository.markFailed error now j).storable = true := by
  simp only [Writable, storable, Bool.and_eq_true] at h ⊢
  exact ⟨h.1, he⟩

theorem Writable.markCompleted {j : DispatchJob} (h : j.Writable) (now : Time)
    {providerMessageId : String} (hp : storableVarchar 255 providerMessageId = true) :
    (DispatchJobRepository.markCompleted providerMessageId now j).storable = true := by
  simp only [Writable, storable, Bool.and_eq_true] at h ⊢
  exact ⟨⟨h.1.1, hp⟩, rfl⟩

theorem Writable.markDeliveryRetry {j : DispatchJob} (h : j.Writable) (now delay : Time)
    {error : String} (he : storableText (truncateError error) = true) :
    (DispatchJobRepository.markDeliveryRetry error delay now j).storable = true := by
  simp only [Writable, storable, Bool.and_eq_true] at h ⊢
  exact ⟨h.1, he⟩

theorem Writable.of_storable {j : DispatchJob} (h : j.storable = true) : j.Writable := by
  simp only [Writable, storable, Bool.and_eq_true] at h ⊢
  exact ⟨h.1, rfl⟩

end DispatchJob

open DispatchJob

theorem newJob_wellFormed {s : Settings} {sub : Submission}
    (h : (MessageUseCase.newJob s sub).storable = true) :
    (MessageUseCase.newJob s sub).WellFormed :=
  ⟨fun _ => ⟨.waiting, Or.inl rfl, rfl⟩, Writable.of_storable h⟩

theorem RowMove.wellFormed {s : Settings} {sys : System} {now : Time} {j j' : DispatchJob}
    {a : Act} {es : List Event} (h : RowMove s sys now j a es j') (hj : j.WellFormed) :
    j'.WellFormed := by
  cases h with
  | locked due =>
    exact ⟨fun _ => ⟨.waiting, publishable_iff.1 (eligible_iff.1 due).2.1, rfl⟩, hj.writable⟩
  | published => exact ⟨fun _ => ⟨.published, rfl, rfl, rfl, rfl⟩, hj.writable⟩
  | publishRetry => exact ⟨fun _ => ⟨.waiting, Or.inr rfl, rfl⟩, hj.writable⟩
  | reclaimed => exact ⟨fun _ => ⟨.waiting, Or.inr rfl, rfl⟩, hj.writable⟩
  | expired _ _ storable =>
    exact ⟨fun ht => by simp [markFailed, DispatchJobStatus.terminal] at ht,
      Writable.of_storable storable⟩
  | claimed _ _ storable =>
    exact ⟨fun _ => ⟨.delivering, rfl, rfl, rfl⟩, Writable.of_storable storable⟩
  | recorded _ _ outcome storable =>
    refine ⟨fun ht => ?_, Writable.of_storable storable⟩
    cases outcome with
    | providerTemporaryFailure => exact ⟨.waiting, Or.inr rfl, rfl⟩
    | _ => simp [markFailed, markCompleted, DispatchJobStatus.terminal] at ht

theorem JobMove.wellFormed {s : Settings} {sys : System} {now : Time} {a : Act}
    {row row' : Option DispatchJob} {es : List Event} (h : JobMove s sys now a row es row')
    (hrow : ∀ j, row = some j → j.WellFormed) : ∀ j, row' = some j → j.WellFormed := by
  intro j hj
  cases h with
  | same => exact hrow j hj
  | sent => exact hrow j hj
  | created storable =>
    obtain rfl := Option.some.inj hj
    exact newJob_wellFormed storable
  | row move =>
    obtain rfl := Option.some.inj hj
    exact move.wellFormed (hrow _ rfl)

namespace System

theorem after_wellFormed {s : Settings} {acts : List (Time × Act)} {j : DispatchJob}
    (hj : j ∈ (after s acts).db.jobs) : j.WellFormed :=
  job_invariant (C := fun _ _ => True) (P := fun _ row _ => ∀ j, row = some j → j.WellFormed)
    (fun _ _ _ _ _ hmove h => hmove.wellFormed h) acts
    (AllSteps.of_forall (fun _ _ => trivial) acts) (fun _ h => by cases h) j (Table.find?_key hj)

/-! ## Recoveries -/

/-- The transaction of a worker's act raises. -/
def aborts (s : Settings) (now : Time) (sys : System) : Act → Bool
  | .claim workerId jobId => jobId ∈ sys.tasks &&
      !(claimForDelivery s.dispatchConfig jobId workerId now sys.db).isOk
  | .record workerId jitter =>
    match sys.processes.find? workerId with
    | some ⟨_, jobId, .answered result⟩ =>
      !(recordOutcome s.dispatchConfig jobId workerId result jitter now sys.db).isOk
    | _ => false
  | _ => false

end System

/-- The acts of a recovery. Its queries visit the rows by `scan` and `scans`, the broker
accepts and keeps every task, and the provider succeeds. -/
def Act.Recovers (scan : Scan DispatchJob) (scans : ClaimScans) : Act → Prop
  | .reap _ scan' => scan' = scan
  | .relayClaim _ _ scans' => scans' = scans
  | .publish _ accepts delivered =>
    (∀ jobId, accepts jobId = true) ∧ ∀ jobId, delivered jobId = true
  | .relayRecord _ _ _ => True
  | .claim _ _ => True
  | .send _ result => result.outcome = .success
  | .record _ _ => True
  | _ => False

/-- A step of a recovery : time passes, and nothing raises. -/
structure System.Recovery (s : Settings) (scan : Scan DispatchJob) (scans : ClaimScans)
    (sys : System) (a : Time × Act) : Prop where
  on_time : sys.OnTime a
  completes : sys.aborts s a.1 a.2 = false
  recovers : a.2.Recovers scan scans

namespace System

variable {s : Settings} {scan : Scan DispatchJob} {scans : ClaimScans} {T : Time} {sys : System}
  {id : UUID} {k : DispatchJob}

/-! ## Sweeps -/

/-- The stale jobs of a priority. -/
def staleCount (p : MessagePriority) (T : Time) (sys : System) : ℕ :=
  sys.db.jobs.rows.countP fun j =>
    j.priority = p && staleInflight (T - seconds inflightLeaseSeconds) j

theorem reaped_ne_nil (hk : k ∈ sys.db.jobs)
    (hs : staleInflight (T - seconds inflightLeaseSeconds) k = true) :
    sys.reaped T k.priority scan ≠ [] := by
  have hmem : k ∈ (scan.visit sys.db.jobs.rows).filter fun j =>
      j.priority = k.priority && staleInflight (T - seconds inflightLeaseSeconds) j :=
    List.mem_filter.2 ⟨(scan.mem_visit).2 hk, by simp [hs]⟩
  rw [reaped, staleJobs, Ne, List.take_eq_nil_iff, not_or]
  exact ⟨by decide, List.ne_nil_of_mem hmem⟩

/-- A sweep leaves fewer stale jobs, when there are any. -/
theorem staleCount_reap {p : MessagePriority} (h : sys.reaped T p scan ≠ []) :
    staleCount p T (sys.reap s T p scan) < staleCount p T sys := by
  obtain ⟨j, hj⟩ := List.exists_mem_of_ne_nil _ h
  obtain ⟨hm, hp, hs⟩ := mem_staleJobs hj
  have hids : j.id ∈ (sys.reaped T p scan).map (·.id) := List.mem_map_of_mem hj
  have hrows : (sys.reap s T p scan).db.jobs.rows = sys.db.jobs.rows.map fun x =>
      if x.id ∈ (sys.reaped T p scan).map (·.id) then reclaimRow T x else x := by
    rw [reap, Relay.reclaimStaleInflight, Settings.priority_priorityConfig]
    simp only [reclaimStaleInflight, reclaimIds, Table.updateWhere, decide_eq_true_eq]
    rfl
  rw [staleCount, staleCount, hrows]
  refine countP_map_lt (fun x _ hx => ?_) hm (by simp [hp, hs]) ?_
  · split_ifs at hx
    · simp [staleInflight, reclaimRow] at hx
    · exact hx
  · rw [if_pos hids]
    simp [staleInflight, reclaimRow]

/-- Sweeps take a stale job in the end. -/
theorem exists_swept (hc : sys.clock ≤ T) (hk : sys.db.jobs.find? id = some k)
    (hs : staleInflight (T - seconds inflightLeaseSeconds) k = true) :
    ∃ t, Reaches (step s) (Recovery s scan scans) sys t ∧ t.clock ≤ T ∧
      t.db.jobs.find? id = some (reclaimRow T k) := by
  refine Reaches.of_variant
    (P := fun sys : System => sys.clock ≤ T ∧ sys.db.jobs.find? id = some k)
    (staleCount k.priority T) (fun sys ⟨hc, hk⟩ => ?_) ⟨hc, hk⟩
  have hstep : Reaches (step s) (Recovery s scan scans) sys
      (sys.step s (T, .reap k.priority scan)) := .single ⟨hc, rfl, rfl⟩
  have hrow : (sys.step s (T, .reap k.priority scan)).db.jobs.find? id = _ :=
    find?_reap k.priority scan id
  rw [hk, Option.map_some] at hrow
  split_ifs at hrow with hin
  · exact Or.inl ⟨_, hstep, le_refl T, hrow⟩
  · refine Or.inr ⟨_, hstep, ⟨le_refl T, hrow⟩, ?_⟩
    exact staleCount_reap (reaped_ne_nil (Table.find?_eq_some.1 hk).1 hs)

/-! ## Publications -/

/-- The due jobs of a priority. -/
def dueCount (p : MessagePriority) (T : Time) (sys : System) : ℕ :=
  sys.db.jobs.rows.countP (eligible p T (T - seconds leaseSeconds))

/-- The jobs a relay takes. -/
def claimedRows (s : Settings) (T : Time) (sys : System) (p : MessagePriority)
    (scans : ClaimScans) : List DispatchJob :=
  claimRows (s.priorityConfig p).priority (s.priorityConfig p).batchSize
    (s.priorityConfig p).perUserLimit leaseSeconds scans T sys.db.jobs.rows

/-- A claim takes some job, when there are due ones : whatever the fairness pass leaves of
the limit goes to the oldest. -/
theorem claimedRows_ne_nil (hk : k ∈ sys.db.jobs)
    (he : eligible k.priority T (T - seconds leaseSeconds) k = true) :
    sys.claimedRows s T k.priority scans ≠ [] := by
  unfold claimedRows claimRows
  intro h
  obtain ⟨hfair, htopup⟩ := List.append_eq_nil_iff.1 h
  rw [hfair, topupQuery, List.take_eq_nil_iff] at htopup
  rcases htopup with hl | hl
  · exact absurd (s.priorityConfig k.priority).batchSize_pos (by simpa using hl)
  · refine List.ne_nil_of_mem ((mem_orderBy dueLE scans.topup).2 (List.mem_filter.2 ⟨hk, ?_⟩)) hl
    simpa [Settings.priority_priorityConfig] using he

/-- A relay with no claimed jobs claims, publishes to a broker that accepts, and records. -/
def relayCycle (T : Time) (r : OwnerId) (p : MessagePriority) (scans : ClaimScans) :
    List (Time × Act) :=
  [(T, .relayClaim r p scans), (T, .publish r (fun _ => true) fun _ => true),
    (T, .relayRecord r "" 0)]

theorem publishLoop_accepts (claimed : List ClaimedJob) :
    Relay.publishLoop (fun _ => true) claimed = (claimed.map ClaimedJob.id, []) := by
  induction claimed with
  | nil => rfl
  | cons job jobs ih => simp [Relay.publishLoop, ih]

/-- The state after a cycle. -/
theorem run_relayCycle {r : OwnerId} {p : MessagePriority}
    (hr : ∀ x ∈ sys.publications, x.relayId ≠ r) (hne : sys.claimedRows s T p scans ≠ []) :
    let ids := (sys.claimedRows s T p scans).map (·.id)
    ∃ publications, run (step s) sys (relayCycle T r p scans) =
      { sys with
        db := markPublished ids r T (Relay.claimJobs (s.priorityConfig p) r scans T sys.db).1
        clock := T
        tasks := sys.tasks ++ ids
        publications } := by
  intro ids
  set db₁ := (Relay.claimJobs (s.priorityConfig p) r scans T sys.db).1 with hdb
  set claimed := (Relay.claimJobs (s.priorityConfig p) r scans T sys.db).2 with hclaimed
  have hids : claimed.map ClaimedJob.id = ids := by
    rw [hclaimed, Relay.claimJobs]
    simp only [claimBatch, List.map_map]
    rfl
  have hempty : claimed.isEmpty = false := by
    rw [List.isEmpty_eq_false_iff]
    intro h
    rw [h] at hids
    exact hne (List.map_eq_nil_iff.1 hids.symm)
  obtain ⟨pubs, hpubs⟩ := Table.exists_insert (r := (⟨r, claimed, none⟩ : Publication)) hr
  have hclaim : sys.step s (T, .relayClaim r p scans) =
      { sys with db := db₁, clock := T, publications := pubs } := by
    simp [step, act, relayClaim, ← hdb, ← hclaimed, hpubs, hempty]
  have hfind : pubs.find? r = some ⟨r, claimed, none⟩ := by
    rw [Table.find?_insert hpubs, if_pos rfl]
  set pubs' := pubs.put ⟨r, claimed, some (ids, [])⟩ with hpubs'
  have hfind' : pubs'.find? r = some ⟨r, claimed, some (ids, [])⟩ :=
    (Table.find?_put (r := ⟨r, claimed, some (ids, [])⟩) (Table.find?_eq_some.1 hfind).1
      rfl r).trans (if_pos rfl)
  refine ⟨pubs'.erase r, ?_⟩
  rw [relayCycle, run_cons, hclaim]
  simp [step, act, publish, relayRecord, hfind, publishLoop_accepts, hids, ← hpubs', hfind',
    Relay.recordPublications]

/-- The rows after a cycle : the claimed jobs are published. -/
theorem rows_relayCycle {r : OwnerId} {p : MessagePriority}
    (hne : sys.claimedRows s T p scans ≠ []) :
    let ids := (sys.claimedRows s T p scans).map (·.id)
    (markPublished ids r T (Relay.claimJobs (s.priorityConfig p) r scans T sys.db).1).jobs.rows =
      sys.db.jobs.rows.map fun j => if j.id ∈ ids then publishedRow T j else j := by
  intro ids
  have hids : ids.isEmpty = false := by
    rw [List.isEmpty_eq_false_iff]
    exact fun h => hne (List.map_eq_nil_iff.1 h)
  rw [markPublished, if_neg (by simp [hids])]
  simp only [Relay.claimJobs, claimBatch, Table.updateWhere, List.map_map]
  refine List.map_congr_left fun j hj => ?_
  have hmem : (j.id ∈ (claimRows (s.priorityConfig p).priority (s.priorityConfig p).batchSize
      (s.priorityConfig p).perUserLimit leaseSeconds scans T sys.db.jobs.rows).map (·.id)) =
      (j.id ∈ ids) := rfl
  simp only [Function.comp_apply, hmem, decide_eq_true_eq]
  by_cases h : j.id ∈ ids
  · have hp := (eligible_iff.1 (eligible_of_claimed hj h)).2.1
    have hheld : heldBy ids r (lockRow r T j) = true := by
      simp only [heldBy, Bool.and_eq_true, decide_eq_true_eq]
      exact ⟨⟨h, rfl⟩, hp⟩
    simp only [h, if_true, hheld]
    rfl
  · simp [h, heldBy]

/-- A cycle leaves fewer due jobs. -/
theorem dueCount_relayCycle {r : OwnerId} {p : MessagePriority}
    (hr : ∀ x ∈ sys.publications, x.relayId ≠ r) (hne : sys.claimedRows s T p scans ≠ []) :
    dueCount p T (run (step s) sys (relayCycle T r p scans)) < dueCount p T sys := by
  obtain ⟨publications, hrun⟩ := run_relayCycle hr hne
  obtain ⟨j, hj⟩ := List.exists_mem_of_ne_nil _ hne
  obtain ⟨hm, he⟩ := mem_claimRows hj
  rw [Settings.priority_priorityConfig] at he
  rw [hrun, dueCount, dueCount, rows_relayCycle hne]
  have hnot : ∀ x, eligible p T (T - seconds leaseSeconds) (publishedRow T x) = false := by
    simp [eligible, publishable, publishedRow]
  refine countP_map_lt (fun x _ hx => ?_) hm he ?_
  · split_ifs at hx
    · rw [hnot] at hx
      cases hx
    · exact hx
  · rw [if_pos (List.mem_map_of_mem hj), hnot]

/-- The job after a cycle : published with its task, or as it was. -/
theorem find?_relayCycle {r : OwnerId} {p : MessagePriority}
    (hr : ∀ x ∈ sys.publications, x.relayId ≠ r) (hne : sys.claimedRows s T p scans ≠ [])
    (hk : sys.db.jobs.find? id = some k) :
    let t := run (step s) sys (relayCycle T r p scans)
    (t.db.jobs.find? id = some (publishedRow T k) ∧ id ∈ t.tasks) ∨
      t.db.jobs.find? id = some k := by
  obtain ⟨publications, hrun⟩ := run_relayCycle hr hne
  obtain ⟨hm, rfl⟩ := Table.find?_eq_some.1 hk
  rw [hrun]
  by_cases h : k.id ∈ (sys.claimedRows s T p scans).map (·.id)
  · refine Or.inl ⟨Table.find?_eq_some.2 ⟨?_, rfl⟩, List.mem_append_right _ h⟩
    rw [Table.mem_def, rows_relayCycle hne]
    exact List.mem_map.2 ⟨k, hm, if_pos h⟩
  · refine Or.inr (Table.find?_eq_some.2 ⟨?_, rfl⟩)
    rw [Table.mem_def, rows_relayCycle hne]
    exact List.mem_map.2 ⟨k, hm, if_neg h⟩

theorem relayCycle_recovery {r : OwnerId} {p : MessagePriority} (hc : sys.clock ≤ T) :
    AllSteps (step s) (Recovery s scan scans) sys (relayCycle T r p scans) :=
  ⟨⟨hc, rfl, rfl⟩, ⟨le_refl T, rfl, fun _ => rfl, fun _ => rfl⟩, ⟨le_refl T, rfl, trivial⟩, trivial⟩

/-- Cycles publish a due job in the end. -/
theorem exists_published (hc : sys.clock ≤ T) (hk : sys.db.jobs.find? id = some k)
    (he : eligible k.priority T (T - seconds leaseSeconds) k = true) :
    ∃ t, Reaches (step s) (Recovery s scan scans) sys t ∧ t.clock ≤ T ∧
      t.db.jobs.find? id = some (publishedRow T k) ∧ id ∈ t.tasks := by
  refine Reaches.of_variant
    (P := fun sys : System => sys.clock ≤ T ∧ sys.db.jobs.find? id = some k)
    (dueCount k.priority T) (fun sys ⟨hc, hk⟩ => ?_) ⟨hc, hk⟩
  obtain ⟨r, hr⟩ := sys.publications.exists_fresh
  have hne : sys.claimedRows s T k.priority scans ≠ [] :=
    claimedRows_ne_nil (Table.find?_eq_some.1 hk).1 he
  have hrun : Reaches (step s) (Recovery s scan scans) sys
      (run (step s) sys (relayCycle T r k.priority scans)) := ⟨_, relayCycle_recovery hc, rfl⟩
  rcases find?_relayCycle hr hne hk with h | h
  · exact Or.inl ⟨_, hrun, le_refl T, h⟩
  · exact Or.inr ⟨_, hrun, ⟨le_refl T, h⟩, dueCount_relayCycle hr hne⟩

end System

/-! ## The delivery -/

theorem BalanceOp.apply_constrained {cost : Cents} {b : Balance} (op : BalanceOp)
    (hb : b.Constrained) (hc : 0 < cost) (hle : cost ≤ b.reservedCredits) :
    (op.apply cost b).Constrained := by
  have hres : b.reservedCredits ≤ b.credits := hb.credits_ge_reserved
  cases op with
  | settle =>
    have hnonneg : 0 ≤ b.credits - cost := sub_nonneg.2 (hle.trans hres)
    have hless : b.credits - cost ≤ b.credits := by linarith
    exact ⟨sub_le_sub_right hres cost, sub_nonneg.2 hle,
      fitsNumeric_of_le hnonneg hless hb.credits_fits⟩
  | release =>
    refine ⟨?_, sub_nonneg.2 hle, hb.credits_fits⟩
    show b.reservedCredits - cost ≤ b.credits
    linarith

/-- The reservation of an open job's message pays for either end of it. -/
theorem Db.Accounted.exists_deliveryWrite {db : Db} (h : db.Accounted) {m : Message}
    {j' : DispatchJob} (m' : Message) (hm : m ∈ db.messages) (hr : m.paymentStatus = .reserved)
    (ho : m'.original = m.original) (hs : j'.storable = true) (op : BalanceOp) :
    ∃ db', DeliveryWrite db (some op) m' j' db' := by
  obtain ⟨u, hu, hui⟩ := h.constrained.message_user m hm
  obtain ⟨b, hb, hbi⟩ := h.user_balance u hu
  have hc := h.constrained.message_cost m hm
  have hle : m.cost ≤ b.reservedCredits := by
    rw [h.reserved b hb, hbi, hui]
    exact h.cost_le_reserved hm hr
  have hfind : db.balances.find? m'.userId = some b :=
    Table.find?_eq_some.2 ⟨hb, by rw [Message.userId_eq ho, hbi, hui]⟩
  refine ⟨_, DeliveryWrite.of_op.2 ⟨by rwa [Message.cost_eq ho], b, hfind, ?_, hs, rfl⟩⟩
  rw [Message.cost_eq ho]
  exact op.apply_constrained (h.constrained.balance b hb) hc hle

namespace System

variable {s : Settings} {scan : Scan DispatchJob} {scans : ClaimScans} {T : Time} {sys : System}
  {id : UUID} {k : DispatchJob} {w : OwnerId}

/-- The job is over. -/
def Ended (id : UUID) (sys : System) : Prop :=
  ∃ j, sys.db.jobs.find? id = some j ∧ (j.status = .completed ∨ j.status = .failed)

/-- What a succeeding provider answers. -/
def success : ProviderResult :=
  ⟨.success, some "1", none⟩

/-- The call that holds a job and has the provider's success completes it. -/
theorem recorded_ended {m : Message} (hc : sys.clock ≤ T) (hdb : sys.db.Consistent)
    (hh : Held sys.db id w k m) (hs : k.Writable)
    (hp : sys.processes.find? w = some ⟨w, id, .answered success⟩) :
    Recovery s scan scans sys (T, .record w 0) ∧ Ended id (sys.step s (T, .record w 0)) := by
  obtain ⟨hk, rfl⟩ := Table.find?_eq_some.1 hh.job_found
  obtain ⟨hm, hmi⟩ := Table.find?_eq_some.1 hh.message_found
  have hres : m.paymentStatus = .reserved := hdb.in_flight k hk m hm hmi.symm hh.dispatching
  obtain ⟨db', hw⟩ := hdb.exists_deliveryWrite (MessageRepository.markSent T m) hm hres rfl
    (hs.markCompleted T (by decide +kernel : storableVarchar 255 "1" = true)) .settle
  have hrecord : recordOutcome s.dispatchConfig k.id w success 0 T sys.db = .ok (db', _) :=
    recordOutcome_of_outcome hh (.succeeded _ rfl rfl) hw
  have hdb' : (sys.step s (T, .record w 0)).db = db' := by
    simp [step, act, record, hp, hrecord]
  refine ⟨⟨hc, ?_, trivial⟩, markCompleted "1" T k, ?_, Or.inl rfl⟩
  · simp [aborts, hp, hrecord, Except.isOk, Except.toBool]
  · rw [hdb', find?_deliveryWrite hw hh.job_found rfl, if_pos rfl]

/-- A call that holds a job and is delivering it completes it. -/
theorem exists_delivered {m : Message} {context : DeliveryContext} (hc : sys.clock ≤ T)
    (hdb : sys.db.Consistent) (hh : Held sys.db id w k m) (hs : k.Writable)
    (hp : sys.processes.find? w = some ⟨w, id, .delivering context⟩) :
    ∃ t, Reaches (step s) (Recovery s scan scans) sys t ∧ Ended id t := by
  have hsend : sys.step s (T, .send w success) =
      { sys with
        clock := T
        processes := sys.processes.put ⟨w, id, .answered success⟩
        log := sys.log ++ [.sent id w] } := by
    simp [step, act, send, hp]
  have hanswered : (sys.processes.put ⟨w, id, .answered success⟩).find? w =
      some ⟨w, id, .answered success⟩ :=
    (Table.find?_put (r := ⟨w, id, .answered success⟩) (Table.find?_eq_some.1 hp).1 rfl w).trans
      (if_pos rfl)
  have hrecovery : Recovery s scan scans sys (T, .send w success) := ⟨hc, rfl, rfl⟩
  have hrecorded : Recovery s scan scans (sys.step s (T, .send w success)) (T, .record w 0) ∧
      Ended id ((sys.step s (T, .send w success)).step s (T, .record w 0)) := by
    rw [hsend]
    exact recorded_ended (le_refl T) hdb hh hs hanswered
  exact ⟨_, (Reaches.single hrecovery).trans (.single hrecorded.1), hrecorded.2⟩

/-- A new call on a claimable job commits phase 1. -/
theorem step_claim {m m' : Message} {claim : Claim} {op : Option BalanceOp} {j' : DispatchJob}
    {db' : Db} (ht : id ∈ sys.tasks) (hcm : Claimable s.dispatchConfig sys.db id T k m)
    (hcd : Claimed s.dispatchConfig w T k m claim op m' j')
    (hdw : DeliveryWrite sys.db op m' j' db') (hw : ∀ x ∈ sys.processes, x.workerId ≠ w) :
    sys.aborts s T (.claim w id) = false ∧
      ∃ processes, sys.step s (T, .claim w id) =
        { sys with
          db := db'
          clock := T
          processes
          log := sys.log ++ (claimEnd T id w claim).2 } ∧
        processes.find? w = some ⟨w, id, (claimEnd T id w claim).1⟩ := by
  have hok := claimForDelivery_of_claimable hcm hcd hdw
  obtain ⟨processes, hp⟩ :=
    Table.exists_insert (r := (⟨w, id, (claimEnd T id w claim).1⟩ : Process)) hw
  refine ⟨by simp [aborts, hok, Except.isOk, Except.toBool], processes, ?_, ?_⟩
  · simp [step, act, System.claim, ht, hok, hp]
  · rw [Table.find?_insert hp, if_pos rfl]

/-- A worker that takes the task of a claimable job ends it. -/
theorem exists_ended (hc : sys.clock ≤ T) (hdb : sys.db.Consistent)
    (hk : sys.db.jobs.find? id = some k) (ht : id ∈ sys.tasks)
    (hopen : k.status.terminal = false) (hcl : isClaimable s.dispatchConfig T k = true)
    (hs : k.Writable) : ∃ t, Reaches (step s) (Recovery s scan scans) sys t ∧ Ended id t := by
  obtain ⟨hkm, rfl⟩ := Table.find?_eq_some.1 hk
  obtain ⟨m, hm, hl⟩ := hdb.message_of_job hkm
  have hres : m.paymentStatus = .reserved := (hdb.agree k hkm m hm hl.messageId).reserved hopen
  have hcm : Claimable s.dispatchConfig sys.db k.id T k m :=
    ⟨hk, hopen, hcl, Table.find?_eq_some.2 ⟨hm, hl.messageId.symm⟩, hres⟩
  obtain ⟨w, hw⟩ := sys.processes.exists_fresh
  cases hx : expressDeadlineExceeded s.dispatchConfig T m 0 with
  | true =>
    have herror : storableText (truncateError "Express delivery deadline exceeded") = true := by
      decide +kernel
    obtain ⟨db', hdw⟩ := hdb.exists_deliveryWrite (MessageRepository.markPermanentFailure T m)
      hm hres rfl (hs.markFailed T herror) .release
    obtain ⟨hok, processes, hstep, -⟩ := step_claim ht hcm (.expired hx) hdw hw
    have hclaim : Recovery s scan scans sys (T, .claim w k.id) := ⟨hc, hok, trivial⟩
    refine ⟨_, .single hclaim, markFailed "Express delivery deadline exceeded" T k, ?_, Or.inr rfl⟩
    rw [hstep]
    exact (find?_deliveryWrite hdw hk rfl k.id).trans (if_pos rfl)
  | false =>
    have hdw : DeliveryWrite sys.db none (MessageRepository.markDispatching T m)
        (markDispatching w T k) _ := DeliveryWrite.of_none.2 ⟨hs, rfl⟩
    obtain ⟨hok, processes, hstep, hproc⟩ := step_claim ht hcm (.delivery hx) hdw hw
    have hclaim : Recovery s scan scans sys (T, .claim w k.id) := ⟨hc, hok, trivial⟩
    have hheld : Held (sys.step s (T, .claim w k.id)).db k.id w (markDispatching w T k)
        (MessageRepository.markDispatching T m) := by
      rw [hstep]
      exact ⟨(find?_deliveryWrite hdw hk rfl k.id).trans (if_pos rfl), rfl, rfl,
        Table.find?_eq_some.2 ⟨Table.mem_put_self hm rfl, hl.messageId.symm⟩⟩
    have hdelivered : ∃ t, Reaches (step s) (Recovery s scan scans)
        (sys.step s (T, .claim w k.id)) t ∧ Ended k.id t :=
      exists_delivered (le_refl T) (step_consistent _ hdb) hheld hs (by rw [hstep]; exact hproc)
    obtain ⟨t, hreach, hend⟩ := hdelivered
    exact ⟨t, (Reaches.single hclaim).trans hreach, hend⟩

/-! ## The way out -/

/-- At `T` every lease the job is under has run out. -/
structure RipeAt (T : Time) (j : DispatchJob) : Prop where
  available : j.availableAt ≤ T
  locked : ∀ t, j.lockedAt = some t → t < T - seconds inflightLeaseSeconds
  published : ∀ t, j.publishedAt = some t → t < T - seconds inflightLeaseSeconds

theorem exists_ripeAt (clock : Time) (j : DispatchJob) : ∃ T, clock ≤ T ∧ RipeAt T j := by
  have hlease : seconds inflightLeaseSeconds = 120000000 := rfl
  set stamp := max (j.lockedAt.getD 0) (j.publishedAt.getD 0) with hstamp
  have hlast : stamp + 120000001 ≤ max (max clock j.availableAt) (stamp + 120000001) :=
    le_max_right _ _
  refine ⟨max (max clock j.availableAt) (stamp + 120000001),
    le_max_of_le_left (le_max_left _ _), le_max_of_le_left (le_max_right _ _), ?_, ?_⟩
  · intro t ht
    have : t ≤ stamp := by
      rw [hstamp, ht]
      exact le_max_left _ _
    linarith
  · intro t ht
    have : t ≤ stamp := by
      rw [hstamp, ht]
      exact le_max_right _ _
    linarith

/-- The job waits and is due. -/
def DueAt (T : Time) (id : UUID) (sys : System) : Prop :=
  ∃ j, sys.db.jobs.find? id = some j ∧ eligible j.priority T (T - seconds leaseSeconds) j = true ∧
    j.Writable

/-- An open job becomes due. -/
theorem exists_due (hc : sys.clock ≤ T) (hk : sys.db.jobs.find? id = some k) (hw : k.WellFormed)
    (hopen : k.status.terminal = false) (hT : RipeAt T k) :
    ∃ t, Reaches (step s) (Recovery s scan scans) sys t ∧ t.clock ≤ T ∧ DueAt T id t := by
  have hswept : staleInflight (T - seconds inflightLeaseSeconds) k = true →
      ∃ t, Reaches (step s) (Recovery s scan scans) sys t ∧ t.clock ≤ T ∧ DueAt T id t := by
    intro hs
    obtain ⟨t, hreach, hc, hj⟩ := exists_swept hc hk hs
    exact ⟨t, hreach, hc, reclaimRow T k, hj, eligible_iff.2 ⟨rfl, rfl, le_refl T, nofun⟩,
      hw.writable⟩
  obtain ⟨f, hf⟩ := hw.form hopen
  cases f with
  | waiting =>
    have hlock : ∀ t, k.lockedAt = some t → t < T - seconds leaseSeconds := fun t ht =>
      (hT.locked t ht).trans_le (sub_le_sub_left (by decide) T)
    exact ⟨sys, .refl sys, hc, k, hk,
      eligible_iff.2 ⟨rfl, publishable_iff.2 hf.1, hT.available, hlock⟩, hw.writable⟩
  | published =>
    obtain ⟨hs, -, -, hsome⟩ := hf
    obtain ⟨t, ht⟩ := Option.isSome_iff_exists.1 hsome
    exact hswept (staleInflight_iff.2 (Or.inl ⟨hs, t, ht, hT.published t ht⟩))
  | delivering =>
    obtain ⟨hs, hsome, -⟩ := hf
    obtain ⟨t, ht⟩ := Option.isSome_iff_exists.1 hsome
    exact hswept (staleInflight_iff.2 (Or.inr ⟨hs, t, ht, hT.locked t ht⟩))

/-- Some recovery ends an open job. -/
theorem exists_recovered (hdb : sys.db.Consistent) (hk : sys.db.jobs.find? id = some k)
    (hw : k.WellFormed) (hopen : k.status.terminal = false) :
    ∃ t, Reaches (step s) (Recovery s scan scans) sys t ∧ Ended id t := by
  obtain ⟨T, hc, hT⟩ := exists_ripeAt sys.clock k
  obtain ⟨t₁, h₁, hc₁, j, hj, hdue, hs⟩ :
      ∃ t, Reaches (step s) (Recovery s scan scans) sys t ∧ t.clock ≤ T ∧ DueAt T id t :=
    exists_due hc hk hw hopen hT
  obtain ⟨t₂, h₂, hc₂, hj₂, htask⟩ :
      ∃ t, Reaches (step s) (Recovery s scan scans) t₁ t ∧ t.clock ≤ T ∧
        t.db.jobs.find? id = some (publishedRow T j) ∧ id ∈ t.tasks :=
    exists_published hc₁ hj hdue
  have hdb₂ : t₂.db.Consistent :=
    (h₁.trans h₂).preserves (P := fun sys : System => sys.db.Consistent)
      (fun _ a h => step_consistent a h) hdb
  obtain ⟨t₃, h₃, hend⟩ : ∃ t, Reaches (step s) (Recovery s scan scans) t₂ t ∧ Ended id t :=
    exists_ended hc₂ hdb₂ hj₂ htask rfl rfl hs
  exact ⟨t₃, (h₁.trans h₂).trans h₃, hend⟩

end System

/-- Whatever has happened, with crashes and lost tasks, an open job is in exactly one form,
and some recovery ends it. -/
theorem no_job_stranded (s : Settings) (acts : List (Time × Act)) (scan : Scan DispatchJob)
    (scans : ClaimScans) (j : DispatchJob) (hj : j ∈ (System.after s acts).db.jobs)
    (hopen : j.status.terminal = false) :
    (∃! f, j.HasForm f) ∧ ∃ acts', AllSteps (System.step s) (System.Recovery s scan scans)
      (System.after s acts) acts' ∧
        ∃ j', (System.after s (acts ++ acts')).db.jobs.find? j.id = some j' ∧
          (j'.status = .completed ∨ j'.status = .failed) := by
  have hw := System.after_wellFormed hj
  obtain ⟨f, hf⟩ := hw.form hopen
  obtain ⟨t, ⟨acts', hall, rfl⟩, hend⟩ :
      ∃ t, Reaches (System.step s) (System.Recovery s scan scans) (System.after s acts) t ∧
        System.Ended j.id t :=
    System.exists_recovered (System.after_consistent s acts) (Table.find?_key hj) hw hopen
  refine ⟨⟨f, hf, fun g hg => hg.unique hf⟩, acts', hall, ?_⟩
  rw [System.after, run_append]
  exact hend

/-- The task of a published job is lost. -/
def lostTaskSample : List (Time × Act) :=
  publishedSample ++ [(0, .dropTask 20)]

theorem no_job_stranded_sample :
    (System.after {} lostTaskSample).tasks = [] ∧
      ∃ acts', AllSteps (System.step {}) (System.Recovery {} .stored {})
        (System.after {} lostTaskSample) acts' ∧
          ∃ j', (System.after {} (lostTaskSample ++ acts')).db.jobs.find? 20 = some j' ∧
            (j'.status = .completed ∨ j'.status = .failed) := by
  have hjob : (System.after {} lostTaskSample).db.jobs.find? 20 = some (publishedRow 0
      (MessageUseCase.newJob {} ⟨⟨1, "09121234567", "hello", .normal, 7⟩, ⟨10, 20⟩, 0⟩)) := by
    decide +kernel
  exact ⟨by decide +kernel,
    (no_job_stranded {} lostTaskSample .stored {} _ (Table.find?_eq_some.1 hjob).1 rfl).2⟩

end Abrio
