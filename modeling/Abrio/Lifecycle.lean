import Abrio.System

/-!
# The life of one job

The acts of relays and workers do nothing, or one thing each (`claim_cases` and its like).
Seen from one job there is little they can do. `RowMove` lists what an act can do to the
job's row, with the guards the code checks and the event it logs; `JobMove` adds the acts
that create the row, call the provider, or have nothing to do with the job. `step_moves`
says that a step of the system is such a move of every job, so a property of one job along
a run is proved for a machine with one row and its log (`job_invariant`).

On the database a step is one transaction or nothing (`step_txn`).
-/

open Relational Runs

namespace Abrio

open DispatchJobRepository DispatchUseCase

/-! ## What the acts do -/

namespace System

variable (s : Settings) (now : Time) (sys : System)

theorem relayClaim_cases (r : OwnerId) (p : MessagePriority) (scans : ClaimScans) :
    sys.relayClaim s now r p scans = sys ∨ ∃ publications, sys.relayClaim s now r p scans =
      { sys with
        db := (Relay.claimJobs (s.priorityConfig p) r scans now sys.db).1
        publications } := by
  unfold relayClaim
  dsimp only
  split
  · exact Or.inl rfl
  · split_ifs
    · exact Or.inr ⟨sys.publications, rfl⟩
    · exact Or.inr ⟨_, rfl⟩

theorem publish_cases (r : OwnerId) (accepts delivered : UUID → Bool) :
    ∃ tasks publications, sys.publish r accepts delivered = { sys with tasks, publications } := by
  unfold publish
  split
  · exact ⟨_, _, rfl⟩
  · exact ⟨sys.tasks, sys.publications, rfl⟩

theorem relayRecord_cases (r : OwnerId) (error : String) (jitter : Jitter) :
    sys.relayRecord now r error jitter = sys ∨ ∃ published failed publications,
      sys.relayRecord now r error jitter =
        { sys with
          db := Relay.recordPublications r published failed error jitter now sys.db
          publications } := by
  unfold relayRecord
  split
  · exact Or.inr ⟨_, _, _, rfl⟩
  · exact Or.inl rfl

theorem claim_cases (w : OwnerId) (jobId : UUID) :
    sys.claim s now w jobId = sys ∨ ∃ db' claim processes,
      claimForDelivery s.dispatchConfig jobId w now sys.db = .ok (db', claim) ∧
        sys.processes.insert ⟨w, jobId, (claimEnd now jobId w claim).1⟩ = some processes ∧
          sys.claim s now w jobId =
            { sys with
              db := db'
              processes
              log := sys.log ++ (claimEnd now jobId w claim).2 } := by
  unfold claim
  split_ifs
  · split
    · exact Or.inl rfl
    · rename_i db' claim hc
      dsimp only
      split
      · exact Or.inl rfl
      · rename_i processes hp
        exact Or.inr ⟨db', claim, processes, hc, hp, rfl⟩
  · exact Or.inl rfl

theorem send_cases (w : OwnerId) (result : ProviderResult) :
    sys.send w result = sys ∨ ∃ jobId context,
      sys.processes.find? w = some ⟨w, jobId, .delivering context⟩ ∧ sys.send w result =
        { sys with
          processes := sys.processes.put ⟨w, jobId, .answered result⟩
          log := sys.log ++ [.sent jobId w] } := by
  unfold send
  split
  · rename_i w' jobId context hp
    obtain rfl : w' = w := (Table.find?_eq_some.1 hp).2
    exact Or.inr ⟨jobId, context, hp, rfl⟩
  · exact Or.inl rfl

theorem record_cases (w : OwnerId) (jitter : Jitter) :
    sys.record s now w jitter = sys ∨ ∃ jobId result,
      sys.processes.find? w = some ⟨w, jobId, .answered result⟩ ∧
        (sys.record s now w jitter =
            { sys with processes := sys.processes.put ⟨w, jobId, .ended⟩ } ∨
          ∃ db' recorded,
            recordOutcome s.dispatchConfig jobId w result jitter now sys.db = .ok (db', recorded) ∧
              sys.record s now w jitter =
                { sys with
                  db := db'
                  processes := sys.processes.put ⟨w, jobId, .ended⟩
                  log := sys.log ++ recordEnd jobId w recorded }) := by
  unfold record
  split
  · rename_i w' jobId result hp
    obtain rfl : w' = w := (Table.find?_eq_some.1 hp).2
    refine Or.inr ⟨jobId, result, hp, ?_⟩
    dsimp only
    split
    · exact Or.inl rfl
    · rename_i db' recorded hr
      exact Or.inr ⟨db', recorded, hr, rfl⟩
  · exact Or.inl rfl

theorem workerCrash_cases (w : OwnerId) :
    sys.workerCrash w = sys ∨ ∃ jobId state, sys.processes.find? w = some ⟨w, jobId, state⟩ ∧
      sys.workerCrash w = { sys with processes := sys.processes.put ⟨w, jobId, .ended⟩ } := by
  unfold workerCrash
  split
  · rename_i w' jobId state hp
    obtain rfl : w' = w := (Table.find?_eq_some.1 hp).2
    exact Or.inr ⟨jobId, state, hp, rfl⟩
  · exact Or.inl rfl

end System

/-! ## Moves of one job -/

/-- What an act can do to the row of a job, with what it logs for it. -/
inductive RowMove (s : Settings) (sys : System) (now : Time) (j : DispatchJob) :
    Act → List Event → DispatchJob → Prop
  | locked {r : OwnerId} {p : MessagePriority} {scans : ClaimScans}
      (due : eligible j.priority now (now - seconds leaseSeconds) j = true) :
      RowMove s sys now j (.relayClaim r p scans) [] (lockRow r now j)
  | published {r : OwnerId} {error : String} {jitter : Jitter} (isOpen : publishable j = true)
      (locked_by : j.lockedBy = some r) :
      RowMove s sys now j (.relayRecord r error jitter) [] (publishedRow now j)
  | publishRetry {r : OwnerId} {error : String} {jitter : Jitter} {delay : Time}
      (isOpen : publishable j = true) (locked_by : j.lockedBy = some r) :
      RowMove s sys now j (.relayRecord r error jitter) [] (publishRetryRow now delay error j)
  | reclaimed {p : MessagePriority} {scan : Scan DispatchJob}
      (taken : j ∈ sys.reaped now p scan) :
      RowMove s sys now j (.reap p scan) [.reclaimed j] (reclaimRow now j)
  | expired {w : OwnerId} {messageId : UUID} {error : String}
      (not_terminal : j.status.terminal = false)
      (claimable : isClaimable s.dispatchConfig now j = true)
      (storable : (markFailed error now j).storable = true) :
      RowMove s sys now j (.claim w j.id) [.expired j.id w messageId] (markFailed error now j)
  | claimed {w : OwnerId} (not_terminal : j.status.terminal = false)
      (claimable : isClaimable s.dispatchConfig now j = true)
      (storable : (markDispatching w now j).storable = true) :
      RowMove s sys now j (.claim w j.id) [.claimed j.id w now] (markDispatching w now j)
  | recorded {w : OwnerId} {jitter : Jitter} {result : ProviderResult} {r : Recorded}
      {message message' : Message} {j' : DispatchJob} (dispatching : j.status = .dispatching)
      (locked_by : j.lockedBy = some w)
      (outcome : Outcome s.dispatchConfig result jitter now j message r message' j')
      (storable : j'.storable = true)
      (called : sys.processes.find? w = some ⟨w, j.id, .answered result⟩) :
      RowMove s sys now j (.record w jitter) [.recorded j.id w message.id r] j'

/-- What an act can do to a job that may not be there yet. -/
inductive JobMove (s : Settings) (sys : System) (now : Time) :
    Act → Option DispatchJob → List Event → Option DispatchJob → Prop
  | same {a : Act} {row : Option DispatchJob} : JobMove s sys now a row [] row
  | sent {w : OwnerId} {result : ProviderResult} {id : UUID} {row : Option DispatchJob} :
      JobMove s sys now (.send w result) row [.sent id w] row
  | created {t : ApiTxn} {sub : Submission}
      (storable : (MessageUseCase.newJob s sub).storable = true) :
      JobMove s sys now (.api t) none [] (some (MessageUseCase.newJob s sub))
  | row {a : Act} {j j' : DispatchJob} {es : List Event} (move : RowMove s sys now j a es j') :
      JobMove s sys now a (some j) es (some j')

section Statements

variable {db db' : Db}

/-- The row of a job after a submission. -/
theorem MessageUseCase.Accepted.find?_job {s : Settings} {u : UserId} {subs : List Submission}
    (h : Accepted s u subs db db') (id : UUID) :
    db'.jobs.find? id = db.jobs.find? id ∨ db.jobs.find? id = none ∧
      ∃ sub ∈ subs, db'.jobs.find? id = some (newJob s sub) := by
  cases hj : db.jobs.find? id with
  | some j =>
    obtain ⟨hm, hi⟩ := Table.find?_eq_some.1 hj
    exact Or.inl (Table.find?_eq_some.2 ⟨h.mem_jobs.2 (Or.inl hm), hi⟩)
  | none =>
    cases hj' : db'.jobs.find? id with
    | none => exact Or.inl rfl
    | some j' =>
      obtain ⟨hm, hi⟩ := Table.find?_eq_some.1 hj'
      rcases h.mem_jobs.1 hm with hm | ⟨sub, hsub, rfl⟩
      · exact absurd hi (Table.find?_eq_none.1 hj j' hm)
      · exact Or.inr ⟨rfl, sub, hsub, rfl⟩

end Statements

namespace System

variable {s : Settings} {now : Time} {sys : System}

theorem jobLog_append (log : List Event) (id : UUID) :
    ({ sys with log := sys.log ++ log } : System).jobLog id =
      sys.jobLog id ++ log.filter fun e => e.jobId = id :=
  List.filter_append _ _

/-- What a step is for job `id`. -/
def Moves (s : Settings) (a : Time × Act) (sys sys' : System) (id : UUID) : Prop :=
  ∃ es, sys'.jobLog id = sys.jobLog id ++ es ∧
    JobMove s sys a.1 a.2 (sys.db.jobs.find? id) es (sys'.db.jobs.find? id)

/-- A step that changes neither the database nor the log. -/
theorem Moves.of_same {a : Time × Act} {sys' : System} (hd : sys'.db = sys.db)
    (hl : sys'.log = sys.log) (id : UUID) : Moves s a sys sys' id :=
  ⟨[], by simp [jobLog, hl], by rw [hd]; exact .same⟩

theorem api_moves (t : ApiTxn) (id : UUID) :
    Moves s (now, .api t) sys (sys.act s now (.api t)) id := by
  have hc : ApiChange s sys.db (t.apply s now sys.db) := t.change
  refine ⟨[], by simp [jobLog, act], ?_⟩
  show JobMove s sys now (.api t) (sys.db.jobs.find? id) [] ((t.apply s now sys.db).jobs.find? id)
  generalize t.apply s now sys.db = db' at hc
  cases hc with
  | same => exact .same
  | user created =>
    rw [(UserUseCase.createUser_same created).2]
    exact .same
  | topup done =>
    obtain ⟨b, credits, -, -, rfl⟩ := BalanceUseCase.topupUserCredits_ok done
    exact .same
  | submission user accepted =>
    rcases accepted.find?_job id with h | ⟨hn, sub, hsub, h⟩
    · rw [h]
      exact .same
    · rw [hn, h]
      exact .created (accepted.jobs_new.storable _ (List.mem_map_of_mem hsub))

theorem filter_reclaimed (l : List DispatchJob) (id : UUID) :
    (l.map Event.reclaimed).filter (fun e => e.jobId = id) =
      (l.filter fun j => j.id = id).map .reclaimed := by
  rw [List.filter_map]
  rfl

theorem find?_reap (p : MessagePriority) (scan : Scan DispatchJob) (id : UUID) :
    (sys.reap s now p scan).db.jobs.find? id = (sys.db.jobs.find? id).map fun j =>
      if j.id ∈ (sys.reaped now p scan).map (·.id) then reclaimRow now j else j := by
  rw [reap, Relay.reclaimStaleInflight, reclaimStaleInflight, find?_reclaimIds,
    Settings.priority_priorityConfig]
  rfl

theorem reap_moves (p : MessagePriority) (scan : Scan DispatchJob) (id : UUID) :
    Moves s (now, .reap p scan) sys (sys.reap s now p scan) id := by
  refine ⟨((sys.reaped now p scan).filter fun j => j.id = id).map .reclaimed, ?_, ?_⟩
  · rw [← filter_reclaimed]
    exact List.filter_append _ _
  · rw [find?_reap]
    cases hj : sys.db.jobs.find? id with
    | none =>
      have hnil : ((sys.reaped now p scan).filter fun j => j.id = id) = [] := by
        refine List.filter_eq_nil_iff.2 fun j hj' => ?_
        simpa using Table.find?_eq_none.1 hj j (mem_staleJobs hj').1
      rw [hnil]
      exact .same
    | some j =>
      obtain ⟨hm, rfl⟩ := Table.find?_eq_some.1 hj
      by_cases hmem : j.id ∈ (sys.reaped now p scan).map (·.id)
      · obtain ⟨k, hk, hi⟩ := List.mem_map.1 hmem
        obtain rfl : k = j := Table.eq_of_key_eq (mem_staleJobs hk).1 hm hi
        have hone : ((sys.reaped now p scan).filter fun x => x.id = k.id) = [k] :=
          filter_key_eq nodup_staleJobs hk
        rw [Option.map_some, if_pos hmem, hone]
        exact .row (.reclaimed hk)
      · have hnil : ((sys.reaped now p scan).filter fun k => k.id = j.id) = [] :=
          List.filter_eq_nil_iff.2 fun k hk => by
            simpa using fun hi : k.id = j.id => hmem (hi ▸ List.mem_map_of_mem hk)
        rw [Option.map_some, if_neg hmem, hnil]
        exact .same

theorem relayClaim_moves (r : OwnerId) (p : MessagePriority) (scans : ClaimScans) (id : UUID) :
    Moves s (now, .relayClaim r p scans) sys (sys.relayClaim s now r p scans) id := by
  rcases sys.relayClaim_cases s now r p scans with h | ⟨publications, h⟩ <;> rw [h]
  · exact .of_same rfl rfl id
  refine ⟨[], by simp [jobLog], ?_⟩
  show JobMove s sys now _ _ []
    ((Relay.claimJobs (s.priorityConfig p) r scans now sys.db).1.jobs.find? id)
  rw [Relay.claimJobs, find?_claimBatch]
  cases hj : sys.db.jobs.find? id with
  | none => exact .same
  | some j =>
    rw [Option.map_some]
    split_ifs with hmem
    · have he := eligible_of_claimed (Table.find?_eq_some.1 hj).1 hmem
      exact .row (.locked ((eligible_iff.1 he).1.symm ▸ he))
    · exact .same

theorem relayRecord_moves (r : OwnerId) (error : String) (jitter : Jitter) (id : UUID) :
    Moves s (now, .relayRecord r error jitter) sys (sys.relayRecord now r error jitter) id := by
  rcases sys.relayRecord_cases now r error jitter with
    h | ⟨published, failed, publications, h⟩ <;> rw [h]
  · exact .of_same rfl rfl id
  refine ⟨[], by simp [jobLog], ?_⟩
  show JobMove s sys now _ _ [] ((Relay.recordPublications r published failed error jitter now
    sys.db).jobs.find? id)
  rw [Relay.find?_recordPublications]
  cases sys.db.jobs.find? id with
  | none => exact .same
  | some j =>
    rw [Option.map_some]
    split_ifs with hh hh'
    · exact .row (.published (publishable_of_heldBy hh) (lockedBy_of_heldBy hh))
    · exact .row (.publishRetry (publishable_of_heldBy hh') (lockedBy_of_heldBy hh'))
    · exact .same

/-- A worker's write over the row of a job. -/
theorem find?_deliveryWrite {db db' : Db} {op : Option BalanceOp} {message : Message}
    {job job' : DispatchJob} (hw : DeliveryWrite db op message job' db')
    (hj : db.jobs.find? job.id = some job) (hi : job'.id = job.id) (id : UUID) :
    db'.jobs.find? id = if job.id = id then some job' else db.jobs.find? id := by
  rw [hw.jobs, Table.find?_put (Table.find?_eq_some.1 hj).1 hi.symm, hi]

theorem claim_moves (w : OwnerId) (jobId : UUID) (id : UUID) :
    Moves s (now, .claim w jobId) sys (sys.claim s now w jobId) id := by
  rcases sys.claim_cases s now w jobId with h | ⟨db', claim, processes, hc, -, h⟩ <;>
    rw [h]
  · exact .of_same rfl rfl id
  refine ⟨((claimEnd now jobId w claim).2).filter fun e => e.jobId = id, List.filter_append _ _, ?_⟩
  show JobMove s sys now _ _ _ (db'.jobs.find? id)
  rcases claimForDelivery_ok hc with
    ⟨rfl, rfl⟩ | ⟨job, message, op, message', job', hcl, hw, hd⟩
  · exact .same
  · obtain ⟨-, rfl⟩ := Table.find?_eq_some.1 hcl.job_found
    have hmv := hw.moved hcl.reserved
    rw [find?_deliveryWrite hd hcl.job_found (DispatchJob.id_eq hmv.job_original)]
    split_ifs with hid
    · subst hid
      rw [hcl.job_found]
      cases hw with
      | expired =>
        simpa [claimEnd, Event.jobId] using JobMove.row (s := s) (RowMove.expired
          hcl.not_terminal hcl.claimable hd.storable)
      | delivery =>
        simpa [claimEnd, Event.jobId] using JobMove.row (s := s) (RowMove.claimed
          hcl.not_terminal hcl.claimable hd.storable)
    · have hnil : ((claimEnd now job.id w claim).2.filter fun e => e.jobId = id) = [] := by
        cases hw <;> simp [claimEnd, Event.jobId, hid]
      rw [hnil]
      exact .same

theorem send_moves (w : OwnerId) (result : ProviderResult) (id : UUID) :
    Moves s (now, .send w result) sys (sys.send w result) id := by
  rcases sys.send_cases w result with h | ⟨jobId, context, -, h⟩ <;> rw [h]
  · exact .of_same rfl rfl id
  refine ⟨[Event.sent jobId w].filter fun e => e.jobId = id, List.filter_append _ _, ?_⟩
  by_cases hid : jobId = id
  · subst hid
    simpa [Event.jobId] using JobMove.sent
  · simpa [Event.jobId, hid] using JobMove.same

theorem record_moves (w : OwnerId) (jitter : Jitter) (id : UUID) :
    Moves s (now, .record w jitter) sys (sys.record s now w jitter) id := by
  rcases sys.record_cases s now w jitter with
    h | ⟨jobId, result, hp, h | ⟨db', recorded, hr, h⟩⟩ <;> rw [h]
  · exact .of_same rfl rfl id
  · exact .of_same (by rfl) (by rfl) id
  refine ⟨(recordEnd jobId w recorded).filter fun e => e.jobId = id, List.filter_append _ _, ?_⟩
  show JobMove s sys now _ _ _ (db'.jobs.find? id)
  rcases recordOutcome_ok hr with
    ⟨rfl, rfl⟩ | ⟨job, message, r, message', job', rfl, hh, ho, hd⟩
  · exact .same
  · obtain ⟨-, rfl⟩ := Table.find?_eq_some.1 hh.job_found
    rw [find?_deliveryWrite hd hh.job_found (DispatchJob.id_eq ho.moved.job_original)]
    split_ifs with hid
    · subst hid
      rw [hh.job_found]
      have hmove : RowMove s sys now job (.record w jitter)
          [.recorded job.id w message.id r] job' :=
        .recorded hh.dispatching hh.locked_by ho hd.storable hp
      simpa [recordEnd, Event.jobId] using JobMove.row hmove
    · simpa [recordEnd, Event.jobId, hid] using JobMove.same

/-- A step of the system is a move of every job. -/
theorem step_moves (s : Settings) (sys : System) (a : Time × Act) (id : UUID) :
    Moves s a sys (sys.step s a) id := by
  have h : Moves s a sys (sys.act s a.1 a.2) id := by
    obtain ⟨now, a⟩ := a
    cases a with
    | api t => exact api_moves t id
    | reap p scan => exact reap_moves p scan id
    | relayClaim r p scans => exact relayClaim_moves r p scans id
    | publish r accepts delivered =>
      obtain ⟨tasks, publications, h⟩ := sys.publish_cases r accepts delivered
      rw [act, h]
      exact .of_same (by rfl) (by rfl) id
    | relayRecord r error jitter => exact relayRecord_moves r error jitter id
    | relayCrash r => exact .of_same (by rfl) (by rfl) id
    | dropTask jobId => exact .of_same (by rfl) (by rfl) id
    | claim w jobId => exact claim_moves w jobId id
    | send w result => exact send_moves w result id
    | record w jitter => exact record_moves w jitter id
    | workerCrash w =>
      rcases sys.workerCrash_cases w with h | ⟨jobId, state, -, h⟩ <;> rw [act, h] <;>
        exact .of_same (by rfl) (by rfl) id
  exact h

/-- What the moves of a job preserve holds along a run. -/
theorem job_invariant {C : System → Time × Act → Prop} {id : UUID}
    {P : Time → Option DispatchJob → List Event → Prop}
    (hP : ∀ (sys : System) a es row', C sys a →
      JobMove s sys a.1 a.2 (sys.db.jobs.find? id) es row' →
      P sys.clock (sys.db.jobs.find? id) (sys.jobLog id) → P a.1 row' (sys.jobLog id ++ es))
    (acts : List (Time × Act)) {sys : System} (hC : AllSteps (step s) C sys acts)
    (h : P sys.clock (sys.db.jobs.find? id) (sys.jobLog id)) :
    P (run (step s) sys acts).clock ((run (step s) sys acts).db.jobs.find? id)
      ((run (step s) sys acts).jobLog id) := by
  refine AllSteps.invariant (P := fun sys : System =>
    P sys.clock (sys.db.jobs.find? id) (sys.jobLog id)) (fun sys a ha h => ?_) acts hC h
  obtain ⟨es, hlog, hmove⟩ := step_moves s sys a id
  rw [hlog]
  exact hP sys a es _ ha hmove h

/-! ## Steps on the database -/

/-- A step is one transaction, or leaves the database as it is. -/
theorem step_txn (s : Settings) (sys : System) (a : Time × Act) :
    (sys.step s a).db = sys.db ∨ ∃ t : Txn, (sys.step s a).db = t.apply s a.1 sys.db := by
  obtain ⟨now, a⟩ := a
  show (sys.act s now a).db = sys.db ∨ ∃ t : Txn, (sys.act s now a).db = t.apply s now sys.db
  cases a with
  | api t => exact Or.inr ⟨.api t, rfl⟩
  | reap p scan => exact Or.inr ⟨.relay (.reclaimStaleInflight p scan), rfl⟩
  | relayClaim r p scans =>
    rcases sys.relayClaim_cases s now r p scans with h | ⟨_, h⟩ <;> rw [act, h]
    · exact Or.inl rfl
    · exact Or.inr ⟨.relay (.claimJobs p r scans), rfl⟩
  | publish r accepts delivered =>
    obtain ⟨_, _, h⟩ := sys.publish_cases r accepts delivered
    rw [act, h]
    exact Or.inl rfl
  | relayRecord r error jitter =>
    rcases sys.relayRecord_cases now r error jitter with
      h | ⟨published, failed, _, h⟩ <;> rw [act, h]
    · exact Or.inl rfl
    · exact Or.inr ⟨.relay (.recordPublications r published failed error jitter), rfl⟩
  | relayCrash r => exact Or.inl rfl
  | dropTask jobId => exact Or.inl rfl
  | claim w jobId =>
    rcases sys.claim_cases s now w jobId with h | ⟨db', _, _, hc, -, h⟩ <;> rw [act, h]
    · exact Or.inl rfl
    · refine Or.inr ⟨.worker (.claimForDelivery jobId w), ?_⟩
      simp only [Txn.apply, WorkerTxn.apply, hc, Db.commit]
  | send w result =>
    rcases sys.send_cases w result with h | ⟨_, _, -, h⟩ <;> rw [act, h] <;>
      exact Or.inl rfl
  | record w jitter =>
    rcases sys.record_cases s now w jitter with
      h | ⟨jobId, result, -, h | ⟨db', _, hr, h⟩⟩ <;> rw [act, h]
    · exact Or.inl rfl
    · exact Or.inl rfl
    · refine Or.inr ⟨.worker (.recordOutcome jobId w result jitter), ?_⟩
      simp only [Txn.apply, WorkerTxn.apply, hr, Db.commit]
  | workerCrash w =>
    rcases sys.workerCrash_cases w with h | ⟨_, _, -, h⟩ <;> rw [act, h] <;>
      exact Or.inl rfl

/-- What every change of the database preserves a step preserves. -/
theorem step_preserves {P : Db → Prop} (hP : ∀ db db', Change s db db' → P db → P db')
    (a : Time × Act) (h : P sys.db) : P (sys.step s a).db := by
  rcases step_txn s sys a with hd | ⟨t, hd⟩ <;> rw [hd]
  · exact h
  · exact t.preserves hP h

theorem step_consistent (a : Time × Act) (h : sys.db.Consistent) :
    (sys.step s a).db.Consistent :=
  step_preserves (P := Db.Consistent) (fun _ _ hc h => h.change hc) a h

theorem after_consistent (s : Settings) (acts : List (Time × Act)) :
    (after s acts).db.Consistent :=
  run_induction (P := fun sys : System => sys.db.Consistent) (fun _ a h => step_consistent a h)
    acts Db.consistent_empty

end System

/-- A user submits a message, and a relay publishes its job. -/
def publishedSample : List (Time × Act) :=
  [(0, .api (.createUser 1 "user")), (0, .api (.topupUserCredits 1 5)),
    (0, .api (.createMessage ⟨1, "09121234567", "hello", .normal, 7⟩ ⟨10, 20⟩)),
    (0, .relayClaim 3 .normal {}), (0, .publish 3 (fun _ => true) fun _ => true),
    (0, .relayRecord 3 "" 0)]

end Abrio
