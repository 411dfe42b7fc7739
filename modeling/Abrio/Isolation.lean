import Abrio.Tenants

/-!
# Isolation of the users

What the users have to do with each other. A user sees his own requests, and of the processes what
they decide on his jobs : which a relay locks, publishes or puts back and for how long, which the
reaper takes, which a worker claims and with what result (`System.seen`). In two runs in which a
user sees the same, whatever the other users ask for in them, his rows are the same, and so is
what he and the workers on his jobs are told (`users_isolated`). So it is by that schedule alone
that one user can have an effect on another.
-/

open Relational Runs

namespace Abrio

open DispatchJobRepository DispatchUseCase

/-! ## What a user sees -/

/-- An act on the rows of one user. -/
inductive UserAct
  | request (t : ApiTxn)
  | reclaim (ids : List UUID)
  | lock (relayId : OwnerId) (ids : List UUID)
  | bookkeeping (relayId : OwnerId) (published failed : List UUID) (error : String) (delay : Time)
  | claim (workerId : OwnerId) (jobId : UUID)
  | outcome (workerId : OwnerId) (jobId : UUID) (result : ProviderResult) (jitter : Jitter)

namespace Db

variable (s : Settings) (db : Db)

/-- A relay locks jobs. -/
def lockIds (relayId : OwnerId) (ids : List UUID) (now : Time) : Db :=
  { db with
    jobs := db.jobs.updateWhere (fun j => j.id ∈ ids) (lockRow relayId now) fun _ _ => rfl }

/-- What an act does to the rows. -/
def userStep (a : Time × UserAct) : Db :=
  match a.2 with
  | .request t => t.apply s a.1 db
  | .reclaim ids => reclaimIds ids a.1 db
  | .lock relayId ids => db.lockIds relayId ids a.1
  | .bookkeeping relayId published failed error delay =>
    markPublishRetry failed relayId error delay a.1 (markPublished published relayId a.1 db)
  | .claim workerId jobId => db.commit (claimForDelivery s.dispatchConfig jobId workerId a.1 db)
  | .outcome workerId jobId result jitter =>
    db.commit (recordOutcome s.dispatchConfig jobId workerId result jitter a.1 db)

/-- What it returns. -/
def userAnswer (a : Time × UserAct) : UserReply :=
  match a.2 with
  | .request t => t.answer s a.1 db
  | .claim workerId jobId =>
    .claim ((claimForDelivery s.dispatchConfig jobId workerId a.1 db).map Prod.snd)
  | .outcome workerId jobId result jitter =>
    .recorded ((recordOutcome s.dispatchConfig jobId workerId result jitter a.1 db).map Prod.snd)
  | _ => .nothing

/-- The job is the user's. -/
def owns (u : UserId) (jobId : UUID) : Bool :=
  (db.jobs.find? jobId).any fun j => j.userId = u

end Db

/-- A decision on the jobs of a list, if there are any. -/
def decision (decide : List UUID → UserAct) (ids : List UUID) : Option UserAct :=
  if ids.isEmpty then none else some (decide ids)

namespace System

variable (s : Settings) (u : UserId) (sys : System)

/-- The jobs of the user in a list. -/
def own (ids : List UUID) : List UUID :=
  ids.filter (sys.db.owns u)

/-- What user `u` sees of an act. -/
def seenAct (now : Time) : Act → Option UserAct
  | .api t => if t.userId = u then some (.request t) else none
  | .reap priority scan =>
    decision .reclaim (sys.own u ((sys.reaped now priority scan).map DispatchJob.id))
  | .relayClaim relayId priority scans =>
    if (sys.publications.find? relayId).isSome then none
    else decision (.lock relayId) (sys.own u
      ((Relay.claimJobs (s.priorityConfig priority) relayId scans now sys.db).2.map ClaimedJob.id))
  | .relayRecord relayId error jitter =>
    match sys.publications.find? relayId with
    | some ⟨_, _, some (published, failed)⟩ =>
      let published := sys.own u published
      let failedIds := sys.own u (failed.map ClaimedJob.id)
      if published.isEmpty && failedIds.isEmpty then none
      else some (.bookkeeping relayId published failedIds error
        (calculateBackoff (Relay.highestRetryCount failed) jitter))
    | _ => none
  | .claim workerId jobId =>
    if jobId ∈ sys.tasks ∧ (sys.processes.find? workerId).isNone ∧ sys.db.owns u jobId then
      some (.claim workerId jobId)
    else none
  | .record workerId jitter =>
    match sys.processes.find? workerId with
    | some ⟨_, jobId, .answered result⟩ =>
      if sys.db.owns u jobId then some (.outcome workerId jobId result jitter) else none
    | _ => none
  | _ => none

/-- What the user sees of an act, with its time. -/
def seen (a : Time × Act) : Option (Time × UserAct) :=
  (sys.seenAct s u a.1 a.2).map (a.1, ·)

/-- A request of the user draws no id that a row of another user has. -/
def DrawsOwn (a : Time × Act) : Prop :=
  match a.2 with
  | .api t => t.userId = u → sys.db.OwnIds u (t.submissions a.1)
  | _ => True

instance (a : Time × Act) : Decidable (sys.DrawsOwn u a) := by
  unfold DrawsOwn
  split <;> infer_instance

end System

/-! ## Updates of jobs -/

namespace Db

variable {u : UserId} {db : Db}

theorem owns_iff {jobId : UUID} :
    db.owns u jobId = true ↔ ∃ j ∈ db.jobs, j.id = jobId ∧ j.userId = u := by
  rw [owns, Option.any_eq_true]
  constructor
  · rintro ⟨j, hj, hu⟩
    obtain ⟨hmem, hid⟩ := Table.find?_eq_some.1 hj
    exact ⟨j, hmem, hid, of_decide_eq_true hu⟩
  · rintro ⟨j, hj, rfl, hu⟩
    exact ⟨j, Table.find?_key hj, decide_eq_true hu⟩

/-- The jobs with the id of a job of the user are the user's. -/
theorem user_of_owns {jobId : UUID} (h : db.owns u jobId = true) :
    ∀ j ∈ db.jobs, j.id = jobId → j.userId = u := by
  intro j hj hid
  obtain ⟨j', hj', hid', hu⟩ := owns_iff.1 h
  rw [Table.eq_of_key_eq hj hj' (hid.trans hid'.symm), hu]

/-- An update of jobs, on the rows of the user. -/
theorem of_updateJobs {q q' : DispatchJob → Bool} {f : DispatchJob → DispatchJob}
    {hf : ∀ j, q j = true → (f j).id = j.id} {hf' : ∀ j, q' j = true → (f j).id = j.id}
    (hu : ∀ j, (f j).userId = j.userId) (hq : ∀ j ∈ db.jobs, j.userId = u → q j = q' j) :
    Db.of u { db with jobs := db.jobs.updateWhere q f hf } =
      { db.of u with jobs := (db.of u).jobs.updateWhere q' f hf' } := by
  refine Db.ext rfl rfl rfl ?_
  show (db.jobs.updateWhere q f hf).restrict _ = (db.jobs.restrict _).updateWhere q' f hf'
  rw [Table.restrict_updateWhere fun j _ _ => by rw [hu j]]
  exact Table.updateWhere_restrict fun j hj hp => hq j hj (of_decide_eq_true hp)

/-- An update of no rows. -/
theorem updateJobs_none {q : DispatchJob → Bool} {f : DispatchJob → DispatchJob}
    {hf : ∀ j, q j = true → (f j).id = j.id} (hq : ∀ j, q j = false) :
    { db with jobs := db.jobs.updateWhere q f hf } = db :=
  Db.ext rfl rfl rfl <| Table.ext <|
    (List.map_congr_left fun j _ => by simp [hq j]).trans (List.map_id _)

theorem reclaimIds_nil (now : Time) : reclaimIds [] now db = db :=
  updateJobs_none fun _ => rfl

theorem lockIds_nil (r : OwnerId) (now : Time) : db.lockIds r [] now = db :=
  updateJobs_none fun _ => rfl

theorem publishedRow_id (now : Time) (j : DispatchJob) : (publishedRow now j).id = j.id :=
  rfl

theorem publishRetryRow_id (now delay : Time) (error : String) (j : DispatchJob) :
    (publishRetryRow now delay error j).id = j.id :=
  rfl

/-- An update of the jobs that a relay holds of a list. -/
def updateHeld (db : Db) (ids : List UUID) (r : OwnerId) (f : DispatchJob → DispatchJob)
    (hf : ∀ j, (f j).id = j.id) : Db :=
  { db with jobs := db.jobs.updateWhere (heldBy ids r) f fun j _ => hf j }

theorem mem_updateHeld {ids : List UUID} {r : OwnerId} {f : DispatchJob → DispatchJob}
    {hf : ∀ j, (f j).id = j.id} {j : DispatchJob} : j ∈ (db.updateHeld ids r f hf).jobs ↔
      ∃ x ∈ db.jobs, (if heldBy ids r x then f x else x) = j := by
  show j ∈ db.jobs.updateWhere (heldBy ids r) f (fun j _ => hf j) ↔ _
  exact Table.mem_updateWhere

theorem updateHeld_nil (r : OwnerId) {f : DispatchJob → DispatchJob} {hf : ∀ j, (f j).id = j.id} :
    db.updateHeld [] r f hf = db :=
  updateJobs_none fun _ => rfl

theorem markPublished_eq (ids : List UUID) (r : OwnerId) (now : Time) :
    markPublished ids r now db = db.updateHeld ids r (publishedRow now) (publishedRow_id now) := by
  unfold markPublished
  split_ifs with h
  · obtain rfl := List.isEmpty_iff.1 h
    exact (updateHeld_nil r).symm
  · rfl

theorem markPublishRetry_eq (ids : List UUID) (r : OwnerId) (error : String) (delay now : Time) :
    markPublishRetry ids r error delay now db = db.updateHeld ids r
      (publishRetryRow now delay error) (publishRetryRow_id now delay error) := by
  unfold markPublishRetry
  split_ifs with h
  · obtain rfl := List.isEmpty_iff.1 h
    exact (updateHeld_nil r).symm
  · rfl

end Db

namespace System

variable {s : Settings} {u : UserId}

/-! ## Decisions -/

section Decisions

variable (u) (sys : System)

/-- A job of the user is in a list of ids when it is in the part of the user. -/
theorem mem_own (ids : List UUID) {j : DispatchJob} (hj : j ∈ sys.db.jobs) (hu : j.userId = u) :
    decide (j.id ∈ ids) = decide (j.id ∈ sys.own u ids) := by
  have howns : sys.db.owns u j.id = true := Db.owns_iff.2 ⟨j, hj, rfl, hu⟩
  rw [decide_eq_decide, own, List.mem_filter, and_iff_left howns]

/-- The update of the jobs a relay holds, in a state that has the same jobs. -/
theorem updateHeld_own {db : Db} (hdb : ∀ j ∈ db.jobs, ∃ x ∈ sys.db.jobs, x.id = j.id ∧
    x.userId = j.userId) (ids : List UUID) (r : OwnerId) {f : DispatchJob → DispatchJob}
    (hf : ∀ j, (f j).id = j.id) (hu : ∀ j, (f j).userId = j.userId) :
    (db.updateHeld ids r f hf).of u = (db.of u).updateHeld (sys.own u ids) r f hf := by
  refine Db.of_updateJobs hu fun j hj hju => ?_
  obtain ⟨x, hx, hid, hxu⟩ := hdb j hj
  unfold heldBy
  rw [← hid, sys.mem_own u ids hx (hxu.trans hju)]

theorem bookkeeping_own (published failed : List UUID) (r : OwnerId) (error : String)
    (delay now : Time) :
    (markPublishRetry failed r error delay now (markPublished published r now sys.db)).of u =
      markPublishRetry (sys.own u failed) r error delay now
        (markPublished (sys.own u published) r now (sys.db.of u)) := by
  simp only [Db.markPublished_eq, Db.markPublishRetry_eq]
  rw [sys.updateHeld_own u ?_ failed r (Db.publishRetryRow_id now delay error) fun _ => rfl,
    sys.updateHeld_own u (fun j hj => ⟨j, hj, rfl, rfl⟩) published r (Db.publishedRow_id now)
      fun _ => rfl]
  intro j hj
  obtain ⟨x, hx, rfl⟩ := Db.mem_updateHeld.1 hj
  refine ⟨x, hx, ?_⟩
  split_ifs <;> exact ⟨rfl, rfl⟩

/-- A decision on jobs is a decision on those of the user. -/
theorem view_decision {next : Db} (decide : List UUID → UserAct) {ids : List UUID} {now : Time}
    (h : next.of u = (sys.db.of u).userStep s (now, decide (sys.own u ids)))
    (hnil : ∀ db : Db, db.userStep s (now, decide []) = db) :
    next.of u = run (Db.userStep s) (sys.db.of u)
      ((decision decide (sys.own u ids)).map (now, ·)).toList := by
  unfold decision
  cases hids : sys.own u ids with
  | nil =>
    rw [hids, hnil] at h
    exact h
  | cons id ids =>
    rw [hids] at h
    exact h

theorem view_reap (now : Time) (p : MessagePriority) (scan : Scan DispatchJob) :
    (sys.reap s now p scan).db.of u = run (Db.userStep s) (sys.db.of u)
      (sys.seen s u (now, .reap p scan)).toList := by
  refine sys.view_decision u .reclaim ?_ fun db => Db.reclaimIds_nil now
  rw [reap, Relay.reclaimStaleInflight, reclaimStaleInflight, Settings.priority_priorityConfig]
  exact Db.of_updateJobs (fun _ => rfl) fun _ hj hu => sys.mem_own u _ hj hu

theorem insert_publication_isSome (r : OwnerId) (claimed : List ClaimedJob) :
    (sys.publications.insert ⟨r, claimed, none⟩).isSome = !(sys.publications.find? r).isSome := by
  cases hf : sys.publications.find? r with
  | some pub =>
    obtain ⟨hpub, hr⟩ := Table.find?_eq_some.1 hf
    rw [Table.insert_eq_none.2 ⟨pub, hpub, hr⟩]
    rfl
  | none =>
    obtain ⟨t, ht⟩ := Table.exists_insert (r := (⟨r, claimed, none⟩ : Publication))
      (Table.find?_eq_none.1 hf)
    rw [ht]
    rfl

theorem view_relayClaim (now : Time) (r : OwnerId) (p : MessagePriority) (scans : ClaimScans) :
    (sys.relayClaim s now r p scans).db.of u = run (Db.userStep s) (sys.db.of u)
      (sys.seen s u (now, .relayClaim r p scans)).toList := by
  have hinsert := sys.insert_publication_isSome r
    (Relay.claimJobs (s.priorityConfig p) r scans now sys.db).2
  unfold relayClaim seen seenAct
  cases hf : (sys.publications.find? r).isSome with
  | true =>
    rw [hf, Bool.not_true, Option.isSome_eq_false_iff, Option.isNone_iff_eq_none] at hinsert
    simp only [hinsert, hf, if_true]
    rfl
  | false =>
    rw [hf, Bool.not_false, Option.isSome_iff_exists] at hinsert
    obtain ⟨publications, hi⟩ := hinsert
    have hids : (Relay.claimJobs (s.priorityConfig p) r scans now sys.db).2.map ClaimedJob.id =
        (claimRows (s.priorityConfig p).priority (s.priorityConfig p).batchSize
          (s.priorityConfig p).perUserLimit leaseSeconds scans now sys.db.jobs.rows).map
            DispatchJob.id := by
      simp only [Relay.claimJobs, claimBatch, List.map_map]
      rfl
    simp only [hi, hf, Bool.false_eq_true, if_false, hids]
    refine Eq.trans (b := (Relay.claimJobs (s.priorityConfig p) r scans now sys.db).1.of u) ?_ ?_
    · split_ifs <;> rfl
    · exact sys.view_decision u (.lock r)
        (Db.of_updateJobs (fun _ => rfl) fun _ hj hu => sys.mem_own u _ hj hu)
        fun db => Db.lockIds_nil r now

theorem recordPublications_eq (db : Db) (r : OwnerId) (published : List UUID)
    (failed : List ClaimedJob) (error : String) (jitter : Jitter) (now : Time) :
    Relay.recordPublications r published failed error jitter now db =
      markPublishRetry (failed.map ClaimedJob.id) r error
        (calculateBackoff (Relay.highestRetryCount failed) jitter) now
          (markPublished published r now db) := by
  unfold Relay.recordPublications
  split_ifs with hnil
  · obtain rfl := List.isEmpty_iff.1 hnil
    rfl
  · rfl

theorem view_relayRecord (now : Time) (r : OwnerId) (error : String) (jitter : Jitter) :
    (sys.relayRecord now r error jitter).db.of u = run (Db.userStep s) (sys.db.of u)
      (sys.seen s u (now, .relayRecord r error jitter)).toList := by
  simp only [relayRecord, seen, seenAct]
  cases sys.publications.find? r with
  | none => rfl
  | some pub =>
    obtain ⟨r', claimed, outcome⟩ := pub
    cases outcome with
    | none => rfl
    | some outcome =>
      obtain ⟨published, failed⟩ := outcome
      simp only [recordPublications_eq, sys.bookkeeping_own u]
      split_ifs with hnil
      · obtain ⟨hp, hf⟩ := Bool.and_eq_true_iff.1 hnil
        rw [List.isEmpty_iff.1 hp, List.isEmpty_iff.1 hf]
        rfl
      · rfl

end Decisions

end System

/-! ## Workers -/

section Workers

variable {u : UserId} {db : Db} {job : DispatchJob} {message : Message} {now : Time}

/-- A job and a message of the user that are in the tables. -/
structure Db.Owned (db : Db) (u : UserId) (job : DispatchJob) (message : Message) : Prop where
  job_user : job.userId = u
  message_user : message.userId = u
  job_mem : ∀ x ∈ db.jobs, x.id = job.id → x.userId = u
  message_mem : ∀ x ∈ db.messages, x.id = message.id → x.userId = u

/-- The last writes of a worker. -/
theorem writeRows_of (h : db.Owned u job message) {job' : DispatchJob} {message' : Message}
    (hj : job'.original = job.original) (hm : message'.original = message.original) :
    ((db.of u).writeMessage message').writeJob job' =
      ((db.writeMessage message').writeJob job').map (Db.of u) := by
  have hput : ({ (db.of u).writeMessage message' with
        jobs := (db.of u).jobs.put job' } : Db) =
      Db.of u { db.writeMessage message' with jobs := db.jobs.put job' } := by
    refine Db.ext rfl rfl ?_ ?_
    · refine (Table.restrict_put (p := fun m : Message => m.userId = u)
        (decide_eq_true ((Message.userId_eq hm).trans h.message_user)) fun x hx hid => ?_).symm
      exact decide_eq_true (h.message_mem x hx (hid.trans (Message.id_eq hm)))
    · refine (Table.restrict_put (p := fun j : DispatchJob => j.userId = u)
        (decide_eq_true ((DispatchJob.userId_eq hj).trans h.job_user)) fun x hx hid => ?_).symm
      exact decide_eq_true (h.job_mem x hx (hid.trans (DispatchJob.id_eq hj)))
  unfold Db.writeJob
  split_ifs
  · rfl
  · exact congrArg Except.ok hput

/-- A balance operation and the last writes. -/
theorem payment_of (h : db.Owned u job message) {x : Db → UserId → Except Exn Balance}
    (hx : ∀ db : Db, x (db.of u) u = x db u)
    (hb : ∀ b, x db message.userId = .ok b → b.userId = message.userId) {job' : DispatchJob}
    {message' : Message} (hj : job'.original = job.original)
    (hm : message'.original = message.original) :
    (do
      let balance ← x (db.of u) message.userId
      let db ← (db.of u).writeBalance balance
      (db.writeMessage message').writeJob job') =
    (do
      let balance ← x db message.userId
      let db ← db.writeBalance balance
      (db.writeMessage message').writeJob job').map (Db.of u) := by
  have hread : x (db.of u) message.userId = x db message.userId := by
    rw [h.message_user, hx]
  refine read_map_of hread fun b hb' => ?_
  refine bind_map_of (Db.writeBalance_of ((hb b hb').trans h.message_user)) fun db₁ hw => ?_
  obtain ⟨-, rfl⟩ := Db.writeBalance_ok.1 hw
  have hown : Db.Owned { db with balances := db.balances.put b } u job message :=
    ⟨h.job_user, h.message_user, h.job_mem, h.message_mem⟩
  exact writeRows_of hown hj hm

theorem permanentlyFail_of (h : db.Owned u job message) (error : String) :
    permanentlyFail job message error now (db.of u) =
      (permanentlyFail job message error now db).map (Db.of u) := by
  refine payment_of h
    (x := fun db userId => BalanceRepository.releaseCredits db userId message.cost)
    (fun db => ?_) (fun b hb => ?_) rfl rfl
  · simp only [BalanceRepository.releaseCredits, BalanceRepository.deductUserReservedCredits,
      getByUserId_of]
  · obtain ⟨-, b₀, hf, rfl⟩ := BalanceRepository.releaseCredits_ok.1 hb
    exact (Table.find?_eq_some.1 hf).2

theorem recordSuccess_of (h : db.Owned u job message) (providerMessageId : String) :
    recordSuccess job message providerMessageId now (db.of u) =
      (recordSuccess job message providerMessageId now db).map (Db.of u) := by
  refine payment_of h (x := fun db userId => BalanceRepository.settle db userId message.cost)
    (fun db => ?_) (fun b hb => ?_) rfl rfl
  · simp only [BalanceRepository.settle, getByUserId_of]
  · obtain ⟨-, b₀, hf, rfl⟩ := BalanceRepository.settle_ok.1 hb
    exact (Table.find?_eq_some.1 hf).2

theorem recordRetry_of (h : db.Owned u job message) (error : String) (delay : Time) :
    recordRetry job message error delay now (db.of u) =
      (recordRetry job message error delay now db).map (Db.of u) :=
  writeRows_of h rfl rfl

variable {cfg : DispatchConfig}

theorem recordHeld_of (h : db.Owned u job message) (result : ProviderResult) (jitter : Jitter) :
    recordHeld cfg job message result jitter now (db.of u) =
      (recordHeld cfg job message result jitter now db).map (leftOf u) := by
  unfold recordHeld
  cases result.outcome with
  | success =>
    cases result.providerMessageId with
    | none => rfl
    | some providerMessageId =>
      exact bind_map_of (recordSuccess_of h providerMessageId) fun _ _ => rfl
  | permanentFailure => exact bind_map_of (permanentlyFail_of h _) fun _ _ => rfl
  | temporaryFailure =>
    unfold recordTemporaryFailure
    dsimp only
    split_ifs
    · exact bind_map_of (permanentlyFail_of h _) fun _ _ => rfl
    · exact bind_map_of (permanentlyFail_of h _) fun _ _ => rfl
    · exact bind_map_of (recordRetry_of h _ _) fun _ _ => rfl

/-- The job of the user with its message. -/
theorem Db.Accounted.owned (hdb : db.Accounted) {jobId : UUID} (howns : db.owns u jobId = true)
    (hj : db.jobs.find? jobId = some job) (hm : db.messages.find? job.messageId = some message) :
    db.Owned u job message := by
  obtain ⟨hjob, hid⟩ := Table.find?_eq_some.1 hj
  obtain ⟨hmessage, hmid⟩ := Table.find?_eq_some.1 hm
  have hju := Db.user_of_owns howns job hjob hid
  obtain ⟨m, hm', hlinked⟩ := hdb.message_of_job hjob
  obtain rfl : m = message := Table.eq_of_key_eq hm' hmessage
    (hlinked.messageId.symm.trans hmid.symm)
  have hmu : m.userId = u := hlinked.userId.symm.trans hju
  refine ⟨hju, hmu, fun x hx hxid => ?_, fun x hx hxid => ?_⟩
  · rw [Table.eq_of_key_eq hx hjob hxid, hju]
  · rw [Table.eq_of_key_eq hx hmessage hxid, hmu]

/-- The message of a job of the user is found among those of the user. -/
theorem Db.Accounted.getForUpdate_of (hdb : db.Accounted) {jobId : UUID}
    (howns : db.owns u jobId = true) (hj : db.jobs.find? jobId = some job) :
    MessageRepository.getForUpdate (db.of u) job.messageId =
      MessageRepository.getForUpdate db job.messageId := by
  obtain ⟨m, hm, hlinked⟩ := hdb.message_of_job (Table.find?_eq_some.1 hj).1
  have hmid : db.messages.find? job.messageId = some m := by
    rw [hlinked.messageId]
    exact Table.find?_key hm
  unfold MessageRepository.getForUpdate
  rw [Db.find?_messages_of fun x hx hid => (hdb.owned howns hj hmid).message_mem x hx
    (hid.trans hlinked.messageId)]

theorem claimForDelivery_of (hdb : db.Accounted) {jobId : UUID} (howns : db.owns u jobId = true)
    (w : OwnerId) : claimForDelivery cfg jobId w now (db.of u) =
      (claimForDelivery cfg jobId w now db).map (leftOf u) := by
  unfold claimForDelivery
  rw [Db.find?_jobs_of (Db.user_of_owns howns)]
  cases hj : db.jobs.find? jobId with
  | none => rfl
  | some job =>
    dsimp only
    split_ifs
    · rfl
    · rfl
    · refine read_map_of (hdb.getForUpdate_of howns hj) fun message hm => ?_
      have hown := hdb.owned howns hj (MessageRepository.getForUpdate_ok.1 hm)
      split_ifs
      · rfl
      · exact bind_map_of (permanentlyFail_of hown _) fun _ _ => rfl
      · exact bind_map_of (writeRows_of hown rfl rfl) fun _ _ => rfl

theorem recordOutcome_of (hdb : db.Accounted) {jobId : UUID} (howns : db.owns u jobId = true)
    (w : OwnerId) (result : ProviderResult) (jitter : Jitter) :
    recordOutcome cfg jobId w result jitter now (db.of u) =
      (recordOutcome cfg jobId w result jitter now db).map (leftOf u) := by
  unfold recordOutcome
  rw [Db.find?_jobs_of (Db.user_of_owns howns)]
  cases hj : db.jobs.find? jobId with
  | none => rfl
  | some job =>
    dsimp only
    split_ifs
    · rfl
    · refine read_map_of (hdb.getForUpdate_of howns hj) fun message hm => ?_
      have hown := hdb.owned howns hj (MessageRepository.getForUpdate_ok.1 hm)
      rw [recordHeld_of hown]
      cases recordHeld cfg job message result jitter now db <;> rfl

/-- The write of a worker for another user. -/
theorem DeliveryWrite.of_ne {db' : Db} {op : Option BalanceOp} {message' : Message}
    {job' : DispatchJob} (hw : DeliveryWrite db op message' job' db') (hj : job ∈ db.jobs)
    (hm : message ∈ db.messages) (moved : Moved op message message' job job')
    (hju : job.userId ≠ u) (hmu : message.userId ≠ u) : db'.of u = db.of u := by
  have ho := moved.message_original
  have hoj := moved.job_original
  have hbal : db'.balances.restrict (fun b => b.userId = u) =
      db.balances.restrict fun b => b.userId = u := by
    have hb := hw.balances
    generalize db'.balances = balances at hb
    cases hb with
    | none => rfl
    | some op b _ found _ =>
      have hbu : (op.apply message'.cost b).userId ≠ u := by
        rw [BalanceOp.apply_userId, (Table.find?_eq_some.1 found).2, Message.userId_eq ho]
        exact hmu
      exact congrArg Db.balances (db.of_putBalance hbu)
  refine Db.ext (congrArg (Table.restrict _) hw.users) hbal ?_ ?_
  · refine (congrArg (Table.restrict _) hw.messages).trans
      (Table.restrict_put_of_not (decide_eq_false ?_) fun x hx hid => decide_eq_false ?_)
    · rwa [Message.userId_eq ho]
    · rwa [Table.eq_of_key_eq hx hm (hid.trans (Message.id_eq ho))]
  · refine (congrArg (Table.restrict _) hw.jobs).trans
      (Table.restrict_put_of_not (decide_eq_false ?_) fun x hx hid => decide_eq_false ?_)
    · rwa [DispatchJob.userId_eq hoj]
    · rwa [Table.eq_of_key_eq hx hj (hid.trans (DispatchJob.id_eq hoj))]

/-- A job that is not the user's has a message that is not. -/
theorem Db.Accounted.not_owned (hdb : db.Accounted) {jobId : UUID}
    (howns : ¬db.owns u jobId = true) (hj : db.jobs.find? jobId = some job)
    (hm : db.messages.find? job.messageId = some message) :
    job.userId ≠ u ∧ message.userId ≠ u := by
  obtain ⟨hjob, hid⟩ := Table.find?_eq_some.1 hj
  obtain ⟨hmessage, hmid⟩ := Table.find?_eq_some.1 hm
  have hju : job.userId ≠ u := fun hu => howns (Db.owns_iff.2 ⟨job, hjob, hid, hu⟩)
  obtain ⟨m, hm', hlinked⟩ := hdb.message_of_job hjob
  obtain rfl : m = message := Table.eq_of_key_eq hm' hmessage
    (hlinked.messageId.symm.trans hmid.symm)
  exact ⟨hju, hlinked.userId ▸ hju⟩

theorem commit_leftOf {α : Type} {x x' : Except Exn (Db × α)} (h : x' = x.map (leftOf u)) :
    (db.of u).commit x' = (db.commit x).of u := by
  subst h
  cases x <;> rfl

theorem claimForDelivery_of_ne (hdb : db.Accounted) {jobId : UUID}
    (howns : ¬db.owns u jobId = true) (w : OwnerId) :
    (db.commit (claimForDelivery cfg jobId w now db)).of u = db.of u := by
  refine Db.commit_of (P := fun db' => db'.of u = db.of u) rfl fun db' claim hc => ?_
  rcases claimForDelivery_ok hc with ⟨-, rfl⟩ | ⟨job, message, op, message', job', hcl, hw, hd⟩
  · rfl
  · obtain ⟨hju, hmu⟩ := hdb.not_owned howns hcl.job_found hcl.message_found
    exact hd.of_ne (Table.find?_eq_some.1 hcl.job_found).1
      (Table.find?_eq_some.1 hcl.message_found).1 (hw.moved hcl.reserved) hju hmu

theorem recordOutcome_of_ne (hdb : db.Accounted) {jobId : UUID}
    (howns : ¬db.owns u jobId = true) (w : OwnerId) (result : ProviderResult) (jitter : Jitter) :
    (db.commit (recordOutcome cfg jobId w result jitter now db)).of u = db.of u := by
  refine Db.commit_of (P := fun db' => db'.of u = db.of u) rfl fun db' recorded hr => ?_
  rcases recordOutcome_ok hr with ⟨-, rfl⟩ | ⟨job, message, r, message', job', -, hh, ho, hd⟩
  · rfl
  · obtain ⟨hju, hmu⟩ := hdb.not_owned howns hh.job_found hh.message_found
    exact hd.of_ne (Table.find?_eq_some.1 hh.job_found).1
      (Table.find?_eq_some.1 hh.message_found).1 ho.moved hju hmu

end Workers

/-! ## Steps and runs -/

namespace System

variable {s : Settings} {u : UserId} {sys : System}

/-- The rows after a worker has taken a task. -/
theorem claim_db (now : Time) (w : OwnerId) (jobId : UUID) : (sys.claim s now w jobId).db =
    if jobId ∈ sys.tasks ∧ (sys.processes.find? w).isNone = true then
      sys.db.commit (claimForDelivery s.dispatchConfig jobId w now sys.db)
    else sys.db := by
  unfold claim
  by_cases htask : jobId ∈ sys.tasks
  · rw [if_pos htask]
    cases hc : claimForDelivery s.dispatchConfig jobId w now sys.db with
    | error e => simp [Db.commit]
    | ok r =>
      obtain ⟨db', claim⟩ := r
      dsimp only
      cases hi : sys.processes.insert ⟨w, jobId, (claimEnd now jobId w claim).1⟩ with
      | none =>
        obtain ⟨p, hp, hw⟩ := Table.insert_eq_none.1 hi
        have hfound : sys.processes.find? w = some p := Table.find?_eq_some.2 ⟨hp, hw⟩
        simp [hfound]
      | some processes =>
        have hnone : sys.processes.find? w = none :=
          Table.find?_eq_none.2 fun p hp => Table.key_ne_of_insert hi hp
        simp [hnone, htask, Db.commit]
  · simp [htask]

theorem record_db (now : Time) (w : OwnerId) (jitter : Jitter) : (sys.record s now w jitter).db =
    match sys.processes.find? w with
    | some ⟨_, jobId, .answered result⟩ =>
      sys.db.commit (recordOutcome s.dispatchConfig jobId w result jitter now sys.db)
    | _ => sys.db := by
  unfold record
  cases sys.processes.find? w with
  | none => rfl
  | some p =>
    obtain ⟨w', jobId, state⟩ := p
    cases state with
    | answered result =>
      dsimp only
      cases recordOutcome s.dispatchConfig jobId w result jitter now sys.db <;> rfl
    | delivering context => rfl
    | ended => rfl

theorem view_claim (hdb : sys.db.Accounted) (now : Time) (w : OwnerId) (jobId : UUID) :
    (sys.claim s now w jobId).db.of u = run (Db.userStep s) (sys.db.of u)
      (sys.seen s u (now, .claim w jobId)).toList := by
  rw [claim_db]
  simp only [seen, seenAct]
  by_cases hstarts : jobId ∈ sys.tasks ∧ (sys.processes.find? w).isNone = true
  · rw [if_pos hstarts]
    by_cases howns : sys.db.owns u jobId = true
    · rw [if_pos ⟨hstarts.1, hstarts.2, howns⟩]
      exact (commit_leftOf (claimForDelivery_of hdb howns w)).symm
    · rw [if_neg fun h => howns h.2.2]
      exact claimForDelivery_of_ne hdb howns w
  · rw [if_neg hstarts, if_neg fun h => hstarts ⟨h.1, h.2.1⟩]
    rfl

theorem view_record (hdb : sys.db.Accounted) (now : Time) (w : OwnerId) (jitter : Jitter) :
    (sys.record s now w jitter).db.of u = run (Db.userStep s) (sys.db.of u)
      (sys.seen s u (now, .record w jitter)).toList := by
  rw [record_db]
  simp only [seen, seenAct]
  split
  · split_ifs with howns
    · exact (commit_leftOf (recordOutcome_of hdb howns w _ jitter)).symm
    · exact recordOutcome_of_ne hdb howns w _ jitter
  · rfl

/-- For the rows of the user a step is what he sees of it. -/
theorem view_step (hdb : sys.db.Accounted) {a : Time × Act} (ha : sys.DrawsOwn u a) :
    (sys.step s a).db.of u = run (Db.userStep s) (sys.db.of u) (sys.seen s u a).toList := by
  obtain ⟨now, a⟩ := a
  cases a with
  | api t =>
    show (t.apply s now sys.db).of u = _
    simp only [seen, seenAct]
    split_ifs with hu
    · subst hu
      exact (ApiTxn.apply_of hdb (ha rfl)).symm
    · exact ApiTxn.apply_of_ne hu
  | reap p scan => exact sys.view_reap u now p scan
  | relayClaim r p scans => exact sys.view_relayClaim u now r p scans
  | relayRecord r error jitter => exact sys.view_relayRecord u now r error jitter
  | claim w jobId => exact view_claim hdb now w jobId
  | record w jitter => exact view_record hdb now w jitter
  | publish r accepts delivered =>
    obtain ⟨tasks, publications, h⟩ := sys.publish_cases r accepts delivered
    show (sys.publish r accepts delivered).db.of u = _
    rw [h]
    rfl
  | send w result =>
    show (sys.send w result).db.of u = _
    rcases sys.send_cases w result with h | ⟨_, _, -, h⟩ <;> rw [h] <;> rfl
  | workerCrash w =>
    show (sys.workerCrash w).db.of u = _
    rcases sys.workerCrash_cases w with h | ⟨_, _, -, h⟩ <;> rw [h] <;> rfl
  | relayCrash r => rfl
  | dropTask jobId => rfl

theorem snd_leftOf {α : Type} {x x' : Except Exn (Db × α)} (h : x' = x.map (leftOf u)) :
    x'.map Prod.snd = x.map Prod.snd := by
  subst h
  cases x <;> rfl

/-- A decision on jobs tells the user nothing. -/
theorem answer_decision (decide : List UUID → UserAct) {ids : List UUID} {b : UserAct} {now : Time}
    (hb : decision decide ids = some b)
    (h : ∀ (db : Db) ids, db.userAnswer s (now, decide ids) = .nothing) (db db' : Db) :
    db.userAnswer s (now, b) = db'.userAnswer s (now, b) := by
  unfold decision at hb
  split_ifs at hb
  cases hb
  rw [h, h]

/-- What the user, or a worker on a job of his, is told is read off his rows. -/
theorem answer_of_seen (hdb : sys.db.Accounted) {a : Time × Act} (ha : sys.DrawsOwn u a)
    {b : Time × UserAct} (hb : sys.seen s u a = some b) :
    sys.db.userAnswer s b = (sys.db.of u).userAnswer s b := by
  obtain ⟨now, a⟩ := a
  obtain ⟨b, hseen, rfl⟩ := Option.map_eq_some_iff.1 hb
  cases a with
  | api t =>
    simp only [seenAct] at hseen
    split_ifs at hseen with hu
    cases hseen
    subst hu
    exact (ApiTxn.answer_of hdb (ha rfl)).symm
  | reap p scan => exact answer_decision .reclaim hseen (fun _ _ => rfl) _ _
  | relayClaim r p scans =>
    simp only [seenAct] at hseen
    split_ifs at hseen
    exact answer_decision (.lock r) hseen (fun _ _ => rfl) _ _
  | relayRecord r error jitter =>
    simp only [seenAct] at hseen
    split at hseen
    · split_ifs at hseen
      cases hseen
      rfl
    · cases hseen
  | claim w jobId =>
    simp only [seenAct] at hseen
    split_ifs at hseen with h
    cases hseen
    exact congrArg UserReply.claim (snd_leftOf (claimForDelivery_of hdb h.2.2 w)).symm
  | record w jitter =>
    simp only [seenAct] at hseen
    split at hseen
    · split_ifs at hseen with howns
      cases hseen
      exact congrArg UserReply.recorded (snd_leftOf (recordOutcome_of hdb howns w _ jitter)).symm
    · cases hseen
  | publish r accepts delivered => cases hseen
  | send w result => cases hseen
  | workerCrash w => cases hseen
  | relayCrash r => cases hseen
  | dropTask jobId => cases hseen

/-- What the run tells a user, and the workers on his jobs. -/
def told (s : Settings) (u : UserId) (acts : List (Time × Act)) : List UserReply :=
  answers (step s) (seen s u) (fun sys => sys.db.userAnswer s) {} acts

/-- What a user sees of a run. -/
def sees (s : Settings) (u : UserId) (acts : List (Time × Act)) : List (Time × UserAct) :=
  seenActs (step s) (seen s u) {} acts

section Runs

variable {acts : List (Time × Act)}

theorem view_after (h : AllSteps (step s) (DrawsOwn u) {} acts) :
    (after s acts).db.of u = run (Db.userStep s) (Db.empty.of u) (sees s u acts) :=
  view_run (fun sys => sys.db.of u) (P := MessageInv) (fun _ a _ h => h.step a)
    (fun _ _ ha h => view_step h.consistent.toAccounted ha) h (after_messageInv s [])

theorem told_after (h : AllSteps (step s) (DrawsOwn u) {} acts) :
    told s u acts = answersTo (Db.userStep s) (Db.userAnswer s) (Db.empty.of u) (sees s u acts) :=
  answers_run (fun sys : System => sys.db.of u) (P := MessageInv) (C := DrawsOwn u)
    (fun _ a _ h => h.step a) (fun _ _ ha h => view_step h.consistent.toAccounted ha)
    (fun _ _ _ ha h hb => answer_of_seen h.consistent.toAccounted ha hb) h (after_messageInv s [])

end Runs

end System

/-- Users are isolated. Of two runs in which a user sees the same, of his own requests and of what
is decided on his jobs, and in which he draws no id of another user, the rows of the user are the
same in the end, and so are all answers to the user and to the workers on his jobs, and every
report of the user. -/
theorem users_isolated (s : Settings) (u : UserId) (acts acts' : List (Time × Act))
    (hown : AllSteps (System.step s) (System.DrawsOwn u) {} acts)
    (hown' : AllSteps (System.step s) (System.DrawsOwn u) {} acts')
    (hsees : System.sees s u acts = System.sees s u acts') :
    let db := (System.after s acts).db
    let db' := (System.after s acts').db
    db.of u = db'.of u ∧ System.told s u acts = System.told s u acts' ∧
      UserRepository.getUser u db = UserRepository.getUser u db' ∧
      MessageRepository.calculateSummary u db = MessageRepository.calculateSummary u db' ∧
      (∀ messageId, MessageRepository.getUserMessage messageId u db =
        MessageRepository.getUserMessage messageId u db') ∧
      (u ≠ 0 → ∀ scan limit offset filters, filters.userId = some u →
        MessageRepository.getMessagesSlice scan limit offset filters db =
          MessageRepository.getMessagesSlice scan limit offset filters db') := by
  intro db db'
  have hview : db.of u = db'.of u := by
    rw [System.view_after hown, System.view_after hown', hsees]
  refine ⟨hview, ?_, ?_, ?_, fun messageId => ?_, fun hu scan limit offset filters hf => ?_⟩
  · rw [System.told_after hown, System.told_after hown', hsees]
  · rw [← getUser_of, hview, getUser_of]
  · rw [← calculateSummary_of, hview, calculateSummary_of]
  · rw [← getUserMessage_of, hview, getUserMessage_of]
  · rw [← getMessagesSlice_of hf hu, hview, getMessagesSlice_of hf hu]

/-- One user's requests, with or without those of another one between them. -/
def sampleRequests (shared : Bool) : List (Time × Act) :=
  (if shared then [(0, .api (.createUser 2 "other")), (0, .api (.topupUserCredits 2 5)),
    (0, .api (.createMessage ⟨2, "09120000000", "first", .normal, 7⟩ ⟨11, 21⟩))] else []) ++
  [(0, .api (.createUser 1 "user")), (0, .api (.topupUserCredits 1 5)),
    (0, .api (.createMessage ⟨1, "09121234567", "hello", .normal, 7⟩ ⟨10, 20⟩))]

/-- A batch of a relay. -/
def relayBatch : List (Time × Act) :=
  [(0, .relayClaim 3 .normal {}), (0, .publish 3 (fun _ => true) fun _ => true),
    (0, .relayRecord 3 "" 0)]

/-- What the user sees of the batch, which may be of jobs `ids` of several users. -/
theorem System.seen_relayBatch {sys : System} (ids : List UUID)
    (hfree : (sys.publications.find? 3).isSome = false)
    (hlock : sys.own 1 ((Relay.claimJobs (Settings.priorityConfig {} .normal) 3 {} 0 sys.db).2.map
      ClaimedJob.id) = [20])
    (hpub : ((run (step {}) sys (relayBatch.take 2)).publications.find? 3).map
      Publication.outcome = some (some (ids, [])))
    (hown : (run (step {}) sys (relayBatch.take 2)).own 1 ids = [20]) :
    seenActs (step {}) (seen {} 1) sys relayBatch =
      [(0, .lock 3 [20]), (0, .bookkeeping 3 [20] [] "" (calculateBackoff 0 0))] := by
  have hclaim : seen {} 1 sys (0, .relayClaim 3 .normal {}) = some (0, .lock 3 [20]) := by
    simp only [seen, seenAct, hfree, hlock]
    rfl
  have hrecord : seen {} 1 (run (step {}) sys (relayBatch.take 2)) (0, .relayRecord 3 "" 0) =
      some (0, .bookkeeping 3 [20] [] "" (calculateBackoff 0 0)) := by
    obtain ⟨⟨r, claimed, outcome⟩, hfind, rfl⟩ := Option.map_eq_some_iff.1 hpub
    simp only [seen, seenAct, hfind, hown]
    rfl
  show (seen {} 1 sys (0, .relayClaim 3 .normal {})).toList ++ ([] ++
    ((seen {} 1 (run (step {}) sys (relayBatch.take 2)) (0, .relayRecord 3 "" 0)).toList ++ [])) = _
  rw [hclaim, hrecord]
  rfl

theorem users_isolated_sample :
    let acts := sampleRequests false ++ relayBatch
    let acts' := sampleRequests true ++ relayBatch
    System.told {} 1 acts = System.told {} 1 acts' ∧
      (System.after {} acts).db.of 1 = (System.after {} acts').db.of 1 := by
  intro acts acts'
  have hbatch : seenActs (System.step {}) (System.seen {} 1)
        (System.after {} (sampleRequests false)) relayBatch =
      seenActs (System.step {}) (System.seen {} 1)
        (System.after {} (sampleRequests true)) relayBatch := by
    rw [System.seen_relayBatch [20] (by decide +kernel) (by decide +kernel)
        (by decide +kernel) (by decide +kernel),
      System.seen_relayBatch [21, 20] (by decide +kernel) (by decide +kernel)
        (by decide +kernel) (by decide +kernel)]
  have hsees : System.sees {} 1 acts = System.sees {} 1 acts' :=
    congrArg (fun acts => [_, _, _] ++ acts) hbatch
  have h := users_isolated {} 1 acts acts' (by decide +kernel) (by decide +kernel) hsees
  exact ⟨h.2.1, h.1⟩

end Abrio
