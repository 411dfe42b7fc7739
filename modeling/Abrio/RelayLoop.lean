import Abrio.Library.Views
import Abrio.Publications
import Abrio.Recovery

/-!
# The loop of a relay

`run` of the relay : it reads its monotonic clock, sweeps if the last sweep is old, claims a batch,
publishes it and records the publications, or sleeps where there is none. Any number of relays run
beside the API and the workers (`Deployment`), each at its own point of the loop, and each may die
at any point, as it does when a transaction raises.

Each transaction is atomic, as in `System` : the steps of the loops are acts of a run of it, so
what holds of every such run holds of the system of a deployment. A relay holds a batch just
between its claim and its bookkeeping, and the lock of a waiting job is that of a relay which holds
the job, or has died (`relay_loops`).

A relay that goes on keeps the jobs of its priority moving (`inflight_bounded`) : where it is
never later than `δ` after its last reading, and no sweep finds more jobs than its limit, the last
publication of a published job, and the last claim of one in delivery, is no older than the lease,
the interval between sweeps and `2δ` together. A worker that takes over a delivery claims the job
anew, so a job may be in delivery for longer than that.
-/

open Relational Runs

namespace Abrio

open DispatchJobRepository

/-! ## The program -/

/-- `REAP_INTERVAL_SECONDS`. -/
def reapIntervalSeconds : ℤ := 30

/-- What is next in the loop. -/
inductive LoopPoint
  | top
  | sweep
  | claim
  | publish
  | record
  | idle
  | dead
  deriving DecidableEq

/-- A relay process, with `now` and `last_reap` of its `run`. -/
structure RelayProcess where
  relayId : OwnerId
  priority : MessagePriority
  now : Time
  lastReap : Time
  point : LoopPoint

/-- What comes from outside : readings of the clock, orders of rows, the broker. -/
inductive LoopInput
  | clock (monotonic : Time)
  | sweep (scan : Scan DispatchJob)
  | claim (scans : ClaimScans)
  | publish (accepts delivered : UUID → Bool)
  | record (error : String) (jitter : Jitter)
  | wake
  | die

namespace RelayProcess

/-- `run`, up to its loop. -/
def start (relayId : OwnerId) (priority : MessagePriority) (monotonic : Time) : RelayProcess where
  relayId := relayId
  priority := priority
  now := monotonic
  lastReap := monotonic - seconds reapIntervalSeconds
  point := .top

/-- The loop goes on, with an act of the system or without one. A claim by `scans` would give
the jobs `claimed scans`. -/
def loop (claimed : ClaimScans → List ClaimedJob) (p : RelayProcess) :
    LoopInput → Option (RelayProcess × Option Act)
  | .clock now =>
    if p.point = .top then
      let due := seconds reapIntervalSeconds ≤ now - p.lastReap
      some ({ p with now, point := if due then .sweep else .claim }, none)
    else none
  | .sweep scan =>
    if p.point = .sweep then
      some ({ p with lastReap := p.now, point := .claim }, some (.reap p.priority scan))
    else none
  | .claim scans =>
    if p.point = .claim then
      some ({ p with point := if (claimed scans).isEmpty then .idle else .publish },
        some (.relayClaim p.relayId p.priority scans))
    else none
  | .publish accepts delivered =>
    if p.point = .publish then
      some ({ p with point := .record }, some (.publish p.relayId accepts delivered))
    else none
  | .record error jitter =>
    if p.point = .record then
      some ({ p with point := .top }, some (.relayRecord p.relayId error jitter))
    else none
  | .wake => if p.point = .idle then some ({ p with point := .top }, none) else none
  | .die =>
    if p.point = .dead then none
    else some ({ p with point := .dead }, some (.relayCrash p.relayId))

end RelayProcess

/-- An act of the API, of a worker or of the broker. -/
def Act.outside : Act → Bool
  | .reap _ _ => false
  | a => a.relay?.isNone

/-- A system with its relays. -/
structure Deployment where
  sys : System := {}
  relays : Table RelayProcess.relayId := .empty
  clock : Time := 0

/-- A relay starts, a relay goes on, or something else happens. -/
inductive DeployAct
  | start (relayId : OwnerId) (priority : MessagePriority) (monotonic : Time)
  | relay (relayId : OwnerId) (input : LoopInput)
  | act (a : Act)

namespace Deployment

variable (s : Settings) (d : Deployment)

/-- The jobs a claim of the relay gives. -/
def claimed (now : Time) (p : RelayProcess) (scans : ClaimScans) : List ClaimedJob :=
  (Relay.claimJobs (s.priorityConfig p.priority) p.relayId scans now d.sys.db).2

/-- What a relay goes on to. -/
def moved (now : Time) (relayId : OwnerId) (input : LoopInput) :
    Option (RelayProcess × Option Act) :=
  (d.relays.find? relayId).bind fun p => p.loop (d.claimed s now p) input

/-- The act of the system. -/
def performs (a : Time × DeployAct) : Option (Time × Act) :=
  match a.2 with
  | .start _ _ _ => none
  | .relay relayId input => ((d.moved s a.1 relayId input).bind Prod.snd).map (a.1, ·)
  | .act b => if b.outside then some (a.1, b) else none

/-- The relays after an act. A relay id is drawn once. -/
def relaysAfter (a : Time × DeployAct) : Table RelayProcess.relayId :=
  match a.2 with
  | .start relayId priority monotonic =>
    (d.relays.insert (.start relayId priority monotonic)).getD d.relays
  | .relay relayId input =>
    ((d.moved s a.1 relayId input).map fun m => d.relays.put m.1).getD d.relays
  | .act _ => d.relays

/-- A step of the deployment is one of the system, or none. -/
def step (a : Time × DeployAct) : Deployment where
  sys := run (System.step s) d.sys (d.performs s a).toList
  relays := d.relaysAfter s a
  clock := a.1

/-- The clock does not go back. -/
def OnTime (a : Time × DeployAct) : Prop :=
  d.clock ≤ a.1

instance : DecidableRel OnTime := fun _ _ => inferInstanceAs (Decidable (_ ≤ _))

/-- A run from the empty system, without relays. -/
def after (acts : List (Time × DeployAct)) : Deployment :=
  run (step s) {} acts

/-- The acts of the system in a run. -/
def performed (acts : List (Time × DeployAct)) : List (Time × Act) :=
  seenActs (step s) (performs s) {} acts

end Deployment

/-! ## What a relay goes on to -/

namespace RelayProcess

/-- A way to go on. -/
inductive Move (claimed : ClaimScans → List ClaimedJob) (p : RelayProcess) :
    LoopInput → RelayProcess → Option Act → Prop
  | waits (t : Time) (point : p.point = .top)
    (early : t - p.lastReap < seconds reapIntervalSeconds) :
    Move claimed p (.clock t) { p with now := t, point := .claim } none
  | due (t : Time) (point : p.point = .top) (late : seconds reapIntervalSeconds ≤ t - p.lastReap) :
    Move claimed p (.clock t) { p with now := t, point := .sweep } none
  | sweeps (scan : Scan DispatchJob) (point : p.point = .sweep) :
    Move claimed p (.sweep scan) { p with lastReap := p.now, point := .claim }
      (some (.reap p.priority scan))
  | claims (scans : ClaimScans) (point : p.point = .claim) (some_jobs : claimed scans ≠ []) :
    Move claimed p (.claim scans) { p with point := .publish }
      (some (.relayClaim p.relayId p.priority scans))
  | finds_none (scans : ClaimScans) (point : p.point = .claim) (no_jobs : claimed scans = []) :
    Move claimed p (.claim scans) { p with point := .idle }
      (some (.relayClaim p.relayId p.priority scans))
  | publishes (accepts delivered : UUID → Bool) (point : p.point = .publish) :
    Move claimed p (.publish accepts delivered) { p with point := .record }
      (some (.publish p.relayId accepts delivered))
  | records (error : String) (jitter : Jitter) (point : p.point = .record) :
    Move claimed p (.record error jitter) { p with point := .top }
      (some (.relayRecord p.relayId error jitter))
  | wakes (point : p.point = .idle) : Move claimed p .wake { p with point := .top } none
  | dies (point : p.point ≠ .dead) :
    Move claimed p .die { p with point := .dead } (some (.relayCrash p.relayId))

variable {claimed : ClaimScans → List ClaimedJob} {p p' : RelayProcess} {input : LoopInput}
  {act : Option Act}

theorem move_of_loop (h : p.loop claimed input = some (p', act)) : p.Move claimed input p' act := by
  cases input with
  | clock t =>
    rw [loop] at h
    split_ifs at h with hp
    cases h
    by_cases hdue : seconds reapIntervalSeconds ≤ t - p.lastReap
    · simpa [hdue] using Move.due t hp hdue
    · simpa [hdue] using Move.waits t hp (not_le.1 hdue)
  | claim scans =>
    rw [loop] at h
    split_ifs at h with hp hnil
    · cases h
      exact .finds_none scans hp (List.isEmpty_iff.1 hnil)
    · cases h
      exact .claims scans hp fun hn => hnil (List.isEmpty_iff.2 hn)
  | sweep scan =>
    rw [loop] at h
    split_ifs at h with hp
    cases h
    exact .sweeps scan hp
  | publish accepts delivered =>
    rw [loop] at h
    split_ifs at h with hp
    cases h
    exact .publishes accepts delivered hp
  | record error jitter =>
    rw [loop] at h
    split_ifs at h with hp
    cases h
    exact .records error jitter hp
  | wake =>
    rw [loop] at h
    split_ifs at h with hp
    cases h
    exact .wakes hp
  | die =>
    rw [loop] at h
    split_ifs at h with hp
    cases h
    exact .dies hp

theorem Move.relayId_eq (h : p.Move claimed input p' act) : p'.relayId = p.relayId := by
  cases h <;> rfl

theorem Move.priority_eq (h : p.Move claimed input p' act) : p'.priority = p.priority := by
  cases h <;> rfl

/-- The act is the relay's own. -/
theorem Move.relay?_eq (h : p.Move claimed input p' act) {a : Act} (ha : act = some a) :
    a.relay? = none ∨ a.relay? = some p.relayId := by
  cases h <;> cases ha
  · exact Or.inl rfl
  all_goals exact Or.inr rfl

end RelayProcess

namespace Deployment

variable {s : Settings} {d : Deployment}

/-- What a step does to the relays, with the act of the system it takes. -/
inductive Stepped (s : Settings) (d : Deployment) (now : Time) :
    DeployAct → Table RelayProcess.relayId → Option Act → Prop
  | quiet (a : DeployAct) : Stepped s d now a d.relays none
  | started {relayId : OwnerId} {priority : MessagePriority} {monotonic : Time}
    {relays : Table RelayProcess.relayId}
    (fresh : d.relays.insert (.start relayId priority monotonic) = some relays) :
    Stepped s d now (.start relayId priority monotonic) relays none
  | moved {input : LoopInput} {p p' : RelayProcess} {act : Option Act} (found : p ∈ d.relays)
    (move : p.Move (d.claimed s now p) input p' act) :
    Stepped s d now (.relay p.relayId input) (d.relays.put p') act
  | outside {a : Act} (outside : a.outside = true) : Stepped s d now (.act a) d.relays (some a)

theorem step_stepped (s : Settings) (d : Deployment) (a : Time × DeployAct) :
    ∃ act, d.performs s a = act.map (a.1, ·) ∧
      Stepped s d a.1 a.2 (d.step s a).relays act := by
  obtain ⟨now, a⟩ := a
  show ∃ act : Option Act, _ ∧ Stepped s d now a (d.relaysAfter s (now, a)) act
  cases a with
  | start relayId priority monotonic =>
    refine ⟨none, rfl, ?_⟩
    show Stepped s d now _
      ((d.relays.insert (.start relayId priority monotonic)).getD d.relays) none
    cases hi : d.relays.insert (.start relayId priority monotonic) with
    | none => exact .quiet _
    | some relays => exact .started hi
  | relay relayId input =>
    refine ⟨(d.moved s now relayId input).bind Prod.snd, rfl, ?_⟩
    show Stepped s d now _
      (((d.moved s now relayId input).map fun m => d.relays.put m.1).getD d.relays) _
    cases hm : d.moved s now relayId input with
    | none => exact .quiet _
    | some m =>
      obtain ⟨p, hfind, hloop⟩ := Option.bind_eq_some_iff.1 hm
      obtain ⟨hp, rfl⟩ := Table.find?_eq_some.1 hfind
      exact .moved hp (RelayProcess.move_of_loop hloop)
  | act b =>
    by_cases hb : b.outside = true
    · exact ⟨some b, if_pos hb, .outside hb⟩
    · exact ⟨none, if_neg hb, .quiet _⟩

/-- The system of a deployment goes through a run of its own. -/
theorem sys_after (s : Settings) (acts : List (Time × DeployAct)) :
    (after s acts).sys = System.after s (performed s acts) :=
  view_run sys (P := fun _ => True) (C := fun _ _ => True) (fun _ _ _ _ => trivial)
    (fun _ _ _ _ => rfl) (AllSteps.of_forall (fun _ _ => trivial) acts) trivial

end Deployment

/-! ## Batches and locks -/

namespace System

variable (s : Settings) {sys : System} (now : Time) {r : OwnerId}

theorem spared_step {a : Time × Act} (ha : a.2.relay? ≠ some r) (id : UUID) :
    Spared r (sys.db.jobs.find? id) ((sys.step s a).db.jobs.find? id) := by
  obtain ⟨es, -, hmove⟩ := step_moves s sys a id
  exact Relays.spared_of_moves ha hmove

/-- A claim of a relay without a batch. -/
theorem relayClaim_eq (h : sys.publications.find? r = none) (p : MessagePriority)
    (scans : ClaimScans) :
    let claimed := (Relay.claimJobs (s.priorityConfig p) r scans now sys.db).2
    let sys' := sys.step s (now, .relayClaim r p scans)
    sys'.db = (Relay.claimJobs (s.priorityConfig p) r scans now sys.db).1 ∧
      sys'.publications.find? r = if claimed = [] then none else some ⟨r, claimed, none⟩ := by
  intro claimed
  obtain ⟨publications, hins⟩ := Table.exists_insert (t := sys.publications)
    (r := ⟨r, claimed, none⟩) (Table.find?_eq_none.1 h)
  show (sys.relayClaim s now r p scans).db = _ ∧
    (sys.relayClaim s now r p scans).publications.find? r = _
  have hclaim : sys.relayClaim s now r p scans =
      let db := (Relay.claimJobs (s.priorityConfig p) r scans now sys.db).1
      if claimed.isEmpty then { sys with db } else { sys with db, publications } := by
    rw [relayClaim]
    dsimp only
    rw [hins]
  rw [hclaim]
  by_cases hnil : claimed = []
  · rw [if_pos hnil, if_pos (List.isEmpty_iff.2 hnil)]
    exact ⟨rfl, h⟩
  · rw [if_neg hnil, if_neg fun hn => hnil (List.isEmpty_iff.1 hn)]
    exact ⟨rfl, (Table.find?_insert hins r).trans (if_pos rfl)⟩

/-- The loop of a batch. -/
theorem publish_eq {claimed : List ClaimedJob} (accepts delivered : UUID → Bool)
    (h : sys.publications.find? r = some ⟨r, claimed, none⟩) :
    let sys' := sys.step s (now, .publish r accepts delivered)
    sys'.db = sys.db ∧ sys'.publications.find? r =
      some ⟨r, claimed, some (Relay.publishLoop accepts claimed)⟩ := by
  show (sys.publish r accepts delivered).db = _ ∧
    (sys.publish r accepts delivered).publications.find? r = _
  rw [publish, h]
  exact ⟨rfl, (Table.find?_put (r := ⟨r, claimed, some _⟩) (Table.find?_eq_some.1 h).1 rfl r).trans
    (if_pos rfl)⟩

/-- The bookkeeping of a batch. -/
theorem relayRecord_eq {claimed failed : List ClaimedJob} {published : List UUID}
    (error : String) (jitter : Jitter)
    (h : sys.publications.find? r = some ⟨r, claimed, some (published, failed)⟩) :
    let sys' := sys.step s (now, .relayRecord r error jitter)
    sys'.db = Relay.recordPublications r published failed error jitter now sys.db ∧
      sys'.publications.find? r = none := by
  show (sys.relayRecord now r error jitter).db = _ ∧
    (sys.relayRecord now r error jitter).publications.find? r = _
  rw [relayRecord, h]
  exact ⟨rfl, Table.find?_erase_self _ _⟩

end System

/-- What the relay holds is what its point in the loop says. -/
def RelayProcess.Holds (publications : Table Publication.relayId) (p : RelayProcess) : Prop :=
  match p.point with
  | .publish => ∃ claimed, claimed ≠ [] ∧
      publications.find? p.relayId = some ⟨p.relayId, claimed, none⟩
  | .record => ∃ claimed published failed, claimed ≠ [] ∧
      publications.find? p.relayId = some ⟨p.relayId, claimed, some (published, failed)⟩ ∧
      published ++ failed.map ClaimedJob.id = claimed.map ClaimedJob.id
  | _ => publications.find? p.relayId = none

theorem RelayProcess.Holds.congr {publications publications' : Table Publication.relayId}
    {p : RelayProcess} (h : p.Holds publications)
    (heq : publications'.find? p.relayId = publications.find? p.relayId) :
    p.Holds publications' := by
  unfold Holds
  rw [heq]
  exact h

namespace Deployment

variable {s : Settings} {d : Deployment} {now : Time}

/-- The system after an act, if there is one. -/
def acted (s : Settings) (d : Deployment) (now : Time) (act : Option Act) : System :=
  run (System.step s) d.sys (act.map (now, ·)).toList

theorem sys_step {a : Time × DeployAct} {act : Option Act}
    (h : d.performs s a = act.map (a.1, ·)) : (d.step s a).sys = d.acted s a.1 act := by
  rw [acted, ← h]
  rfl

/-- The job is in the batch that the relay holds, if the relay has not died. -/
def Keeps (d : Deployment) (r : OwnerId) (id : UUID) : Prop :=
  ∃ p ∈ d.relays, p.relayId = r ∧ (p.point = .dead ∨
    ∃ pub, d.sys.publications.find? r = some pub ∧ id ∈ pub.claimed.map ClaimedJob.id)

/-- What holds of every deployment. -/
structure LoopInv (d : Deployment) : Prop where
  holds : ∀ p ∈ d.relays, p.Holds d.sys.publications
  owners : ∀ r pub, d.sys.publications.find? r = some pub → ∃ p ∈ d.relays, p.relayId = r
  locks : ∀ j ∈ d.sys.db.jobs, ∀ r, HeldFor r j → d.Keeps r j.id
  spaced : ∀ p ∈ d.relays, p.point = .sweep →
    seconds reapIntervalSeconds ≤ p.now - p.lastReap

section Moves

variable {p p' : RelayProcess} {input : LoopInput} {act : Option Act}

theorem holds_of_move (h : p.Move (d.claimed s now p) input p' act)
    (hp : p.Holds d.sys.publications) : p'.Holds (d.acted s now act).publications := by
  cases h with
  | waits t point early =>
    simp only [RelayProcess.Holds, point] at hp
    exact hp
  | due t point late =>
    simp only [RelayProcess.Holds, point] at hp
    exact hp
  | sweeps scan point =>
    simp only [RelayProcess.Holds, point] at hp
    exact hp
  | claims scans point some_jobs =>
    simp only [RelayProcess.Holds, point] at hp
    have hfind := (System.relayClaim_eq s now hp p.priority scans).2
    exact ⟨_, some_jobs, hfind.trans (if_neg some_jobs)⟩
  | finds_none scans point no_jobs =>
    simp only [RelayProcess.Holds, point] at hp
    have hfind := (System.relayClaim_eq s now hp p.priority scans).2
    exact hfind.trans (if_pos no_jobs)
  | publishes accepts delivered point =>
    simp only [RelayProcess.Holds, point] at hp
    obtain ⟨claimed, hne, hfind⟩ := hp
    exact ⟨claimed, _, _, hne, (System.publish_eq s now accepts delivered hfind).2,
      Relay.publishLoop_append accepts claimed⟩
  | records error jitter point =>
    simp only [RelayProcess.Holds, point] at hp
    obtain ⟨claimed, published, failed, -, hfind, -⟩ := hp
    exact (System.relayRecord_eq s now error jitter hfind).2
  | wakes point =>
    simp only [RelayProcess.Holds, point] at hp
    exact hp
  | dies point => exact Table.find?_erase_self _ _

/-- The acts of others leave alone what a relay holds. -/
theorem find?_acted {r : OwnerId} (h : ∀ b, act = some b → b.relay? ≠ some r) :
    (d.acted s now act).publications.find? r = d.sys.publications.find? r := by
  cases act with
  | none => rfl
  | some b => exact System.publications_step (h b rfl)

/-- Nor do they lock a job for the relay. -/
theorem spared_acted (s : Settings) (now : Time) {r : OwnerId}
    (h : ∀ b, act = some b → b.relay? ≠ some r) (id : UUID) :
    Spared r (d.sys.db.jobs.find? id) ((d.acted s now act).db.jobs.find? id) := by
  cases act with
  | none => exact Or.inl rfl
  | some b => exact System.spared_step s (h b rfl) id

/-- No job waits under the lock of a relay that lives and has no batch. -/
theorem LoopInv.not_heldFor (h : d.LoopInv) (hp : p ∈ d.relays) (hdead : p.point ≠ .dead)
    (hnone : d.sys.publications.find? p.relayId = none) :
    ∀ j ∈ d.sys.db.jobs, ¬HeldFor p.relayId j := by
  intro j hj hheld
  obtain ⟨q, hq, hid, hpoint | ⟨pub, hpub, -⟩⟩ := h.locks j hj _ hheld
  · exact hdead (Table.eq_of_key_eq hq hp hid ▸ hpoint)
  · cases hnone.symm.trans hpub

/-- The batch a claim locks. -/
theorem mem_claimed (hnone : d.sys.publications.find? p.relayId = none) (scans : ClaimScans)
    {j : DispatchJob}
    (hj : j ∈ (d.acted s now (some (.relayClaim p.relayId p.priority scans))).db.jobs) :
    j ∈ d.sys.db.jobs ∨ j.id ∈ (d.claimed s now p scans).map ClaimedJob.id := by
  have hfind := Table.find?_key hj
  have hdb := (System.relayClaim_eq s now hnone p.priority scans).1
  have hrow : (d.acted s now (some (.relayClaim p.relayId p.priority scans))).db.jobs.find? j.id =
      (Relay.claimJobs (s.priorityConfig p.priority) p.relayId scans now d.sys.db).1.jobs.find?
        j.id := congrArg (fun db : Db => db.jobs.find? j.id) hdb
  rw [hrow, Relay.claimJobs, find?_claimBatch] at hfind
  obtain ⟨k, hk, hkj⟩ := Option.map_eq_some_iff.1 hfind
  obtain ⟨hmem, hid⟩ := Table.find?_eq_some.1 hk
  split_ifs at hkj with hin
  · right
    rw [hid] at hin
    simpa [claimed, Relay.claimJobs, claimBatch, lockRow] using hin
  · exact Or.inl (hkj ▸ hmem)

/-- After the bookkeeping no job of the batch waits under the lock of the relay. -/
theorem not_heldFor_recorded {claimed failed : List ClaimedJob} {published : List UUID}
    (hfind : d.sys.publications.find? p.relayId =
      some ⟨p.relayId, claimed, some (published, failed)⟩)
    (hall : published ++ failed.map ClaimedJob.id = claimed.map ClaimedJob.id)
    (hin : ∀ j ∈ d.sys.db.jobs, HeldFor p.relayId j → j.id ∈ claimed.map ClaimedJob.id)
    (error : String) (jitter : Jitter) {j : DispatchJob}
    (hj : j ∈ (d.acted s now (some (.relayRecord p.relayId error jitter))).db.jobs) :
    ¬HeldFor p.relayId j := by
  intro hheld
  have hdb := (System.relayRecord_eq s now error jitter hfind).1
  have hrow : (d.acted s now (some (.relayRecord p.relayId error jitter))).db.jobs.find? j.id =
      (Relay.recordPublications p.relayId published failed error jitter now d.sys.db).jobs.find?
        j.id := congrArg (fun db : Db => db.jobs.find? j.id) hdb
  have hj' := Table.find?_key hj
  rw [hrow, Relay.find?_recordPublications] at hj'
  obtain ⟨k, hk, hkj⟩ := Option.map_eq_some_iff.1 hj'
  obtain ⟨hmem, -⟩ := Table.find?_eq_some.1 hk
  split_ifs at hkj with hpub hfail
  · subst hkj
    cases hheld.2
  · subst hkj
    cases hheld.2
  · subst hkj
    have hmem' := hin k hmem hheld
    rw [← hall, List.mem_append] at hmem'
    exact hmem'.elim (fun h => hpub (heldBy_iff.2 ⟨h, hheld⟩)) fun h =>
      hfail (heldBy_iff.2 ⟨h, hheld⟩)

/-- The locks of the relay that goes on. -/
theorem LoopInv.locks_of_move (h : d.LoopInv) (hp : p ∈ d.relays)
    (hm : p.Move (d.claimed s now p) input p' act) {j : DispatchJob}
    (hj : j ∈ (d.acted s now act).db.jobs) (hheld : HeldFor p.relayId j) :
    p'.point = .dead ∨ ∃ pub, (d.acted s now act).publications.find? p.relayId = some pub ∧
      j.id ∈ pub.claimed.map ClaimedJob.id := by
  have hholds := h.holds p hp
  cases hm with
  | waits t point early =>
    simp only [RelayProcess.Holds, point] at hholds
    exact absurd hheld (h.not_heldFor hp (by simp [point]) hholds j hj)
  | due t point late =>
    simp only [RelayProcess.Holds, point] at hholds
    exact absurd hheld (h.not_heldFor hp (by simp [point]) hholds j hj)
  | sweeps scan point =>
    simp only [RelayProcess.Holds, point] at hholds
    have hreap : ∀ b, some (Act.reap p.priority scan) = some b → b.relay? ≠ some p.relayId := by
      rintro b ⟨⟩
      simp [Act.relay?]
    rcases spared_acted s now hreap j.id with hsame | hnot
    · rw [Table.find?_key hj] at hsame
      exact absurd hheld (h.not_heldFor hp (by simp [point]) hholds j
        (Table.find?_eq_some.1 hsame.symm).1)
    · exact absurd hheld (hnot j (Table.find?_key hj))
  | claims scans point some_jobs =>
    simp only [RelayProcess.Holds, point] at hholds
    rcases mem_claimed hholds scans hj with hold | hin
    · exact absurd hheld (h.not_heldFor hp (by simp [point]) hholds j hold)
    · have hfind := (System.relayClaim_eq s now hholds p.priority scans).2
      exact Or.inr ⟨_, hfind.trans (if_neg some_jobs), hin⟩
  | finds_none scans point no_jobs =>
    simp only [RelayProcess.Holds, point] at hholds
    rcases mem_claimed hholds scans hj with hold | hin
    · exact absurd hheld (h.not_heldFor hp (by simp [point]) hholds j hold)
    · simp [no_jobs] at hin
  | publishes accepts delivered point =>
    simp only [RelayProcess.Holds, point] at hholds
    obtain ⟨claimed, -, hfind⟩ := hholds
    obtain ⟨hdb, hfind'⟩ := System.publish_eq s now accepts delivered hfind
    have hold : j ∈ d.sys.db.jobs := (congrArg (fun db : Db => j ∈ db.jobs) hdb).mp hj
    obtain ⟨q, hq, hid, hpoint | ⟨pub, hpub, hin⟩⟩ := h.locks j hold _ hheld
    · rw [Table.eq_of_key_eq hq hp hid, point] at hpoint
      cases hpoint
    · cases hfind.symm.trans hpub
      exact Or.inr ⟨_, hfind', hin⟩
  | records error jitter point =>
    simp only [RelayProcess.Holds, point] at hholds
    obtain ⟨claimed, published, failed, -, hfind, hall⟩ := hholds
    refine absurd hheld (not_heldFor_recorded hfind hall (fun k hk hkheld => ?_) error jitter hj)
    obtain ⟨q, hq, hid, hpoint | ⟨pub, hpub, hin⟩⟩ := h.locks k hk _ hkheld
    · rw [Table.eq_of_key_eq hq hp hid, point] at hpoint
      cases hpoint
    · cases hfind.symm.trans hpub
      exact hin
  | wakes point =>
    simp only [RelayProcess.Holds, point] at hholds
    exact absurd hheld (h.not_heldFor hp (by simp [point]) hholds j hj)
  | dies point => exact Or.inl rfl

end Moves

/-- The batch of another relay stays with it. -/
theorem Keeps.of_same {d' : Deployment} {r : OwnerId} {id : UUID} (h : d.Keeps r id)
    (hrelays : ∀ p ∈ d.relays, p.relayId = r → p ∈ d'.relays)
    (hfind : d'.sys.publications.find? r = d.sys.publications.find? r) : d'.Keeps r id := by
  obtain ⟨p, hp, hid, hpoint⟩ := h
  refine ⟨p, hrelays p hp hid, hid, ?_⟩
  rw [hfind]
  exact hpoint

/-- A job that waits under the lock of a relay did so before the act of another process. -/
theorem LoopInv.locks_of_other {d' : Deployment} {act : Option Act} (h : d.LoopInv)
    (hsys : d'.sys = d.acted s now act) {r : OwnerId} (hr : ∀ b, act = some b → b.relay? ≠ some r)
    (hrelays : ∀ p ∈ d.relays, p.relayId = r → p ∈ d'.relays) {j : DispatchJob}
    (hj : j ∈ d'.sys.db.jobs) (hheld : HeldFor r j) : d'.Keeps r j.id := by
  rw [hsys] at hj
  rcases spared_acted s now hr j.id with hsame | hnot
  · rw [Table.find?_key hj] at hsame
    refine (h.locks j (Table.find?_eq_some.1 hsame.symm).1 r hheld).of_same hrelays ?_
    rw [hsys]
    exact find?_acted hr
  · exact absurd hheld (hnot j (Table.find?_key hj))

theorem relay?_of_outside {b : Act} (h : b.outside = true) (r : OwnerId) : b.relay? ≠ some r := by
  cases b <;> simp_all [Act.outside, Act.relay?]

/-- What the API, the workers and the broker do. -/
theorem LoopInv.of_outside {d' : Deployment} {act : Option Act} (h : d.LoopInv)
    (hsys : d'.sys = d.acted s now act) (hrelays : d'.relays = d.relays)
    (hout : ∀ b, act = some b → b.outside = true) : d'.LoopInv := by
  have hr (r : OwnerId) : ∀ b, act = some b → b.relay? ≠ some r := fun b hb =>
    relay?_of_outside (hout b hb) r
  have hfind (r : OwnerId) : d'.sys.publications.find? r = d.sys.publications.find? r := by
    rw [hsys, find?_acted (hr r)]
  refine ⟨fun p hp => ?_, fun r pub hpub => ?_, fun j hj r hheld => ?_, fun p hp => ?_⟩
  · exact (h.holds p (hrelays ▸ hp)).congr (hfind p.relayId)
  · rw [hrelays]
    exact h.owners r pub ((hfind r).symm.trans hpub)
  · exact h.locks_of_other hsys (hr r) (fun p hp _ => hrelays ▸ hp) hj hheld
  · exact h.spaced p (hrelays ▸ hp)

/-- A new relay. -/
theorem LoopInv.of_start {d' : Deployment} (h : d.LoopInv) (hsys : d'.sys = d.sys)
    {r : OwnerId} {priority : MessagePriority} {monotonic : Time}
    (hi : d.relays.insert (.start r priority monotonic) = some d'.relays) : d'.LoopInv := by
  have hmem {p : RelayProcess} := Table.mem_insert (x := p) hi
  refine ⟨fun p hp => ?_, fun r' pub hpub => ?_, fun j hj r' hheld => ?_, fun p hp hpoint => ?_⟩
  · rw [hsys]
    rcases hmem.1 hp with hp | rfl
    · exact h.holds p hp
    · show d.sys.publications.find? r = none
      rw [Option.eq_none_iff_forall_ne_some]
      intro pub hpub
      obtain ⟨q, hq, hid⟩ := h.owners r pub hpub
      exact Table.key_ne_of_insert hi hq hid
  · obtain ⟨q, hq, hid⟩ := h.owners r' pub (hsys ▸ hpub)
    exact ⟨q, hmem.2 (Or.inl hq), hid⟩
  · rw [hsys] at hj
    exact (h.locks j hj r' hheld).of_same (fun p hp _ => hmem.2 (Or.inl hp)) (by rw [hsys])
  · rcases hmem.1 hp with hp | rfl
    · exact h.spaced p hp hpoint
    · cases hpoint

/-- A relay goes on. -/
theorem LoopInv.of_move {d' : Deployment} (h : d.LoopInv) {p p' : RelayProcess}
    {input : LoopInput} {act : Option Act} (hp : p ∈ d.relays)
    (hm : p.Move (d.claimed s now p) input p' act) (hsys : d'.sys = d.acted s now act)
    (hrelays : d'.relays = d.relays.put p') : d'.LoopInv := by
  have hid : p'.relayId = p.relayId := hm.relayId_eq
  have hother {r : OwnerId} (hr : r ≠ p.relayId) : ∀ b, act = some b → b.relay? ≠ some r := by
    intro b hb hbr
    rcases hm.relay?_eq hb with hnone | hsome
    · cases hnone.symm.trans hbr
    · exact hr (Option.some.inj (hbr.symm.trans hsome))
  have hmem {q : RelayProcess} : q ∈ d'.relays ↔
      (q ∈ d.relays ∧ q.relayId ≠ p.relayId) ∨ q = p' := by
    rw [hrelays, Table.mem_put, hid]
    exact or_congr_right (and_iff_left ⟨p, hp, rfl⟩)
  refine ⟨fun q hq => ?_, fun r pub hpub => ?_, fun j hj r hheld => ?_, fun q hq hpoint => ?_⟩
  · rw [hsys]
    rcases hmem.1 hq with ⟨hq, hne⟩ | rfl
    · exact (h.holds q hq).congr (find?_acted (hother hne))
    · exact holds_of_move hm (h.holds p hp)
  · by_cases hr : r = p.relayId
    · exact ⟨p', hmem.2 (Or.inr rfl), hid.trans hr.symm⟩
    · rw [hsys, find?_acted (hother hr)] at hpub
      obtain ⟨q, hq, hqr⟩ := h.owners r pub hpub
      exact ⟨q, hmem.2 (Or.inl ⟨hq, hqr ▸ hr⟩), hqr⟩
  · by_cases hr : r = p.relayId
    · subst hr
      rw [hsys] at hj
      refine ⟨p', hmem.2 (Or.inr rfl), hid, ?_⟩
      rw [hsys]
      exact h.locks_of_move hp hm hj hheld
    · exact h.locks_of_other hsys (hother hr)
        (fun q hq hqr => hmem.2 (Or.inl ⟨hq, hqr ▸ hr⟩)) hj hheld
  · rcases hmem.1 hq with ⟨hq, -⟩ | rfl
    · exact h.spaced q hq hpoint
    · cases hm with
      | due t point late => exact late
      | _ => cases hpoint

theorem LoopInv.step (h : d.LoopInv) (a : Time × DeployAct) : (d.step s a).LoopInv := by
  obtain ⟨now, a⟩ := a
  obtain ⟨act, hperforms, hstep⟩ := step_stepped s d (now, a)
  have hsys := sys_step hperforms
  dsimp only at hsys hstep
  generalize hrelays : (d.step s (now, a)).relays = relays at hstep
  cases hstep with
  | quiet => exact h.of_outside hsys hrelays fun b hb => by cases hb
  | started fresh => exact h.of_start hsys (hrelays ▸ fresh)
  | moved found move => exact h.of_move found move hsys hrelays
  | outside outside =>
    refine h.of_outside hsys hrelays ?_
    rintro b ⟨⟩
    exact outside

theorem loopInv_empty : ({} : Deployment).LoopInv where
  holds p hp := absurd hp (Table.not_mem_empty p)
  owners r pub hpub := by cases hpub
  locks j hj := absurd hj (Table.not_mem_empty j)
  spaced p hp := absurd hp (Table.not_mem_empty p)

theorem after_loopInv (s : Settings) (acts : List (Time × DeployAct)) : (after s acts).LoopInv :=
  run_induction (P := LoopInv) (fun _ a h => h.step a) acts loopInv_empty

/-- The acts of the system come in time if those of the deployment do. -/
theorem performed_onTime {acts : List (Time × DeployAct)} (h : AllSteps (step s) OnTime {} acts) :
    AllSteps (System.step s) System.OnTime {} (performed s acts) := by
  have htime {d : Deployment} {a : Time × DeployAct} {b : Time × Act}
      (hb : d.performs s a = some b) : b.1 = a.1 := by
    obtain ⟨act, hact, -⟩ := step_stepped s d a
    obtain ⟨c, -, rfl⟩ := Option.map_eq_some_iff.1 (hact.symm.trans hb)
    rfl
  refine allSteps_seenActs sys (P := fun d => d.sys.clock ≤ d.clock) (fun d a ha hd => ?_)
    (fun _ _ _ _ => rfl) (fun d a b ha hd hb => ?_) h le_rfl
  · show (run (System.step s) d.sys (d.performs s a).toList).clock ≤ a.1
    cases hb : d.performs s a with
    | none => exact hd.trans ha
    | some b => exact (htime hb).le
  · exact (hd.trans ha).trans_eq (htime hb).symm

end Deployment

/-- The loops of the relays, in every run of a deployment with atomic transactions. A relay holds a
batch just while it publishes and records, the reading with which it sweeps comes no sooner than the
interval after the one of its last sweep, and a waiting job is locked by a relay that has it in its
batch, or that has died. -/
theorem relay_loops (s : Settings) (acts : List (Time × DeployAct)) :
    let d := Deployment.after s acts
    d.sys = System.after s (Deployment.performed s acts) ∧
      (AllSteps (Deployment.step s) Deployment.OnTime {} acts →
        AllSteps (System.step s) System.OnTime {} (Deployment.performed s acts)) ∧
      (∀ p ∈ d.relays, p.Holds d.sys.publications ∧
        (p.point = .sweep → seconds reapIntervalSeconds ≤ p.now - p.lastReap)) ∧
      ∀ j ∈ d.sys.db.jobs, ∀ r, HeldFor r j → d.Keeps r j.id := by
  intro d
  have hinv := Deployment.after_loopInv s acts
  exact ⟨Deployment.sys_after s acts, Deployment.performed_onTime,
    fun p hp => ⟨hinv.holds p hp, hinv.spaced p hp⟩, hinv.locks⟩

/-! ## Sweeps -/

namespace DispatchJobRepository

theorem staleInflight_mono {t t' : Time} (h : t ≤ t') {j : DispatchJob}
    (hj : staleInflight t' j = false) : staleInflight t j = false := by
  rw [← Bool.not_eq_true, staleInflight_iff] at hj ⊢
  rintro (⟨hs, u, hu, hlt⟩ | ⟨hs, u, hu, hlt⟩)
  · exact hj (Or.inl ⟨hs, u, hu, hlt.trans_le h⟩)
  · exact hj (Or.inr ⟨hs, u, hu, hlt.trans_le h⟩)

end DispatchJobRepository

namespace System

variable {s : Settings} {sys : System} {now t : Time} {p : MessagePriority}

/-- No job of the priority is in flight by a publication or a claim from before `t`. -/
def NoneStale (p : MessagePriority) (t : Time) (sys : System) : Prop :=
  ∀ j ∈ sys.db.jobs, j.priority = p → staleInflight t j = false

theorem NoneStale.mono {t' : Time} (h : sys.NoneStale p t') (ht : t ≤ t') : sys.NoneStale p t :=
  fun j hj hp => staleInflight_mono ht (h j hj hp)

/-- What is in flight after a step was before, or is since. -/
theorem NoneStale.step (h : sys.NoneStale p (t - seconds inflightLeaseSeconds)) {a : Time × Act}
    (ht : t ≤ a.1) : (sys.step s a).NoneStale p (t - seconds inflightLeaseSeconds) := by
  intro j' hj' hp
  obtain ⟨now, a⟩ := a
  obtain ⟨es, -, hmove⟩ := step_moves s sys (now, a) j'.id
  rw [Table.find?_key hj'] at hmove
  generalize hrow : sys.db.jobs.find? j'.id = row at hmove
  cases hmove with
  | same => exact h j' (Table.find?_eq_some.1 hrow).1 hp
  | sent => exact h j' (Table.find?_eq_some.1 hrow).1 hp
  | created => rfl
  | row move => exact move.not_stale ht

/-- A sweep that finds no more jobs than its limit leaves none of them. -/
theorem noneStale_reap (scan : Scan DispatchJob) (h : staleCount p now sys ≤ reapLimit) :
    (sys.step s (now, .reap p scan)).NoneStale p (now - seconds inflightLeaseSeconds) := by
  intro j' hj' hp
  have hfind : (sys.reap s now p scan).db.jobs.find? j'.id = some j' := Table.find?_key hj'
  rw [find?_reap] at hfind
  obtain ⟨j, hj, hj''⟩ := Option.map_eq_some_iff.1 hfind
  split_ifs at hj'' with hin
  · subst hj''
    simp [staleInflight, reclaimRow]
  · subst hj''
    by_contra hstale
    refine hin (List.mem_map_of_mem ?_)
    have hlen : ((scan.visit sys.db.jobs.rows).filter fun j => j.priority = p &&
        staleInflight (now - seconds inflightLeaseSeconds) j).length ≤ reapLimit := by
      rw [← List.countP_eq_length_filter, (scan.perm sys.db.jobs.rows).countP_eq]
      exact h
    rw [reaped, staleJobs, List.take_of_length_le hlen, List.mem_filter, Scan.mem_visit]
    exact ⟨(Table.find?_eq_some.1 hj).1, by simpa [hp] using hstale⟩

end System

/-! ## A relay that goes on -/

namespace Deployment

variable {s : Settings} {d : Deployment} {r : OwnerId} {p : MessagePriority} {offset δ t₀ : Time}

/-- What comes to relay `r` : its clock goes with that of the database, its sweep finds no more
jobs than it may take, and it lives. -/
def PromptInput (r : OwnerId) (offset : Time) (d : Deployment) (a : Time × DeployAct) : Prop :=
  match a.2 with
  | .relay r' (.clock t) => r' = r → t = a.1 + offset
  | .relay r' (.sweep _) => r' = r → ∀ q ∈ d.relays.rows, q.relayId = r →
      System.staleCount q.priority a.1 d.sys ≤ reapLimit
  | .relay r' .die => r' ≠ r
  | _ => True

instance (a : Time × DeployAct) : Decidable (PromptInput r offset d a) := by
  unfold PromptInput
  split <;> infer_instance

/-- Everything comes at most `δ` after the last reading of relay `r`. -/
structure Prompt (r : OwnerId) (offset δ : Time) (d : Deployment) (a : Time × DeployAct) :
    Prop where
  on_time : d.OnTime a
  prompt : ∀ q ∈ d.relays.rows, q.relayId = r → a.1 + offset ≤ q.now + δ
  input : PromptInput r offset d a

instance (a : Time × DeployAct) : Decidable (Prompt r offset δ d a) :=
  decidable_of_iff (d.OnTime a ∧ (∀ q ∈ d.relays.rows, q.relayId = r → a.1 + offset ≤ q.now + δ) ∧
      PromptInput r offset d a)
    ⟨fun h => ⟨h.1, h.2.1, h.2.2⟩, fun h => ⟨h.on_time, h.prompt, h.input⟩⟩

/-- The last sweep of a relay, or that there was none yet. -/
inductive LastSweep (p : MessagePriority) (offset δ t₀ : Time) (d : Deployment) (q : RelayProcess) :
    Prop
  | swept (past : q.lastReap ≤ q.now)
    (recent : q.now - q.lastReap ≤
      seconds reapIntervalSeconds + if q.point = .sweep then δ else 0)
    (fresh : d.sys.NoneStale p (q.lastReap - offset - seconds inflightLeaseSeconds))
  | starts (started : t₀ ≤ d.clock) (last : q.lastReap = t₀ + offset - seconds reapIntervalSeconds)
    (point : q.point = .top ∧ q.now = t₀ + offset ∨ q.point = .sweep ∧ q.now ≤ t₀ + offset + δ)

/-- How far relay `r` is. -/
structure SweepInv (r : OwnerId) (p : MessagePriority) (offset δ t₀ : Time) (d : Deployment)
    (q : RelayProcess) : Prop where
  mem : q ∈ d.relays
  id : q.relayId = r
  priority : q.priority = p
  past : q.now ≤ d.clock + offset
  prompt : d.clock + offset ≤ q.now + δ
  last : LastSweep p offset δ t₀ d q

namespace SweepInv

variable {q : RelayProcess}

/-- The relay stays where it is. -/
theorem of_same {d' : Deployment} {act : Option Act} {now : Time}
    (h : SweepInv r p offset δ t₀ d q) (hc : d.clock ≤ now) (hprompt : now + offset ≤ q.now + δ)
    (hclock : d'.clock = now) (hsys : d'.sys = d.acted s now act) (hmem : q ∈ d'.relays) :
    SweepInv r p offset δ t₀ d' q := by
  refine ⟨hmem, h.id, h.priority, ?_, ?_, ?_⟩
  · rw [hclock]
    linarith [h.past]
  · rwa [hclock]
  · cases h.last with
    | swept past recent fresh =>
      refine .swept past recent ?_
      rw [hsys]
      cases act with
      | none => exact fresh
      | some b => exact fresh.step (by linarith [h.past])
    | starts started last point => exact .starts (hclock ▸ started.trans hc) last point

/-- The relay goes on. -/
theorem of_move {d' : Deployment} {now : Time} {q' : RelayProcess} {input : LoopInput}
    {act : Option Act} (h : SweepInv r p offset δ t₀ d q)
    (hprompt : Prompt r offset δ d (now, .relay r input))
    (hm : q.Move (d.claimed s now q) input q' act) (hclock : d'.clock = now)
    (hsys : d'.sys = d.acted s now act) (hmem : q' ∈ d'.relays) :
    SweepInv r p offset δ t₀ d' q' := by
  have hc : d.clock ≤ now := hprompt.on_time
  have hin : now + offset ≤ q.now + δ := hprompt.prompt q h.mem h.id
  have hpast : q.now ≤ now + offset := h.past.trans (by linarith)
  have hδ : 0 ≤ δ := by linarith
  -- the sweeps and the readings aside, only the point changes
  have hgoes {point : LoopPoint} (hq' : q' = { q with point }) (hpoint : point ≠ .sweep)
      (htop : q.point ≠ .top) (hsweep : q.point ≠ .sweep) :
      SweepInv r p offset δ t₀ d' q' := by
    subst hq'
    refine ⟨hmem, h.id, h.priority, by rw [hclock]; exact hpast, by rwa [hclock], ?_⟩
    cases h.last with
    | swept past recent fresh =>
      rw [if_neg hsweep] at recent
      refine .swept past (by simpa [hpoint] using recent) ?_
      rw [hsys]
      cases act with
      | none => exact fresh
      | some b => exact fresh.step (by linarith)
    | starts started last point =>
      exact absurd point (by simp [htop, hsweep])
  cases hm with
  | waits t point early =>
    have ht : t = now + offset := hprompt.input rfl
    subst ht
    refine ⟨hmem, h.id, h.priority, by rw [hclock], by rw [hclock]; linarith, ?_⟩
    cases h.last with
    | swept past recent fresh =>
      refine .swept (past.trans hpast) (by simpa using early.le) ?_
      rw [hsys]
      exact fresh
    | starts started last => exact absurd early (by rw [last]; linarith)
  | due t point late =>
    have ht : t = now + offset := hprompt.input rfl
    subst ht
    refine ⟨hmem, h.id, h.priority, by rw [hclock], by rw [hclock]; linarith, ?_⟩
    cases h.last with
    | swept past recent fresh =>
      rw [if_neg (by simp [point])] at recent
      refine .swept (past.trans hpast) ?_ ?_
      · simp only [if_true]
        linarith
      · rw [hsys]
        exact fresh
    | starts started last hpoint =>
      refine .starts (by rw [hclock]; exact started.trans hc) last (Or.inr ⟨rfl, ?_⟩)
      rcases hpoint with ⟨-, hnow⟩ | ⟨hsweep, -⟩
      · rw [← hnow]
        exact hin
      · cases point.symm.trans hsweep
  | sweeps scan point =>
    refine ⟨hmem, h.id, h.priority, by rw [hclock]; exact hpast, by rwa [hclock], ?_⟩
    refine .swept le_rfl (by simp [reapIntervalSeconds, seconds]) ?_
    have hfew := hprompt.input rfl q h.mem h.id
    rw [hsys, ← h.priority]
    exact (System.noneStale_reap scan hfew).mono (by linarith)
  | claims scans point => exact hgoes rfl (by simp) (by simp [point]) (by simp [point])
  | finds_none scans point => exact hgoes rfl (by simp) (by simp [point]) (by simp [point])
  | publishes accepts delivered point =>
    exact hgoes rfl (by simp) (by simp [point]) (by simp [point])
  | records error jitter point => exact hgoes rfl (by simp) (by simp [point]) (by simp [point])
  | wakes point => exact hgoes rfl (by simp) (by simp [point]) (by simp [point])
  | dies => exact absurd rfl hprompt.input

theorem step {a : Time × DeployAct} (h : SweepInv r p offset δ t₀ d q)
    (hprompt : Prompt r offset δ d a) : ∃ q', SweepInv r p offset δ t₀ (d.step s a) q' := by
  obtain ⟨now, a⟩ := a
  obtain ⟨act, hperforms, hstep⟩ := step_stepped s d (now, a)
  have hsys := sys_step hperforms
  have hin : now + offset ≤ q.now + δ := hprompt.prompt q h.mem h.id
  dsimp only at hsys hstep
  have hsame (hmem : q ∈ (d.step s (now, a)).relays) :=
    h.of_same hprompt.on_time hin rfl hsys hmem
  generalize hrelays : (d.step s (now, a)).relays = relays at hstep
  cases hstep with
  | quiet => exact ⟨q, hsame (hrelays ▸ h.mem)⟩
  | started fresh => exact ⟨q, hsame (hrelays ▸ (Table.mem_insert fresh).2 (Or.inl h.mem))⟩
  | moved found move =>
    rename_i input p₀ p'
    by_cases hr : p₀.relayId = r
    · obtain rfl : p₀ = q := Table.eq_of_key_eq found h.mem (hr.trans h.id.symm)
      refine ⟨p', h.of_move (hr ▸ hprompt) move rfl hsys ?_⟩
      rw [hrelays]
      exact Table.mem_put_self found move.relayId_eq.symm
    · refine ⟨q, hsame ?_⟩
      rw [hrelays]
      exact Table.mem_put_of_ne h.mem (by rw [h.id, move.relayId_eq]; exact Ne.symm hr)
  | outside => exact ⟨q, hsame (hrelays ▸ h.mem)⟩

theorem run {acts : List (Time × DeployAct)}
    (h : AllSteps (Deployment.step s) (Prompt r offset δ) d acts)
    (hd : ∃ q, SweepInv r p offset δ t₀ d q) :
    ∃ q, SweepInv r p offset δ t₀ (Runs.run (Deployment.step s) d acts) q := by
  refine AllSteps.invariant (P := fun d => ∃ q, SweepInv r p offset δ t₀ d q)
    (fun d a hprompt hd => ?_) acts h hd
  obtain ⟨q, hq⟩ := hd
  exact hq.step hprompt

/-- A relay starts. -/
theorem start (hδ : 0 ≤ δ) (hnew : ∀ q ∈ d.relays, q.relayId ≠ r) :
    ∃ q, SweepInv r p offset δ t₀ (d.step s (t₀, .start r p (t₀ + offset))) q := by
  obtain ⟨relays, hi⟩ := Table.exists_insert (t := d.relays)
    (r := .start r p (t₀ + offset)) hnew
  refine ⟨.start r p (t₀ + offset), ?_, rfl, rfl, le_rfl, ?_,
    .starts le_rfl rfl (Or.inl ⟨rfl, rfl⟩)⟩
  · show _ ∈ (d.relays.insert (.start r p (t₀ + offset))).getD d.relays
    rw [hi]
    exact (Table.mem_insert hi).2 (Or.inr rfl)
  · show t₀ + offset ≤ t₀ + offset + δ
    linarith

/-- What is in flight was published or claimed a short while ago, once the relay has swept. -/
theorem noneStale (h : SweepInv r p offset δ t₀ d q) : d.clock ≤ t₀ + 2 * δ ∨
    d.sys.NoneStale p (d.clock -
      (seconds inflightLeaseSeconds + seconds reapIntervalSeconds + 2 * δ)) := by
  have hprompt := h.prompt
  have hpast := h.past
  cases h.last with
  | swept past recent fresh =>
    right
    refine fresh.mono ?_
    have hδ : (if q.point = .sweep then δ else 0) ≤ δ := by
      split_ifs
      · exact le_rfl
      · linarith
    linarith
  | starts started last point =>
    left
    rcases point with ⟨-, hnow⟩ | ⟨-, hnow⟩ <;> linarith

end SweepInv

end Deployment

/-- No job is left in flight. Where relay `r` of priority `p` has started at `t₀` and lives on,
everything comes at most `δ` after a reading of its clock, and transactions are atomic, then from
`t₀ + 2δ` on every published job of the priority was last published, and every one in delivery last
claimed, no longer ago than the lease, the interval between two sweeps and `2δ`, whatever the
workers, the API and other relays do. -/
theorem inflight_bounded (s : Settings) (before acts : List (Time × DeployAct)) (r : OwnerId)
    (p : MessagePriority) (offset δ t₀ : Time) (hδ : 0 ≤ δ)
    (hnew : ∀ q ∈ (Deployment.after s before).relays, q.relayId ≠ r)
    (hacts : AllSteps (Deployment.step s) (Deployment.Prompt r offset δ)
      (Deployment.after s (before ++ [(t₀, .start r p (t₀ + offset))])) acts) :
    let d := Deployment.after s (before ++ [(t₀, .start r p (t₀ + offset))] ++ acts)
    d.clock ≤ t₀ + 2 * δ ∨ ∀ j ∈ d.sys.db.jobs, j.priority = p →
      staleInflight (d.clock -
        (seconds inflightLeaseSeconds + seconds reapIntervalSeconds + 2 * δ)) j = false := by
  intro d
  have hstart : ∃ q, Deployment.SweepInv r p offset δ t₀
      (Deployment.after s (before ++ [(t₀, .start r p (t₀ + offset))])) q := by
    rw [Deployment.after, run_append]
    exact Deployment.SweepInv.start hδ hnew
  obtain ⟨q, hq⟩ := Deployment.SweepInv.run hacts hstart
  have hd : d = run (Deployment.step s)
      (Deployment.after s (before ++ [(t₀, .start r p (t₀ + offset))])) acts := run_append ..
  rw [hd]
  exact hq.noneStale

/-- A turn of relay 3 that finds no job to publish, at `t` seconds. -/
def idleTurn (t : ℤ) : List (Time × DeployAct) :=
  [.relay 3 (.clock (seconds t + 100)), .relay 3 (.sweep .stored), .relay 3 (.claim {}),
    .relay 3 .wake].map (seconds t, ·)

/-- A turn that publishes a batch, whose tasks are lost. -/
def publishTurn (t : ℤ) : List (Time × DeployAct) :=
  [.relay 3 (.clock (seconds t + 100)), .relay 3 (.sweep .stored), .relay 3 (.claim {}),
    .relay 3 (.publish (fun _ => true) fun _ => false), .relay 3 (.record "" 0)].map (seconds t, ·)

/-- A turn every 30 s. The job is published at once, and again after the sweep at 150 s. -/
def loopSample : List (Time × DeployAct) :=
  publishTurn 0 ++ [30, 60, 90, 120].flatMap idleTurn ++ publishTurn 150 ++
    [180, 210, 240].flatMap idleTurn

/-- After 240 s, when its first publication is older than the bound, the job has been reclaimed and
published again. -/
theorem inflight_bounded_sample :
    let before : List (Time × DeployAct) :=
      [(0, .act (.api (.createUser 1 "user"))), (0, .act (.api (.topupUserCredits 1 5))),
        (0, .act (.api (.createMessage ⟨1, "09121234567", "hello", .normal, 7⟩ ⟨10, 20⟩)))]
    let d := Deployment.after {} (before ++ [(0, .start 3 .normal (0 + 100))] ++ loopSample)
    (∃ j ∈ d.sys.db.jobs.rows, j.status = .published ∧ j.deliveryAttempts = 1) ∧
      ∀ j ∈ d.sys.db.jobs, j.priority = .normal →
        staleInflight (seconds (240 - 210)) j = false := by
  intro before d
  have hclock : d.clock = seconds 240 := by decide +kernel
  have hbound : seconds 240 - (seconds inflightLeaseSeconds + seconds reapIntervalSeconds +
      2 * seconds 30) = seconds (240 - 210) := by decide
  have h : d.clock ≤ 0 + 2 * seconds 30 ∨ ∀ j ∈ d.sys.db.jobs, j.priority = .normal →
      staleInflight (d.clock - (seconds inflightLeaseSeconds + seconds reapIntervalSeconds +
        2 * seconds 30)) j = false :=
    inflight_bounded {} before loopSample 3 .normal 100 (seconds 30) 0 (by decide)
      (by decide +kernel) (by decide +kernel)
  rw [hclock, hbound] at h
  exact ⟨by decide +kernel, h.resolve_left (by decide)⟩

end Abrio
