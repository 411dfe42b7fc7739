import Abrio.Consistency

/-!
# The running system

The database with what lives outside it : the tasks of the broker, what each relay process
holds between its two transactions, and the `process()` calls of the workers. Every act
carries the clock reading of its transaction, and the acts of different processes come in
any order.

A task stays with the broker until it is dropped, by the acknowledgement that ends its
call or by being lost. Till then any number of workers may take it, which covers duplicates
and redeliveries. A process that crashes goes no further; what it has committed stays.

Each transaction is one act, with one reading of the clock. Statements that the database lets
others come between are in models of their own : the two halves of a sweep in `Interleaved`, the
claims of relays in `Relays`, the submissions in `SubmissionSystem`.

The log lists what has happened to the jobs, in the order of the commits. No transaction
reads it.
-/

open Relational Runs

namespace Abrio

/-- What a worker or the reaper has done to a job. -/
inductive Event
  | claimed (jobId : UUID) (workerId : OwnerId) (time : Time)
  | expired (jobId : UUID) (workerId : OwnerId) (messageId : UUID)
  | sent (jobId : UUID) (workerId : OwnerId)
  | recorded (jobId : UUID) (workerId : OwnerId) (messageId : UUID) (r : Recorded)
  | reclaimed (job : DispatchJob)
  deriving DecidableEq

/-- The job it is about. -/
def Event.jobId : Event → UUID
  | .claimed jobId _ _ => jobId
  | .expired jobId _ _ => jobId
  | .sent jobId _ => jobId
  | .recorded jobId _ _ _ => jobId
  | .reclaimed job => job.id

/-- What a relay holds of the jobs it claimed, and of their publication once it is over. -/
structure Publication where
  relayId : OwnerId
  claimed : List ClaimedJob
  outcome : Option (List UUID × List ClaimedJob) := none

/-- How far a `process()` call is. -/
inductive ProcessState
  | delivering (context : DeliveryContext)
  | answered (result : ProviderResult)
  | ended
  deriving DecidableEq

/-- A `process()` call, under the worker id it drew. -/
structure Process where
  workerId : OwnerId
  jobId : UUID
  state : ProcessState

/-- The rows, the tasks in the broker, the relays with a batch, the calls of workers, and a log. -/
structure System where
  db : Db := .empty
  clock : Time := 0
  tasks : List UUID := []
  publications : Table Publication.relayId := .empty
  processes : Table Process.workerId := .empty
  log : List Event := []

/-- What one process does at once : a transaction, a call of the provider or the broker, a crash. -/
inductive Act
  | api (t : ApiTxn)
  | reap (priority : MessagePriority) (scan : Scan DispatchJob)
  | relayClaim (relayId : OwnerId) (priority : MessagePriority)
      (scans : DispatchJobRepository.ClaimScans)
  | publish (relayId : OwnerId) (accepts delivered : UUID → Bool)
  | relayRecord (relayId : OwnerId) (error : String) (jitter : Jitter)
  | relayCrash (relayId : OwnerId)
  | dropTask (jobId : UUID)
  | claim (workerId : OwnerId) (jobId : UUID)
  | send (workerId : OwnerId) (result : ProviderResult)
  | record (workerId : OwnerId) (jitter : Jitter)
  | workerCrash (workerId : OwnerId)

namespace System

variable (s : Settings) (now : Time) (sys : System)

/-- The log of one job. -/
def jobLog (jobId : UUID) : List Event :=
  sys.log.filter fun e => e.jobId = jobId

/-! ## The relays -/

/-- The rows a sweep takes. -/
def reaped (priority : MessagePriority) (scan : Scan DispatchJob) : List DispatchJob :=
  DispatchJobRepository.staleJobs priority inflightLeaseSeconds reapLimit scan now sys.db.jobs.rows

/-- A sweep of the reaper, all at once. -/
def reap (priority : MessagePriority) (scan : Scan DispatchJob) : System :=
  { sys with
    db := (Relay.reclaimStaleInflight (s.priorityConfig priority) scan now sys.db).1
    log := sys.log ++ (sys.reaped now priority scan).map .reclaimed }

/-- A relay that holds no claimed jobs claims some, all at once : no row is locked by another. -/
def relayClaim (relayId : OwnerId) (priority : MessagePriority)
    (scans : DispatchJobRepository.ClaimScans) : System :=
  let (db, claimed) := Relay.claimJobs (s.priorityConfig priority) relayId scans now sys.db
  match sys.publications.insert ⟨relayId, claimed, none⟩ with
  | none => sys
  | some publications =>
    if claimed.isEmpty then { sys with db } else { sys with db, publications }

/-- The publication loop. `accepts` says for which jobs the broker answers, `delivered`
whose tasks reach a queue : a task may be lost after the answer, or be there without one. -/
def publish (relayId : OwnerId) (accepts delivered : UUID → Bool) : System :=
  match sys.publications.find? relayId with
  | some ⟨_, claimed, none⟩ =>
    let (published, failed) := Relay.publishLoop accepts claimed
    let tried := published ++ (failed.take 1).map ClaimedJob.id
    { sys with
      tasks := sys.tasks ++ tried.filter delivered
      publications := sys.publications.put ⟨relayId, claimed, some (published, failed)⟩ }
  | _ => sys

/-- The bookkeeping of a relay, once it has published. -/
def relayRecord (relayId : OwnerId) (error : String) (jitter : Jitter) : System :=
  match sys.publications.find? relayId with
  | some ⟨_, _, some (published, failed)⟩ =>
    { sys with
      db := Relay.recordPublications relayId published failed error jitter now sys.db
      publications := sys.publications.erase relayId }
  | _ => sys

/-! ## The workers -/

/-- What phase 1 leaves of the call, and what has happened to the job. -/
def claimEnd (jobId : UUID) (workerId : OwnerId) : Claim → ProcessState × List Event
  | .nothing => (.ended, [])
  | .expired messageId => (.ended, [.expired jobId workerId messageId])
  | .delivery context => (.delivering context, [.claimed jobId workerId now])

/-- A worker takes a task : a new call and its phase 1. A call that raises leaves nothing. -/
def claim (workerId : OwnerId) (jobId : UUID) : System :=
  if jobId ∈ sys.tasks then
    match DispatchUseCase.claimForDelivery s.dispatchConfig jobId workerId now sys.db with
    | .error _ => sys
    | .ok (db, claim) =>
      let (state, events) := claimEnd now jobId workerId claim
      match sys.processes.insert ⟨workerId, jobId, state⟩ with
      | none => sys
      | some processes => { sys with db, processes, log := sys.log ++ events }
  else sys

/-- `provider.send`, with what it returns. -/
def send (workerId : OwnerId) (result : ProviderResult) : System :=
  match sys.processes.find? workerId with
  | some ⟨_, jobId, .delivering _⟩ =>
    { sys with
      processes := sys.processes.put ⟨workerId, jobId, .answered result⟩
      log := sys.log ++ [.sent jobId workerId] }
  | _ => sys

/-- What phase 3 has done to the job. -/
def recordEnd (jobId : UUID) (workerId : OwnerId) : Option (UUID × Recorded) → List Event
  | none => []
  | some (messageId, r) => [.recorded jobId workerId messageId r]

/-- The transaction that ends a call. One that raises leaves the rows as they were. -/
def record (workerId : OwnerId) (jitter : Jitter) : System :=
  match sys.processes.find? workerId with
  | some ⟨_, jobId, .answered result⟩ =>
    let processes := sys.processes.put ⟨workerId, jobId, .ended⟩
    match DispatchUseCase.recordOutcome s.dispatchConfig jobId workerId result jitter now
      sys.db with
    | .error _ => { sys with processes }
    | .ok (db, recorded) =>
      { sys with db, processes, log := sys.log ++ recordEnd jobId workerId recorded }
  | _ => sys

/-- The call ends where it is. -/
def workerCrash (workerId : OwnerId) : System :=
  match sys.processes.find? workerId with
  | some ⟨_, jobId, _⟩ =>
    { sys with processes := sys.processes.put ⟨workerId, jobId, .ended⟩ }
  | none => sys

/-! ## Runs -/

/-- An act at the clock reading `now`. -/
def act : Act → System
  | .api t => { sys with db := t.apply s now sys.db }
  | .reap priority scan => sys.reap s now priority scan
  | .relayClaim relayId priority scans => sys.relayClaim s now relayId priority scans
  | .publish relayId accepts delivered => sys.publish relayId accepts delivered
  | .relayRecord relayId error jitter => sys.relayRecord now relayId error jitter
  | .relayCrash relayId => { sys with publications := sys.publications.erase relayId }
  | .dropTask jobId => { sys with tasks := sys.tasks.erase jobId }
  | .claim workerId jobId => sys.claim s now workerId jobId
  | .send workerId result => sys.send workerId result
  | .record workerId jitter => sys.record s now workerId jitter
  | .workerCrash workerId => sys.workerCrash workerId

/-- An act at its time. -/
def step (a : Time × Act) : System :=
  { sys.act s a.1 a.2 with clock := a.1 }

/-- The clock does not go back. -/
def OnTime (a : Time × Act) : Prop :=
  sys.clock ≤ a.1

instance : DecidableRel OnTime := fun _ _ => inferInstanceAs (Decidable (_ ≤ _))

/-- The system after a run from the empty database. -/
def after (acts : List (Time × Act)) : System :=
  run (step s) {} acts

end System

end Abrio
