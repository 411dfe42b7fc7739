import Abrio.Dispatch
import Abrio.Relay
import Abrio.Submission

/-!
# Transactions and runs

The committed transactions of the system, one constructor each, with the values they draw
from their surroundings. A transaction that raises leaves the state as it was. A run takes
transactions in any order : a relay or a worker that dies between two of its transactions
is a run without the second, a broker task delivered twice is a run with two claims, and a
lost one is a run with none.
-/

open Relational Runs

namespace Abrio

/-- The transactions of the API. -/
inductive ApiTxn
  | createUser (id : UserId) (name : String)
  | topupUserCredits (userId : UserId) (creditAmount : ℚ)
  | createMessage (payload : MessageRequest) (ids : Ids)
  | batchCreateMessage (payload : BatchMessageRequest) (ids : ℕ → Ids)

/-- The transactions of a relay. -/
inductive RelayTxn
  | reclaimStaleInflight (priority : MessagePriority) (scan : Scan DispatchJob)
  | claimJobs (priority : MessagePriority) (relayId : OwnerId)
      (scans : DispatchJobRepository.ClaimScans)
  | recordPublications (relayId : OwnerId) (published : List UUID) (failed : List ClaimedJob)
      (error : String) (jitter : Jitter)

/-- The transactions of a worker. -/
inductive WorkerTxn
  | claimForDelivery (jobId : UUID) (workerId : OwnerId)
  | recordOutcome (jobId : UUID) (workerId : OwnerId) (result : ProviderResult) (jitter : Jitter)

/-- A transaction of the API, of a relay or of a worker. -/
inductive Txn
  | api (t : ApiTxn)
  | relay (t : RelayTxn)
  | worker (t : WorkerTxn)

/-- The state after a transaction that started in `db` : an exception rolls it back. -/
def Db.commit (db : Db) {α : Type} : Except Exn (Db × α) → Db
  | .ok (db', _) => db'
  | .error _ => db

variable (s : Settings) (now : Time)

/-- What is committed. A request that raises changes nothing. -/
def ApiTxn.apply (db : Db) : ApiTxn → Db
  | .createUser id name => db.commit ((UserUseCase.createUser id name db).map (·, ()))
  | .topupUserCredits userId amount =>
    db.commit ((BalanceUseCase.topupUserCredits userId amount db).map (·, ()))
  | .createMessage payload ids => (MessageUseCase.createMessage s payload ids now db).1
  | .batchCreateMessage payload ids => (MessageUseCase.batchCreateMessage s payload ids now db).1

/-- The rows a relay leaves, or the reaper. -/
def RelayTxn.apply (db : Db) : RelayTxn → Db
  | .reclaimStaleInflight p scan => (Relay.reclaimStaleInflight (s.priorityConfig p) scan now db).1
  | .claimJobs p relayId scans => (Relay.claimJobs (s.priorityConfig p) relayId scans now db).1
  | .recordPublications relayId published failed error jitter =>
    Relay.recordPublications relayId published failed error jitter now db

/-- What is committed. A transaction that raises changes nothing. -/
def WorkerTxn.apply (db : Db) : WorkerTxn → Db
  | .claimForDelivery jobId workerId =>
    db.commit (DispatchUseCase.claimForDelivery s.dispatchConfig jobId workerId now db)
  | .recordOutcome jobId workerId result jitter =>
    db.commit (DispatchUseCase.recordOutcome s.dispatchConfig jobId workerId result jitter now db)

/-- What the transaction commits. -/
def Txn.apply (db : Db) : Txn → Db
  | .api t => t.apply s now db
  | .relay t => t.apply s now db
  | .worker t => t.apply s now db

/-- One transaction at its clock reading. -/
def Db.step (db : Db) (t : Time × Txn) : Db :=
  t.2.apply s t.1 db

theorem Db.commit_of {db : Db} {α : Type} {P : Db → Prop} {x : Except Exn (Db × α)} (h : P db)
    (hx : ∀ db' a, x = .ok (db', a) → P db') : P (db.commit x) := by
  rcases x with e | ⟨db', a⟩
  · exact h
  · exact hx db' a rfl

end Abrio
