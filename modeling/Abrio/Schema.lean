import Abrio.Domain
import Abrio.Library.Run
import Abrio.Library.Table

/-!
# Tables and statements

The rows of the four tables and the statements the repositories issue on them. A statement
checks what PostgreSQL checks, in its order : the values of all rows must fit their columns, then
come the `CHECK`s and the unique indexes row by row, and the foreign keys at the end of the
statement. `Db.Constrained` collects the constraints that every stored state satisfies.

The surrogate `balances.id` and the row timestamps of users and balances, which no modelled
query reads, are left out; `updated_at >= created_at` then holds for every message and job
because no clock reading of a later update is below its creation.
-/

open Relational

namespace Abrio

/-! ## Rows -/

/-- A row of `users`. -/
structure User where
  id : UserId
  name : String
  deriving DecidableEq

/-- A row of `balances`. What is reserved is part of the credits. -/
structure Balance where
  userId : UserId
  credits : Cents := 0
  reservedCredits : Cents := 0
  deriving DecidableEq

/-- A row of `messages`. -/
structure Message where
  id : UUID
  userId : UserId
  recipient : String
  body : String
  cost : Cents
  priority : MessagePriority
  idempotencyKey : UUID
  status : MessageStatus := .queued
  paymentStatus : PaymentStatus := .reserved
  createdAt : Time
  updatedAt : Time
  deriving DecidableEq

/-- The JSON snapshot of a message in its job. -/
structure JobPayload where
  messageId : UUID
  userId : UserId
  recipient : String
  body : String
  priority : MessagePriority
  cost : Cents
  deriving DecidableEq

/-- A row of `dispatch_jobs`, the outbox of the messages. -/
structure DispatchJob where
  id : UUID
  messageId : UUID
  userId : UserId
  payload : JobPayload
  priority : MessagePriority
  status : DispatchJobStatus := .pending
  /-- Publish attempts (relay to broker). -/
  retryCount : ℕ := 0
  /-- Delivery attempts (worker to provider). -/
  deliveryAttempts : ℕ := 0
  availableAt : Time
  lockedAt : Option Time := none
  lockedBy : Option OwnerId := none
  publishedAt : Option Time := none
  completedAt : Option Time := none
  providerMessageId : Option String := none
  lastError : Option String := none
  createdAt : Time
  updatedAt : Time := createdAt
  deriving DecidableEq

/-! ## What a column can hold -/

/-- `INTEGER` holds 32 bits. -/
def fitsInt4 (n : ℤ) : Bool :=
  -2 ^ 31 ≤ n ∧ n < 2 ^ 31

/-- Text holds every character but U+0000. -/
def storableText (s : String) : Bool :=
  !s.toList.contains (Char.ofNat 0)

/-- `VARCHAR(n)`. -/
def storableVarchar (n : ℕ) (s : String) : Bool :=
  s.toList.length ≤ n && storableText s

/-- The columns hold the values of the row. -/
def Message.storable (m : Message) : Bool :=
  fitsInt4 m.userId && storableVarchar 13 m.recipient && storableVarchar 70 m.body &&
    fitsNumeric m.cost

/-- The columns hold the values of the row, the JSON of its payload included. -/
def DispatchJob.storable (j : DispatchJob) : Bool :=
  fitsInt4 j.userId && storableText j.payload.recipient && storableText j.payload.body &&
    j.providerMessageId.all (storableVarchar 255) && j.lastError.all storableText

/-! ## The database -/

/-- The tables. Their keys are the primary keys. -/
@[ext]
structure Db where
  users : Table User.id
  balances : Table Balance.userId
  messages : Table Message.id
  jobs : Table DispatchJob.id

/-- No rows at all. -/
def Db.empty : Db :=
  ⟨.empty, .empty, .empty, .empty⟩

namespace Db

/-- A key is taken. -/
abbrev uniqueViolation {α : Type} (c : Constraint) : Except Exn α :=
  .error (.db (.uniqueViolation c))

/-- The referenced row is missing. -/
abbrev foreignKeyViolation {α : Type} (c : Constraint) : Except Exn α :=
  .error (.db (.foreignKeyViolation c))

/-- A `CHECK` refuses the row. -/
abbrev checkViolation {α : Type} (c : Constraint) : Except Exn α :=
  .error (.db (.checkViolation c))

/-- No column holds the value. -/
abbrev dataError {α : Type} : Except Exn α :=
  .error (.db .dataError)

variable (db : Db)

/-- The message of a user with an idempotency key. -/
def messageWithKey (userId : UserId) (key : UUID) : Option Message :=
  db.messages.rows.find? fun m => m.userId = userId ∧ m.idempotencyKey = key

/-- The values and `CHECK`s of a message row. -/
def checkMessage (m : Message) : Except Exn Unit :=
  if !m.storable then dataError
  else if m.cost ≤ 0 then checkViolation .checkCostGtZero
  else .ok ()

/-- Equal in `unique_user_id_idempotency_key`. -/
def sameKey (m m' : Message) : Bool :=
  m.userId = m'.userId && m.idempotencyKey = m'.idempotencyKey

/-- One row of `INSERT INTO messages`, up to the unique indexes. -/
def insertMessageRow : Table Message.id → Message → Except Exn (Table Message.id) :=
  Table.insertRow checkMessage (.db (.uniqueViolation .messagesPkey)) sameKey
    (.db (.uniqueViolation .uniqueUserIdIdempotencyKey))

/-- The foreign key of `messages`, checked at the end of the statement. -/
def checkMessageUser (m : Message) : Except Exn Unit :=
  if (db.users.find? m.userId).isSome then .ok () else foreignKeyViolation .messagesUserIdFkey

/-- The values of a message row alone. -/
def checkMessageValues (m : Message) : Except Exn Unit :=
  if !m.storable then dataError else .ok ()

/-- `INSERT INTO messages` of several rows. The values of all rows are bound before the first row
is written. -/
def insertMessages (ms : List Message) : Except Exn Db := do
  forM ms checkMessageValues
  let messages ← ms.foldlM insertMessageRow db.messages
  let db := { db with messages }
  forM ms db.checkMessageUser
  return db

/-- The values of a job row. -/
def checkJob (j : DispatchJob) : Except Exn Unit :=
  if !j.storable then dataError else .ok ()

/-- Equal in the unique index on `message_id`. -/
def sameMessage (j j' : DispatchJob) : Bool :=
  j.messageId = j'.messageId

/-- One row of `INSERT INTO dispatch_jobs`, up to the unique indexes. -/
def insertJobRow : Table DispatchJob.id → DispatchJob → Except Exn (Table DispatchJob.id) :=
  Table.insertRow checkJob (.db (.uniqueViolation .dispatchJobsPkey)) sameMessage
    (.db (.uniqueViolation .dispatchJobsMessageIdKey))

/-- The foreign keys of `dispatch_jobs`. -/
def checkJobOwners (j : DispatchJob) : Except Exn Unit :=
  if (db.messages.find? j.messageId).isNone then foreignKeyViolation .dispatchJobsMessageIdFkey
  else if (db.users.find? j.userId).isNone then foreignKeyViolation .dispatchJobsUserIdFkey
  else .ok ()

/-- `INSERT INTO dispatch_jobs` of several rows. -/
def insertJobs (js : List DispatchJob) : Except Exn Db := do
  forM js checkJob
  let jobs ← js.foldlM insertJobRow db.jobs
  let db := { db with jobs }
  forM js db.checkJobOwners
  return db

/-- `INSERT INTO users` and `INSERT INTO balances` of one new user. -/
def insertUser (u : User) (b : Balance) : Except Exn Db :=
  if !fitsInt4 u.id then dataError
  else match db.users.insert u with
    | none => uniqueViolation .usersPkey
    | some users => match db.balances.insert b with
      | none => uniqueViolation .balancesUserIdKey
      | some balances => .ok { db with users, balances }

/-- `UPDATE balances`. PostgreSQL checks the `CHECK`s of a row in the order of their names. -/
def writeBalance (b : Balance) : Except Exn Db :=
  if !(fitsNumeric b.credits && fitsNumeric b.reservedCredits) then dataError
  else if b.credits < b.reservedCredits then checkViolation .checkCreditsGeReservedCredits
  else if b.credits < 0 then checkViolation .checkCreditsNonNegative
  else if b.reservedCredits < 0 then checkViolation .checkReservedCreditsNonNegative
  else .ok { db with balances := db.balances.put b }

/-- `UPDATE messages` of one row. -/
def writeMessage (m : Message) : Db :=
  { db with messages := db.messages.put m }

/-- `UPDATE dispatch_jobs` of one row. -/
def writeJob (j : DispatchJob) : Except Exn Db :=
  if !j.storable then dataError else .ok { db with jobs := db.jobs.put j }

end Db

/-! ## The stored constraints -/

/-- The `CHECK`s of `balances`, with what `NUMERIC(10, 2)` can hold. -/
structure Balance.Constrained (b : Balance) : Prop where
  credits_ge_reserved : b.reservedCredits ≤ b.credits
  reserved_nonneg : 0 ≤ b.reservedCredits
  credits_fits : fitsNumeric b.credits = true

/-- What the unique indexes, foreign keys and `CHECK`s say of a stored state. -/
structure Db.Constrained (db : Db) : Prop where
  balance : ∀ b ∈ db.balances, b.Constrained
  balance_user : ∀ b ∈ db.balances, ∃ u ∈ db.users, u.id = b.userId
  message_cost : ∀ m ∈ db.messages, 0 < m.cost
  message_user : ∀ m ∈ db.messages, ∃ u ∈ db.users, u.id = m.userId
  message_key : ∀ m ∈ db.messages, ∀ m' ∈ db.messages,
    m.userId = m'.userId → m.idempotencyKey = m'.idempotencyKey → m = m'
  job_message : ∀ j ∈ db.jobs, ∃ m ∈ db.messages, m.id = j.messageId
  job_user : ∀ j ∈ db.jobs, ∃ u ∈ db.users, u.id = j.userId
  job_unique : ∀ j ∈ db.jobs, ∀ j' ∈ db.jobs, j.messageId = j'.messageId → j = j'

end Abrio
