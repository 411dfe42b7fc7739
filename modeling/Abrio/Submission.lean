import Abrio.Balances
import Abrio.Jobs

/-!
# Submission

`create_message` and `batch_create_message` of `MessageUseCase`. A transaction is a
function to `Except Exn`; an exception rolls it back, so what it returns is either the
committed state or the exception, and the handlers read the state from before. The values
a submission draws from its surroundings are parameters : the two `uuid4()`s of each
message and the clock of the database.
-/

open Relational Runs

namespace Abrio

/-- `MessageRequest`. -/
structure MessageRequest where
  userId : UserId
  recipient : String
  body : String
  priority : MessagePriority
  idempotencyKey : UUID

/-- An item of a batch. The user is that of the batch. -/
structure BatchMessageRequestItem where
  recipient : String
  body : String
  priority : MessagePriority
  idempotencyKey : UUID
  deriving DecidableEq

/-- `BatchMessageRequest` : the schema asks for at least one message. -/
structure BatchMessageRequest where
  userId : UserId
  messages : List BatchMessageRequestItem
  messages_ne : messages ≠ []

/-- An item of a batch as a request of its own. -/
def BatchMessageRequestItem.toRequest (item : BatchMessageRequestItem) (userId : UserId) :
    MessageRequest where
  userId := userId
  recipient := item.recipient
  body := item.body
  priority := item.priority
  idempotencyKey := item.idempotencyKey

/-- The `uuid4()`s of one message and of its job. -/
structure Ids where
  messageId : UUID
  jobId : UUID

/-- What a submission returns : a message it created, or the one an earlier submission
with the same key created. -/
inductive Submitted
  | created (m : Message)
  | replayed (m : Message)

namespace MessageUseCase

variable (s : Settings)

/-! ## One message -/

/-- `{**payload.model_dump(), "cost": message_cost}`. -/
def payloadDict (payload : MessageRequest) : MessageDict where
  userId := payload.userId
  recipient := payload.recipient
  body := payload.body
  priority := payload.priority
  idempotencyKey := payload.idempotencyKey
  cost := s.messageCost payload.priority

/-- The transaction of `create_message`. The message is flushed first; the job and the
balance are flushed by the commit. -/
def createMessageTx (payload : MessageRequest) (ids : Ids) (now : Time) (db : Db) :
    Except Exn (Db × Message) := do
  let dict := payloadDict s payload
  let message := MessageRepository.createMessage ids.messageId now dict
  let db ← db.insertMessages [message]
  let job := DispatchJobRepository.create ids.jobId now message.id payload.priority dict
  let balance ← BalanceRepository.reserveCredits db payload.userId dict.cost
  let db ← db.insertJobs [job]
  let db ← db.writeBalance balance
  return (db, message)

/-- The handlers of `create_message`, which run after the rollback. -/
def createMessageHandler (payload : MessageRequest) (db : Db) : Exn → Except Exn Submitted
  | .db (.uniqueViolation _) => do
    let message ← MessageRepository.getUserMessageByIdempotencyKey db payload.userId
      payload.idempotencyKey
    return .replayed message
  | .db (.foreignKeyViolation _) => .error (.app (.userNotFound payload.userId))
  | .db (.checkViolation .checkCreditsGeReservedCredits) =>
    .error (.app (.insufficientBalance payload.userId (s.messageCost payload.priority)))
  | e => .error e

/-- `create_message`. The handler reads the state after the rollback. -/
def createMessage (payload : MessageRequest) (ids : Ids) (now : Time) (db : Db) :
    Db × Except Exn Submitted :=
  match createMessageTx s payload ids now db with
  | .ok (db', message) => (db', .ok (.created message))
  | .error e => (db, createMessageHandler s payload db e)

/-! ## A batch -/

/-- `_check_duplicate_idempotency_keys`, `seen` being the keys before. -/
def checkDuplicateIdempotencyKeys (seen : List UUID) : List BatchMessageRequestItem → Option UUID
  | [] => none
  | item :: items =>
    if item.idempotencyKey ∈ seen then some item.idempotencyKey
    else checkDuplicateIdempotencyKeys (item.idempotencyKey :: seen) items

/-- `_calculate_batch_message_cost`. -/
def calculateBatchMessageCost (messages : List BatchMessageRequestItem) : Cents :=
  messages.foldl (fun cost message => cost + s.messageCost message.priority) 0

/-- `{**item.model_dump(), "cost": message_cost, "user_id": user_id}`. -/
def messageDict (userId : UserId) (item : BatchMessageRequestItem) : MessageDict where
  userId := userId
  recipient := item.recipient
  body := item.body
  priority := item.priority
  idempotencyKey := item.idempotencyKey
  cost := s.messageCost item.priority

/-- `message_pairs`, each pair with its position. -/
def messagePairs (payload : BatchMessageRequest) (ids : ℕ → Ids) (now : Time) :
    List (Message × BatchMessageRequestItem × ℕ) :=
  payload.messages.zipIdx.map fun (item, i) =>
    (MessageRepository.createMessage (ids i).messageId now (messageDict s payload.userId item),
      item, i)

/-- The transaction of `batch_create_message` : messages, jobs and balance are flushed one
after another. -/
def batchCreateMessageTx (payload : BatchMessageRequest) (ids : ℕ → Ids) (now : Time) (db : Db) :
    Except Exn (Db × List Message) := do
  let pairs := messagePairs s payload ids now
  let db ← db.insertMessages (pairs.map (·.1))
  let db ← db.insertJobs (pairs.map fun (message, item, i) =>
    DispatchJobRepository.create (ids i).jobId now message.id item.priority
      (messageDict s payload.userId item))
  let balance ← BalanceRepository.reserveCredits db payload.userId
    (calculateBatchMessageCost s payload.messages)
  let db ← db.writeBalance balance
  return (db, pairs.map (·.1))

/-- The handlers of `batch_create_message`. -/
def batchCreateMessageHandler (payload : BatchMessageRequest) : Exn → Exn
  | .db (.uniqueViolation _) => .app .idempotencyConflict
  | .db (.foreignKeyViolation _) => .app (.userNotFound payload.userId)
  | .db (.checkViolation .checkCreditsGeReservedCredits) =>
    .app (.insufficientBalance payload.userId (calculateBatchMessageCost s payload.messages))
  | e => e

/-- `batch_create_message`. All of a batch is stored, or nothing. -/
def batchCreateMessage (payload : BatchMessageRequest) (ids : ℕ → Ids) (now : Time) (db : Db) :
    Db × Except Exn (List Message) :=
  match checkDuplicateIdempotencyKeys [] payload.messages with
  | some key => (db, .error (.app (.idempotencyDuplicate key)))
  | none =>
    match batchCreateMessageTx s payload ids now db with
    | .ok (db', messages) => (db', .ok messages)
    | .error e => (db, .error (batchCreateMessageHandler s payload e))

end MessageUseCase

/-! ## Users and top-ups -/

namespace UserUseCase

/-- `create_user`, `id` being the next value of the sequence. -/
def createUser (id : UserId) (name : String) (db : Db) : Except Exn Db :=
  db.insertUser { id, name } { userId := id }

end UserUseCase

namespace BalanceUseCase

/-- `topup_user_credits`. -/
def topupUserCredits (userId : UserId) (creditAmount : ℚ) (db : Db) : Except Exn Db := do
  let balance ← BalanceRepository.topupUserCredits db userId creditAmount
  db.writeBalance balance

end BalanceUseCase

end Abrio
