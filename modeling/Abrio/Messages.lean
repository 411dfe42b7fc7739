import Abrio.Schema

/-!
# The message repository

The row a submission inserts, the rows the worker writes back, and the look-ups both make.
-/

open Relational

namespace Abrio

/-- The columns a submission passes on to the message row and to its job. -/
structure MessageDict where
  userId : UserId
  recipient : String
  body : String
  priority : MessagePriority
  idempotencyKey : UUID
  cost : Cents

namespace MessageRepository

/-- `create_message`, with the defaults of the columns the payload leaves out. -/
def createMessage (id : UUID) (now : Time) (payload : MessageDict) : Message where
  id := id
  userId := payload.userId
  recipient := payload.recipient
  body := payload.body
  cost := payload.cost
  priority := payload.priority
  idempotencyKey := payload.idempotencyKey
  createdAt := now
  updatedAt := now

/-- `get_user_message_by_idempotency_key`. No two messages of a user have one key. -/
def getUserMessageByIdempotencyKey (db : Db) (userId : UserId) (key : UUID) :
    Except Exn Message :=
  match db.messageWithKey userId key with
  | none => .error (.app (.messageNotFound key))
  | some message => .ok message

/-- `get_for_update`. -/
def getForUpdate (db : Db) (messageId : UUID) : Except Exn Message :=
  match db.messages.find? messageId with
  | none => .error (.app (.messageNotFound messageId))
  | some message => .ok message

variable (now : Time) (message : Message)

/-- The session writes nothing to a row that is dispatching already. -/
def markDispatching : Message :=
  { message with
    status := .dispatching
    updatedAt := if message.status = .dispatching then message.updatedAt else now }

/-- `mark_sent`. The credits that were reserved are deducted with it. -/
def markSent : Message :=
  { message with status := .sent, paymentStatus := .deducted, updatedAt := now }

/-- `mark_retryable_failure`. The credits stay reserved. -/
def markRetryableFailure : Message :=
  { message with status := .failed, paymentStatus := .reserved, updatedAt := now }

/-- `mark_permanent_failure`. The credits are released with it. -/
def markPermanentFailure : Message :=
  { message with status := .permanentFailed, paymentStatus := .refunded, updatedAt := now }

theorem getForUpdate_ok {db : Db} {messageId : UUID} {message : Message} :
    getForUpdate db messageId = .ok message ↔ db.messages.find? messageId = some message := by
  unfold getForUpdate
  cases db.messages.find? messageId <;> simp

end MessageRepository

end Abrio
