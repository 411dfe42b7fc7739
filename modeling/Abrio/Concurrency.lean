import Abrio.Acceptance

/-!
# Submissions side by side

The API serves many submissions at once, so here their transactions run statement by
statement. A call carries the statements it still has to issue (`Open.todo`) and the rows
it has written, which no other call sees until the commit. What the database adds is
waiting : an insert waits while another open transaction holds a row with the same unique
key, and `SELECT … FOR UPDATE` waits while another one has locked the balance. A
transaction may be killed at any point, as a deadlock victim or with its connection; an
aborted one leaves no rows. A single submission whose transaction raised then runs its
handler, which reads the state of that later moment.

`uuid4()` is modelled by what is relied on : a call starts with ids that occur nowhere.
-/

open Relational Runs

namespace Abrio

/-- A statement of a submission's transaction. -/
inductive Stmt
  | insertMessage (m : Message)
  | checkUsers
  | reserve (amount : Cents)
  | insertJobs (js : List DispatchJob)
  | writeBalance

/-- An open transaction : the statements left to issue, the rows inserted so far, and the
locked balance with its new value. -/
structure Open where
  todo : List Stmt
  messages : List Message := []
  jobs : List DispatchJob := []
  balance : Option Balance := none

/-- What a submission returns. -/
inductive Answer
  | single (r : Submitted)
  | batch (ms : List Message)

/-- A call in its transaction, after its rollback, or with its answer. -/
inductive CallState
  | running (t : Open)
  | aborted (e : Exn)
  | returned (r : Except Exn Answer)

/-- The two submission calls. -/
inductive SubmissionCall
  | single (payload : MessageRequest) (ids : Ids)
  | batch (payload : BatchMessageRequest) (ids : ℕ → Ids)

/-- A submission under way. Its time is that of its transaction. -/
structure Call where
  id : ℕ
  call : SubmissionCall
  now : Time
  state : CallState

/-- The database with the calls of all API processes. -/
structure SubmissionSystem where
  db : Db
  calls : Table Call.id

/-- A call begins, executes its next statement, or is killed. -/
inductive SubmissionAct
  | start (id : ℕ) (call : SubmissionCall) (now : Time)
  | advance (id : ℕ)
  | kill (id : ℕ)

/-! ## The programs of the calls -/

namespace SubmissionCall

variable (s : Settings)

/-- Whose messages are submitted. -/
def userId : SubmissionCall → UserId
  | .single payload _ => payload.userId
  | .batch payload _ => payload.userId

/-- What the call would insert. -/
def submissions (now : Time) : SubmissionCall → List Submission
  | .single payload ids => [⟨payload, ids, now⟩]
  | .batch payload ids => MessageUseCase.batchSubmissions payload ids now

/-- The statements of the transaction, in the order of its flushes. -/
def program (now : Time) (c : SubmissionCall) : List Stmt :=
  let ms := (c.submissions now).map (MessageUseCase.newMessage s)
  let js := (c.submissions now).map (MessageUseCase.newJob s)
  match c with
  | .single payload _ => ms.map .insertMessage ++
      [.checkUsers, .reserve (s.messageCost payload.priority), .insertJobs js, .writeBalance]
  | .batch payload _ => ms.map .insertMessage ++
      [.checkUsers, .insertJobs js,
        .reserve (MessageUseCase.calculateBatchMessageCost s payload.messages), .writeBalance]

/-- How the call begins : `batch_create_message` first looks for duplicate keys. -/
def begin (now : Time) (c : SubmissionCall) : CallState :=
  match c with
  | .single _ _ => .running { todo := c.program s now }
  | .batch payload _ =>
    match MessageUseCase.checkDuplicateIdempotencyKeys [] payload.messages with
    | some key => .returned (.error (.app (.idempotencyDuplicate key)))
    | none => .running { todo := c.program s now }

/-- What the call returns after its commit. -/
def answer (now : Time) : SubmissionCall → Answer
  | .single payload ids => .single (.created (MessageUseCase.newMessage s ⟨payload, ids, now⟩))
  | .batch payload ids => .batch
      ((MessageUseCase.batchSubmissions payload ids now).map (MessageUseCase.newMessage s))

/-- The handler of the call, with the state it reads. -/
def handle (db : Db) (e : Exn) : SubmissionCall → Except Exn Answer
  | .single payload _ => (MessageUseCase.createMessageHandler s payload db e).map .single
  | .batch payload _ => .error (MessageUseCase.batchCreateMessageHandler s payload e)

end SubmissionCall

/-! ## One transaction -/

namespace Open

/-- The state as the transaction sees it : what is committed and its own rows. -/
def view (t : Open) (db : Db) : Db :=
  { db with
    messages := (db.messages.append? t.messages).getD db.messages
    jobs := (db.jobs.append? t.jobs).getD db.jobs }

/-- The state after the commit. -/
def commit (t : Open) (db : Db) : Db :=
  { t.view db with
    balances := match t.balance with
      | none => db.balances
      | some b => db.balances.put b }

/-- One statement, on the state the transaction sees. -/
def exec (t : Open) (db : Db) (userId : UserId) : Stmt → Except Exn Open
  | .insertMessage m => do
    let _ ← Db.insertMessageRow (t.view db).messages m
    return { t with messages := t.messages ++ [m] }
  | .checkUsers => do
    forM t.messages (t.view db).checkMessageUser
    return t
  | .reserve amount => do
    let balance ← BalanceRepository.reserveCredits (t.view db) userId amount
    return { t with balance := some balance }
  | .insertJobs js => do
    let _ ← (t.view db).insertJobs js
    return { t with jobs := t.jobs ++ js }
  | .writeBalance =>
    match t.balance with
    | none => .ok t
    | some balance => do
      let _ ← (t.view db).writeBalance balance
      return t

/-- Whether a statement of another call for `userId` has to wait for `t`. -/
def blocks (t : Open) (holder userId : UserId) : Stmt → Bool
  | .insertMessage m => t.messages.any fun x => x.id = m.id || Db.sameKey x m
  | .insertJobs js => js.any fun j => t.jobs.any fun x => x.id = j.id || Db.sameMessage x j
  | .reserve _ => holder = userId && t.balance.isSome
  | _ => false

end Open

/-! ## The system -/

namespace SubmissionSystem

variable (s : Settings)

/-- A state with no calls. -/
def start (db : Db) : SubmissionSystem :=
  ⟨db, .empty⟩

/-- The statement has to wait for another open transaction. -/
def blocked (sys : SubmissionSystem) (c : Call) (stmt : Stmt) : Bool :=
  sys.calls.rows.any fun c' => c'.id ≠ c.id &&
    match c'.state with
    | .running t => t.blocks c'.call.userId c.call.userId stmt
    | _ => false

/-- The ids of `subs` occur neither in the state nor in a call. -/
def fresh (sys : SubmissionSystem) (subs : List Submission) : Bool :=
  (subs.map fun sub => sub.ids.messageId).Nodup && (subs.map fun sub => sub.ids.jobId).Nodup &&
  subs.all fun sub =>
    (sys.db.messages.rows.all fun m => m.id ≠ sub.ids.messageId) &&
    (sys.db.jobs.rows.all fun j => j.id ≠ sub.ids.jobId) &&
    sys.calls.rows.all fun c => (c.call.submissions c.now).all fun sub' =>
      sub'.ids.messageId ≠ sub.ids.messageId && sub'.ids.jobId ≠ sub.ids.jobId

/-- A call begins. -/
def begin (sys : SubmissionSystem) (id : ℕ) (call : SubmissionCall) (now : Time) :
    SubmissionSystem :=
  if sys.fresh (call.submissions now) then
    match sys.calls.insert ⟨id, call, now, call.begin s now⟩ with
    | some calls => { sys with calls }
    | none => sys
  else sys

/-- A call goes on to `state`. -/
def goto (sys : SubmissionSystem) (c : Call) (state : CallState) : SubmissionSystem :=
  { sys with calls := sys.calls.put { c with state } }

/-- The next thing a call does. -/
def advance (sys : SubmissionSystem) (c : Call) : SubmissionSystem :=
  match c.state with
  | .running t =>
    match t.todo with
    | [] => { sys.goto c (.returned (.ok (c.call.answer s c.now))) with db := t.commit sys.db }
    | stmt :: todo =>
      if sys.blocked c stmt then sys
      else match t.exec sys.db c.call.userId stmt with
        | .ok t' => sys.goto c (.running { t' with todo })
        | .error e => sys.goto c (.aborted e)
  | .aborted e => sys.goto c (.returned (c.call.handle s sys.db e))
  | .returned _ => sys

/-- One statement of one call. A call that waits for a lock stays where it is. -/
def step (sys : SubmissionSystem) : SubmissionAct → SubmissionSystem
  | .start id call now => sys.begin s id call now
  | .advance id =>
    match sys.calls.find? id with
    | some c => sys.advance s c
    | none => sys
  | .kill id =>
    match sys.calls.find? id with
    | some c =>
      match c.state with
      | .running _ => sys.goto c (.aborted (.db .operationalError))
      | _ => sys
    | none => sys

end SubmissionSystem

end Abrio
