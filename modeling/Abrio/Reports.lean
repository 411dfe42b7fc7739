import Abrio.Attempts
import Abrio.Ledger
import Abrio.Listing
import Abrio.MessageLifecycle

/-!
# Reports

What a user is told : the summary of his messages, one message, and the user with the balance.
A summary is one query of filtered counts. In every state of a run its counts by status and by
payment agree with each other and with the listing of the same filter, what it counts as sent or
given up never becomes less, and its reserved messages are what the balance has reserved
(`reports_agree`). The debug endpoint that zeroes credits is no part of these runs.
-/

open Relational Runs

namespace Abrio

/-! ## The queries -/

/-- The counts by status. -/
structure MessagesStatusSummaryResponse where
  queued : ℕ
  dispatching : ℕ
  failed : ℕ
  sent : ℕ
  permanentFailed : ℕ
  deriving DecidableEq

/-- The counts by payment status. -/
structure PaymentStatusSummaryResponse where
  reserved : ℕ
  deducted : ℕ
  refunded : ℕ
  deriving DecidableEq

/-- The summary of a user's messages. -/
structure MessagesSummaryResponse where
  userId : UserId
  total : ℕ
  messageStatus : MessagesStatusSummaryResponse
  paymentStatus : PaymentStatusSummaryResponse
  deriving DecidableEq

/-- `UserResponse`. -/
structure UserResponse where
  id : UserId
  name : String
  balance : Option BalanceResponse
  deriving DecidableEq

namespace MessageRepository

/-- `func.count(Message.id).filter(Message.status == status)`. -/
def countStatus (status : MessageStatus) (rows : List Message) : ℕ :=
  rows.countP fun m => m.status = status

/-- The count of one payment status. -/
def countPaymentStatus (paymentStatus : PaymentStatus) (rows : List Message) : ℕ :=
  rows.countP fun m => m.paymentStatus = paymentStatus

/-- `calculate_summary`. -/
def calculateSummary (userId : UserId) (db : Db) : Except Exn MessagesSummaryResponse := do
  let rows ← selectWhere [⟨fun m => m.userId = userId, [userId]⟩] db.messages.rows
  return {
    userId
    total := rows.length
    messageStatus := {
      queued := countStatus .queued rows
      dispatching := countStatus .dispatching rows
      failed := countStatus .failed rows
      sent := countStatus .sent rows
      permanentFailed := countStatus .permanentFailed rows }
    paymentStatus := {
      reserved := countPaymentStatus .reserved rows
      deducted := countPaymentStatus .deducted rows
      refunded := countPaymentStatus .refunded rows } }

/-- `get_user_message`. -/
def getUserMessage (messageId : UUID) (userId : UserId) (db : Db) : Except Exn Message := do
  let rows ← selectWhere
    [⟨fun m => m.id = messageId, []⟩, ⟨fun m => m.userId = userId, [userId]⟩] db.messages.rows
  match rows.head? with
  | none => .error (.app (.messageNotFound messageId))
  | some message => .ok message

end MessageRepository

/-- `get_user`, with the balance that is joined to the row. -/
def UserRepository.getUser (userId : UserId) (db : Db) : Except Exn UserResponse := do
  let rows ← selectWhere [⟨fun u => u.id = userId, [userId]⟩] db.users.rows
  match rows.head? with
  | none => .error (.app (.userNotFound userId))
  | some user => .ok ⟨user.id, user.name, UserUseCase.getBalance user.id db⟩

/-! ## What a summary counts -/

/-- The payment of a message that is this far. -/
def MessageStatus.payment : MessageStatus → PaymentStatus
  | .sent => .deducted
  | .permanentFailed => .refunded
  | _ => .reserved

namespace MessagesSummaryResponse

/-- The counts by status and by payment are of the same messages. -/
structure Agrees (r : MessagesSummaryResponse) : Prop where
  statuses : r.messageStatus.queued + r.messageStatus.dispatching + r.messageStatus.failed +
    r.messageStatus.sent + r.messageStatus.permanentFailed = r.total
  reserved : r.paymentStatus.reserved =
    r.messageStatus.queued + r.messageStatus.dispatching + r.messageStatus.failed
  deducted : r.paymentStatus.deducted = r.messageStatus.sent
  refunded : r.paymentStatus.refunded = r.messageStatus.permanentFailed

variable (r : MessagesSummaryResponse)

/-- The count of a status. -/
def ofStatus : MessageStatus → ℕ
  | .queued => r.messageStatus.queued
  | .dispatching => r.messageStatus.dispatching
  | .failed => r.messageStatus.failed
  | .sent => r.messageStatus.sent
  | .permanentFailed => r.messageStatus.permanentFailed

/-- The count of a payment status. -/
def ofPaymentStatus : PaymentStatus → ℕ
  | .reserved => r.paymentStatus.reserved
  | .deducted => r.paymentStatus.deducted
  | .refunded => r.paymentStatus.refunded

/-- The number of messages that the filters by status and by payment accept. -/
def count : Option MessageStatus → Option PaymentStatus → ℕ
  | none, none => r.total
  | some status, none => r.ofStatus status
  | none, some paymentStatus => r.ofPaymentStatus paymentStatus
  | some status, some paymentStatus =>
    if status.payment = paymentStatus then r.ofStatus status else 0

end MessagesSummaryResponse

/-- The messages of a user. -/
def Db.messagesOf (db : Db) (userId : UserId) : List Message :=
  db.messages.rows.filter fun m => m.userId = userId

theorem Db.mem_messagesOf {db : Db} {userId : UserId} {m : Message} :
    m ∈ db.messagesOf userId ↔ m ∈ db.messages ∧ m.userId = userId := by
  simp [Db.messagesOf, Table.mem_def]

namespace MessageRepository

variable {userId : UserId} {db : Db} {r : MessagesSummaryResponse}

/-- A summary has the counts of the user's messages. -/
structure Summarises (r : MessagesSummaryResponse) (rows : List Message) : Prop where
  total : r.total = rows.length
  status : ∀ status, r.ofStatus status = countStatus status rows
  payment : ∀ paymentStatus, r.ofPaymentStatus paymentStatus = countPaymentStatus paymentStatus rows

theorem calculateSummary_ok (h : calculateSummary userId db = .ok r) :
    fitsInt4 userId = true ∧ Summarises r (db.messagesOf userId) := by
  obtain ⟨rows, hrows, h⟩ := bind_eq_ok.1 h
  obtain ⟨_, hbind, hsel⟩ := bind_eq_ok.1 hrows
  have hfits : fitsInt4 userId = true :=
    bindInteger_ok.1 (forM_eq_ok.1 hbind userId (by simp))
  have he : rows = db.messagesOf userId := by
    cases hsel
    simp [Db.messagesOf]
  subst he
  cases h
  refine ⟨hfits, rfl, fun status => ?_, fun paymentStatus => ?_⟩
  · cases status <;> rfl
  · cases paymentStatus <;> rfl

/-- Every message is counted under its status. -/
theorem countStatus_sum (rows : List Message) :
    countStatus .queued rows + countStatus .dispatching rows + countStatus .failed rows +
      countStatus .sent rows + countStatus .permanentFailed rows = rows.length := by
  unfold countStatus
  induction rows with
  | nil => rfl
  | cons m rows ih =>
    simp only [List.countP_cons, List.length_cons]
    cases m.status <;> simp <;> omega

section Counts

variable {rows : List Message} (hpay : ∀ m ∈ rows, m.paymentStatus = m.status.payment)

include hpay

theorem countPaymentStatus_eq (status : MessageStatus) {paymentStatus : PaymentStatus}
    (h : ∀ status', status'.payment = paymentStatus ↔ status' = status) :
    countPaymentStatus paymentStatus rows = countStatus status rows :=
  List.countP_congr fun m hm => by simp [hpay m hm, h]

theorem countPaymentStatus_reserved : countPaymentStatus .reserved rows =
    countStatus .queued rows + countStatus .dispatching rows + countStatus .failed rows := by
  unfold countPaymentStatus countStatus
  induction rows with
  | nil => rfl
  | cons m rows ih =>
    simp only [List.forall_mem_cons] at hpay
    simp only [List.countP_cons, ih hpay.2, hpay.1]
    cases m.status <;> simp [MessageStatus.payment] <;> omega

theorem Summarises.agrees (h : Summarises r rows) : r.Agrees where
  statuses := by
    rw [h.total, ← countStatus_sum rows]
    simp only [← h.status, MessagesSummaryResponse.ofStatus]
  reserved := by
    have hr := h.payment .reserved
    rw [countPaymentStatus_reserved hpay, ← h.status, ← h.status, ← h.status] at hr
    exact hr
  deducted := by
    have hr := h.payment .deducted
    rw [countPaymentStatus_eq hpay .sent fun st => by cases st <;> decide] at hr
    exact hr.trans (h.status .sent).symm
  refunded := by
    have hr := h.payment .refunded
    rw [countPaymentStatus_eq hpay .permanentFailed fun st => by cases st <;> decide] at hr
    exact hr.trans (h.status .permanentFailed).symm

/-- The rows that filters by status and by payment accept, by the counts of the summary. -/
theorem Summarises.count_eq (h : Summarises r rows) (status : Option MessageStatus)
    (paymentStatus : Option PaymentStatus) :
    (rows.filter fun m => status.all (fun st => m.status = st) &&
      paymentStatus.all fun p => m.paymentStatus = p).length = r.count status paymentStatus := by
  rw [← List.countP_eq_length_filter]
  cases status with
  | none =>
    cases paymentStatus with
    | none => simp [MessagesSummaryResponse.count, h.total]
    | some p => simp [MessagesSummaryResponse.count, h.payment, countPaymentStatus]
  | some st =>
    cases paymentStatus with
    | none => simp [MessagesSummaryResponse.count, h.status, countStatus]
    | some p =>
      simp only [MessagesSummaryResponse.count, h.status, countStatus]
      split_ifs with hp
      · refine List.countP_congr fun m hm => ?_
        by_cases hm' : m.status = st <;> simp [hpay m hm, hm', hp]
      · refine List.countP_eq_zero.2 fun m hm => ?_
        by_cases hm' : m.status = st <;> simp [hpay m hm, hm', hp]

end Counts

end MessageRepository

/-! ## In a run -/

section States

variable {db : Db} {u : UserId} {r : MessagesSummaryResponse}

/-- The payment of a message goes with its status. -/
theorem Db.Consistent.payment (h : db.Consistent) {m : Message} (hm : m ∈ db.messages) :
    m.paymentStatus = m.status.payment := by
  obtain ⟨j, hj, hlinked⟩ := h.message_job m hm
  have hagree := h.agree j hj m hm hlinked.messageId
  have hsent := hagree.sent
  have hrefunded := hagree.refunded
  revert hsent hrefunded
  cases m.status <;> cases m.paymentStatus <;> simp [MessageStatus.payment]

/-- The listing of a user's messages by status and by payment counts what the summary counts. -/
theorem listing_total (h : db.Consistent) (hr : MessageRepository.Summarises r (db.messagesOf u))
    (hu : u ≠ 0) {scan : Scan Message} {params : PaginationParams} {status : Option MessageStatus}
    {paymentStatus : Option PaymentStatus} {page : PaginatedResponse Message}
    (hpage : MessageUseCase.getMessagesSlice scan params
      { userId := some u, status, paymentStatus } db = .ok page) :
    page.total = r.count status paymentStatus := by
  obtain ⟨⟨messages, total⟩, hslice, hpage⟩ := bind_eq_ok.1 hpage
  cases hpage
  obtain ⟨-, -, htotal⟩ := MessageRepository.getMessagesSlice_ok.1 hslice
  have hpay : ∀ m ∈ db.messagesOf u, m.paymentStatus = m.status.payment := fun m hm =>
    h.payment (Db.mem_messagesOf.1 hm).1
  have happlied : ({ userId := some u, status, paymentStatus } : MessageFilters).applied = _ :=
    MessageFilters.applied_of_ne (by simpa using hu)
  show total = _
  rw [htotal, ← hr.count_eq hpay, Db.messagesOf, List.filter_filter, MessageFilters.selected,
    happlied]
  congr 1
  refine List.filter_congr fun m _ => ?_
  simp [MessageFilters.accepts, Bool.and_assoc, Bool.and_comm]

/-- Credits of a user are reserved when messages are. -/
theorem reservedCost_pos_iff (h : db.Consistent)
    (hr : MessageRepository.Summarises r (db.messagesOf u)) :
    0 < db.reservedCost u ↔ 0 < r.paymentStatus.reserved := by
  have hcount : r.paymentStatus.reserved = (db.messages.rows.filter fun m =>
      m.userId = u ∧ m.paymentStatus = .reserved).length := by
    rw [show r.paymentStatus.reserved = _ from hr.payment .reserved, Db.messagesOf,
      MessageRepository.countPaymentStatus, List.countP_filter, List.countP_eq_length_filter]
    simp [Bool.and_comm]
  rw [hcount, Db.reservedCost, List.length_pos_iff]
  refine ⟨fun hpos hnil => ?_, fun hne => ?_⟩
  · rw [hnil] at hpos
    exact lt_irrefl _ hpos
  · obtain ⟨m, hm⟩ := List.exists_mem_of_ne_nil _ hne
    obtain ⟨hmem, hm'⟩ := List.mem_filter.1 hm
    obtain ⟨rfl, hres⟩ := of_decide_eq_true hm'
    exact (h.constrained.message_cost m hmem).trans_le (h.cost_le_reserved hmem hres)

/-- A user who is found has the balance that his messages have reserved. -/
theorem getUser_balance (h : db.Consistent) {user : UserResponse}
    (hu : UserRepository.getUser u db = .ok user) : ∃ balance, user.balance = some balance ∧
      balance.reservedCredits = formatDecimal (db.reservedCost u).toDecimal := by
  obtain ⟨rows, hrows, hu⟩ := bind_eq_ok.1 hu
  obtain ⟨_, -, hsel⟩ := bind_eq_ok.1 hrows
  cases hsel
  split at hu
  · cases hu
  · rename_i row hhead
    cases hu
    obtain ⟨hmem, hid⟩ := List.mem_filter.1 (List.mem_of_mem_head? hhead)
    have hid : row.id = u := by simpa using hid
    obtain ⟨b, hb, hbu⟩ := h.user_balance row hmem
    refine ⟨_, by rw [UserUseCase.getBalance, ← hbu, Table.find?_key hb]; rfl, ?_⟩
    show formatDecimal b.reservedCredits.toDecimal = _
    rw [h.reserved b hb, hbu, hid]

end States

namespace System

variable {s : Settings} {sys : System}

/-- In a run a message stays, with what it said at its insert; and once it is sent or given up it
stays that. -/
theorem run_messages (h : sys.MessageInv) (acts : List (Time × Act)) {m : Message}
    (hm : m ∈ sys.db.messages) : ∃ m' ∈ (run (step s) sys acts).db.messages,
      m'.original = m.original ∧ (m.status.next = [] → m'.status = m.status) := by
  suffices hrun : (run (step s) sys acts).MessageInv ∧
      ∃ m' ∈ (run (step s) sys acts).db.messages,
        m'.original = m.original ∧ (m.status.next = [] → m'.status = m.status) from hrun.2
  refine run_induction (P := fun sys' => System.MessageInv sys' ∧ ∃ m' ∈ sys'.db.messages,
    m'.original = m.original ∧ (m.status.next = [] → m'.status = m.status))
    (fun sys' a hs => ?_) acts ⟨h, m, hm, rfl, fun _ => rfl⟩
  obtain ⟨hinv, m', hm', ho, hs⟩ := hs
  obtain ⟨m'', hm'', ho', hf⟩ := step_follows hinv a hm'
  refine ⟨hinv.step a, m'', hm'', ho'.trans ho, fun hnext => ?_⟩
  rcases hf with hf | hf
  · exact hf.trans (hs hnext)
  · rw [hs hnext, hnext] at hf
    cases hf

end System

/-- Later no fewer messages of a user have a property that none of them loses. -/
theorem countP_messagesOf_le {s : Settings} {sys : System} (h : sys.MessageInv)
    (later : List (Time × Act)) (u : UserId) {q : Message → Bool}
    (hq : ∀ m m' : Message, (m.status.next = [] → m'.status = m.status) → q m = true →
      q m' = true) :
    (sys.db.messagesOf u).countP q ≤
      ((run (System.step s) sys later).db.messagesOf u).countP q := by
  simp only [Db.messagesOf, List.countP_filter]
  refine Table.countP_le_countP fun m hm hmq => ?_
  obtain ⟨hmq, hu⟩ := Bool.and_eq_true_iff.1 hmq
  obtain ⟨m', hm', ho, hs⟩ := System.run_messages h later hm
  refine ⟨m', hm', Message.id_eq ho, Bool.and_eq_true_iff.2 ⟨hq m m' hs hmq, ?_⟩⟩
  rw [Message.userId_eq ho, hu]

/-- The reports of a user, in every run in which no credits are zeroed. The counts of a summary
agree with each other and with the listing of the same filters, its reserved messages are what the
balance has reserved, and later it counts no fewer messages, and no fewer sent or given up. -/
theorem reports_agree (s : Settings) (acts later : List (Time × Act)) (u : UserId)
    (r : MessagesSummaryResponse)
    (hr : MessageRepository.calculateSummary u (System.after s acts).db = .ok r) :
    let sys := System.after s acts
    r.Agrees ∧
      (u ≠ 0 → ∀ scan params status paymentStatus page,
        MessageUseCase.getMessagesSlice scan params { userId := some u, status, paymentStatus }
          sys.db = .ok page → page.total = r.count status paymentStatus) ∧
      (∀ user, UserRepository.getUser u sys.db = .ok user → ∃ balance,
        user.balance = some balance ∧
          balance.reservedCredits = formatDecimal (sys.db.reservedCost u).toDecimal ∧
          (0 < sys.db.reservedCost u ↔ 0 < r.paymentStatus.reserved)) ∧
      ∀ r', MessageRepository.calculateSummary u (run (System.step s) sys later).db = .ok r' →
        r.total ≤ r'.total ∧ r.messageStatus.sent ≤ r'.messageStatus.sent ∧
          r.messageStatus.permanentFailed ≤ r'.messageStatus.permanentFailed := by
  intro sys
  have hinv := System.after_messageInv s acts
  have hsum := (MessageRepository.calculateSummary_ok hr).2
  have hpay : ∀ m ∈ sys.db.messagesOf u, m.paymentStatus = m.status.payment := fun m hm =>
    hinv.consistent.payment (Db.mem_messagesOf.1 hm).1
  refine ⟨hsum.agrees hpay, fun hu _ _ _ _ _ hpage => listing_total hinv.consistent hsum hu hpage,
    fun user hu => ?_, fun r' hr' => ?_⟩
  · obtain ⟨balance, hb, hres⟩ := getUser_balance hinv.consistent hu
    exact ⟨balance, hb, hres, reservedCost_pos_iff hinv.consistent hsum⟩
  · have hsum' := (MessageRepository.calculateSummary_ok hr').2
    have hfinal : ∀ status : MessageStatus, status.next = [] →
        r.ofStatus status ≤ r'.ofStatus status := by
      intro status hnext
      rw [hsum.status, hsum'.status]
      refine countP_messagesOf_le hinv later u fun m m' hs hm => ?_
      have hm := of_decide_eq_true hm
      exact decide_eq_true ((hs (hm ▸ hnext)).trans hm)
    refine ⟨?_, hfinal .sent rfl, hfinal .permanentFailed rfl⟩
    rw [hsum.total, hsum'.total]
    simpa using countP_messagesOf_le hinv later u (q := fun _ => true) fun _ _ _ _ => rfl

theorem reports_agree_sample :
    let sys := System.after { maxDeliveryAttempts := 1 } lastAttemptSample
    let r : MessagesSummaryResponse := ⟨1, 1, ⟨0, 0, 0, 0, 1⟩, ⟨0, 0, 1⟩⟩
    MessageRepository.calculateSummary 1 sys.db = .ok r ∧ r.Agrees := by
  intro sys r
  have hr : MessageRepository.calculateSummary 1 sys.db = .ok r := by decide +kernel
  exact ⟨hr, (reports_agree { maxDeliveryAttempts := 1 } lastAttemptSample [] 1 r hr).1⟩

end Abrio
