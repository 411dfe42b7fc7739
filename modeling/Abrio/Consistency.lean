import Abrio.Acceptance
import Abrio.Delivery
import Abrio.JobStatements
import Abrio.Transactions
import Mathlib.Algebra.Order.BigOperators.Group.List

/-!
# Consistency of the four tables

`Db.Accounted` accounts for the money : the schema constraints hold, every user has a
balance, `reserved_credits` is what the user's open messages cost, every message has a job
of the same user and priority, and a delivery in progress is reserved. `Db.Consistent` adds
that job, message and payment agree on how far the delivery is (`StatusAgree`). Both hold
after every run from the empty database (`run_consistent`), and with them what the tables
promise a reader (`reachable_sound`).

An update never changes what a row said when it was inserted (`Message.original`,
`DispatchJob.original`), and the constraints speak of nothing else
(`SameOriginals.constrained`). What a transaction can do to the state is one of the kinds
of `Change` : a submission, an update of open jobs by the relay, a write of a message with
its job by the worker, or a change of users and balances.
-/

open Relational Runs

namespace Abrio

/-! ## What an update keeps -/

/-- A message as its submission inserted it. -/
def Message.original (m : Message) : Message :=
  { m with status := .queued, paymentStatus := .reserved, updatedAt := m.createdAt }

/-- A job as its submission inserted it. -/
def DispatchJob.original (j : DispatchJob) : DispatchJob :=
  DispatchJobRepository.create j.id j.createdAt j.messageId j.priority
    ⟨j.userId, j.payload.recipient, j.payload.body, j.priority, 0, j.payload.cost⟩

namespace Message

variable {m m' : Message}

theorem id_eq (h : m'.original = m.original) : m'.id = m.id :=
  (congrArg Message.id h :)

theorem userId_eq (h : m'.original = m.original) : m'.userId = m.userId :=
  (congrArg Message.userId h :)

theorem cost_eq (h : m'.original = m.original) : m'.cost = m.cost :=
  (congrArg Message.cost h :)

theorem priority_eq (h : m'.original = m.original) : m'.priority = m.priority :=
  (congrArg Message.priority h :)

theorem idempotencyKey_eq (h : m'.original = m.original) :
    m'.idempotencyKey = m.idempotencyKey :=
  (congrArg Message.idempotencyKey h :)

end Message

namespace DispatchJob

variable {j j' : DispatchJob}

theorem id_eq (h : j'.original = j.original) : j'.id = j.id :=
  (congrArg DispatchJob.id h :)

theorem messageId_eq (h : j'.original = j.original) : j'.messageId = j.messageId :=
  (congrArg DispatchJob.messageId h :)

theorem userId_eq (h : j'.original = j.original) : j'.userId = j.userId :=
  (congrArg DispatchJob.userId h :)

theorem priority_eq (h : j'.original = j.original) : j'.priority = j.priority :=
  (congrArg DispatchJob.priority h :)

end DispatchJob

/-- Two states with the same rows up to what updates change. -/
structure SameOriginals (db db' : Db) : Prop where
  users : db'.users = db.users
  messages : db'.messages.rows.map Message.original = db.messages.rows.map Message.original
  jobs : db'.jobs.rows.map DispatchJob.original = db.jobs.rows.map DispatchJob.original

theorem exists_of_map_eq {α β : Type*} {f : α → β} {l l' : List α} (h : l'.map f = l.map f) {a : α}
    (ha : a ∈ l') : ∃ b ∈ l, f b = f a := by
  have hf : f a ∈ l.map f := h ▸ List.mem_map_of_mem ha
  simpa using hf

namespace SameOriginals

variable {db db' : Db} (h : SameOriginals db db')

include h

theorem symm : SameOriginals db' db :=
  ⟨h.users.symm, h.messages.symm, h.jobs.symm⟩

theorem message {m : Message} (hm : m ∈ db'.messages) :
    ∃ x ∈ db.messages, x.original = m.original :=
  exists_of_map_eq h.messages hm

theorem job {j : DispatchJob} (hj : j ∈ db'.jobs) : ∃ x ∈ db.jobs, x.original = j.original :=
  exists_of_map_eq h.jobs hj

/-- The constraints on users, messages and jobs speak of the original rows. -/
theorem constrained (hdb : db.Constrained) (hb : ∀ b ∈ db'.balances, b.Constrained)
    (hu : ∀ b ∈ db'.balances, ∃ u ∈ db.users, u.id = b.userId) : db'.Constrained where
  balance := hb
  balance_user := by
    rw [h.users]
    exact hu
  message_cost m hm := by
    obtain ⟨x, hx, ho⟩ := h.message hm
    exact Message.cost_eq ho ▸ hdb.message_cost x hx
  message_user m hm := by
    obtain ⟨x, hx, ho⟩ := h.message hm
    rw [h.users, ← Message.userId_eq ho]
    exact hdb.message_user x hx
  message_key m hm m' hm' hu hk := by
    obtain ⟨x, hx, ho⟩ := h.message hm
    obtain ⟨x', hx', ho'⟩ := h.message hm'
    have he : x = x' := hdb.message_key x hx x' hx'
      (by rw [Message.userId_eq ho, Message.userId_eq ho', hu])
      (by rw [Message.idempotencyKey_eq ho, Message.idempotencyKey_eq ho', hk])
    exact Table.eq_of_key_eq hm hm' (by rw [← Message.id_eq ho, ← Message.id_eq ho', he])
  job_message j hj := by
    obtain ⟨y, hy, ho⟩ := h.job hj
    obtain ⟨m, hm, hi⟩ := hdb.job_message y hy
    obtain ⟨x, hx, hox⟩ := h.symm.message hm
    exact ⟨x, hx, by rw [Message.id_eq hox, hi, DispatchJob.messageId_eq ho]⟩
  job_user j hj := by
    obtain ⟨y, hy, ho⟩ := h.job hj
    rw [h.users, ← DispatchJob.userId_eq ho]
    exact hdb.job_user y hy
  job_unique j hj j' hj' hi := by
    obtain ⟨y, hy, ho⟩ := h.job hj
    obtain ⟨y', hy', ho'⟩ := h.job hj'
    have he : y = y' := hdb.job_unique y hy y' hy'
      (by rw [DispatchJob.messageId_eq ho, DispatchJob.messageId_eq ho', hi])
    exact Table.eq_of_key_eq hj hj' (by rw [← DispatchJob.id_eq ho, ← DispatchJob.id_eq ho', he])

end SameOriginals

/-! ## The invariant -/

/-- A job is the job of a message. -/
structure Linked (j : DispatchJob) (m : Message) : Prop where
  messageId : j.messageId = m.id
  userId : j.userId = m.userId
  priority : j.priority = m.priority

/-- Job, message and payment agree on how far the delivery is. -/
structure StatusAgree (j : DispatchJob) (m : Message) : Prop where
  completed : j.status = .completed ↔ m.status = .sent
  sent : m.status = .sent ↔ m.paymentStatus = .deducted
  failed : j.status = .failed ↔ m.status = .permanentFailed
  refunded : m.status = .permanentFailed ↔ m.paymentStatus = .refunded
  reserved : j.status.terminal = false → m.paymentStatus = .reserved

/-- A job that is not terminal belongs to a message that is neither sent nor given up. -/
theorem StatusAgree.of_open {j j' : DispatchJob} {m : Message} (h : StatusAgree j m)
    (ht : j.status.terminal = false) (ht' : j'.status.terminal = false) : StatusAgree j' m := by
  have hp := h.reserved ht
  have hs : m.status ≠ .sent := fun hm => by simp [h.sent.1 hm] at hp
  have hf : m.status ≠ .permanentFailed := fun hm => by simp [h.refunded.1 hm] at hp
  refine ⟨?_, h.sent, ?_, h.refunded, fun _ => hp⟩
  · exact iff_of_false (fun hc => by simp [hc, DispatchJobStatus.terminal] at ht') hs
  · exact iff_of_false (fun hc => by simp [hc, DispatchJobStatus.terminal] at ht') hf

/-- What message `m` holds of the reservation of user `u`. -/
def heldCost (u : UserId) (m : Message) : Cents :=
  if m.userId = u ∧ m.paymentStatus = .reserved then m.cost else 0

/-- What the messages of a user with a reserved payment cost together. -/
def Db.reservedCost (db : Db) (u : UserId) : Cents :=
  ((db.messages.rows.filter fun m => m.userId = u ∧ m.paymentStatus = .reserved).map
    Message.cost).sum

theorem Db.reservedCost_eq (db : Db) (u : UserId) :
    db.reservedCost u = (db.messages.rows.map (heldCost u)).sum := by
  unfold Db.reservedCost
  induction db.messages.rows with
  | nil => rfl
  | cons m ms ih =>
    by_cases h : m.userId = u ∧ m.paymentStatus = .reserved
    · simpa [h, heldCost] using ih
    · simpa [h, heldCost] using ih

/-- `R` holds between every job and its message. -/
def Db.ForLinked (db : Db) (R : DispatchJob → Message → Prop) : Prop :=
  ∀ j ∈ db.jobs, ∀ m ∈ db.messages, j.messageId = m.id → R j m

/-- A delivery in progress is reserved. -/
def InFlightReserved (j : DispatchJob) (m : Message) : Prop :=
  j.status = .dispatching → m.paymentStatus = .reserved

/-- The invariant of the money. -/
structure Db.Accounted (db : Db) : Prop where
  constrained : db.Constrained
  user_balance : ∀ u ∈ db.users, ∃ b ∈ db.balances, b.userId = u.id
  reserved : ∀ b ∈ db.balances, b.reservedCredits = db.reservedCost b.userId
  message_job : ∀ m ∈ db.messages, ∃ j ∈ db.jobs, Linked j m
  in_flight : db.ForLinked InFlightReserved

/-- The invariant of the system. -/
structure Db.Consistent (db : Db) : Prop extends Db.Accounted db where
  agree : db.ForLinked StatusAgree

theorem Db.consistent_empty : Db.empty.Consistent := by
  refine ⟨⟨⟨?_, ?_, ?_, ?_, ?_, ?_, ?_, ?_⟩, ?_, ?_, ?_, ?_⟩, ?_⟩ <;> simp [Db.empty, Db.ForLinked]

namespace Db.Accounted

variable {db db' : Db} (h : db.Accounted)

include h

/-- The message of a job. -/
theorem message_of_job {j : DispatchJob} (hj : j ∈ db.jobs) : ∃ m ∈ db.messages, Linked j m := by
  obtain ⟨m, hm, hi⟩ := h.constrained.job_message j hj
  obtain ⟨j', hj', hl⟩ := h.message_job m hm
  obtain rfl := h.constrained.job_unique j hj j' hj' (by rw [hl.messageId, hi])
  exact ⟨m, hm, hl⟩

/-- A message with a reserved payment costs no more than its user's reservation. -/
theorem cost_le_reserved {m : Message} (hm : m ∈ db.messages)
    (hr : m.paymentStatus = .reserved) : m.cost ≤ db.reservedCost m.userId := by
  rw [Db.reservedCost]
  refine List.single_le_sum (fun c hc => ?_) _ ?_
  · obtain ⟨x, hx, rfl⟩ := List.mem_map.1 hc
    exact (h.constrained.message_cost x (List.mem_filter.1 hx).1).le
  · exact List.mem_map_of_mem (List.mem_filter.2 ⟨hm, by simp [hr]⟩)

/-- The jobs of a message carry over when rows keep what they said at their insert. -/
theorem sameOriginals_message_job (hs : SameOriginals db db') :
    ∀ m ∈ db'.messages, ∃ j ∈ db'.jobs, Linked j m := by
  intro m hm
  obtain ⟨x, hx, hox⟩ := hs.message hm
  obtain ⟨y, hy, hl⟩ := h.message_job x hx
  obtain ⟨j, hj, hoj⟩ := hs.symm.job hy
  refine ⟨j, hj, ?_, ?_, ?_⟩
  · rw [DispatchJob.messageId_eq hoj, hl.messageId, Message.id_eq hox]
  · rw [DispatchJob.userId_eq hoj, hl.userId, Message.userId_eq hox]
  · rw [DispatchJob.priority_eq hoj, hl.priority, Message.priority_eq hox]

end Db.Accounted

/-! ## Updates of jobs -/

section UpdateJobs

variable {db : Db} {p : DispatchJob → Bool} {f : DispatchJob → DispatchJob}
  {hf : ∀ j, p j = true → (f j).id = j.id}

/-- A relation between jobs and messages after an update of jobs. -/
theorem Db.ForLinked.updateJobs {R : DispatchJob → Message → Prop} (h : db.ForLinked R)
    (ho : ∀ j, (f j).original = j.original)
    (hR : ∀ j ∈ db.jobs, p j = true → ∀ m, R j m → R (f j) m) :
    ({ db with jobs := db.jobs.updateWhere p f hf } : Db).ForLinked R := by
  intro j' (hj' : j' ∈ db.jobs.updateWhere p f hf) m hm hi
  obtain ⟨j, hj, rfl⟩ := Table.mem_updateWhere.1 hj'
  by_cases hp : p j = true
  · rw [if_pos hp] at hi ⊢
    rw [DispatchJob.messageId_eq (ho j)] at hi
    exact hR j hj hp m (h j hj m hm hi)
  · rw [if_neg hp] at hi ⊢
    exact h j hj m hm hi

/-- An update of jobs that starts no delivery. -/
theorem Db.Accounted.updateJobs (h : db.Accounted) (ho : ∀ j, (f j).original = j.original)
    (hd : ∀ j ∈ db.jobs, p j = true → (f j).status = .dispatching → j.status = .dispatching) :
    ({ db with jobs := db.jobs.updateWhere p f hf } : Db).Accounted := by
  have hrows : (db.jobs.updateWhere p f hf).rows.map DispatchJob.original =
      db.jobs.rows.map DispatchJob.original := Table.map_key_updateWhere _ _ fun j _ => ho j
  have hs : SameOriginals db { db with jobs := db.jobs.updateWhere p f hf } := ⟨rfl, rfl, hrows⟩
  exact ⟨hs.constrained h.constrained h.constrained.balance h.constrained.balance_user,
    h.user_balance, h.reserved, h.sameOriginals_message_job hs,
    h.in_flight.updateJobs ho fun j hj hp m hr hst => hr (hd j hj hp hst)⟩

end UpdateJobs

/-! ## The worker -/

/-- The payment status a worker's operation leaves a reserved message in. -/
def BalanceOp.payment : Option BalanceOp → PaymentStatus
  | none => .reserved
  | some .settle => .deducted
  | some .release => .refunded

/-- A worker's write of a message and its job. -/
structure Moved (op : Option BalanceOp) (message message' : Message) (job job' : DispatchJob) :
    Prop where
  message_original : message'.original = message.original
  job_original : job'.original = job.original
  payment : message'.paymentStatus = BalanceOp.payment op
  agree : StatusAgree job' message'

namespace DispatchUseCase

variable {cfg : DispatchConfig} {now : Time} {job job' : DispatchJob} {message message' : Message}

theorem Claimed.moved {w : OwnerId} {claim : Claim} {op : Option BalanceOp}
    (h : Claimed cfg w now job message claim op message' job')
    (hr : message.paymentStatus = .reserved) : Moved op message message' job job' := by
  cases h with
  | expired =>
    exact ⟨rfl, rfl, rfl, by constructor <;>
      simp [MessageRepository.markPermanentFailure, DispatchJobRepository.markFailed,
        DispatchJobStatus.terminal]⟩
  | delivery =>
    exact ⟨rfl, rfl, hr, by constructor <;>
      simp [MessageRepository.markDispatching, DispatchJobRepository.markDispatching, hr]⟩

theorem Outcome.moved {result : ProviderResult} {jitter : Jitter} {r : Recorded}
    (h : Outcome cfg result jitter now job message r message' job') :
    Moved r.balanceOp message message' job job' := by
  cases h with
  | succeeded =>
    exact ⟨rfl, rfl, rfl, by constructor <;>
      simp [MessageRepository.markSent, DispatchJobRepository.markCompleted,
        DispatchJobStatus.terminal]⟩
  | providerTemporaryFailure =>
    exact ⟨rfl, rfl, rfl, by constructor <;>
      simp [MessageRepository.markRetryableFailure, DispatchJobRepository.markDeliveryRetry]⟩
  | _ =>
    exact ⟨rfl, rfl, rfl, by constructor <;>
      simp [MessageRepository.markPermanentFailure, DispatchJobRepository.markFailed,
        DispatchJobStatus.terminal]⟩

end DispatchUseCase

namespace DeliveryWrite

variable {db db' : Db} {op : Option BalanceOp} {job job' : DispatchJob} {message message' : Message}

theorem sameOriginals (hw : DeliveryWrite db op message' job' db') (hj : job ∈ db.jobs)
    (hm : message ∈ db.messages) (hmv : Moved op message message' job job') :
    SameOriginals db db' := by
  refine ⟨hw.users, ?_, ?_⟩
  · rw [hw.messages]
    exact Table.map_put _ hm (Message.id_eq hmv.message_original).symm hmv.message_original.symm
  · rw [hw.jobs]
    exact Table.map_put _ hj (DispatchJob.id_eq hmv.job_original).symm hmv.job_original.symm

/-- A balance after a worker's write is one of before, with the operation applied if it is
the balance of the message's user. -/
theorem balance_cases (hw : DeliveryWrite db op message' job' db') {b : Balance}
    (hb : b ∈ db'.balances) :
    (b ∈ db.balances ∧ (op = none ∨ b.userId ≠ message'.userId)) ∨
      ∃ o b₀, op = some o ∧ b₀ ∈ db.balances ∧ b₀.userId = message'.userId ∧
        b = o.apply message'.cost b₀ ∧ b.Constrained := by
  have hbal := hw.balances
  generalize db'.balances = balances at hbal hb
  cases hbal with
  | none => exact Or.inl ⟨hb, Or.inl rfl⟩
  | some o b₀ _ hf hcon =>
    obtain ⟨hb₀, hu⟩ := Table.find?_eq_some.1 hf
    rcases Table.mem_put.1 hb with ⟨hb, hne⟩ | ⟨rfl, -⟩
    · exact Or.inl ⟨hb, Or.inr (by rwa [BalanceOp.apply_userId, hu] at hne)⟩
    · exact Or.inr ⟨o, b₀, rfl, hb₀, hu, rfl, hcon⟩

/-- Every balance that was there has one after the write. -/
theorem balance_user (hw : DeliveryWrite db op message' job' db') {b : Balance}
    (hb : b ∈ db.balances) : ∃ b' ∈ db'.balances, b'.userId = b.userId := by
  have hbal := hw.balances
  generalize db'.balances = balances at hbal ⊢
  cases hbal with
  | none => exact ⟨b, hb, rfl⟩
  | some => exact Table.exists_mem_put hb _

end DeliveryWrite

theorem heldCost_reserved {u : UserId} {m : Message} (h : m.paymentStatus = .reserved) :
    heldCost u m = if m.userId = u then m.cost else 0 := by
  simp [heldCost, h]

theorem heldCost_paid {u : UserId} {m : Message} (h : m.paymentStatus ≠ .reserved) :
    heldCost u m = 0 := by
  simp [heldCost, h]

section DeliveryWrite

variable {db db' : Db} {op : Option BalanceOp} {job job' : DispatchJob} {message message' : Message}

/-- A relation between jobs and messages after a worker's write. -/
theorem Db.ForLinked.deliveryWrite {R : DispatchJob → Message → Prop} (h : db.ForLinked R)
    (hdb : db.Constrained) (hj : job ∈ db.jobs) (hjm : job.messageId = message.id)
    (hmv : Moved op message message' job job') (hw : DeliveryWrite db op message' job' db')
    (hR : R job' message') : db'.ForLinked R := by
  intro j hj' m hm' hi
  rw [hw.jobs] at hj'
  rw [hw.messages] at hm'
  have hid := DispatchJob.messageId_eq hmv.job_original
  have hid' := Message.id_eq hmv.message_original
  rcases Table.mem_put.1 hj' with ⟨hj', hjne⟩ | ⟨rfl, -⟩
  · rcases Table.mem_put.1 hm' with ⟨hm', -⟩ | ⟨rfl, -⟩
    · exact h j hj' m hm' hi
    · have he : j = job := hdb.job_unique j hj' job hj (by rw [hi, hid', hjm])
      exact absurd (by rw [he, DispatchJob.id_eq hmv.job_original]) hjne
  · rcases Table.mem_put.1 hm' with ⟨-, hmne⟩ | ⟨rfl, -⟩
    · exact absurd (by rw [← hi, hid, hjm, hid']) hmne
    · exact hR

/-- What a worker's write takes off a user's reservation. -/
theorem reservedCost_deliveryWrite (hm : message ∈ db.messages)
    (hr : message.paymentStatus = .reserved) (hmv : Moved op message message' job job')
    (hw : DeliveryWrite db op message' job' db') (u : UserId) :
    db'.reservedCost u =
      db.reservedCost u - if op.isSome ∧ message'.userId = u then message'.cost else 0 := by
  have hsum := Table.sum_put (heldCost u) hm (Message.id_eq hmv.message_original).symm
  rw [← hw.messages, ← Db.reservedCost_eq, ← Db.reservedCost_eq, heldCost_reserved hr,
    ← Message.userId_eq hmv.message_original, ← Message.cost_eq hmv.message_original] at hsum
  have hpay := hmv.payment
  cases op with
  | none =>
    rw [heldCost_reserved hpay] at hsum
    simpa using hsum
  | some o =>
    rw [heldCost_paid (by rw [hpay]; cases o <;> simp [BalanceOp.payment]), add_zero] at hsum
    simp [← hsum]

/-- A worker's write of an open message and its job. -/
theorem Db.Accounted.deliveryWrite (h : db.Accounted) (hj : job ∈ db.jobs)
    (hm : message ∈ db.messages) (hjm : job.messageId = message.id)
    (hr : message.paymentStatus = .reserved) (hmv : Moved op message message' job job')
    (hw : DeliveryWrite db op message' job' db') : db'.Accounted := by
  have hs := hw.sameOriginals hj hm hmv
  have hres := reservedCost_deliveryWrite hm hr hmv hw
  refine ⟨hs.constrained h.constrained ?_ ?_, ?_, ?_, h.sameOriginals_message_job hs,
    h.in_flight.deliveryWrite h.constrained hj hjm hmv hw ?_⟩
  · intro b hb
    rcases hw.balance_cases hb with ⟨hb, -⟩ | ⟨_, _, -, -, -, -, hcon⟩
    · exact h.constrained.balance b hb
    · exact hcon
  · intro b hb
    rcases hw.balance_cases hb with ⟨hb, -⟩ | ⟨_, b₀, -, hb₀, -, rfl, -⟩
    · exact h.constrained.balance_user b hb
    · rw [BalanceOp.apply_userId]
      exact h.constrained.balance_user b₀ hb₀
  · intro u hu
    rw [hw.users] at hu
    obtain ⟨b, hb, hbu⟩ := h.user_balance u hu
    obtain ⟨b', hb', hk⟩ := hw.balance_user hb
    exact ⟨b', hb', hk.trans hbu⟩
  · intro b hb
    rw [hres]
    rcases hw.balance_cases hb with ⟨hb, hne⟩ | ⟨o, b₀, rfl, hb₀, hu, rfl, -⟩
    · rw [if_neg, sub_zero, h.reserved b hb]
      rintro ⟨hsome, hu⟩
      rcases hne with rfl | hne
      · cases hsome
      · exact hne hu.symm
    · rw [BalanceOp.apply_reservedCredits, BalanceOp.apply_userId, h.reserved b₀ hb₀, if_pos]
      exact ⟨rfl, hu.symm⟩
  · exact fun hst => hmv.agree.reserved (by rw [hst]; rfl)

end DeliveryWrite

/-! ## The API -/

/-- A relation between jobs and messages of tables that stay. -/
theorem Db.ForLinked.of_same {db db' : Db} {R : DispatchJob → Message → Prop} (h : db.ForLinked R)
    (hm : db'.messages = db.messages) (hj : db'.jobs = db.jobs) : db'.ForLinked R := by
  unfold Db.ForLinked
  rw [hm, hj]
  exact h

section Balances

variable {db db' : Db}

/-- A new user changes neither messages nor jobs. -/
theorem UserUseCase.createUser_same {id : UserId} {name : String}
    (hc : UserUseCase.createUser id name db = .ok db') :
    db'.messages = db.messages ∧ db'.jobs = db.jobs := by
  simp only [UserUseCase.createUser, Db.insertUser] at hc
  split_ifs at hc
  split at hc
  · cases hc
  · split at hc <;> cases hc
    exact ⟨rfl, rfl⟩

/-- A new user with an empty balance. -/
theorem Db.Accounted.createUser {id : UserId} {name : String} (h : db.Accounted)
    (hc : UserUseCase.createUser id name db = .ok db') : db'.Accounted := by
  simp only [UserUseCase.createUser, Db.insertUser] at hc
  split_ifs at hc
  split at hc
  · cases hc
  · rename_i users hu
    split at hc
    · cases hc
    · rename_i balances hb
      cases hc
      have husers : ∀ u ∈ db.users, u ∈ users := fun u hu' => (Table.mem_insert hu).2 (Or.inl hu')
      have hcon := h.constrained
      refine ⟨⟨?_, ?_, hcon.message_cost, ?_, hcon.message_key, hcon.job_message, ?_,
        hcon.job_unique⟩, ?_, ?_, h.message_job, h.in_flight⟩
      · intro b hb'
        rcases (Table.mem_insert hb).1 hb' with hb' | rfl
        · exact hcon.balance b hb'
        · exact ⟨le_rfl, le_rfl, rfl⟩
      · intro b hb'
        rcases (Table.mem_insert hb).1 hb' with hb' | rfl
        · obtain ⟨u, hu', hi⟩ := hcon.balance_user b hb'
          exact ⟨u, husers u hu', hi⟩
        · exact ⟨_, (Table.mem_insert hu).2 (Or.inr rfl), rfl⟩
      · intro m hm
        obtain ⟨u, hu', hi⟩ := hcon.message_user m hm
        exact ⟨u, husers u hu', hi⟩
      · intro j hj
        obtain ⟨u, hu', hi⟩ := hcon.job_user j hj
        exact ⟨u, husers u hu', hi⟩
      · intro u hu'
        rcases (Table.mem_insert hu).1 hu' with hu' | rfl
        · obtain ⟨b, hb', hi⟩ := h.user_balance u hu'
          exact ⟨b, (Table.mem_insert hb).2 (Or.inl hb'), hi⟩
        · exact ⟨_, (Table.mem_insert hb).2 (Or.inr rfl), rfl⟩
      · intro b hb'
        rcases (Table.mem_insert hb).1 hb' with hb' | rfl
        · exact h.reserved b hb'
        · -- no message is of a user whose id is new
          rw [Db.reservedCost_eq]
          refine (List.sum_eq_zero fun c hc => ?_).symm
          obtain ⟨m, hm, rfl⟩ := List.mem_map.1 hc
          obtain ⟨u, hu', hi⟩ := hcon.message_user m hm
          have hne : m.userId ≠ id := hi ▸ Table.key_ne_of_insert hu hu'
          simp [heldCost, hne]

/-- A top-up changes the credits of one balance. -/
theorem BalanceUseCase.topupUserCredits_ok {userId : UserId} {amount : ℚ}
    (hc : BalanceUseCase.topupUserCredits userId amount db = .ok db') :
    ∃ b credits, db.balances.find? userId = some b ∧ ({ b with credits } : Balance).Constrained ∧
      db' = { db with balances := db.balances.put { b with credits } } := by
  simp only [BalanceUseCase.topupUserCredits, bind_eq_ok, BalanceRepository.topupUserCredits_ok,
    Db.writeBalance_ok] at hc
  obtain ⟨_, ⟨-, b, hf, rfl⟩, hcon, rfl⟩ := hc
  exact ⟨b, _, hf, hcon, rfl⟩

/-- A write of one balance that keeps the reservation of its user. -/
theorem Db.Accounted.putBalance (h : db.Accounted) {b b' : Balance}
    (hb : b ∈ db.balances) (hk : b'.userId = b.userId) (hcon : b'.Constrained)
    (hres : b'.reservedCredits = db.reservedCost b'.userId) :
    ({ db with balances := db.balances.put b' } : Db).Accounted := by
  refine ⟨⟨Table.forall_mem_put h.constrained.balance hcon, ?_, h.constrained.message_cost,
    h.constrained.message_user, h.constrained.message_key, h.constrained.job_message,
    h.constrained.job_user, h.constrained.job_unique⟩, ?_, ?_, h.message_job, h.in_flight⟩
  · refine Table.forall_mem_put h.constrained.balance_user ?_
    rw [hk]
    exact h.constrained.balance_user b hb
  · intro u hu
    obtain ⟨x, hx, hi⟩ := h.user_balance u hu
    obtain ⟨y, hy, hy'⟩ := Table.exists_mem_put hx _
    exact ⟨y, hy, hy'.trans hi⟩
  · exact Table.forall_mem_put h.reserved hres

theorem Db.Accounted.topupUserCredits {userId : UserId} {amount : ℚ} (h : db.Accounted)
    (hc : BalanceUseCase.topupUserCredits userId amount db = .ok db') : db'.Accounted := by
  obtain ⟨b, credits, hf, hcon, rfl⟩ := BalanceUseCase.topupUserCredits_ok hc
  obtain ⟨hb, -⟩ := Table.find?_eq_some.1 hf
  exact h.putBalance hb rfl hcon (h.reserved b hb)

end Balances

namespace MessageUseCase

variable {s : Settings} {userId : UserId} {subs : List Submission} {db db' : Db}

theorem newJob_agree (sub : Submission) : StatusAgree (newJob s sub)
    (newMessage s sub) := by
  constructor <;> simp [newJob, newMessage, DispatchJobRepository.create,
    MessageRepository.createMessage]

theorem newJob_linked (sub : Submission) :
    Linked (newJob s sub) (newMessage s sub) :=
  ⟨rfl, rfl, rfl⟩

namespace Accepted

theorem mem_messages (h : Accepted s userId subs db db') {m : Message} :
    m ∈ db'.messages ↔ m ∈ db.messages ∨ ∃ sub ∈ subs, newMessage s sub = m := by
  rw [Table.mem_def, h.messages, List.mem_append, List.mem_map, Table.mem_def]

theorem mem_jobs (h : Accepted s userId subs db db') {j : DispatchJob} :
    j ∈ db'.jobs ↔ j ∈ db.jobs ∨ ∃ sub ∈ subs, newJob s sub = j := by
  rw [Table.mem_def, h.jobs, List.mem_append, List.mem_map, Table.mem_def]

/-- A submission raises the reservation of its user by what its requests cost. -/
theorem reservedCost (h : Accepted s userId subs db db')
    (hu : ∀ sub ∈ subs, sub.request.userId = userId) (u : UserId) :
    db'.reservedCost u =
      db.reservedCost u + if userId = u then (subs.map (submissionCost s)).sum else 0 := by
  rw [Db.reservedCost_eq, Db.reservedCost_eq, h.messages, List.map_append, List.sum_append,
    List.map_map]
  congr 1
  have hmap : subs.map (heldCost u ∘ newMessage s) =
      subs.map fun sub => if userId = u then submissionCost s sub else 0 := by
    refine List.map_congr_left fun sub hsub => ?_
    rw [← hu sub hsub]
    exact heldCost_reserved rfl
  rw [hmap]
  split_ifs with h
  · rfl
  · simp

theorem constrained (h : Accepted s userId subs db db') (hdb : db.Constrained) :
    db'.Constrained := by
  obtain ⟨b, hf, hcon, hbal⟩ := h.balance
  obtain ⟨hb, -⟩ := Table.find?_eq_some.1 hf
  refine ⟨?_, ?_, ?_, ?_, ?_, ?_, ?_, ?_⟩
  · rw [hbal]
    exact Table.forall_mem_put hdb.balance hcon
  · rw [hbal, h.users]
    exact Table.forall_mem_put hdb.balance_user (hdb.balance_user b hb)
  · intro m hm
    rcases h.mem_messages.1 hm with hm | ⟨sub, hsub, rfl⟩
    · exact hdb.message_cost m hm
    · exact h.messages_new.cost _ (List.mem_map_of_mem hsub)
  · intro m hm
    rw [h.users]
    rcases h.mem_messages.1 hm with hm | ⟨sub, hsub, rfl⟩
    · exact hdb.message_user m hm
    · exact h.messages_new.user _ (List.mem_map_of_mem hsub)
  · intro m hm m' hm' hu hk
    have hnew := h.messages_new.key
    rcases h.mem_messages.1 hm with hm | ⟨sub, hsub, rfl⟩ <;>
      rcases h.mem_messages.1 hm' with hm' | ⟨sub', hsub', rfl⟩
    · exact hdb.message_key m hm m' hm' hu hk
    · exact absurd ⟨hu, hk⟩ (hnew _ (List.mem_map_of_mem hsub') m hm)
    · exact absurd ⟨hu.symm, hk.symm⟩ (hnew _ (List.mem_map_of_mem hsub) m' hm')
    · exact h.messages_new.eq_of_key (List.mem_map_of_mem hsub) (List.mem_map_of_mem hsub') hu hk
  · intro j hj
    rcases h.mem_jobs.1 hj with hj | ⟨sub, hsub, rfl⟩
    · obtain ⟨m, hm, hi⟩ := hdb.job_message j hj
      exact ⟨m, h.mem_messages.2 (Or.inl hm), hi⟩
    · exact ⟨_, h.mem_messages.2 (Or.inr ⟨sub, hsub, rfl⟩), rfl⟩
  · intro j hj
    rw [h.users]
    rcases h.mem_jobs.1 hj with hj | ⟨sub, hsub, rfl⟩
    · exact hdb.job_user j hj
    · exact h.messages_new.user _ (List.mem_map_of_mem hsub)
  · intro j hj j' hj' hi
    have hnew := h.jobs_new.message
    rcases h.mem_jobs.1 hj with hj | ⟨sub, hsub, rfl⟩ <;>
      rcases h.mem_jobs.1 hj' with hj' | ⟨sub', hsub', rfl⟩
    · exact hdb.job_unique j hj j' hj' hi
    · exact absurd hi (hnew _ (List.mem_map_of_mem hsub') j hj)
    · exact absurd hi.symm (hnew _ (List.mem_map_of_mem hsub) j' hj')
    · exact h.jobs_new.eq_of_messageId (List.mem_map_of_mem hsub) (List.mem_map_of_mem hsub') hi

/-- A relation between jobs and messages after a submission. -/
theorem forLinked (h : Accepted s userId subs db db') (hdb : db.Constrained)
    {R : DispatchJob → Message → Prop} (hold : db.ForLinked R)
    (hnew : ∀ sub ∈ subs, R (newJob s sub) (newMessage s sub)) : db'.ForLinked R := by
  intro j hj m hm hi
  -- the message of a job is the row with its id, so both rows are old or both are new
  rcases h.mem_jobs.1 hj with hj | ⟨sub, hsub, rfl⟩
  · obtain ⟨x, hx, hxi⟩ := hdb.job_message j hj
    obtain rfl : x = m := Table.eq_of_key_eq (h.mem_messages.2 (Or.inl hx)) hm (hxi.trans hi)
    exact hold j hj x hx hi
  · obtain rfl : newMessage s sub = m :=
      Table.eq_of_key_eq (h.mem_messages.2 (Or.inr ⟨sub, hsub, rfl⟩)) hm hi
    exact hnew sub hsub

theorem accounted (h : Accepted s userId subs db db') (hdb : db.Accounted)
    (hu : ∀ sub ∈ subs, sub.request.userId = userId) : db'.Accounted := by
  obtain ⟨b, hf, hcon, hbal⟩ := h.balance
  obtain ⟨hb, hbu⟩ := Table.find?_eq_some.1 hf
  have hres := h.reservedCost hu
  refine ⟨h.constrained hdb.constrained, ?_, ?_, ?_,
    h.forLinked hdb.constrained hdb.in_flight fun _ _ _ => rfl⟩
  · rw [h.users, hbal]
    intro u hu
    obtain ⟨x, hx, hi⟩ := hdb.user_balance u hu
    obtain ⟨y, hy, hk⟩ := Table.exists_mem_put hx _
    exact ⟨y, hy, hk.trans hi⟩
  · rw [hbal]
    intro x hx
    rw [hres]
    rcases Table.mem_put.1 hx with ⟨hx, hne⟩ | ⟨rfl, -⟩
    · rw [if_neg (by rw [← hbu]; exact Ne.symm hne), add_zero, hdb.reserved x hx]
    · rw [Balance.raised_userId, if_pos hbu.symm, Balance.raised_reservedCredits, hdb.reserved b hb]
  · intro m hm
    rcases h.mem_messages.1 hm with hm | ⟨sub, hsub, rfl⟩
    · obtain ⟨j, hj, hl⟩ := hdb.message_job m hm
      exact ⟨j, h.mem_jobs.2 (Or.inl hj), hl⟩
    · exact ⟨_, h.mem_jobs.2 (Or.inr ⟨sub, hsub, rfl⟩), newJob_linked sub⟩

end Accepted

end MessageUseCase

/-! ## Changes -/

/-- What a transaction of the API can do to the state. -/
inductive ApiChange (s : Settings) (db : Db) : Db → Prop
  | same : ApiChange s db db
  | user {id : UserId} {name : String} {db' : Db}
      (created : UserUseCase.createUser id name db = .ok db') : ApiChange s db db'
  | topup {userId : UserId} {amount : ℚ} {db' : Db}
      (done : BalanceUseCase.topupUserCredits userId amount db = .ok db') : ApiChange s db db'
  | submission {userId : UserId} {subs : List Submission} {db' : Db}
      (user : ∀ sub ∈ subs, sub.request.userId = userId)
      (accepted : MessageUseCase.Accepted s userId subs db db') : ApiChange s db db'

/-- What one transaction can do to the state. -/
inductive Change (s : Settings) (db : Db) : Db → Prop
  | same : Change s db db
  | api {db' : Db} (change : ApiChange s db db') : Change s db db'
  | jobs {p : DispatchJob → Bool} {f : DispatchJob → DispatchJob}
      (id : ∀ j, p j = true → (f j).id = j.id) (original : ∀ j, (f j).original = j.original)
      (isOpen : ∀ j ∈ db.jobs, p j = true → j.status.terminal = false)
      (stays : ∀ j, (f j).status = j.status ∨ (f j).status = .published ∨ (f j).status = .retry) :
      Change s db { db with jobs := db.jobs.updateWhere p f id }
  | delivery {op : Option BalanceOp} {job job' : DispatchJob} {message message' : Message}
      {db' : Db} (job_mem : job ∈ db.jobs) (message_mem : message ∈ db.messages)
      (link : job.messageId = message.id)
      (reserved : message.paymentStatus = .reserved ∨ job.status = .dispatching)
      (moved : Moved op message message' job job')
      (write : DeliveryWrite db op message' job' db') : Change s db db'

section Change

open DispatchJobRepository

variable {s : Settings} {now : Time} {db : Db}

theorem ApiTxn.change (t : ApiTxn) : ApiChange s db (t.apply s now db) := by
  cases t with
  | createUser id name =>
    refine Db.commit_of .same fun db' _ hc => ?_
    cases hu : UserUseCase.createUser id name db with
    | error e => simp [hu, Except.map] at hc
    | ok db₁ =>
      simp only [hu, Except.map, Except.ok.injEq, Prod.mk.injEq] at hc
      exact hc.1 ▸ .user hu
  | topupUserCredits userId amount =>
    refine Db.commit_of .same fun db' _ hc => ?_
    cases hu : BalanceUseCase.topupUserCredits userId amount db with
    | error e => simp [hu, Except.map] at hc
    | ok db₁ =>
      simp only [hu, Except.map, Except.ok.injEq, Prod.mk.injEq] at hc
      exact hc.1 ▸ .topup hu
  | createMessage payload ids =>
    simp only [ApiTxn.apply, MessageUseCase.createMessage]
    split
    · rename_i hc
      exact .submission (by simp) (MessageUseCase.createMessageTx_ok.1 hc).2
    · exact .same
  | batchCreateMessage payload ids =>
    simp only [ApiTxn.apply, MessageUseCase.batchCreateMessage]
    split
    · exact .same
    · split
      · rename_i hc
        refine .submission (fun sub hsub => ?_) (MessageUseCase.batchCreateMessageTx_ok.1 hc).2
        obtain ⟨⟨item, i⟩, -, rfl⟩ := List.mem_map.1 hsub
        rfl
      · exact .same

theorem markPublished_change (ids : List UUID) (relayId : OwnerId) :
    Change s db (markPublished ids relayId now db) := by
  unfold markPublished
  split_ifs
  · exact .same
  · exact .jobs _ (fun _ => rfl)
      (fun j _ hp => not_terminal_of_publishable (publishable_of_heldBy hp))
      fun _ => Or.inr (Or.inl rfl)

theorem markPublishRetry_change (ids : List UUID) (relayId : OwnerId) (error : String)
    (delay : Time) : Change s db (markPublishRetry ids relayId error delay now db) := by
  unfold markPublishRetry
  split_ifs
  · exact .same
  · exact .jobs _ (fun _ => rfl)
      (fun j _ hp => not_terminal_of_publishable (publishable_of_heldBy hp))
      fun _ => Or.inr (Or.inr rfl)

theorem WorkerTxn.change (t : WorkerTxn) : Change s db (t.apply s now db) := by
  cases t with
  | claimForDelivery jobId workerId =>
    refine Db.commit_of .same fun db' claim hc => ?_
    rcases DispatchUseCase.claimForDelivery_ok hc with
      ⟨-, rfl⟩ | ⟨job, message, op, message', job', hcl, hw, hd⟩
    · exact .same
    · obtain ⟨hj, -⟩ := Table.find?_eq_some.1 hcl.job_found
      obtain ⟨hm, hi⟩ := Table.find?_eq_some.1 hcl.message_found
      exact .delivery hj hm hi.symm (Or.inl hcl.reserved) (hw.moved hcl.reserved) hd
  | recordOutcome jobId workerId result jitter =>
    refine Db.commit_of .same fun db' recorded hc => ?_
    rcases DispatchUseCase.recordOutcome_ok hc with
      ⟨-, rfl⟩ | ⟨job, message, r, message', job', -, hh, ho, hd⟩
    · exact .same
    · obtain ⟨hj, -⟩ := Table.find?_eq_some.1 hh.job_found
      obtain ⟨hm, hi⟩ := Table.find?_eq_some.1 hh.message_found
      exact .delivery hj hm hi.symm (Or.inr hh.dispatching) ho.moved hd

/-- What every change preserves every transaction preserves. -/
theorem Txn.preserves {P : Db → Prop} (hP : ∀ db db', Change s db db' → P db → P db')
    (t : Txn) (h : P db) : P (t.apply s now db) := by
  cases t with
  | api t => exact hP _ _ (.api t.change) h
  | worker t => exact hP _ _ t.change h
  | relay t =>
    cases t with
    | reclaimStaleInflight p scan =>
      refine hP _ _ (.jobs _ (fun _ => rfl) (fun j hj hp => ?_) fun _ => Or.inr (Or.inr rfl)) h
      exact not_terminal_of_stale (stale_of_reclaimed hj (of_decide_eq_true hp)).2
    | claimJobs p relayId scans =>
      refine hP _ _ (.jobs _ (fun _ => rfl) (fun j hj hp => ?_) fun _ => Or.inl rfl) h
      have he := eligible_of_claimed hj (of_decide_eq_true hp)
      exact not_terminal_of_publishable (eligible_iff.1 he).2.1
    | recordPublications relayId published failed error jitter =>
      have hpub : P (markPublished published relayId now db) :=
        hP _ _ (markPublished_change published relayId) h
      simp only [Txn.apply, RelayTxn.apply, Relay.recordPublications]
      split_ifs
      · exact hpub
      · exact hP _ _ (markPublishRetry_change _ _ _ _) hpub

theorem Db.Accounted.api {db' : Db} (h : db.Accounted) (hc : ApiChange s db db') :
    db'.Accounted := by
  cases hc with
  | same => exact h
  | user created => exact h.createUser created
  | topup done => exact h.topupUserCredits done
  | submission user accepted => exact accepted.accounted h user

/-- Every change accounts for the money. -/
theorem Db.Accounted.change {db' : Db} (h : db.Accounted) (hc : Change s db db') :
    db'.Accounted := by
  cases hc with
  | same => exact h
  | api change => exact h.api change
  | jobs id original isOpen stays =>
    refine h.updateJobs original fun j _ _ hst => ?_
    rcases stays j with he | he | he <;> rw [he] at hst <;> first | exact hst | cases hst
  | delivery job_mem message_mem link reserved moved write =>
    have hr := reserved.elim id (h.in_flight _ job_mem _ message_mem link)
    exact h.deliveryWrite job_mem message_mem link hr moved write

/-- Every change keeps jobs, messages and payments in agreement, for jobs of a kind `q` that
no update makes of others. -/
theorem Db.Accounted.agree_change {db' : Db} {q : DispatchJob → Prop} (h : db.Accounted)
    (hq : ∀ j j' : DispatchJob, j'.original = j.original → q j' → q j)
    (ha : db.ForLinked fun j m => q j → StatusAgree j m) (hc : Change s db db') :
    db'.ForLinked fun j m => q j → StatusAgree j m := by
  cases hc with
  | same => exact ha
  | api change =>
    cases change with
    | same => exact ha
    | user created =>
      obtain ⟨hm, hj⟩ := UserUseCase.createUser_same created
      exact ha.of_same hm hj
    | topup done =>
      obtain ⟨b, credits, -, -, rfl⟩ := BalanceUseCase.topupUserCredits_ok done
      exact ha.of_same rfl rfl
    | submission user accepted =>
      exact accepted.forLinked h.constrained ha fun sub _ _ => MessageUseCase.newJob_agree sub
  | jobs id original isOpen stays =>
    refine ha.updateJobs original fun j hj hp m hm hqj => ?_
    refine (hm (hq _ _ (original j) hqj)).of_open (isOpen j hj hp) ?_
    rcases stays j with he | he | he <;> rw [he] <;> first | exact isOpen j hj hp | rfl
  | delivery job_mem message_mem link reserved moved write =>
    exact ha.deliveryWrite h.constrained job_mem link moved write fun _ => moved.agree

theorem Db.Consistent.change {db' : Db} (h : db.Consistent) (hc : Change s db db') :
    db'.Consistent where
  toAccounted := h.toAccounted.change hc
  agree j hj m hm hi :=
    h.toAccounted.agree_change (q := fun _ => True) (fun _ _ _ => id)
      (fun j hj m hm hi _ => h.agree j hj m hm hi) hc j hj m hm hi trivial

end Change

/-! ## Runs -/

/-- Every transaction preserves the invariant. -/
theorem Db.Consistent.step {s : Settings} {db : Db} (h : db.Consistent) (t : Time × Txn) :
    (Db.step s db t).Consistent :=
  t.2.preserves (P := Db.Consistent) (fun _ _ hc h => h.change hc) h

/-- The invariant holds after every run from the empty database. -/
theorem run_consistent (s : Settings) (txns : List (Time × Txn)) :
    (run (Db.step s) Db.empty txns).Consistent :=
  run_induction (P := Db.Consistent) (fun _ t h => h.step t) txns Db.consistent_empty

/-- What the tables promise their readers. -/
structure Db.Sound (db : Db) : Prop where
  /-- A user's reservation is covered by the credits and made up of the open messages. -/
  balance : ∀ u ∈ db.users, ∃ b, db.balances.find? u.id = some b ∧
    0 ≤ b.reservedCredits ∧ b.reservedCredits ≤ b.credits ∧
      b.reservedCredits = db.reservedCost u.id
  /-- A message has exactly one job, of its user and priority, which agrees with it. -/
  job : ∀ m ∈ db.messages, ∃ j ∈ db.jobs, Linked j m ∧ StatusAgree j m ∧
    ∀ j' ∈ db.jobs, j'.messageId = m.id → j' = j
  /-- A job is the job of a message. -/
  message : ∀ j ∈ db.jobs, ∃ m ∈ db.messages, Linked j m ∧ StatusAgree j m

/-- Every reachable state keeps what the tables promise. -/
theorem reachable_sound (s : Settings) (txns : List (Time × Txn)) :
    (run (Db.step s) Db.empty txns).Sound := by
  have h := run_consistent s txns
  refine ⟨fun u hu => ?_, fun m hm => ?_, fun j hj => ?_⟩
  · obtain ⟨b, hb, hi⟩ := h.user_balance u hu
    have hcon := h.constrained.balance b hb
    exact ⟨b, hi ▸ Table.find?_key hb, hcon.reserved_nonneg, hcon.credits_ge_reserved,
      hi ▸ h.reserved b hb⟩
  · obtain ⟨j, hj, hl⟩ := h.message_job m hm
    exact ⟨j, hj, hl, h.agree j hj m hm hl.messageId, fun j' hj' hi =>
      h.constrained.job_unique j' hj' j hj (hi.trans hl.messageId.symm)⟩
  · obtain ⟨m, hm, hl⟩ := h.message_of_job hj
    exact ⟨m, hm, hl, h.agree j hj m hm hl.messageId⟩

end Abrio
