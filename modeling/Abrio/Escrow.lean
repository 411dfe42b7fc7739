import Abrio.Ledger
import Abrio.Library.Escrow

/-!
# The payments are an escrow

What the payments are for, in the terms of `Escrow` : a user's credits are the funds of an
account, and a message is a hold on them, captured when its payment is deducted and voided when
it is refunded. `Db.book` reads a state so. Every step of the system, with the reaper's statement
interleaved, is one step of the escrow or none (`step_simulated`), and the act says which
(`Interleaved.Performs`). So a run of the system is a run of the escrow (`run_refines_escrow`),
and what holds of every escrow holds of the tables.
-/

open Relational Runs Escrow

namespace Abrio

/-! ## The book of a state -/

/-- What a payment status is for a hold. -/
def PaymentStatus.escrow : PaymentStatus → Escrow.Status
  | .reserved => .held
  | .deducted => .captured
  | .refunded => .voided

/-- A message as a hold on its user's credits. -/
def Message.hold (m : Message) : Hold UUID UserId Cents :=
  ⟨m.id, m.userId, m.cost, m.paymentStatus.escrow⟩

/-- The book of the users, with a hold for each message. -/
abbrev PaymentBook := Book UUID UserId Cents

/-- What can happen to it. -/
abbrev PaymentAction := Action UUID UserId Cents

/-- The payments of a state. -/
def Db.book (db : Db) : PaymentBook where
  funds u := (db.balances.find? u).map Balance.credits
  holds :=
    { rows := db.messages.rows.map Message.hold
      nodup := by
        rw [List.map_map]
        exact db.messages.nodup }

section Book

variable {db db' : Db}

theorem book_congr (hb : ∀ u, db'.book.funds u = db.book.funds u)
    (hm : db'.messages = db.messages) : db'.book = db.book := by
  refine Book.ext (funext hb) (Table.ext ?_)
  simp [Db.book, hm]

theorem mem_holds {h : Hold UUID UserId Cents} :
    h ∈ db.book.holds ↔ ∃ m ∈ db.messages, m.hold = h :=
  List.mem_map

theorem escrow_eq_held {status : PaymentStatus} : status.escrow = .held ↔ status = .reserved := by
  cases status <;> simp [PaymentStatus.escrow]

theorem escrow_eq_captured {status : PaymentStatus} :
    status.escrow = .captured ↔ status = .deducted := by
  cases status <;> simp [PaymentStatus.escrow]

/-- What is held is what is reserved. -/
theorem total_held (db : Db) (u : UserId) : db.book.total .held u = db.reservedCost u := by
  rw [Book.total_eq, Db.reservedCost_eq, Db.book, List.map_map]
  refine congrArg List.sum (List.map_congr_left fun m _ => ?_)
  simp [Hold.share, Message.hold, heldCost, escrow_eq_held]

/-- What was captured is what was deducted. -/
theorem total_captured (db : Db) (u : UserId) : db.book.total .captured u = db.deductedCost u := by
  rw [Book.total_eq, Db.deductedCost_eq, Db.book, List.map_map]
  refine congrArg List.sum (List.map_congr_left fun m _ => ?_)
  simp [Hold.share, Message.hold, paidCost, escrow_eq_captured]

/-- Writing a message writes its hold. -/
theorem holds_put {message : Message} (hm : db'.messages = db.messages.put message) :
    db'.book.holds = db.book.holds.put message.hold := by
  refine Table.ext ?_
  simp only [Db.book, hm, Table.put, Table.updateWhere, List.map_map]
  refine List.map_congr_left fun m _ => ?_
  by_cases h : m.id = message.id <;> simp [h, Message.hold]

/-- Funds after a write of one balance. -/
theorem funds_put {b b' : Balance} (hb : b ∈ db.balances) (hk : b.userId = b'.userId)
    (hdb : db'.balances = db.balances.put b') :
    db'.book.funds = Function.update db.book.funds b'.userId (some b'.credits) := by
  funext u
  simp only [Db.book, hdb, Table.find?_put hb hk, Function.update_apply]
  by_cases h : b'.userId = u
  · simp [h]
  · simp [h, Ne.symm h]

theorem funds_of_find? {u : UserId} {b : Balance} (h : db.balances.find? u = some b) :
    db.book.funds u = some b.credits := by
  simp [Db.book, h]

end Book

/-! ## Steps -/

/-- The holds that submissions place. -/
def placements (s : Settings) (subs : List Submission) : List (UUID × Cents) :=
  subs.map fun sub => (sub.ids.messageId, MessageUseCase.submissionCost s sub)

/-- What a request does when it is accepted. -/
inductive ApiTxn.Performs (s : Settings) (db : Db) (now : Time) : ApiTxn → PaymentAction → Prop
  | createUser (id : UserId) (name : String) :
      Performs s db now (.createUser id name) (.openAccount id)
  | topupUserCredits (userId : UserId) (amount : ℚ) :
      Performs s db now (.topupUserCredits userId amount)
        (.deposit userId
          (numericColumn (decimalAdd (db.credits userId).toDecimal amount) - db.credits userId))
  | createMessage (payload : MessageRequest) (ids : Ids) :
      Performs s db now (.createMessage payload ids)
        (.place payload.userId (placements s [⟨payload, ids, now⟩]))
  | batchCreateMessage (payload : BatchMessageRequest) (ids : ℕ → Ids) :
      Performs s db now (.batchCreateMessage payload ids)
        (.place payload.userId (placements s (MessageUseCase.batchSubmissions payload ids now)))

section Steps

variable {s : Settings} {db db' : Db} {now : Time}

theorem createUser_simulated {id : UserId} {name : String}
    (hc : UserUseCase.createUser id name db = .ok db') :
    Step db.book (.openAccount id) db'.book := by
  simp only [UserUseCase.createUser, Db.insertUser] at hc
  split_ifs at hc
  split at hc
  · cases hc
  · rename_i users hu
    split at hc
    · cases hc
    · rename_i balances hb
      cases hc
      have hclosed : db.book.funds id = none := by
        rw [Db.book, Option.map_eq_none_iff, Table.find?_eq_none]
        exact fun b hb' => Table.key_ne_of_insert hb hb'
      have hbook : ({ db with users, balances } : Db).book =
          { db.book with funds := Function.update db.book.funds id (some 0) } := by
        refine Book.ext (funext fun u => ?_) rfl
        simp only [Db.book, Table.find?_insert hb, Function.update_apply]
        by_cases h : id = u
        · simp [h]
        · simp [h, Ne.symm h]
      rw [hbook]
      exact .opened hclosed

theorem topup_simulated (h : db.Accounted) {userId : UserId} {amount : ℚ}
    (hc : BalanceUseCase.topupUserCredits userId amount db = .ok db') :
    Step db.book
      (.deposit userId
        (numericColumn (decimalAdd (db.credits userId).toDecimal amount) - db.credits userId))
      db'.book := by
  obtain ⟨hpos, b, hf, hcon, rfl⟩ := topupUserCredits_iff.1 hc
  obtain ⟨hb, rfl⟩ := Table.find?_eq_some.1 hf
  rw [credits_of_find? hf]
  have hold := h.constrained.balance b hb
  have hcredits : (0 : Cents) ≤ b.credits := hold.reserved_nonneg.trans hold.credits_ge_reserved
  -- rounding does not take from the credits
  have hle : b.credits ≤ numericColumn (decimalAdd b.credits.toDecimal amount) :=
    Cents.le_numericColumn_decimalAdd hcredits hold.credits_fits hpos
  have hbook : ({ db with balances := db.balances.put (b.toppedUp amount) } : Db).book =
      { db.book with
        funds := Function.update db.book.funds b.userId (some (b.credits +
          (numericColumn (decimalAdd b.credits.toDecimal amount) - b.credits))) } := by
    refine Book.ext ?_ rfl
    rw [add_sub_cancel]
    exact funds_put hb (show b.userId = (b.toppedUp amount).userId from rfl) (by rfl)
  rw [hbook]
  exact .deposited (funds_of_find? hf) (sub_nonneg.2 hle)

theorem accepted_simulated (h : db.Accounted) {userId : UserId} {subs : List Submission}
    (user : ∀ sub ∈ subs, sub.request.userId = userId)
    (accepted : MessageUseCase.Accepted s userId subs db db') :
    Step db.book (.place userId (placements s subs)) db'.book := by
  obtain ⟨b, hf, hcon, hbal⟩ := accepted.balance
  obtain ⟨hb, rfl⟩ := Table.find?_eq_some.1 hf
  have hsum : ((placements s subs).map Prod.snd).sum =
      (subs.map (MessageUseCase.submissionCost s)).sum := by
    simp [placements, Function.comp_def]
  have hbook : db'.book = { db.book with holds := db'.book.holds } := by
    refine Book.ext ?_ rfl
    rw [funds_put hb (by rfl) hbal]
    exact Function.update_eq_self_iff.2 (funds_of_find? hf).symm
  rw [hbook]
  refine .placed (funds_of_find? hf) ?_ ?_ ?_
  · intro x hx
    obtain ⟨sub, hsub, rfl⟩ := List.mem_map.1 hx
    exact accepted.messages_new.cost _ (List.mem_map_of_mem hsub)
  · rw [total_held, hsum, ← h.reserved b hb]
    exact hcon.credits_ge_reserved
  · simp only [Db.book, accepted.messages, List.map_append, List.map_map, placements]
    congr 1
    refine List.map_congr_left fun sub hsub => ?_
    rw [← user sub hsub]
    rfl

/-- A transaction of the API leaves the book, or does what its request says. -/
theorem api_simulated (h : db.Accounted) (t : ApiTxn) :
    (t.apply s now db).book = db.book ∨
      ∃ action, t.Performs s db now action ∧ Step db.book action (t.apply s now db).book := by
  cases t with
  | createUser id name =>
    simp only [ApiTxn.apply]
    cases hc : UserUseCase.createUser id name db with
    | error e => exact Or.inl rfl
    | ok db' => exact Or.inr ⟨_, .createUser id name, createUser_simulated hc⟩
  | topupUserCredits userId amount =>
    simp only [ApiTxn.apply]
    cases hc : BalanceUseCase.topupUserCredits userId amount db with
    | error e => exact Or.inl rfl
    | ok db' => exact Or.inr ⟨_, .topupUserCredits userId amount, topup_simulated h hc⟩
  | createMessage payload ids =>
    simp only [ApiTxn.apply, MessageUseCase.createMessage]
    split
    · rename_i hc
      exact Or.inr ⟨_, .createMessage payload ids, accepted_simulated h (by simp)
        (MessageUseCase.createMessageTx_ok.1 hc).2⟩
    · exact Or.inl rfl
  | batchCreateMessage payload ids =>
    simp only [ApiTxn.apply, MessageUseCase.batchCreateMessage]
    split
    · exact Or.inl rfl
    · split
      · rename_i hc
        refine Or.inr ⟨_, .batchCreateMessage payload ids, accepted_simulated h (fun sub hsub => ?_)
          (MessageUseCase.batchCreateMessageTx_ok.1 hc).2⟩
        obtain ⟨⟨item, i⟩, -, rfl⟩ := List.mem_map.1 hsub
        rfl
      · exact Or.inl rfl

/-- What a balance operation is for the escrow. -/
def BalanceOp.escrow (messageId : UUID) : BalanceOp → PaymentAction
  | .settle => .capture messageId
  | .release => .void messageId

/-- The hold of a message that a worker writes. -/
theorem hold_of_moved {op : Option BalanceOp} {job job' : DispatchJob} {message message' : Message}
    (moved : Moved op message message' job job') :
    message'.hold = { message.hold with status := (BalanceOp.payment op).escrow } := by
  have ho := moved.message_original
  simp only [Message.hold, Message.id_eq ho, Message.userId_eq ho, Message.cost_eq ho,
    moved.payment]

/-- A worker's write decides the hold of its message when it makes a balance operation. -/
theorem delivery_simulated {op : Option BalanceOp} {job job' : DispatchJob}
    {message message' : Message} (message_mem : message ∈ db.messages)
    (reserved : message.paymentStatus = .reserved) (moved : Moved op message message' job job')
    (write : DeliveryWrite db op message' job' db') :
    op = none ∧ db'.book = db.book ∨
      ∃ o, op = some o ∧ Step db.book (o.escrow message.id) db'.book := by
  have hmem : message.hold ∈ db.book.holds := mem_holds.2 ⟨message, message_mem, rfl⟩
  have hheld : message.hold.status = .held := escrow_eq_held.2 reserved
  have hholds := holds_put write.messages
  rw [hold_of_moved moved] at hholds
  have hbal : (op = none ∧ db'.balances = db.balances) ∨ ∃ o b, op = some o ∧
      db.balances.find? message.userId = some b ∧
        db'.balances = db.balances.put (o.apply message.cost b) := by
    have hwritten := write.balances
    generalize db'.balances = balances at hwritten ⊢
    cases hwritten with
    | none => exact Or.inl ⟨rfl, rfl⟩
    | some o b cost_pos found constrained =>
      rw [Message.userId_eq moved.message_original] at found
      rw [Message.cost_eq moved.message_original]
      exact Or.inr ⟨o, b, rfl, found, rfl⟩
  rcases hbal with ⟨rfl, hbal⟩ | ⟨o, b, rfl, hf, hbal⟩
  · refine Or.inl ⟨rfl, Book.ext ?_ ?_⟩
    · simp [Db.book, hbal]
    · -- the message stays reserved, so its hold is written over itself
      rw [hholds, show (BalanceOp.payment none).escrow = message.hold.status from hheld.symm]
      exact Table.put_of_mem hmem
  · refine Or.inr ⟨o, rfl, ?_⟩
    obtain ⟨hb, hu⟩ := Table.find?_eq_some.1 hf
    have hfunds := funds_put hb (BalanceOp.apply_userId _ _ _).symm hbal
    rw [BalanceOp.apply_userId, hu] at hfunds
    cases o with
    | settle =>
      rw [show db'.book = ⟨_, _⟩ from Book.ext hfunds hholds]
      exact .captured hmem hheld (funds_of_find? hf)
    | release =>
      rw [show db'.book = ⟨db.book.funds, _⟩ from Book.ext ?_ hholds]
      · exact .voided hmem hheld
      · rw [hfunds]
        exact Function.update_eq_self_iff.2 (funds_of_find? hf).symm

end Steps

namespace Interleaved

variable (s : Settings) (f : Interleaved)

/-- The act of a step does what the action says : a request is accepted, or a balance operation
is logged. -/
inductive Performs (a : Time × InterleavedAct) : PaymentAction → Prop
  | api {t : ApiTxn} {action : PaymentAction} (act : a.2 = .act (.api t))
      (performs : t.Performs s f.db a.1 action) : Performs a action
  | operation {op : BalanceOp} {messageId : UUID}
      (logged : (f.step s a).operations messageId = f.operations messageId ++ [op]) :
      Performs a (op.escrow messageId)

/-- A step of the system is a step of the escrow, or none. -/
def Simulated (a : Time × InterleavedAct) : Prop :=
  (f.step s a).db.book = f.db.book ∨
    ∃ action, Performs s f a action ∧ Step f.db.book action (f.step s a).db.book

variable {s f}

theorem step_simulated (h : f.db.Accounted) (a : Time × InterleavedAct) : Simulated s f a := by
  by_cases hapi : ∃ t, a.2 = .act (.api t)
  · obtain ⟨t, ht⟩ := hapi
    have hstep : (f.step s a).db = t.apply s a.1 f.db := by
      rw [step, ht]
      rfl
    unfold Simulated
    rw [hstep]
    rcases api_simulated h t with hb | ⟨action, hp, hs⟩
    · exact Or.inl hb
    · exact Or.inr ⟨action, .api ht hp, hs⟩
  · cases step_effect (s := s) (f := f) a with
    | quiet messages balances log =>
      exact Or.inl (book_congr (fun u => by rw [Db.book, Db.book, balances]) messages)
    | api is_api change log => exact absurd is_api hapi
    | delivery job_mem message_mem link reserved moved write log operation =>
      have hr := reserved.elim id (h.in_flight _ job_mem _ message_mem link)
      rcases delivery_simulated message_mem hr moved write with ⟨-, hb⟩ | ⟨o, rfl, hs⟩
      · exact Or.inl hb
      · refine Or.inr ⟨_, .operation ?_, hs⟩
        rw [Effect.operations_delivery log operation, if_pos rfl]
        rfl

end Interleaved

/-! ## Runs -/

/-- The escrow actions of a run, in its order. -/
inductive Traced (s : Settings) : List (Time × InterleavedAct) → List PaymentAction → Prop
  | nil : Traced s [] []
  | quiet {acts : List (Time × InterleavedAct)} {as : List PaymentAction}
      {a : Time × InterleavedAct} (traced : Traced s acts as)
      (book : ((Interleaved.after s acts).step s a).db.book = (Interleaved.after s acts).db.book) :
      Traced s (acts ++ [a]) as
  | action {acts : List (Time × InterleavedAct)} {as : List PaymentAction}
      {a : Time × InterleavedAct} {action : PaymentAction} (traced : Traced s acts as)
      (performs : Interleaved.Performs s (Interleaved.after s acts) a action) :
      Traced s (acts ++ [a]) (as ++ [action])

/-- What the tables say of a list of escrow actions. -/
structure Db.Accounts (db : Db) (as : List PaymentAction) : Prop where
  /-- The credits are what was deposited less what was captured. -/
  credits : ∀ b ∈ db.balances, b.credits =
    (as.map (Action.depositTo b.userId)).sum - db.deductedCost b.userId
  /-- The reservation is what is held, and covered. -/
  reserved : ∀ b ∈ db.balances, b.reservedCredits = db.book.total .held b.userId ∧
    db.book.total .held b.userId ≤ b.credits
  /-- A message is decided as often as its payment status says. -/
  decided : ∀ m ∈ db.messages,
    as.filterMap (Action.decision m.id) = m.paymentStatus.escrow.decisions

theorem accounts_of_steps {db : Db} {as : List PaymentAction} (h : db.Accounted)
    (hs : Steps as db.book) : db.Accounts as := by
  refine ⟨fun b hb => ?_, fun b hb => ?_, fun m hm => ?_⟩
  · have hfunds := funds_of_find? (Table.find?_key hb)
    have hsum := hs.conservation b.userId
    rw [hfunds, Option.getD_some, total_captured] at hsum
    exact eq_sub_of_add_eq hsum
  · have hfunds := funds_of_find? (Table.find?_key hb)
    exact ⟨(h.reserved b hb).trans (total_held db b.userId).symm,
      hs.valid.covered b.userId b.credits hfunds⟩
  · have hfind : db.book.holds.find? m.hold.id = some m.hold :=
      Table.find?_key (mem_holds.2 ⟨m, hm, rfl⟩)
    have hd := hs.decided m.hold.id
    rw [Book.decisions, hfind] at hd
    exact hd

/-- However the steps interleave, a run of the system is a run of the escrow, and the tables are
what an escrow keeps. -/
theorem run_refines_escrow (s : Settings) (acts : List (Time × InterleavedAct)) :
    ∃ as, Traced s acts as ∧ Steps as (Interleaved.after s acts).db.book ∧
      (Interleaved.after s acts).db.Accounts as := by
  suffices h : ∃ as, Traced s acts as ∧ Steps as (Interleaved.after s acts).db.book by
    obtain ⟨as, ht, hs⟩ := h
    exact ⟨as, ht, hs, accounts_of_steps (Interleaved.run_charged s acts).accounted hs⟩
  induction acts using List.reverseRecOn with
  | nil => exact ⟨[], .nil, .nil⟩
  | append_singleton acts a ih =>
    obtain ⟨as, ht, hs⟩ := ih
    have hstep : Interleaved.after s (acts ++ [a]) = (Interleaved.after s acts).step s a := by
      rw [Interleaved.after, run_append, run_singleton]
      rfl
    rw [hstep]
    have hacc := (Interleaved.run_charged s acts).accounted
    rcases Interleaved.step_simulated (s := s) hacc a with hb | ⟨action, hp, hb⟩
    · exact ⟨as, .quiet ht hb, hb.symm ▸ hs⟩
    · exact ⟨as ++ [action], .action ht hp, .snoc hs hb⟩

end Abrio
