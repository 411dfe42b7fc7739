import Abrio.Reaper

/-!
# Exactly-once charging

After its reservation a message sees at most one balance operation, and its payment leaves
`RESERVED` at most once. This holds whatever the order of the steps, for any clock
readings, and with the reaper's statement interleaved (`charged_once`), though such a
reaper can open a finished job again.

`Effect` lists what a step does to messages and balances : nothing, a transaction of the
API, or one worker's write, whose event carries the operation. Phase 1 checks that the
payment is reserved. Phase 3 does not; it needs that a delivery in progress is reserved
(`Db.Accounted.in_flight`), which a late write of the reaper does not break because it only
ends deliveries. So a message is charged when it is reserved, and is not reserved after.
-/

open Relational Runs

namespace Abrio

open DispatchJobRepository DispatchUseCase

/-! ## Operations -/

/-- The operation an event stands for on a message. -/
def Event.operation (messageId : UUID) : Event → Option BalanceOp
  | .recorded _ _ m r => if m = messageId then r.balanceOp else none
  | .expired _ _ m => if m = messageId then some .release else none
  | _ => none

/-- The balance operations committed for a message after its reservation. -/
def System.operations (sys : System) (messageId : UUID) : List BalanceOp :=
  sys.log.filterMap (Event.operation messageId)

/-- The operations a payment status stands for. -/
def PaymentStatus.operations : PaymentStatus → List BalanceOp
  | .reserved => []
  | .deducted => [.settle]
  | .refunded => [.release]

theorem operations_payment (op : Option BalanceOp) :
    (BalanceOp.payment op).operations = op.toList := by
  rcases op with _ | _ | _ <;> rfl

/-- What a step does to messages and balances, `isApi` being that the API takes it. -/
inductive Effect (s : Settings) (isApi : Prop) (sys sys' : System) : Prop
  | quiet (messages : sys'.db.messages = sys.db.messages)
      (balances : sys'.db.balances = sys.db.balances)
      (log : ∃ es, sys'.log = sys.log ++ es ∧ ∀ e ∈ es, ∀ id, e.operation id = none)
  | api (is_api : isApi) (change : ApiChange s sys.db sys'.db) (log : sys'.log = sys.log)
  | delivery {op : Option BalanceOp} {job job' : DispatchJob} {message message' : Message}
      {e : Event} (job_mem : job ∈ sys.db.jobs) (message_mem : message ∈ sys.db.messages)
      (link : job.messageId = message.id)
      (reserved : message.paymentStatus = .reserved ∨ job.status = .dispatching)
      (moved : Moved op message message' job job')
      (write : DeliveryWrite sys.db op message' job' sys'.db) (log : sys'.log = sys.log ++ [e])
      (operation : ∀ id, e.operation id = if message.id = id then op else none)

namespace System

variable {s : Settings} {now : Time} {sys sys' : System}

/-- A step that changes neither the database nor the log. -/
theorem effect_of_same {p : Prop} (hd : sys'.db = sys.db) (hl : sys'.log = sys.log) :
    Effect s p sys sys' :=
  .quiet (by rw [hd]) (by rw [hd]) ⟨[], by simp [hl], by simp⟩

theorem operations_append {es : List Event} (h : sys'.log = sys.log ++ es) (id : UUID) :
    sys'.operations id = sys.operations id ++ es.filterMap (Event.operation id) := by
  rw [operations, h, List.filterMap_append]
  rfl

theorem claim_effect {p : Prop} (w : OwnerId) (jobId : UUID) :
    Effect s p sys (sys.claim s now w jobId) := by
  rcases sys.claim_cases s now w jobId with h | ⟨db', claim, processes, hc, -, h⟩ <;> rw [h]
  · exact effect_of_same rfl rfl
  rcases claimForDelivery_ok hc with
    ⟨rfl, rfl⟩ | ⟨job, message, op, message', job', hcl, hw, hd⟩
  · exact .quiet rfl rfl ⟨[], rfl, by simp⟩
  · obtain ⟨hj, rfl⟩ := Table.find?_eq_some.1 hcl.job_found
    obtain ⟨hm, hi⟩ := Table.find?_eq_some.1 hcl.message_found
    have hmv := hw.moved hcl.reserved
    cases hw with
    | expired =>
      exact .delivery hj hm hi.symm (Or.inl hcl.reserved) hmv hd rfl fun id => rfl
    | delivery =>
      exact .delivery hj hm hi.symm (Or.inl hcl.reserved) hmv hd rfl
        fun id => by simp [Event.operation]

theorem record_effect {p : Prop} (w : OwnerId) (jitter : Jitter) :
    Effect s p sys (sys.record s now w jitter) := by
  rcases sys.record_cases s now w jitter with
    h | ⟨jobId, result, -, h | ⟨db', recorded, hr, h⟩⟩ <;> rw [h]
  · exact effect_of_same rfl rfl
  · exact effect_of_same (by rfl) (by rfl)
  rcases recordOutcome_ok hr with
    ⟨rfl, rfl⟩ | ⟨job, message, r, message', job', rfl, hh, ho, hd⟩
  · exact .quiet rfl rfl ⟨[], rfl, by simp⟩
  · obtain ⟨hj, -⟩ := Table.find?_eq_some.1 hh.job_found
    obtain ⟨hm, hi⟩ := Table.find?_eq_some.1 hh.message_found
    exact .delivery hj hm hi.symm (Or.inr hh.dispatching) ho.moved hd rfl fun id => rfl

theorem markPublished_same (ids : List UUID) (r : OwnerId) (now : Time) (db : Db) :
    (markPublished ids r now db).messages = db.messages ∧
      (markPublished ids r now db).balances = db.balances := by
  unfold markPublished
  split_ifs <;> exact ⟨rfl, rfl⟩

theorem recordPublications_same (r : OwnerId) (published : List UUID) (failed : List ClaimedJob)
    (error : String) (jitter : Jitter) (now : Time) (db : Db) :
    (Relay.recordPublications r published failed error jitter now db).messages = db.messages ∧
      (Relay.recordPublications r published failed error jitter now db).balances =
        db.balances := by
  have h := markPublished_same published r now db
  unfold Relay.recordPublications
  split_ifs
  · exact h
  · unfold markPublishRetry
    split_ifs <;> exact h

theorem step_effect (a : Time × Act) :
    Effect s (∃ t, a.2 = .api t) sys (sys.step s a) := by
  have hact : Effect s (∃ t, a.2 = .api t) sys (sys.act s a.1 a.2) := by
    obtain ⟨now, a⟩ := a
    cases a with
    | api t => exact .api ⟨t, rfl⟩ t.change rfl
    | reap p scan => exact .quiet rfl rfl ⟨_, rfl, by simp [Event.operation]⟩
    | relayClaim r p scans =>
      rcases sys.relayClaim_cases s now r p scans with h | ⟨_, h⟩ <;> rw [act, h]
      · exact effect_of_same rfl rfl
      · exact .quiet rfl rfl ⟨[], by simp, by simp⟩
    | publish r accepts delivered =>
      obtain ⟨_, _, h⟩ := sys.publish_cases r accepts delivered
      rw [act, h]
      exact effect_of_same (by rfl) (by rfl)
    | relayRecord r error jitter =>
      rcases sys.relayRecord_cases now r error jitter with
        h | ⟨published, failed, _, h⟩ <;> rw [act, h]
      · exact effect_of_same rfl rfl
      · obtain ⟨hm, hb⟩ := recordPublications_same r published failed error jitter now sys.db
        exact .quiet hm hb ⟨[], by simp, by simp⟩
    | relayCrash r => exact effect_of_same (by rfl) (by rfl)
    | dropTask jobId => exact effect_of_same (by rfl) (by rfl)
    | claim w jobId => exact claim_effect w jobId
    | send w result =>
      rcases sys.send_cases w result with h | ⟨jobId, context, -, h⟩ <;> rw [act, h]
      · exact effect_of_same rfl rfl
      · exact .quiet rfl rfl ⟨_, rfl, by simp [Event.operation]⟩
    | record w jitter => exact record_effect w jitter
    | workerCrash w =>
      rcases sys.workerCrash_cases w with h | ⟨_, _, -, h⟩ <;> rw [act, h] <;>
        exact effect_of_same (by rfl) (by rfl)
  cases hact with
  | quiet messages balances log => exact .quiet messages balances log
  | api is_api change log => exact .api is_api change log
  | delivery job_mem message_mem link reserved moved write log operation =>
    exact .delivery job_mem message_mem link reserved moved write log operation

end System

/-! ## The invariant -/

/-- The operations of every message are those its payment status stands for. -/
structure System.Charged (sys : System) : Prop where
  accounted : sys.db.Accounted
  paid : ∀ m ∈ sys.db.messages, sys.operations m.id = m.paymentStatus.operations
  known : ∀ id, (∀ m ∈ sys.db.messages, m.id ≠ id) → sys.operations id = []

namespace Effect

variable {s : Settings} {isApi : Prop} {sys sys' : System}

theorem imp {p : Prop} (he : Effect s isApi sys sys') (hp : isApi → p) : Effect s p sys sys' := by
  cases he with
  | quiet messages balances log => exact .quiet messages balances log
  | api is_api change log => exact .api (hp is_api) change log
  | delivery job_mem message_mem link reserved moved write log operation =>
    exact .delivery job_mem message_mem link reserved moved write log operation

theorem operations_none {es : List Event} (h : ∀ e ∈ es, ∀ id, e.operation id = none) (id : UUID) :
    es.filterMap (Event.operation id) = [] :=
  List.filterMap_eq_nil_iff.2 fun e he => h e he id

/-- The operations after a worker's write. -/
theorem operations_delivery {e : Event} {op : Option BalanceOp} {messageId : UUID}
    (hlog : sys'.log = sys.log ++ [e])
    (he : ∀ id, e.operation id = if messageId = id then op else none) (id : UUID) :
    sys'.operations id = sys.operations id ++ if messageId = id then op.toList else [] := by
  rw [System.operations_append hlog]
  split_ifs with hid
  · cases op <;> simp [he, hid]
  · simp [he, hid]

/-- Messages that the API leaves are charged as before, and new ones are not charged. -/
theorem charged_api (hc : ApiChange s sys.db sys'.db) (hlog : sys'.log = sys.log)
    (h : sys.Charged) :
    (∀ m ∈ sys'.db.messages, sys'.operations m.id = m.paymentStatus.operations) ∧
      ∀ id, (∀ m ∈ sys'.db.messages, m.id ≠ id) → sys'.operations id = [] := by
  have hops : ∀ id, sys'.operations id = sys.operations id := fun id => by
    rw [System.operations, hlog]
    rfl
  have hold : sys'.db.messages = sys.db.messages →
      (∀ m ∈ sys'.db.messages, sys'.operations m.id = m.paymentStatus.operations) ∧
        ∀ id, (∀ m ∈ sys'.db.messages, m.id ≠ id) → sys'.operations id = [] := by
    intro hm
    rw [hm]
    exact ⟨fun m hm => (hops m.id).trans (h.paid m hm), fun id hid =>
      (hops id).trans (h.known id hid)⟩
  generalize sys'.db = db' at hc hold ⊢
  cases hc with
  | same => exact hold rfl
  | user created => exact hold (UserUseCase.createUser_same created).1
  | topup done =>
    obtain ⟨b, credits, -, -, rfl⟩ := BalanceUseCase.topupUserCredits_ok done
    exact hold rfl
  | submission user accepted =>
    refine ⟨fun m hm => ?_, fun id hid => ?_⟩
    · rw [hops]
      rcases accepted.mem_messages.1 hm with hm | ⟨sub, hsub, rfl⟩
      · exact h.paid m hm
      · refine h.known _ fun m hm' hi => ?_
        have hn := db'.messages.nodup
        rw [accepted.messages, List.map_append, List.nodup_append] at hn
        exact hn.2.2 _ (List.mem_map_of_mem hm') _
          (List.mem_map_of_mem (List.mem_map_of_mem hsub)) hi
    · rw [hops]
      exact h.known id fun m hm => hid m (accepted.mem_messages.2 (Or.inl hm))

/-- A step charges as it says. -/
theorem charged (he : Effect s isApi sys sys') (hacc : sys'.db.Accounted) (h : sys.Charged) :
    sys'.Charged := by
  cases he with
  | quiet messages balances log =>
    obtain ⟨es, hlog, hes⟩ := log
    have hops : ∀ id, sys'.operations id = sys.operations id := fun id => by
      rw [System.operations_append hlog, operations_none hes, List.append_nil]
    refine ⟨hacc, fun m hm => ?_, fun id hid => ?_⟩
    · rw [messages] at hm
      rw [hops, h.paid m hm]
    · rw [messages] at hid
      rw [hops, h.known id hid]
  | api is_api change log =>
    obtain ⟨hpaid, hknown⟩ := charged_api change log h
    exact ⟨hacc, hpaid, hknown⟩
  | delivery job_mem message_mem link reserved moved write log operation =>
    rename_i op job job' message message' e
    have hops := operations_delivery log operation
    have hres : message.paymentStatus = .reserved :=
      reserved.elim id (h.accounted.in_flight _ job_mem _ message_mem link)
    have hid := Message.id_eq moved.message_original
    refine ⟨hacc, fun m hm => ?_, fun id hm => ?_⟩
    · rw [write.messages] at hm
      rcases Table.mem_put.1 hm with ⟨hm, hne⟩ | ⟨rfl, -⟩
      · rw [hops, if_neg (fun he => hne (by rw [hid, he])), List.append_nil, h.paid m hm]
      · rw [hops, if_pos hid.symm, hid, h.paid message message_mem, hres, moved.payment,
          operations_payment]
        rfl
    · rw [write.messages] at hm
      have hold : ∀ m ∈ sys.db.messages, m.id ≠ id := fun m hm' hi => by
        obtain ⟨x, hx, hxi⟩ := Table.exists_mem_put hm' message'
        exact hm x hx (hxi.trans hi)
      rw [hops, if_neg (hold message message_mem), List.append_nil, h.known id hold]

/-- A message that is paid for or refunded stays as it is. -/
theorem mem_of_paid (he : Effect s isApi sys sys') (hacc : sys.db.Accounted) {m : Message}
    (hm : m ∈ sys.db.messages) (hp : m.paymentStatus ≠ .reserved) : m ∈ sys'.db.messages := by
  cases he with
  | quiet messages balances log => rwa [messages]
  | api is_api change log =>
    generalize sys'.db = db' at change
    cases change with
    | same => exact hm
    | user created => rwa [(UserUseCase.createUser_same created).1]
    | topup done =>
      obtain ⟨b, credits, -, -, rfl⟩ := BalanceUseCase.topupUserCredits_ok done
      exact hm
    | submission user accepted => exact accepted.mem_messages.2 (Or.inl hm)
  | delivery job_mem message_mem link reserved moved write log operation =>
    rename_i op job job' message message' e
    have hres : message.paymentStatus = .reserved :=
      reserved.elim id (hacc.in_flight _ job_mem _ message_mem link)
    rw [write.messages]
    refine Table.mem_put_of_ne hm fun hi => hp ?_
    rw [Message.id_eq moved.message_original] at hi
    rw [Table.eq_of_key_eq hm message_mem hi, hres]

end Effect

/-! ## Runs -/

namespace Interleaved

variable {s : Settings} {f : Interleaved}

theorem step_accounted (a : Time × InterleavedAct) (h : f.db.Accounted) :
    (f.step s a).db.Accounted := by
  obtain ⟨now, a⟩ := a
  cases a with
  | act b =>
    have hb : (f.toSystem.step s (now, b)).db.Accounted :=
      System.step_preserves (P := Db.Accounted) (fun _ _ hc h => h.change hc) (now, b) h
    exact hb
  | select p scan => exact h
  | write i =>
    simp only [step, write]
    split
    · exact h
    · exact h.updateJobs (fun _ => rfl) fun _ _ _ hst => by cases hst

theorem step_effect (a : Time × InterleavedAct) :
    Effect s (∃ t, a.2 = .act (.api t)) f.toSystem (f.step s a).toSystem := by
  obtain ⟨now, a⟩ := a
  cases a with
  | act b =>
    refine (System.step_effect (now, b)).imp ?_
    rintro ⟨t, ht⟩
    exact ⟨t, congrArg InterleavedAct.act ht⟩
  | select p scan => exact .quiet rfl rfl ⟨[], by simp [step, select], by simp⟩
  | write i =>
    simp only [step, write]
    split
    · exact .quiet rfl rfl ⟨[], by simp, by simp⟩
    · exact .quiet rfl rfl ⟨_, rfl, by simp [Event.operation]⟩

theorem step_charged (a : Time × InterleavedAct) (h : f.toSystem.Charged) :
    (f.step s a).toSystem.Charged :=
  (step_effect a).charged (step_accounted a h.accounted) h

theorem run_charged (s : Settings) (acts : List (Time × InterleavedAct)) :
    (after s acts).toSystem.Charged :=
  run_induction (P := fun f : Interleaved => f.toSystem.Charged) (fun _ a h => step_charged a h)
    acts ⟨Db.consistent_empty.toAccounted, by simp [Db.empty], fun _ _ => rfl⟩

/-- The balances after a step are those of before, or what the API makes of them, or differ
by one operation with a message's cost, which is then one more operation of that message. -/
def BalancesByOperation (s : Settings) (f : Interleaved) (a : Time × InterleavedAct) : Prop :=
  (f.step s a).db.balances = f.db.balances ∨ (∃ t, a.2 = .act (.api t)) ∨
    ∃ m ∈ f.db.messages, ∃ op b, f.db.balances.find? m.userId = some b ∧
      (f.step s a).db.balances = f.db.balances.put (BalanceOp.apply m.cost b op) ∧
        (f.step s a).operations m.id = f.operations m.id ++ [op]

theorem balancesByOperation (a : Time × InterleavedAct) : BalancesByOperation s f a := by
  cases step_effect (s := s) (f := f) a with
  | quiet messages balances log => exact Or.inl balances
  | api is_api change log => exact Or.inr (Or.inl is_api)
  | delivery job_mem message_mem link reserved moved write log operation =>
    rename_i op job job' message message' e
    have hops := Effect.operations_delivery log operation message.id
    have hbal := write.balances
    unfold BalancesByOperation
    generalize (f.step s a).db.balances = balances at hbal ⊢
    cases hbal with
    | none => exact Or.inl rfl
    | some op b cost_pos found constrained =>
      rw [Message.userId_eq moved.message_original] at found
      rw [if_pos rfl] at hops
      refine Or.inr (Or.inr ⟨message, message_mem, op, b, found, ?_, hops⟩)
      rw [Message.cost_eq moved.message_original]

end Interleaved

/-- However the steps interleave, a message is charged as its payment status says : not at
all while it is reserved, once when it is deducted or refunded. Once it is it stays as it
is, and the balances change by these operations only. -/
theorem charged_once (s : Settings) (acts : List (Time × InterleavedAct)) :
    let f := Interleaved.after s acts
    (∀ m ∈ f.db.messages, f.operations m.id = m.paymentStatus.operations) ∧
      (∀ m ∈ f.db.messages, m.paymentStatus ≠ .reserved →
        ∀ acts', m ∈ (run (Interleaved.step s) f acts').db.messages) ∧
      ∀ a, f.BalancesByOperation s a := by
  intro f
  have hf := Interleaved.run_charged s acts
  refine ⟨hf.paid, fun m hm hp acts' => ?_, fun a => Interleaved.balancesByOperation a⟩
  have h : (run (Interleaved.step s) f acts').db.Accounted ∧
      m ∈ (run (Interleaved.step s) f acts').db.messages :=
    run_induction (P := fun f : Interleaved => f.db.Accounted ∧ m ∈ f.db.messages)
      (fun f a h => ⟨Interleaved.step_accounted a h.1,
        (Interleaved.step_effect a).mem_of_paid h.1 h.2 hp⟩) acts' ⟨hf.accounted, hm⟩
  exact h.2

end Abrio
