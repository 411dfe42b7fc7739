import Abrio.Calls
import Abrio.Charging
import Abrio.Recovery

/-!
# The express deadline

An express message must be sent within `express_ttl_seconds` of its creation. Phase 1 checks
this before the provider is called, and phase 3 before it schedules another delivery, with the
backoff added. The other ways back to a worker (a failed publication, the reaper, a takeover)
do not look at the deadline; they all lead through phase 1.

`DeadlineInv` says what the log of a run can hold : the claims of express messages are in
time, and only express messages are given up for their age. A provider call follows the
claim of its call (`System.claimed_of_sent`). With what one claim and one recording do at the
deadline this is `express_deadline`.
-/

open Relational Runs

namespace Abrio

open DispatchJobRepository DispatchUseCase

/-- The last moment an express message may be claimed for delivery. -/
def Settings.deadline (s : Settings) (m : Message) : Time :=
  m.createdAt + seconds s.expressTtlSeconds

theorem expressDeadlineExceeded_iff {s : Settings} {now ahead : Time} {m : Message} :
    expressDeadlineExceeded s.dispatchConfig now m ahead = true ↔
      m.priority = .express ∧ s.deadline m < now + ahead := by
  simp only [expressDeadlineExceeded, Settings.dispatchConfig, Settings.deadline,
    Bool.and_eq_true, decide_eq_true_eq]
  refine and_congr_right fun _ => ?_
  constructor <;> intro h <;> linarith

/-! ## Rows that stay -/

/-- Every message and every job of `db` is there in `db'`, with what it said at its insert. -/
structure Db.Extends (db db' : Db) : Prop where
  message : ∀ m ∈ db.messages, ∃ m' ∈ db'.messages, m'.original = m.original
  job : ∀ j ∈ db.jobs, ∃ j' ∈ db'.jobs, j'.original = j.original

namespace Db.Extends

variable {s : Settings} {db db' db'' : Db}

theorem refl (db : Db) : db.Extends db :=
  ⟨fun m hm => ⟨m, hm, rfl⟩, fun j hj => ⟨j, hj, rfl⟩⟩

theorem trans (h : db.Extends db') (h' : db'.Extends db'') : db.Extends db'' := by
  refine ⟨fun m hm => ?_, fun j hj => ?_⟩
  · obtain ⟨m', hm', ho⟩ := h.message m hm
    obtain ⟨m'', hm'', ho'⟩ := h'.message m' hm'
    exact ⟨m'', hm'', ho'.trans ho⟩
  · obtain ⟨j', hj', ho⟩ := h.job j hj
    obtain ⟨j'', hj'', ho'⟩ := h'.job j' hj'
    exact ⟨j'', hj'', ho'.trans ho⟩

theorem of_sameOriginals (h : SameOriginals db db') : db.Extends db' :=
  ⟨fun _ hm => h.symm.message hm, fun _ hj => h.symm.job hj⟩

theorem of_change (hc : Change s db db') : db.Extends db' := by
  cases hc with
  | same => exact refl db
  | api change =>
    cases change with
    | same => exact refl db
    | user created =>
      obtain ⟨hm, hj⟩ := UserUseCase.createUser_same created
      exact ⟨fun m h => ⟨m, hm ▸ h, rfl⟩, fun j h => ⟨j, hj ▸ h, rfl⟩⟩
    | topup done =>
      obtain ⟨b, credits, -, -, rfl⟩ := BalanceUseCase.topupUserCredits_ok done
      exact of_sameOriginals ⟨rfl, rfl, rfl⟩
    | submission user accepted =>
      exact ⟨fun m h => ⟨m, accepted.mem_messages.2 (Or.inl h), rfl⟩,
        fun j h => ⟨j, accepted.mem_jobs.2 (Or.inl h), rfl⟩⟩
  | @jobs p f id original isOpen stays =>
    have hrows : (db.jobs.updateWhere p f id).rows.map DispatchJob.original =
        db.jobs.rows.map DispatchJob.original := Table.map_key_updateWhere _ _ fun j _ => original j
    exact of_sameOriginals ⟨rfl, rfl, hrows⟩
  | delivery job_mem message_mem link reserved moved write =>
    exact of_sameOriginals (write.sameOriginals job_mem message_mem moved)

end Db.Extends

namespace System

variable {s : Settings} {sys : System}

theorem step_extends (s : Settings) (sys : System) (a : Time × Act) :
    sys.db.Extends (sys.step s a).db :=
  step_preserves (P := fun db => sys.db.Extends db) (fun _ _ hc h => h.trans (.of_change hc)) a
    (.refl sys.db)

/-- The message of a job. -/
def messageOf (sys : System) (jobId : UUID) : Option Message :=
  (sys.db.jobs.find? jobId).bind fun j => sys.db.messages.find? j.messageId

theorem messageOf_eq_some {jobId : UUID} {m : Message} :
    sys.messageOf jobId = some m ↔ ∃ j, sys.db.jobs.find? jobId = some j ∧
      sys.db.messages.find? j.messageId = some m :=
  Option.bind_eq_some_iff

/-- A job keeps its message. -/
theorem messageOf_extends {sys' : System} (h : sys.db.Extends sys'.db) {jobId : UUID}
    {m : Message} (hm : sys.messageOf jobId = some m) :
    ∃ m', sys'.messageOf jobId = some m' ∧ m'.original = m.original := by
  obtain ⟨j, hjf, hmf⟩ := messageOf_eq_some.1 hm
  obtain ⟨hj, rfl⟩ := Table.find?_eq_some.1 hjf
  obtain ⟨hmem, hi⟩ := Table.find?_eq_some.1 hmf
  obtain ⟨j', hj', ho⟩ := h.job j hj
  obtain ⟨m', hm', hom⟩ := h.message m hmem
  refine ⟨m', messageOf_eq_some.2 ⟨j', ?_, ?_⟩, hom⟩
  · exact Table.find?_eq_some.2 ⟨hj', DispatchJob.id_eq ho⟩
  · rw [DispatchJob.messageId_eq ho, ← hi, ← Message.id_eq hom]
    exact Table.find?_key hm'

end System

theorem Settings.deadline_eq {s : Settings} {m m' : Message} (h : m'.original = m.original) :
    s.deadline m' = s.deadline m := by
  have hc : m'.createdAt = m.createdAt := (congrArg Message.createdAt h :)
  rw [deadline, deadline, hc]

/-! ## The log -/

/-- The event gives up message `messageId` for its age. -/
def Event.FailsForAge (messageId : UUID) : Event → Prop
  | .expired _ _ m => m = messageId
  | .recorded _ _ m r => m = messageId ∧ r = .expressDeadlineExceeded
  | _ => False

/-- What a run can log of the age of messages. -/
structure DeadlineInv (s : Settings) (sys : System) (log : List Event) : Prop where
  claimed : ∀ id w t, .claimed id w t ∈ log →
    ∃ m, sys.messageOf id = some m ∧ (m.priority = .express → t ≤ s.deadline m)
  aged : ∀ e ∈ log, ∀ id, e.FailsForAge id →
    ∃ m, sys.db.messages.find? id = some m ∧ m.priority = .express

namespace DeadlineInv

variable {s : Settings} {sys sys' : System} {log log' : List Event}

theorem nil : DeadlineInv s sys [] :=
  ⟨by simp, by simp⟩

theorem append (h : DeadlineInv s sys log) (h' : DeadlineInv s sys log') :
    DeadlineInv s sys (log ++ log') :=
  ⟨fun id w t he => (List.mem_append.1 he).elim (h.claimed id w t) (h'.claimed id w t),
    fun e he => (List.mem_append.1 he).elim (h.aged e) (h'.aged e)⟩

theorem of_extends (h : DeadlineInv s sys log) (hdb : sys.db.Extends sys'.db) :
    DeadlineInv s sys' log := by
  refine ⟨fun id w t he => ?_, fun e he id hage => ?_⟩
  · obtain ⟨m, hm, ht⟩ := h.claimed id w t he
    obtain ⟨m', hm', ho⟩ := System.messageOf_extends hdb hm
    exact ⟨m', hm', by rwa [Message.priority_eq ho, Settings.deadline_eq ho]⟩
  · obtain ⟨m, hmf, hp⟩ := h.aged e he id hage
    obtain ⟨hm, rfl⟩ := Table.find?_eq_some.1 hmf
    obtain ⟨m', hm', ho⟩ := hdb.message m hm
    exact ⟨m', Table.find?_eq_some.2 ⟨hm', Message.id_eq ho⟩, (Message.priority_eq ho).trans hp⟩

/-- What phase 1 logs. -/
theorem claimEnd {now : Time} {w : OwnerId} {jobId : UUID} {db' : Db} {claim : Claim}
    (hc : claimForDelivery s.dispatchConfig jobId w now sys.db = .ok (db', claim)) :
    DeadlineInv s sys (System.claimEnd now jobId w claim).2 := by
  rcases claimForDelivery_ok hc with ⟨rfl, rfl⟩ | ⟨job, message, op, message', job', hcl, hw, -⟩
  · exact .nil
  cases hw with
  | expired exceeded =>
    refine ⟨by simp [System.claimEnd], fun e he id hage => ?_⟩
    obtain rfl := List.mem_singleton.1 he
    obtain rfl : message.id = id := hage
    obtain ⟨hm, -⟩ := Table.find?_eq_some.1 hcl.message_found
    exact ⟨message, Table.find?_key hm, (expressDeadlineExceeded_iff.1 exceeded).1⟩
  | delivery in_time =>
    refine ⟨fun id w' t he => ?_, by simp [System.claimEnd, Event.FailsForAge]⟩
    obtain ⟨rfl, rfl, rfl⟩ := Event.claimed.inj (List.mem_singleton.1 he)
    refine ⟨message, System.messageOf_eq_some.2 ⟨job, hcl.job_found, hcl.message_found⟩,
      fun hp => ?_⟩
    by_contra hlate
    refine Bool.false_ne_true (in_time.symm.trans (expressDeadlineExceeded_iff.2 ⟨hp, ?_⟩))
    rw [add_zero]
    exact not_le.1 hlate

/-- What phase 3 logs. -/
theorem recordEnd {now : Time} {w : OwnerId} {jobId : UUID} {result : ProviderResult}
    {jitter : Jitter} {db' : Db} {recorded : Option (UUID × Recorded)}
    (hr : recordOutcome s.dispatchConfig jobId w result jitter now sys.db = .ok (db', recorded)) :
    DeadlineInv s sys (System.recordEnd jobId w recorded) := by
  rcases recordOutcome_ok hr with ⟨rfl, rfl⟩ | ⟨job, message, r, message', job', rfl, hh, ho, -⟩
  · exact .nil
  refine ⟨by simp [System.recordEnd], fun e he id hage => ?_⟩
  obtain rfl := List.mem_singleton.1 he
  obtain ⟨rfl, rfl⟩ : message.id = id ∧ r = .expressDeadlineExceeded := hage
  obtain ⟨hm, -⟩ := Table.find?_eq_some.1 hh.message_found
  cases ho with
  | expressDeadlineExceeded failed attempts exceeded =>
    exact ⟨message, Table.find?_key hm, (expressDeadlineExceeded_iff.1 exceeded).1⟩

/-- What a step logs. -/
theorem act (s : Settings) (sys : System) (now : Time) (a : Act) :
    ∃ es, (sys.act s now a).log = sys.log ++ es ∧ DeadlineInv s sys es := by
  cases a with
  | reap p scan =>
    refine ⟨_, rfl, by simp, fun e he id hage => ?_⟩
    obtain ⟨job, -, rfl⟩ := List.mem_map.1 he
    cases hage
  | relayClaim r p scans =>
    rcases sys.relayClaim_cases s now r p scans with h | ⟨_, h⟩ <;> rw [System.act, h] <;>
      exact ⟨[], (List.append_nil _).symm, .nil⟩
  | publish r accepts delivered =>
    obtain ⟨_, _, h⟩ := sys.publish_cases r accepts delivered
    rw [System.act, h]
    exact ⟨[], (List.append_nil _).symm, .nil⟩
  | relayRecord r error jitter =>
    rcases sys.relayRecord_cases now r error jitter with h | ⟨_, _, _, h⟩ <;>
      rw [System.act, h] <;> exact ⟨[], (List.append_nil _).symm, .nil⟩
  | claim w jobId =>
    rcases sys.claim_cases s now w jobId with h | ⟨db', claim, processes, hc, -, h⟩ <;>
      rw [System.act, h]
    · exact ⟨[], (List.append_nil _).symm, .nil⟩
    · exact ⟨_, rfl, .claimEnd hc⟩
  | send w result =>
    rcases sys.send_cases w result with h | ⟨_, _, -, h⟩ <;> rw [System.act, h]
    · exact ⟨[], (List.append_nil _).symm, .nil⟩
    · exact ⟨_, rfl, by simp, by simp [Event.FailsForAge]⟩
  | record w jitter =>
    rcases sys.record_cases s now w jitter with h | ⟨_, _, -, h | ⟨_, _, hr, h⟩⟩ <;>
      rw [System.act, h]
    · exact ⟨[], (List.append_nil _).symm, .nil⟩
    · exact ⟨[], (List.append_nil _).symm, .nil⟩
    · exact ⟨_, rfl, .recordEnd hr⟩
  | workerCrash w =>
    rcases sys.workerCrash_cases w with h | ⟨_, _, -, h⟩ <;> rw [System.act, h] <;>
      exact ⟨[], (List.append_nil _).symm, .nil⟩
  | _ => exact ⟨[], (List.append_nil _).symm, .nil⟩

theorem step (h : DeadlineInv s sys sys.log) (a : Time × Act) :
    DeadlineInv s (sys.step s a) (sys.step s a).log := by
  obtain ⟨es, hlog, hes⟩ := act s sys a.1 a.2
  rw [show (sys.step s a).log = sys.log ++ es from hlog]
  exact (h.append hes).of_extends (System.step_extends s sys a)

theorem after (s : Settings) (acts : List (Time × Act)) :
    DeadlineInv s (System.after s acts) (System.after s acts).log :=
  run_induction (P := fun sys : System => DeadlineInv s sys sys.log) (fun _ a h => h.step a) acts
    .nil

end DeadlineInv

/-! ## Recorded retries -/

/-- An express job that phase 3 leaves waiting is available by its deadline. -/
theorem System.record_retry_le {s : Settings} {sys : System} {now : Time} {w : OwnerId}
    {jitter : Jitter} {j : DispatchJob} {m : Message}
    (hj : j ∈ (sys.record s now w jitter).db.jobs) (hnew : j ∉ sys.db.jobs)
    (hretry : j.status = .retry) (hm : m ∈ (sys.record s now w jitter).db.messages)
    (hl : j.messageId = m.id) (hp : m.priority = .express) : j.availableAt ≤ s.deadline m := by
  rcases sys.record_cases s now w jitter with
    hsame | ⟨jobId, result, -, hsys | ⟨db', recorded, hr, hsys⟩⟩
  · rw [hsame] at hj
    exact absurd hj hnew
  · rw [hsys] at hj
    exact absurd hj hnew
  rw [hsys] at hj hm
  rcases recordOutcome_ok hr with ⟨rfl, rfl⟩ | ⟨job, message, r, message', job', rfl, hh, ho, hd⟩
  · exact absurd hj hnew
  have hwritten : j = job' := by
    have hput : j ∈ sys.db.jobs.put job' := hd.jobs ▸ hj
    rcases Table.mem_put.1 hput with ⟨hold, -⟩ | ⟨rfl, -⟩
    · exact absurd hold hnew
    · rfl
  subst hwritten
  obtain ⟨hmessage, hi⟩ := Table.find?_eq_some.1 hh.message_found
  have hmw : m = message' := by
    have hput : m ∈ sys.db.messages.put message' := hd.messages ▸ hm
    have hid := Message.id_eq ho.moved.message_original
    refine Table.eq_of_key_eq hput (Table.mem_put_self hmessage hid.symm) ?_
    rw [hid, hi, ← hl, DispatchJob.messageId_eq ho.moved.job_original]
  subst hmw
  have hdeadline := Settings.deadline_eq (s := s) ho.moved.message_original
  have hpm := (Message.priority_eq ho.moved.message_original).symm.trans hp
  cases ho with
  | providerTemporaryFailure failed attempts in_time =>
    by_contra hlate
    refine Bool.false_ne_true (in_time.symm.trans (expressDeadlineExceeded_iff.2 ⟨hpm, ?_⟩))
    rw [← hdeadline]
    exact not_le.1 hlate
  | _ => cases hretry

/-! ## A late claim -/

namespace System

variable {s : Settings} {sys sys' : System} {w : OwnerId}

/-- What is left of a job and its message that are given up, by the call of `w`. -/
structure GivenUp (s : Settings) (sys sys' : System) (w : OwnerId) (jobId : UUID) (m : Message) :
    Prop where
  job : ∃ j, sys'.db.jobs.find? jobId = some j ∧ j.status = .failed
  message : ∃ m', sys'.db.messages.find? m.id = some m' ∧ m'.status = .permanentFailed ∧
    m'.paymentStatus = .refunded
  released : ∃ b, sys.db.balances.find? m.userId = some b ∧ sys'.db.balances =
    sys.db.balances.put { b with reservedCredits := b.reservedCredits - m.cost }
  not_sent : ∀ acts id, .sent id w ∉ (run (step s) sys' acts).log

/-- A call that finds a claimable express job past its deadline gives it up. -/
theorem claim_givenUp (s : Settings) (acts : List (Time × Act)) {now : Time} {j : DispatchJob}
    {m : Message} (hj : j ∈ (after s acts).db.jobs) (hm : m ∈ (after s acts).db.messages)
    (hl : j.messageId = m.id) (htask : j.id ∈ (after s acts).tasks)
    (hclaim : isClaimable s.dispatchConfig now j = true) (hp : m.priority = .express)
    (hlate : s.deadline m < now) (hw : ∀ p ∈ (after s acts).processes, p.workerId ≠ w) :
    GivenUp s (after s acts) ((after s acts).step s (now, .claim w j.id)) w j.id m := by
  have hdb := after_consistent s acts
  have hopen : j.status.terminal = false := by
    cases hs : j.status <;> simp_all [isClaimable, DispatchJobStatus.terminal]
  have hres : m.paymentStatus = .reserved := (hdb.agree j hj m hm hl).reserved hopen
  have hcm : Claimable s.dispatchConfig (after s acts).db j.id now j m :=
    ⟨Table.find?_key hj, hopen, hclaim, Table.find?_eq_some.2 ⟨hm, hl.symm⟩, hres⟩
  have hexceeded : expressDeadlineExceeded s.dispatchConfig now m 0 = true :=
    expressDeadlineExceeded_iff.2 ⟨hp, by rwa [add_zero]⟩
  have herror : storableText (truncateError "Express delivery deadline exceeded") = true := by
    decide +kernel
  obtain ⟨db', hdw⟩ := hdb.exists_deliveryWrite (MessageRepository.markPermanentFailure now m)
    hm hres rfl ((after_wellFormed hj).writable.markFailed now herror) .release
  obtain ⟨-, processes, hstep, hproc⟩ := step_claim htask hcm (.expired hexceeded) hdw hw
  have hfresh : (after s acts).processes.find? w = none := Table.find?_eq_none.2 hw
  have hcall : (after s acts).callLog w = [] := by
    have htrace := after_callTrace s acts w
    rw [hfresh] at htrace
    generalize (after s acts).callLog w = log at htrace ⊢
    cases htrace
    rfl
  obtain ⟨-, b, hb, -, -, hdb'⟩ := DeliveryWrite.of_op.1 hdw
  have hfind : db'.jobs.find? j.id = _ := find?_deliveryWrite hdw (Table.find?_key hj) rfl j.id
  have hmessage : db'.messages.find? m.id =
      some (MessageRepository.markPermanentFailure now m) := by
    rw [hdw.messages]
    exact (Table.find?_put (r := MessageRepository.markPermanentFailure now m) hm rfl m.id).trans
      (if_pos rfl)
  refine ⟨?_, ?_, ?_, fun acts' id he => ?_⟩
  · rw [hstep]
    exact ⟨_, hfind.trans (if_pos rfl), rfl⟩
  · rw [hstep]
    exact ⟨_, hmessage, rfl, rfl⟩
  · rw [hstep]
    exact ⟨b, hb, congrArg Db.balances hdb'⟩
  · have hended : (step s (after s acts) (now, .claim w j.id)).processes.find? w =
        some ⟨w, j.id, .ended⟩ := by
      rw [hstep]
      exact hproc
    refine not_sent_of_ended hended (fun id => ?_) acts' id he
    · rw [hstep]
      show Event.sent id w ∉ List.filter _ (_ ++ _)
      rw [List.filter_append, ← callLog, hcall]
      simp [claimEnd]

end System

/-! ## Normal messages -/

/-- The operation behind a release is a failure of the delivery, or the message's age. -/
theorem Event.of_release {e : Event} {id : UUID} (h : e.operation id = some .release) :
    e.FailsForAge id ∨ ∃ jobId w r, e = .recorded jobId w id r ∧
      (r = .providerPermanentFailure ∨ r = .maxDeliveryAttemptsReached) := by
  cases e with
  | recorded jobId w m r =>
    simp only [operation] at h
    split_ifs at h with hm
    subst hm
    cases r with
    | expressDeadlineExceeded => exact Or.inl ⟨rfl, rfl⟩
    | providerPermanentFailure => exact Or.inr ⟨jobId, w, _, rfl, Or.inl rfl⟩
    | maxDeliveryAttemptsReached => exact Or.inr ⟨jobId, w, _, rfl, Or.inr rfl⟩
    | _ => cases h
  | expired jobId w m =>
    simp only [operation] at h
    split_ifs at h with hm
    exact Or.inl hm
  | _ => cases h

theorem System.after_charged (s : Settings) (acts : List (Time × Act)) : (after s acts).Charged :=
  run_induction (P := System.Charged)
    (fun _ a h => (step_effect a).charged
      (step_preserves (P := Db.Accounted) (fun _ _ hc h => h.change hc) a h.accounted) h)
    acts ⟨Db.consistent_empty.toAccounted, by simp [Db.empty], fun _ _ => rfl⟩

/-- A given up message has a failure behind it. -/
theorem System.exists_failure (s : Settings) (acts : List (Time × Act)) {m : Message}
    (hm : m ∈ (after s acts).db.messages) (hf : m.status = .permanentFailed) :
    ∃ e ∈ (after s acts).log, e.operation m.id = some .release := by
  have hdb := after_consistent s acts
  obtain ⟨j, hj, hl⟩ := hdb.message_job m hm
  have hpaid : m.paymentStatus = .refunded := (hdb.agree j hj m hm hl.messageId).refunded.1 hf
  have hops : (after s acts).operations m.id = [.release] := by
    rw [(after_charged s acts).paid m hm, hpaid]
    rfl
  have hin : BalanceOp.release ∈ (after s acts).operations m.id := by simp [hops]
  obtain ⟨e, he, ho⟩ := List.mem_filterMap.1 hin
  exact ⟨e, he, ho⟩

/-! ## The deadline -/

/-- The deadline of express messages, after any run.
A provider call for an express message follows a claim no later than the deadline.
An express job that an outcome leaves waiting is available by the deadline.
A call that finds a claimable express job past its deadline gives it up, and sends nothing.
A normal message is not given up for its age. -/
theorem express_deadline (s : Settings) (acts : List (Time × Act)) :
    let sys := System.after s acts
    (∀ pre id w, pre ++ [.sent id w] <+: sys.log → ∃ m t, sys.messageOf id = some m ∧
      .claimed id w t ∈ pre ∧ (m.priority = .express → t ≤ s.deadline m)) ∧
    (∀ now w jitter, ∀ j ∈ (sys.step s (now, .record w jitter)).db.jobs, j ∉ sys.db.jobs →
      j.status = .retry → ∀ m ∈ (sys.step s (now, .record w jitter)).db.messages,
        j.messageId = m.id → m.priority = .express → j.availableAt ≤ s.deadline m) ∧
    (∀ now w, ∀ j ∈ sys.db.jobs, ∀ m ∈ sys.db.messages, j.messageId = m.id → j.id ∈ sys.tasks →
      isClaimable s.dispatchConfig now j = true → m.priority = .express → s.deadline m < now →
        (∀ p ∈ sys.processes, p.workerId ≠ w) →
          System.GivenUp s sys (sys.step s (now, .claim w j.id)) w j.id m) ∧
    ∀ m ∈ sys.db.messages, m.priority = .normal → (∀ e ∈ sys.log, ¬ e.FailsForAge m.id) ∧
      (m.status = .permanentFailed → ∃ id w r, .recorded id w m.id r ∈ sys.log ∧
        (r = .providerPermanentFailure ∨ r = .maxDeliveryAttemptsReached)) := by
  intro sys
  have h : DeadlineInv s sys sys.log := .after s acts
  refine ⟨fun pre id w hpre => ?_, fun now w jitter j hj hnew hr m hm hl hp => ?_,
    fun now w j hj m hm hl ht hc hp hlate hw =>
      System.claim_givenUp s acts hj hm hl ht hc hp hlate hw, fun m hm hp => ?_⟩
  · obtain ⟨t, ht⟩ := System.claimed_of_sent hpre
    obtain ⟨m, hm, hle⟩ := h.claimed id w t (hpre.subset (List.mem_append_left _ ht))
    exact ⟨m, t, hm, ht, hle⟩
  · exact System.record_retry_le hj hnew hr hm hl hp
  · have hyoung : ∀ e ∈ sys.log, ¬ e.FailsForAge m.id := by
      intro e he hage
      obtain ⟨m', hm', hp'⟩ := h.aged e he m.id hage
      rw [Table.find?_key hm] at hm'
      obtain rfl := Option.some.inj hm'
      rw [hp] at hp'
      cases hp'
    refine ⟨hyoung, fun hf => ?_⟩
    obtain ⟨e, he, ho⟩ := System.exists_failure s acts hm hf
    rcases Event.of_release ho with hage | ⟨id, w, r, rfl, hr⟩
    · exact absurd hage (hyoung e he)
    · exact ⟨id, w, r, he, hr⟩

/-- An express message whose task a worker takes after its deadline. -/
def lateSample : List (Time × Act) :=
  [(0, .api (.createUser 1 "user")), (0, .api (.topupUserCredits 1 5)),
    (0, .api (.createMessage ⟨1, "09121234567", "hello", .express, 7⟩ ⟨10, 20⟩)),
    (0, .relayClaim 3 .express {}), (0, .publish 3 (fun _ => true) fun _ => true),
    (0, .relayRecord 3 "" 0), (seconds 121, .claim 5 20), (seconds 121, .send 5 System.success)]

example : (System.after {} lateSample).log = [.expired 20 5 10] := by decide +kernel

end Abrio
