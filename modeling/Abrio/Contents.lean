import Abrio.MessageLifecycle

/-!
# What is sent is what was submitted

Every message and its job were inserted by one accepted request, and what they said then they
still say : no step changes a recipient, a body, a priority, a price or the snapshot in the job.
So the context of a `process()` call is what was submitted (`contents_submitted`), however long the
delivery takes and whoever takes part in it. The provider is given the id, the recipient and the
body of it; the priority stays in the call.

`ContextInv` follows the contexts through the calls, for any provider that a run is taken with :
`P` relates what it is given to what it answers, and an outcome is recorded only after an answer
that it is the outcome of.
-/

open Relational Runs

namespace Abrio

open DispatchJobRepository DispatchUseCase MessageUseCase

/-- What the provider is given of a message. -/
def Message.context (m : Message) : DeliveryContext :=
  ⟨m.id, m.recipient, m.body, m.priority⟩

theorem Message.context_eq {m m' : Message} (h : m'.original = m.original) :
    m'.context = m.context :=
  (congrArg Message.context h :)

/-! ## Submitted contents -/

/-- A submission is one of an accepted request of the run. -/
def Submits (s : Settings) (acts : List (Time × Act)) (sub : Submission) : Prop :=
  ∃ pre t post u, acts = pre ++ (sub.now, .api t) :: post ∧ sub ∈ t.submissions sub.now ∧
    Accepted s u (t.submissions sub.now) (System.after s pre).db
      (t.apply s sub.now (System.after s pre).db)

/-- A job and its message are as a submission inserted them. -/
def Inserted (s : Settings) (acts : List (Time × Act)) (j : DispatchJob) (m : Message) : Prop :=
  ∃ sub, Submits s acts sub ∧ m.original = newMessage s sub ∧ j.original = newJob s sub

section Inserted

variable {s : Settings} {acts : List (Time × Act)}

theorem Submits.append {sub : Submission} (h : Submits s acts sub) (a : Time × Act) :
    Submits s (acts ++ [a]) sub := by
  obtain ⟨pre, t, post, u, rfl, hsub, haccepted⟩ := h
  exact ⟨pre, t, post ++ [a], u, by simp, hsub, haccepted⟩

theorem inserted_kept (s : Settings) (acts : List (Time × Act)) :
    KeptByMoves s (Inserted s acts) := by
  refine ⟨fun j j' m ho _ _ h => ?_, fun _ _ _ _ _ _ _ _ _ written h => ?_⟩
  · obtain ⟨sub, hs, hm, hj⟩ := h
    exact ⟨sub, hs, hm, ho.trans hj⟩
  · obtain ⟨sub, hs, hm, hj⟩ := h
    exact ⟨sub, hs, written.moved.message_original.trans hm, written.moved.job_original.trans hj⟩

theorem submissions_now {now : Time} {t : ApiTxn} {sub : Submission}
    (h : sub ∈ t.submissions now) : sub.now = now := by
  cases t with
  | createMessage payload ids => rw [List.mem_singleton.1 h]
  | batchCreateMessage payload ids =>
    obtain ⟨⟨item, i⟩, -, rfl⟩ := List.mem_map.1 h
    rfl
  | _ => cases h

theorem System.after_append (s : Settings) (acts : List (Time × Act)) (a : Time × Act) :
    System.after s (acts ++ [a]) = (System.after s acts).step s a := by
  rw [after, run_append, run_singleton]
  rfl

theorem after_inserted (s : Settings) (acts : List (Time × Act)) :
    (System.after s acts).db.ForLinked (Inserted s acts) := by
  induction acts using List.reverseRecOn with
  | nil => exact fun j hj => absurd hj (Table.not_mem_empty j)
  | append_singleton acts a ih =>
    rw [System.after_append]
    obtain ⟨es, hmove, -⟩ := System.step_moved s (System.after s acts) a
    refine hmove.forLinked (inserted_kept s _) (System.after_consistent s acts).constrained ?_ ?_
    · intro t u ha haccepted sub hsub
      obtain ⟨now, b⟩ := a
      obtain rfl : b = .api t := ha
      obtain rfl := submissions_now hsub
      exact ⟨sub, ⟨acts, t, [], u, rfl, hsub, haccepted⟩, rfl, rfl⟩
    · intro j hj m hm hi
      obtain ⟨sub, hs, hmsg, hjob⟩ := ih j hj m hm hi
      exact ⟨sub, hs.append a, hmsg, hjob⟩

end Inserted

/-! ## The contexts of the calls -/

/-- The outcome is one of the answer. -/
def Recorded.Of (result : ProviderResult) : Recorded → Prop
  | .succeeded => result.outcome = .success
  | .providerPermanentFailure => result.outcome = .permanentFailure
  | _ => result.outcome = .temporaryFailure

theorem DispatchUseCase.Outcome.of_result {cfg : DispatchConfig} {result : ProviderResult}
    {jitter : Jitter} {now : Time} {job job' : DispatchJob} {message message' : Message}
    {r : Recorded} (h : Outcome cfg result jitter now job message r message' job') :
    r.Of result := by
  cases h <;> assumption

namespace System

variable {P : DeliveryContext → ProviderResult → Prop} {s : Settings} {sys sys' : System}

/-- The provider answers what it is given as `P` says. -/
def Answers (P : DeliveryContext → ProviderResult → Prop) (sys : System) (a : Time × Act) : Prop :=
  ∀ w result jobId context, a.2 = .send w result →
    sys.processes.find? w = some ⟨w, jobId, .delivering context⟩ → P context result

/-- The contexts of the calls are those of their messages. -/
structure ContextInv (P : DeliveryContext → ProviderResult → Prop) (sys : System) : Prop where
  delivering : ∀ p ∈ sys.processes, ∀ context, p.state = .delivering context →
    ∃ m, sys.messageOf p.jobId = some m ∧ m.context = context
  answered : ∀ p ∈ sys.processes, ∀ result, p.state = .answered result →
    ∃ m, sys.messageOf p.jobId = some m ∧ P m.context result
  recorded : ∀ id w messageId r, .recorded id w messageId r ∈ sys.log →
    ∃ m, sys.db.messages.find? messageId = some m ∧ ∃ result, P m.context result ∧ r.Of result

namespace ContextInv

/-- The messages of a state that only adds to them. -/
theorem of_extends (h : ContextInv P sys) (hdb : sys.db.Extends sys'.db)
    (hp : sys'.processes = sys.processes) {es : List Event} (hl : sys'.log = sys.log ++ es)
    (hes : ∀ id w messageId r, .recorded id w messageId r ∉ es) : ContextInv P sys' := by
  have hmessage : ∀ {jobId : UUID} {m : Message}, sys.messageOf jobId = some m →
      ∃ m', sys'.messageOf jobId = some m' ∧ m'.context = m.context := by
    intro jobId m hm
    obtain ⟨m', hm', ho⟩ := messageOf_extends hdb hm
    exact ⟨m', hm', Message.context_eq ho⟩
  refine ⟨fun p hp' context hs => ?_, fun p hp' result hs => ?_, fun id w messageId r he => ?_⟩
  · obtain ⟨m, hm, hc⟩ := h.delivering p (hp ▸ hp') context hs
    obtain ⟨m', hm', hc'⟩ := hmessage hm
    exact ⟨m', hm', hc'.trans hc⟩
  · obtain ⟨m, hm, hP⟩ := h.answered p (hp ▸ hp') result hs
    obtain ⟨m', hm', hc'⟩ := hmessage hm
    exact ⟨m', hm', hc' ▸ hP⟩
  · rw [hl] at he
    rcases List.mem_append.1 he with he | he
    · obtain ⟨m, hmf, result, hP, hr⟩ := h.recorded id w messageId r he
      obtain ⟨hm, rfl⟩ := Table.find?_eq_some.1 hmf
      obtain ⟨m', hm', ho⟩ := hdb.message m hm
      exact ⟨m', Table.find?_eq_some.2 ⟨hm', Message.id_eq ho⟩, result,
        Message.context_eq ho ▸ hP, hr⟩
    · exact absurd he (hes id w messageId r)

/-- A call that is new, or goes on. -/
theorem with_process (h : ContextInv P sys) {processes : Table Process.workerId} {p : Process}
    (hp : ∀ x ∈ processes, x ∈ sys.processes ∨ x = p)
    (hd : ∀ context, p.state = .delivering context →
      ∃ m, sys.messageOf p.jobId = some m ∧ m.context = context)
    (ha : ∀ result, p.state = .answered result →
      ∃ m, sys.messageOf p.jobId = some m ∧ P m.context result) :
    ContextInv P { sys with processes } := by
  refine ⟨fun x hx context hs => ?_, fun x hx result hs => ?_, h.recorded⟩
  · rcases hp x hx with hx | rfl
    · exact h.delivering x hx context hs
    · exact hd context hs
  · rcases hp x hx with hx | rfl
    · exact h.answered x hx result hs
    · exact ha result hs

/-- An outcome of an answer is recorded. -/
theorem with_recorded (h : ContextInv P sys) {id w messageId : ℕ} {r : Recorded} {m : Message}
    {result : ProviderResult} (hm : sys.db.messages.find? messageId = some m)
    (hP : P m.context result) (hr : r.Of result) :
    ContextInv P { sys with log := sys.log ++ [.recorded id w messageId r] } := by
  refine ⟨h.delivering, h.answered, fun id' w' messageId' r' he => ?_⟩
  rcases List.mem_append.1 he with he | he
  · exact h.recorded id' w' messageId' r' he
  · obtain ⟨rfl, rfl, rfl, rfl⟩ := Event.recorded.inj (List.mem_singleton.1 he)
    exact ⟨m, hm, result, hP, hr⟩

theorem mem_processes_put {p x : Process} (hx : x ∈ sys.processes.put p) :
    x ∈ sys.processes ∨ x = p := by
  rcases Table.mem_put.1 hx with ⟨hx, -⟩ | ⟨hx, -⟩
  · exact Or.inl hx
  · exact Or.inr hx

theorem claim (h : ContextInv P sys) (now : Time) (w : OwnerId) (jobId : UUID) :
    ContextInv P (sys.claim s now w jobId) := by
  have hext := step_extends s sys (now, .claim w jobId)
  simp only [System.step, System.act] at hext
  rcases sys.claim_cases s now w jobId with he | ⟨db', claim, processes, hc, hins, he⟩ <;>
    rw [he] at hext ⊢
  · exact h
  have hlogged : ContextInv P
      { sys with db := db', log := sys.log ++ (claimEnd now jobId w claim).2 } :=
    h.of_extends hext rfl rfl fun id w' messageId r hr => by
      cases claim <;> simp [claimEnd] at hr
  refine hlogged.with_process (fun x hx => (Table.mem_insert hins).1 hx) ?_ ?_
  · intro context hs
    cases claim with
    | delivery context' =>
      obtain rfl : context' = context := ProcessState.delivering.inj hs
      rcases claimForDelivery_ok hc with ⟨hn, -⟩ | ⟨job, message, op, message', job', hcl, hw, -⟩
      · cases hn
      have hdb : sys.db.Extends ({ sys with db := db' } : System).db := hext
      obtain ⟨m', hm', ho⟩ := messageOf_extends hdb
        (messageOf_eq_some.2 ⟨job, hcl.job_found, hcl.message_found⟩)
      refine ⟨m', hm', (Message.context_eq ho).trans ?_⟩
      cases hw
      rfl
    | _ => cases hs
  · intro result hs
    cases claim <;> cases hs

theorem send (h : ContextInv P sys) {w : OwnerId} {result : ProviderResult}
    (hP : ∀ jobId context, sys.processes.find? w = some ⟨w, jobId, .delivering context⟩ →
      P context result) : ContextInv P (sys.send w result) := by
  rcases sys.send_cases w result with he | ⟨jobId, context, hp, he⟩ <;> rw [he]
  · exact h
  have hlogged : ContextInv P { sys with log := sys.log ++ [.sent jobId w] } :=
    h.of_extends (.refl _) rfl rfl (by simp)
  refine hlogged.with_process (fun x hx => mem_processes_put hx) ?_ ?_
  · rintro context' ⟨⟩
  · rintro result' ⟨⟩
    obtain ⟨m, hm, hc⟩ := h.delivering _ (Table.find?_eq_some.1 hp).1 context rfl
    exact ⟨m, hm, hc ▸ hP jobId context hp⟩

theorem record (h : ContextInv P sys) (now : Time) (w : OwnerId) (jitter : Jitter) :
    ContextInv P (sys.record s now w jitter) := by
  have hext := step_extends s sys (now, .record w jitter)
  simp only [System.step, System.act] at hext
  have hended : ∀ {sys' : System} {jobId : UUID}, ContextInv P sys' →
      ContextInv P { sys' with processes := sys'.processes.put ⟨w, jobId, .ended⟩ } := by
    intro sys' jobId h'
    refine h'.with_process (fun x hx => mem_processes_put hx) ?_ ?_
    · rintro context ⟨⟩
    · rintro result ⟨⟩
  rcases sys.record_cases s now w jitter with
    he | ⟨jobId, result, hp, he | ⟨db', recorded, hr, he⟩⟩ <;> rw [he] at hext ⊢
  · exact h
  · exact hended h
  rcases recordOutcome_ok hr with
    ⟨rfl, rfl⟩ | ⟨job, message, r, message', job', rfl, hh, ho, hd⟩
  · have hlogged : ContextInv P { sys with log := sys.log ++ [] } :=
      h.of_extends (.refl _) rfl rfl (by simp)
    exact hended hlogged
  · obtain ⟨m, hm, hP⟩ := h.answered _ (Table.find?_eq_some.1 hp).1 result rfl
    obtain ⟨j, hj, hmf⟩ := messageOf_eq_some.1 hm
    obtain rfl : job = j := Option.some.inj (hh.job_found.symm.trans hj)
    obtain rfl : message = m := Option.some.inj (hh.message_found.symm.trans hmf)
    obtain ⟨m', hm', hom⟩ := hext.message message (Table.find?_eq_some.1 hmf).1
    have hmoved : ContextInv P { sys with db := db' } :=
      h.of_extends hext rfl (List.append_nil _).symm (by simp)
    refine hended (hmoved.with_recorded ?_ (Message.context_eq hom ▸ hP) ho.of_result)
    exact Table.find?_eq_some.2 ⟨hm', Message.id_eq hom⟩

theorem step (h : ContextInv P sys) {a : Time × Act} (ha : sys.Answers P a) :
    ContextInv P (sys.step s a) := by
  have hext := step_extends s sys a
  have hact : ContextInv P (sys.act s a.1 a.2) := by
    obtain ⟨now, a⟩ := a
    simp only [System.step] at hext
    cases a with
    | api t => exact h.of_extends hext rfl (List.append_nil _).symm (by simp)
    | reap p scan => exact h.of_extends hext rfl rfl (by simp)
    | relayClaim r p scans =>
      rcases sys.relayClaim_cases s now r p scans with he | ⟨_, he⟩ <;>
        rw [act, he] at hext ⊢
      · exact h
      · exact h.of_extends hext rfl (List.append_nil _).symm (by simp)
    | publish r accepts delivered =>
      obtain ⟨_, _, he⟩ := sys.publish_cases r accepts delivered
      rw [act, he]
      exact h.of_extends (.refl _) rfl (List.append_nil _).symm (by simp)
    | relayRecord r error jitter =>
      rcases sys.relayRecord_cases now r error jitter with he | ⟨_, _, _, he⟩ <;>
        rw [act, he] at hext ⊢
      · exact h
      · exact h.of_extends hext rfl (List.append_nil _).symm (by simp)
    | relayCrash r => exact h.of_extends (.refl _) rfl (List.append_nil _).symm (by simp)
    | dropTask jobId => exact h.of_extends (.refl _) rfl (List.append_nil _).symm (by simp)
    | claim w jobId => exact h.claim now w jobId
    | send w result => exact h.send fun jobId context => ha w result jobId context rfl
    | record w jitter => exact h.record now w jitter
    | workerCrash w =>
      rcases sys.workerCrash_cases w with he | ⟨jobId, _, -, he⟩ <;> rw [act, he]
      · exact h
      · refine h.with_process (fun x hx => mem_processes_put hx) ?_ ?_
        · rintro context ⟨⟩
        · rintro result ⟨⟩
  exact hact.of_extends (.refl _) rfl (List.append_nil _).symm (by simp)

end ContextInv

/-- The calls of a run have the contexts of their messages, and the outcomes are those of the
provider's answers. -/
theorem after_contextInv {acts : List (Time × Act)}
    (h : AllSteps (step s) (Answers P) {} acts) : ContextInv P (after s acts) :=
  AllSteps.invariant (P := ContextInv P) (fun _ _ ha h => h.step ha) acts h
    ⟨fun _ hp => absurd hp (Table.not_mem_empty _), fun _ hp => absurd hp (Table.not_mem_empty _),
      fun _ _ _ _ he => absurd he List.not_mem_nil⟩

end System

/-! ## The snapshots -/

/-- The snapshot in a job names the job's message, user and priority. -/
def SnapshotAgrees (j : DispatchJob) : Prop :=
  j.payload.messageId = j.messageId ∧ j.payload.userId = j.userId ∧
    j.payload.priority = j.priority

theorem RowMove.payload_eq {s : Settings} {sys : System} {now : Time} {j j' : DispatchJob} {a : Act}
    {es : List Event} (h : RowMove s sys now j a es j') : j'.payload = j.payload := by
  cases h with
  | recorded _ _ outcome => cases outcome <;> rfl
  | _ => rfl

theorem RowMove.original_eq {s : Settings} {sys : System} {now : Time} {j j' : DispatchJob}
    {a : Act} {es : List Event} (h : RowMove s sys now j a es j') : j'.original = j.original := by
  cases h with
  | recorded _ _ outcome => cases outcome <;> rfl
  | _ => rfl

theorem JobMove.snapshotAgrees {s : Settings} {sys : System} {now : Time} {a : Act}
    {es : List Event} {row row' : Option DispatchJob} (hmove : JobMove s sys now a row es row')
    (h : ∀ j, row = some j → SnapshotAgrees j) : ∀ j, row' = some j → SnapshotAgrees j := by
  cases hmove with
  | same => exact h
  | sent => exact h
  | created =>
    rintro j ⟨⟩
    exact ⟨rfl, rfl, rfl⟩
  | row move =>
    rintro j ⟨⟩
    have ho := move.original_eq
    unfold SnapshotAgrees
    rw [move.payload_eq, DispatchJob.messageId_eq ho, DispatchJob.userId_eq ho,
      DispatchJob.priority_eq ho]
    exact h _ rfl

theorem after_snapshot (s : Settings) (acts : List (Time × Act)) {j : DispatchJob}
    (hj : j ∈ (System.after s acts).db.jobs) : SnapshotAgrees j := by
  have hmoves : ∀ (sys : System) (a : Time × Act) es row', True →
      JobMove s sys a.1 a.2 (sys.db.jobs.find? j.id) es row' →
        (∀ j', sys.db.jobs.find? j.id = some j' → SnapshotAgrees j') →
          ∀ j', row' = some j' → SnapshotAgrees j' :=
    fun _ _ _ _ _ hmove h => hmove.snapshotAgrees h
  refine System.job_invariant (C := fun _ _ => True)
    (P := fun _ row _ => ∀ j, row = some j → SnapshotAgrees j) hmoves acts
    (AllSteps.of_forall (fun _ _ => trivial) acts) ?_ j (Table.find?_key hj)
  rintro j ⟨⟩

/-! ## Submitted and sent -/

/-- What the provider is given of a submission. -/
def Submission.context (sub : Submission) : DeliveryContext :=
  ⟨sub.ids.messageId, sub.request.recipient, sub.request.body, sub.request.priority⟩

theorem context_of_newMessage {s : Settings} {m : Message} {sub : Submission}
    (h : m.original = newMessage s sub) : m.context = sub.context :=
  (congrArg Message.context h :)

/-- The snapshot of a job that is as a submission inserted it. -/
theorem payload_of_newJob {s : Settings} {j : DispatchJob} {sub : Submission}
    (h : j.original = newJob s sub) (hs : SnapshotAgrees j) :
    j.payload = (newJob s sub).payload := by
  obtain ⟨hm, hu, hp⟩ := hs
  have hpayload := congrArg DispatchJob.payload h
  rw [← hpayload]
  show j.payload = ⟨j.messageId, j.userId, j.payload.recipient, j.payload.body, j.priority,
    j.payload.cost⟩
  rw [← hm, ← hu, ← hp]

/-- In every run a message, its job and the snapshot in it are what one accepted request of the
run submitted, and the context of a call, of which it gives the provider all but the priority, is
what the submission of its job said. -/
theorem contents_submitted (s : Settings) (acts : List (Time × Act)) :
    let sys := System.after s acts
    (∀ m ∈ sys.db.messages, ∃ sub, Submits s acts sub ∧ m.original = newMessage s sub ∧
      ∃ j ∈ sys.db.jobs, j.messageId = m.id ∧ j.original = newJob s sub ∧
        j.payload = (newJob s sub).payload) ∧
      ∀ p ∈ sys.processes, ∀ context, p.state = .delivering context →
        ∃ sub, Submits s acts sub ∧ p.jobId = sub.ids.jobId ∧ context = sub.context := by
  intro sys
  have hinserted := after_inserted s acts
  refine ⟨fun m hm => ?_, fun p hp context hs => ?_⟩
  · obtain ⟨j, hj, hl⟩ := (System.after_consistent s acts).message_job m hm
    obtain ⟨sub, hsub, hmsg, hjob⟩ := hinserted j hj m hm hl.messageId
    exact ⟨sub, hsub, hmsg, j, hj, hl.messageId, hjob,
      payload_of_newJob hjob (after_snapshot s acts hj)⟩
  · have hcontexts : System.ContextInv (fun _ _ => True) (System.after s acts) :=
      System.after_contextInv (AllSteps.of_forall (fun _ _ _ _ _ _ _ _ => trivial) acts)
    obtain ⟨m, hmof, rfl⟩ := hcontexts.delivering p hp context hs
    obtain ⟨j, hjf, hmf⟩ := System.messageOf_eq_some.1 hmof
    obtain ⟨hj, hi⟩ := Table.find?_eq_some.1 hjf
    obtain ⟨hm, hmi⟩ := Table.find?_eq_some.1 hmf
    obtain ⟨sub, hsub, hmsg, hjob⟩ := hinserted j hj m hm hmi.symm
    refine ⟨sub, hsub, ?_, context_of_newMessage hmsg⟩
    rw [← hi]
    exact (congrArg DispatchJob.id hjob :)

end Abrio
