import Abrio.RelayClaims

/-!
# The bookkeeping of publications

A relay holds the jobs it has claimed while it publishes them, and the other processes go on :
workers take the tasks that are there already, the reaper's sweeps are under way, other relays
claim. The transaction that records the publications updates the jobs that are still publishable
under the lock of the relay. A job that anyone else has changed meanwhile is not among them, and
does not come back (`not_held_of_changed`) : only the relay itself puts its lock on a row. So
what is recorded is what the relay did, and nothing newer is overwritten
(`publications_recorded`).
-/

open Relational Runs

namespace Abrio

open DispatchJobRepository DispatchUseCase

/-! ## The loop -/

namespace Relay

/-- The loop publishes up to the first job the broker does not accept. -/
theorem publishLoop_eq (accepts : UUID → Bool) : ∀ claimed : List ClaimedJob,
    publishLoop accepts claimed = ((claimed.takeWhile fun job => accepts job.id).map ClaimedJob.id,
      claimed.dropWhile fun job => accepts job.id)
  | [] => rfl
  | job :: jobs => by
    rw [publishLoop, publishLoop_eq accepts jobs]
    by_cases h : accepts job.id = true
    · simp [h]
    · simp [h]

theorem publishLoop_append (accepts : UUID → Bool) (claimed : List ClaimedJob) :
    (publishLoop accepts claimed).1 ++ (publishLoop accepts claimed).2.map ClaimedJob.id =
      claimed.map ClaimedJob.id := by
  rw [publishLoop_eq, ← List.map_append, List.takeWhile_append_dropWhile]

theorem calculateBackoff_pos (retryCount : ℕ) (jitter : Jitter) :
    0 < calculateBackoff retryCount jitter := by
  have hpow : (1 : ℤ) ≤ 2 ^ min retryCount 6 := one_le_pow₀ (by norm_num)
  have hmin : (1 : ℤ) ≤ min 60 (2 ^ min retryCount 6) := le_min (by norm_num) hpow
  unfold calculateBackoff seconds
  have hjitter : (0 : ℤ) ≤ ((jitter : ℕ) : ℤ) := Int.natCast_nonneg _
  linarith

theorem recordPublications_same (r : OwnerId) (published : List UUID) (failed : List ClaimedJob)
    (error : String) (jitter : Jitter) (now : Time) (db : Db) :
    let db' := recordPublications r published failed error jitter now db
    db'.messages = db.messages ∧ db'.balances = db.balances ∧ db'.users = db.users := by
  unfold recordPublications markPublishRetry markPublished
  split_ifs <;> exact ⟨rfl, rfl, rfl⟩

end Relay

/-! ## Acts of other processes -/

/-- The relay that acts. -/
def Act.relay? : Act → Option OwnerId
  | .relayClaim r _ _ => some r
  | .publish r _ _ => some r
  | .relayRecord r _ _ => some r
  | .relayCrash r => some r
  | _ => none

/-- The relay whose act it is, if it is one's. -/
def RelaysAct.relay? : RelaysAct → Option OwnerId
  | .claim r _ => some r
  | .act (.act a) => a.relay?
  | .act _ => none

/-- The row is publishable under the lock of the relay. -/
def HeldFor (r : OwnerId) (j : DispatchJob) : Prop :=
  publishable j = true ∧ j.lockedBy = some r

instance (r : OwnerId) (j : DispatchJob) : Decidable (HeldFor r j) :=
  inferInstanceAs (Decidable (_ ∧ _))

theorem heldBy_iff {ids : List UUID} {r : OwnerId} {j : DispatchJob} :
    heldBy ids r j = true ↔ j.id ∈ ids ∧ HeldFor r j := by
  simp only [heldBy, HeldFor, Bool.and_eq_true, decide_eq_true_eq, and_assoc]
  exact and_congr_right fun _ => And.comm

/-- What the relay does not hold, or has not claimed, the bookkeeping leaves alone. -/
theorem Relay.find?_recordPublications_of_not_held {r : OwnerId} {published : List UUID}
    {failed : List ClaimedJob} {error : String} {jitter : Jitter} {now : Time} {db : Db} {id : UUID}
    (h : ∀ j, db.jobs.find? id = some j →
      ¬HeldFor r j ∨ j.id ∉ published ++ failed.map ClaimedJob.id) :
    (recordPublications r published failed error jitter now db).jobs.find? id =
      db.jobs.find? id := by
  rw [find?_recordPublications]
  cases hj : db.jobs.find? id with
  | none => rfl
  | some j =>
    have hn := h j hj
    rw [List.mem_append, not_or] at hn
    rw [Option.map_some, if_neg, if_neg]
    · exact fun h => hn.elim (fun hn => hn (heldBy_iff.1 h).2) fun hn => hn.2 (heldBy_iff.1 h).1
    · exact fun h => hn.elim (fun hn => hn (heldBy_iff.1 h).2) fun hn => hn.1 (heldBy_iff.1 h).1

theorem not_heldFor_lockRow {r r' : OwnerId} (hr : r' ≠ r) (t : Time) (j : DispatchJob) :
    ¬HeldFor r (lockRow r' t j) :=
  fun h => hr (Option.some.inj h.2)

/-- The row of a job is what it was, or it is not held for the relay. -/
def Spared (r : OwnerId) (row row' : Option DispatchJob) : Prop :=
  row' = row ∨ ∀ j, row' = some j → ¬HeldFor r j

/-- A row that is not held for the relay stays so. -/
theorem Spared.not_held {r : OwnerId} {row row' : Option DispatchJob}
    (hrow : ∀ j, row = some j → ¬HeldFor r j) (h : Spared r row row') :
    ∀ j, row' = some j → ¬HeldFor r j := by
  rcases h with rfl | h
  · exact hrow
  · exact h

theorem Spared.trans {r : OwnerId} {row row' row'' : Option DispatchJob} (h : Spared r row row')
    (h' : Spared r row' row'') : Spared r row row'' := by
  rcases h with rfl | h
  · exact h'
  · exact Or.inr (h'.not_held h)

/-- An update that leaves no row for the relay. -/
theorem Spared.of_update {r : OwnerId} {row row' : Option DispatchJob} {p : DispatchJob → Prop}
    [DecidablePred p] {update : DispatchJob → DispatchJob}
    (h : row' = row.map fun j => if p j then update j else j)
    (hupdate : ∀ j, ¬HeldFor r (update j)) : Spared r row row' := by
  subst h
  cases row with
  | none => exact Or.inl rfl
  | some j =>
    rw [Option.map_some]
    split_ifs
    · right
      rintro j' ⟨⟩
      exact hupdate j
    · exact Or.inl rfl

/-- No other process moves a row to one that is held for the relay. -/
theorem RowMove.not_heldFor {s : Settings} {sys : System} {now : Time} {j j' : DispatchJob}
    {a : Act} {es : List Event} (h : RowMove s sys now j a es j') {r : OwnerId}
    (ha : a.relay? ≠ some r) : ¬HeldFor r j' := by
  rintro ⟨hp, hl⟩
  cases h with
  | locked => exact ha hl
  | published => cases hl
  | publishRetry => cases hl
  | reclaimed => cases hl
  | expired => cases hp
  | claimed => cases hp
  | recorded dispatching locked_by outcome =>
    cases outcome with
    | providerTemporaryFailure => cases hl
    | _ => cases hp

namespace System

variable {s : Settings} {sys : System} {r : OwnerId}

/-- What a relay holds is its own. -/
theorem publications_step {a : Time × Act} (ha : a.2.relay? ≠ some r) :
    (sys.step s a).publications.find? r = sys.publications.find? r := by
  obtain ⟨now, a⟩ := a
  have hne : ∀ r', a.relay? = some r' → r' ≠ r := fun r' h hr => ha (h.trans (congrArg some hr))
  show (sys.act s now a).publications.find? r = _
  cases a with
  | relayClaim r' p scans =>
    rw [act, relayClaim]
    dsimp only
    split
    · rfl
    · rename_i publications hins
      split_ifs
      · rfl
      · rw [Table.find?_insert hins, if_neg (hne r' rfl)]
  | publish r' accepts delivered =>
    rw [act, publish]
    split
    · rename_i r'' claimed hfind
      obtain ⟨hmem, rfl⟩ := Table.find?_eq_some.1 hfind
      exact (Table.find?_put (r := ⟨r'', claimed, some (Relay.publishLoop accepts claimed)⟩) hmem
        rfl r).trans (if_neg (hne _ rfl))
    · rfl
  | relayRecord r' error jitter =>
    rw [act, relayRecord]
    split
    · exact Table.find?_erase_of_ne _ (hne r' rfl)
    · rfl
  | relayCrash r' => exact Table.find?_erase_of_ne _ (hne r' rfl)
  | claim w jobId =>
    rcases sys.claim_cases s now w jobId with h | ⟨_, _, _, -, -, h⟩ <;> rw [act, h]
  | send w result =>
    rcases sys.send_cases w result with h | ⟨_, _, -, h⟩ <;> rw [act, h]
  | record w jitter =>
    rcases sys.record_cases s now w jitter with h | ⟨_, _, -, h | ⟨_, _, -, h⟩⟩ <;> rw [act, h]
  | workerCrash w =>
    rcases sys.workerCrash_cases w with h | ⟨_, _, -, h⟩ <;> rw [act, h]
  | _ => rfl

end System

namespace Relays

variable {s : Settings} {f : Relays} {r : OwnerId}

/-- What an act of a claim does outside of the claims. -/
theorem claim_cases (now : Time) (r' : OwnerId) (a : ClaimAct) :
    ((f.claim s now r' a).db = f.db ∧ (f.claim s now r' a).publications = f.publications) ∨
      ∃ c publications, f.claims.find? r' = some c ∧
        f.claim s now r' a = f.committed now c publications ∧
        (publications = f.publications ∨ ∃ claimed,
          f.publications.insert ⟨r', claimed, none⟩ = some publications) := by
  cases hfind : f.claims.find? r' with
  | none =>
    left
    cases a with
    | begin p =>
      simp only [claim, hfind]
      split <;> exact ⟨rfl, rfl⟩
    | _ => simp only [claim, hfind, and_self]
  | some c =>
    obtain ⟨-, rfl⟩ := Table.find?_eq_some.1 hfind
    cases a <;> simp only [claim, hfind]
    case begin => exact Or.inl ⟨trivial, trivial⟩
    case fair =>
      left
      split <;> exact ⟨rfl, rfl⟩
    case visit => exact Or.inl ⟨trivial, trivial⟩
    case topup =>
      left
      split
      · split_ifs <;> exact ⟨rfl, rfl⟩
      · exact ⟨rfl, rfl⟩
    case commit =>
      split_ifs
      · exact Or.inr ⟨c, _, rfl, rfl, Or.inl rfl⟩
      · refine Or.inr ⟨c, _, rfl, rfl, ?_⟩
        cases hins : f.publications.insert ⟨c.relayId, _, none⟩ with
        | none => exact Or.inl rfl
        | some publications => exact Or.inr ⟨_, hins⟩
      · exact Or.inl ⟨rfl, rfl⟩
    case rollback => exact Or.inl ⟨trivial, trivial⟩

/-- What a relay holds is its own. -/
theorem publications_step {a : Time × RelaysAct} (ha : a.2.relay? ≠ some r) :
    (f.step s a).publications.find? r = f.publications.find? r := by
  obtain ⟨now, a⟩ := a
  cases a with
  | claim r' b =>
    have hne : r' ≠ r := fun hr => ha (congrArg some hr)
    show (f.claim s now r' b).publications.find? r = _
    rcases claim_cases (s := s) (f := f) now r' b with
      ⟨-, h⟩ | ⟨c, publications, -, h, rfl | ⟨claimed, hins⟩⟩
    · rw [h]
    · rw [h]
      rfl
    · rw [h]
      exact (Table.find?_insert hins r).trans (if_neg hne)
  | act b =>
    simp only [step]
    split_ifs
    · rfl
    · cases b with
      | act b => exact System.publications_step (a := (now, b)) ha
      | select => rfl
      | write i =>
        simp only [Interleaved.step, Interleaved.write]
        split <;> rfl

/-- What the steps of the whole system do to a row. -/
theorem spared_of_moves {sys : System} {now : Time} {b : Act} {es : List Event}
    {row row' : Option DispatchJob} (hb : b.relay? ≠ some r)
    (h : JobMove s sys now b row es row') : Spared r row row' := by
  cases h with
  | same => exact Or.inl rfl
  | sent => exact Or.inl rfl
  | created =>
    right
    rintro j ⟨⟩ ⟨-, hl⟩
    cases hl
  | row move =>
    right
    rintro j ⟨⟩
    exact move.not_heldFor hb

/-- No other process moves a row to one that is held for the relay. -/
theorem row_step {a : Time × RelaysAct} (ha : a.2.relay? ≠ some r) (id : UUID) :
    Spared r (f.db.jobs.find? id) ((f.step s a).db.jobs.find? id) := by
  obtain ⟨now, a⟩ := a
  cases a with
  | claim r' b =>
    have hne : r' ≠ r := fun hr => ha (congrArg some hr)
    show Spared r _ ((f.claim s now r' b).db.jobs.find? id)
    rcases claim_cases (s := s) (f := f) now r' b with
      ⟨h, -⟩ | ⟨c, publications, hc, h, -⟩
    · rw [h]
      exact Or.inl rfl
    · obtain ⟨-, rfl⟩ := Table.find?_eq_some.1 hc
      rw [h]
      exact .of_update (find?_committed _ _) (not_heldFor_lockRow hne _)
  | act b =>
    simp only [step]
    split_ifs
    · exact Or.inl rfl
    · cases b with
      | act b =>
        obtain ⟨es, -, hmove⟩ := System.step_moves s f.toSystem (now, b) id
        exact spared_of_moves ha hmove
      | select => exact Or.inl rfl
      | write i =>
        simp only [Interleaved.step, Interleaved.write]
        split
        · exact Or.inl rfl
        · exact .of_update (find?_reclaimIds _ _) fun j h => by cases h.2

/-! ## From the claim to the record -/

theorem db_publish (f : Relays) (r : OwnerId) (accepts delivered : UUID → Bool) (now : Time) :
    (f.toInterleaved.step s (now, .act (.publish r accepts delivered))).db = f.db := by
  obtain ⟨tasks, publications, h⟩ := f.publish_cases r accepts delivered
  simp only [Interleaved.step, System.step, System.act, h]

theorem db_publish_step (f : Relays) (r : OwnerId) (accepts delivered : UUID → Bool) (now : Time) :
    (f.step s (now, .act (.act (.publish r accepts delivered)))).db = f.db := by
  have hnext := db_publish (s := s) f r accepts delivered now
  simp only [step]
  split
  · rfl
  · exact hnext

/-- The publications of a relay, which wait for no one. -/
theorem publish_step {claimed : List ClaimedJob}
    (h : f.publications.find? r = some ⟨r, claimed, none⟩) (accepts delivered : UUID → Bool)
    (now : Time) :
    (f.step s (now, .act (.act (.publish r accepts delivered)))).publications.find? r =
      some ⟨r, claimed, some (Relay.publishLoop accepts claimed)⟩ := by
  have hwait : f.waits (f.toInterleaved.step s (now, .act (.publish r accepts delivered))) =
      false := by
    simp [waits, db_publish]
  have hput := Table.find?_put (r := ⟨r, claimed, some (Relay.publishLoop accepts claimed)⟩)
    (Table.find?_eq_some.1 h).1 rfl r
  simp only [step, hwait, InterleavedAct.isRelayClaim, Bool.or_self, Bool.false_eq_true, if_false]
  simp only [Interleaved.step, System.step, System.act, System.publish, h]
  exact hput.trans (if_pos rfl)

/-- The bookkeeping of a relay, once no open claim holds a row that it changes. -/
theorem record_step {claimed failed : List ClaimedJob} {published : List UUID}
    (h : f.publications.find? r = some ⟨r, claimed, some (published, failed)⟩) {error : String}
    {jitter : Jitter} {now : Time}
    (hgo : f.waits (f.toInterleaved.step s (now, .act (.relayRecord r error jitter))) = false) :
    (f.step s (now, .act (.act (.relayRecord r error jitter)))).db =
      Relay.recordPublications r published failed error jitter now f.db := by
  simp only [step, hgo, InterleavedAct.isRelayClaim, Bool.or_self, Bool.false_eq_true, if_false]
  simp only [Interleaved.step, System.step, System.act, System.relayRecord, h]

/-- An act of another process, or the publications of the relay itself. -/
def Quiet (r : OwnerId) (a : Time × RelaysAct) : Prop :=
  a.2.relay? ≠ some r ∨ ∃ accepts delivered, a.2 = .act (.act (.publish r accepts delivered))

/-- A row that has changed since is not held for the relay. -/
theorem not_held_of_changed {acts : List (Time × RelaysAct)} (hacts : ∀ a ∈ acts, Quiet r a)
    (id : UUID) :
    Spared r (f.db.jobs.find? id) ((run (step s) f acts).db.jobs.find? id) := by
  induction acts generalizing f with
  | nil => exact Or.inl rfl
  | cons a acts ih =>
    have hstep : Spared r (f.db.jobs.find? id) ((f.step s a).db.jobs.find? id) := by
      rcases hacts a List.mem_cons_self with ha | ⟨accepts, delivered, ha⟩
      · exact row_step ha id
      · left
        obtain ⟨now, b⟩ := a
        obtain rfl : b = _ := ha
        rw [db_publish_step]
    rw [run_cons]
    exact hstep.trans (ih fun b hb => hacts b (List.mem_cons_of_mem _ hb))

/-- Nor is one that was changed before. -/
theorem not_held_of_changed_before {acts pre : List (Time × RelaysAct)}
    (hacts : ∀ a ∈ acts, Quiet r a) (hpre : pre <+: acts) {id : UUID}
    (hne : (run (step s) f pre).db.jobs.find? id ≠ f.db.jobs.find? id) :
    ∀ j, (run (step s) f acts).db.jobs.find? id = some j → ¬HeldFor r j := by
  obtain ⟨post, rfl⟩ := hpre
  have hfirst : ∀ j, (run (step s) f pre).db.jobs.find? id = some j → ¬HeldFor r j :=
    (not_held_of_changed (fun a ha => hacts a (List.mem_append_left _ ha)) id).resolve_left hne
  rw [run_append]
  exact Spared.not_held hfirst
    (not_held_of_changed (fun a ha => hacts a (List.mem_append_right _ ha)) id)

/-- A relay keeps what it holds while others act. -/
theorem publications_run {acts : List (Time × RelaysAct)}
    (hacts : ∀ a ∈ acts, a.2.relay? ≠ some r) :
    (run (step s) f acts).publications.find? r = f.publications.find? r := by
  induction acts generalizing f with
  | nil => rfl
  | cons a acts ih =>
    rw [run_cons, ih fun b hb => hacts b (List.mem_cons_of_mem _ hb)]
    exact publications_step (hacts a List.mem_cons_self)

end Relays

/-- Between the claim of a relay, its publications and the transaction that records them the other
processes may do anything. Every job that is still publishable under the lock of the relay is
recorded as published or put back to be published again; whatever has changed since the claim, and
everything else, stays as it is. -/
theorem publications_recorded (s : Settings) {f : Relays} {r : OwnerId} {claimed : List ClaimedJob}
    (hclaimed : f.publications.find? r = some ⟨r, claimed, none⟩)
    (accepts delivered : UUID → Bool) {acts acts' : List (Time × RelaysAct)}
    (hacts : ∀ a ∈ acts ++ acts', a.2.relay? ≠ some r) (t now : Time) (error : String)
    (jitter : Jitter) :
    let published := (Relay.publishLoop accepts claimed).1
    let failed := (Relay.publishLoop accepts claimed).2
    let between := acts ++ (t, .act (.act (.publish r accepts delivered))) :: acts'
    let f' := run (Relays.step s) f between
    let g := f'.step s (now, .act (.act (.relayRecord r error jitter)))
    f'.waits (f'.toInterleaved.step s (now, .act (.relayRecord r error jitter))) = false →
    published ++ failed.map ClaimedJob.id = claimed.map ClaimedJob.id ∧
    (∀ j ∈ f'.db.jobs, HeldFor r j → j.id ∈ published → g.db.jobs.find? j.id = some
      { j with
        status := .published
        publishedAt := some now
        lockedAt := none
        lockedBy := none
        lastError := none
        updatedAt := now }) ∧
    (∀ j ∈ f'.db.jobs, HeldFor r j → j.id ∉ published → j.id ∈ failed.map ClaimedJob.id →
      ∃ delay, 0 < delay ∧ g.db.jobs.find? j.id = some
        { j with
          status := .retry
          retryCount := j.retryCount + 1
          availableAt := now + delay
          lockedAt := none
          lockedBy := none
          lastError := some (truncateError error)
          updatedAt := now }) ∧
    (∀ j ∈ f'.db.jobs, ¬HeldFor r j ∨ j.id ∉ claimed.map ClaimedJob.id →
      g.db.jobs.find? j.id = some j) ∧
    (∀ pre, pre <+: between → ∀ id,
      (run (Relays.step s) f pre).db.jobs.find? id ≠ f.db.jobs.find? id →
        g.db.jobs.find? id = f'.db.jobs.find? id) ∧
    (∀ j ∈ f'.db.jobs, (g.db.jobs.find? j.id).map DispatchJob.deliveryAttempts =
      some j.deliveryAttempts) ∧
    g.db.messages = f'.db.messages ∧ g.db.balances = f'.db.balances ∧
      g.db.users = f'.db.users := by
  intro published failed between f' g hgo
  have hquiet : ∀ a ∈ between, Relays.Quiet r a := by
    intro a ha
    rcases List.mem_append.1 ha with ha | ha
    · exact Or.inl (hacts a (List.mem_append_left _ ha))
    · rcases List.mem_cons.1 ha with rfl | ha
      · exact Or.inr ⟨accepts, delivered, rfl⟩
      · exact Or.inl (hacts a (List.mem_append_right _ ha))
  have hpub : f'.publications.find? r = some ⟨r, claimed, some (published, failed)⟩ := by
    have hbefore : (run (Relays.step s) f acts).publications.find? r = f.publications.find? r :=
      Relays.publications_run fun a ha => hacts a (List.mem_append_left _ ha)
    have hpublish := Relays.publish_step (s := s) (hbefore.trans hclaimed) accepts delivered t
    rw [show f' = _ from run_append _ _ _ _, run_cons, Relays.publications_run fun a ha =>
      hacts a (List.mem_append_right _ ha)]
    exact hpublish
  have hdb : g.db = Relay.recordPublications r published failed error jitter now f'.db :=
    Relays.record_step hpub hgo
  have happend : published ++ failed.map ClaimedJob.id = claimed.map ClaimedJob.id :=
    Relay.publishLoop_append accepts claimed
  have hrow : ∀ j ∈ f'.db.jobs, g.db.jobs.find? j.id =
      some (if heldBy published r j then publishedRow now j
        else if heldBy (failed.map ClaimedJob.id) r j then
          publishRetryRow now (calculateBackoff (Relay.highestRetryCount failed) jitter) error j
        else j) := fun j hj => by
    rw [hdb, Relay.find?_recordPublications, Table.find?_key hj, Option.map_some]
  refine ⟨happend, fun j hj hheld hid => ?_, fun j hj hheld hid hid' => ?_, fun j hj hn => ?_,
    fun pre hpre id hne => ?_, fun j hj => ?_, ?_⟩
  · rw [hrow j hj, if_pos (heldBy_iff.2 ⟨hid, hheld⟩)]
    rfl
  · refine ⟨_, Relay.calculateBackoff_pos (Relay.highestRetryCount failed) jitter, ?_⟩
    rw [hrow j hj, if_neg (fun h => hid (heldBy_iff.1 h).1), if_pos (heldBy_iff.2 ⟨hid', hheld⟩)]
    rfl
  · rw [hdb, Relay.find?_recordPublications_of_not_held, Table.find?_key hj]
    rw [Table.find?_key hj, happend]
    rintro j' ⟨⟩
    exact hn
  · rw [hdb]
    exact Relay.find?_recordPublications_of_not_held fun j hj =>
      Or.inl (Relays.not_held_of_changed_before hquiet hpre hne j hj)
  · rw [hrow j hj, Option.map_some]
    split_ifs <;> rfl
  · rw [hdb]
    exact Relay.recordPublications_same _ _ _ _ _ _ _

deriving instance DecidableEq for Publication

/-- Relay 3 has claimed two jobs. -/
def heldSample : List (Time × RelaysAct) :=
  [(0, .act (.act (.api (.createUser 1 "user")))),
    (0, .act (.act (.api (.topupUserCredits 1 5)))),
    (0, .act (.act (.api (.createMessage ⟨1, "09121234567", "hello", .normal, 7⟩ ⟨10, 20⟩)))),
    (0, .act (.act (.api (.createMessage ⟨1, "09121234567", "hello", .normal, 8⟩ ⟨11, 21⟩)))),
    (0, .claim 3 (.begin .normal)), (0, .claim 3 (.fair .stored .stored)), (0, .claim 3 .visit),
    (0, .claim 3 .visit), (0, .claim 3 (.topup .stored)), (0, .claim 3 .commit)]

/-- Of two jobs the broker accepts the first, which a worker takes at once. Its row stays, and the
other job is put back. -/
theorem publications_recorded_sample :
    let f' := run (Relays.step {}) (Relays.after {} heldSample)
      ([] ++ (1, .act (.act (.publish 3 (fun id => id = 20) fun _ => true))) ::
        [(2, .act (.act (.claim 9 20)))])
    let g := f'.step {} (3, .act (.act (.relayRecord 3 "" 0)))
    g.db.jobs.find? 20 = f'.db.jobs.find? 20 ∧
      (f'.db.jobs.find? 20).map DispatchJob.status = some .dispatching ∧
      (g.db.jobs.find? 21).map DispatchJob.status = some .retry := by
  refine ⟨(@publications_recorded {} (Relays.after {} heldSample) 3 [⟨20, 0⟩, ⟨21, 0⟩] ?_
    (fun id => id = 20) (fun _ => true) [] [(2, .act (.act (.claim 9 20)))] ?_ 1 3 "" 0
    ?_).2.2.2.2.1 _ List.prefix_rfl 20 ?_, ?_, ?_⟩
  all_goals decide +kernel

end Abrio
