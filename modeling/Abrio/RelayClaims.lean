import Abrio.Reaper

/-!
# Claims side by side

Here `claim_batch` runs statement by statement, for any number of relays at once. A claim
reads its clock, then issues two queries, each on a snapshot of its own. A query visits the
rows its snapshot offers one after the other : a row that another open claim has locked is
skipped, any other is locked in its newest version if the clause still holds of that. Rows
change at the commit only, and a transaction that would change a locked row waits.

Two open claims never hold one job. A job that has been claimed is claimed again only after
the lease, counted between the clock readings of the two claims, or after it was put back
(`relay_claims_exclusive`). Two claims that overlap can therefore share a job when one stays
open for longer than the lease (`overlapping_claims_share`).
-/

open Relational Runs

namespace Abrio

open DispatchJobRepository DispatchUseCase

/-- How far a `claim_batch` is, with the rows its query has still to visit and those that are
locked so far. -/
inductive ClaimPhase
  | started
  | fair (todo : List UUID) (jobs : List DispatchJob)
  | topup (todo : List UUID) (jobs : List DispatchJob)

/-- The rows that are still to be locked. -/
def ClaimPhase.todo : ClaimPhase → List UUID
  | .started => []
  | .fair todo _ => todo
  | .topup todo _ => todo

/-- The rows that are locked. -/
def ClaimPhase.jobs : ClaimPhase → List DispatchJob
  | .started => []
  | .fair _ jobs => jobs
  | .topup _ jobs => jobs

/-- An open claim of a relay. -/
structure ClaimTxn where
  relayId : OwnerId
  priority : MessagePriority
  now : Time
  phase : ClaimPhase := .started

/-- How a job comes back to wait for a relay, unlocked. -/
inductive PutBack
  | publishRetry
  | reaper
  | deliveryRetry
  deriving DecidableEq

/-- What happens to a job between the relays. -/
inductive RelayEvent
  | claimed (relayId : OwnerId) (jobId : UUID) (time : Time)
  | putBack (jobId : UUID) (how : PutBack)
  deriving DecidableEq

/-- The job it is about. -/
def RelayEvent.jobId : RelayEvent → UUID
  | .claimed _ jobId _ => jobId
  | .putBack jobId _ => jobId

/-- The system with the open claims of its relays. -/
structure Relays extends Interleaved where
  claims : Table ClaimTxn.relayId := .empty
  relayLog : List RelayEvent := []

/-- The statements of a claim. Rows are visited one by one. -/
inductive ClaimAct
  | begin (priority : MessagePriority)
  | fair (ranked fair : Scan DispatchJob)
  | visit
  | topup (scan : Scan DispatchJob)
  | commit
  | rollback

/-- A statement of a claim, or anything else. -/
inductive RelaysAct
  | act (a : InterleavedAct)
  | claim (relayId : OwnerId) (a : ClaimAct)

/-! ## The statements of a claim -/

namespace ClaimTxn

variable (s : Settings) (c : ClaimTxn)

/-- The rows that the claim has locked. -/
def jobs : List DispatchJob :=
  c.phase.jobs

/-- The eligibility clause of the claim. -/
def eligible (j : DispatchJob) : Bool :=
  DispatchJobRepository.eligible c.priority c.now (c.now - seconds leaseSeconds) j

/-- `limit`. -/
def limit : ℕ :=
  (s.priorityConfig c.priority).batchSize

/-- The first query begins : its sub-query and its rows are those of the snapshot. -/
def fair (ranked fair : Scan DispatchJob) (db : Db) : ClaimTxn :=
  let ids := fairIds c.eligible (c.limit s) (s.priorityConfig c.priority).perUserLimit ranked
    db.jobs.rows
  { c with phase := .fair ((fairQuery c.eligible ids [] fair db.jobs.rows).map (·.id)) [] }

/-- The second query begins. Its limit counts the rows it locks, so every row may be visited. -/
def topup (scan : Scan DispatchJob) (db : Db) : ClaimTxn :=
  let rows := topupQuery c.eligible (c.jobs.map (·.id)) [] db.jobs.rows.length scan db.jobs.rows
  { c with phase := .topup (rows.map (·.id)) c.jobs }

/-- `FOR UPDATE SKIP LOCKED` on one row : its newest version, when no one else has locked it
and the clause holds. The ids that the clause also asks for do not change. -/
def lock (locked : List UUID) (db : Db) (id : UUID) : List DispatchJob :=
  if id ∈ locked then [] else ((db.jobs.find? id).filter c.eligible).toList

/-- The running query visits its next row. -/
def visit (locked : List UUID) (db : Db) : ClaimTxn :=
  match c.phase with
  | .fair (id :: todo) jobs => { c with phase := .fair todo (jobs ++ c.lock locked db id) }
  | .topup (id :: todo) jobs =>
    if jobs.length < c.limit s then
      { c with phase := .topup todo (jobs ++ c.lock locked db id) }
    else { c with phase := .topup todo jobs }
  | _ => c

/-- Both queries are over. The second one is left out when the first has filled the batch. -/
def complete : Bool :=
  match c.phase with
  | .fair [] jobs => c.limit s ≤ jobs.length
  | .topup [] _ => true
  | _ => false

end ClaimTxn

namespace Relays

variable (s : Settings) (f : Relays)

/-- The rows that claims other than the one of `r` have locked. -/
def lockedByOthers (r : OwnerId) : List UUID :=
  (f.claims.rows.filter fun c => c.relayId ≠ r).flatMap fun c => c.jobs.map (·.id)

/-- The rows that open claims have locked. -/
def locked : List UUID :=
  f.claims.rows.flatMap fun c => c.jobs.map (·.id)

/-- A relay that holds no claimed jobs begins a claim; the other acts are those of its open
claim. -/
def claim (now : Time) (r : OwnerId) (a : ClaimAct) : Relays :=
  match a, f.claims.find? r with
  | .begin priority, none =>
    match f.publications.find? r, f.claims.insert ⟨r, priority, now, .started⟩ with
    | none, some claims => { f with clock := now, claims }
    | _, _ => { f with clock := now }
  | .fair ranked fair, some c =>
    match c.phase with
    | .started => { f with clock := now, claims := f.claims.put (c.fair s ranked fair f.db) }
    | _ => { f with clock := now }
  | .visit, some c =>
    { f with clock := now, claims := f.claims.put (c.visit s (f.lockedByOthers r) f.db) }
  | .topup scan, some c =>
    match c.phase with
    | .fair [] jobs =>
      if jobs.length < c.limit s then
        { f with clock := now, claims := f.claims.put (c.topup scan f.db) }
      else { f with clock := now }
    | _ => { f with clock := now }
  | .commit, some c =>
    if c.complete s then
      { f with
        db := { f.db with
          jobs := f.db.jobs.updateWhere (fun j => j.id ∈ c.jobs.map (·.id)) (lockRow r c.now)
            fun _ _ => rfl }
        clock := now
        publications :=
          if c.jobs.isEmpty then f.publications
          else (f.publications.insert
            ⟨r, c.jobs.map fun job => ⟨job.id, job.retryCount⟩, none⟩).getD f.publications
        claims := f.claims.erase r
        relayLog := f.relayLog ++ c.jobs.map fun job => .claimed r job.id c.now }
    else { f with clock := now }
  | .rollback, some _ => { f with clock := now, claims := f.claims.erase r }
  | _, _ => { f with clock := now }

/-- The rows of open claims stay as they are : a transaction that would change one waits. -/
def waits (next : Interleaved) : Bool :=
  f.locked.any fun id => next.db.jobs.find? id ≠ f.db.jobs.find? id

end Relays

/-- How an act puts jobs back, if it does. -/
def InterleavedAct.putsBack : InterleavedAct → Option PutBack
  | .act (.relayRecord _ _ _) => some .publishRetry
  | .act (.reap _ _) => some .reaper
  | .write _ => some .reaper
  | .act (.record _ _) => some .deliveryRetry
  | _ => none

/-- A claim in one step, which the statements of `Relays.claim` replace. -/
def InterleavedAct.isRelayClaim : InterleavedAct → Bool
  | .act (.relayClaim _ _ _) => true
  | _ => false

namespace Relays

variable (s : Settings) (f : Relays)

/-- The jobs that are put back by the act that leads to `next`. -/
def putBacks (a : InterleavedAct) (next : Interleaved) : List RelayEvent :=
  match a.putsBack with
  | none => []
  | some how => (next.db.jobs.rows.filter fun j =>
      (j.status = .retry ∧ j.lockedAt = none) ∧ f.db.jobs.find? j.id ≠ some j).map
        fun j => .putBack j.id how

/-- One statement. An act that needs a row which a claim has locked waits for it. -/
def step (a : Time × RelaysAct) : Relays :=
  match a.2 with
  | .claim r b => f.claim s a.1 r b
  | .act b =>
    let next := f.toInterleaved.step s (a.1, b)
    if b.isRelayClaim || f.waits next then { f with clock := a.1 }
    else { next with claims := f.claims, relayLog := f.relayLog ++ f.putBacks b next }

/-- The clock does not go back. -/
def OnTime (a : Time × RelaysAct) : Prop :=
  f.clock ≤ a.1

instance : DecidableRel OnTime := fun _ _ => inferInstanceAs (Decidable (_ ≤ _))

/-- The system after a run from the empty database. -/
def after (acts : List (Time × RelaysAct)) : Relays :=
  run (step s) {} acts

/-- What has happened to one job between the relays. -/
def relayLogOf (id : UUID) : List RelayEvent :=
  f.relayLog.filter fun e => e.jobId = id

end Relays

/-! ## Moves of one job -/

/-- What a step can do to the row of job `id`, with what it logs for it. -/
inductive RelayMove (id : UUID) :
    Option DispatchJob → List RelayEvent → Option DispatchJob → Prop
  | same {row : Option DispatchJob} : RelayMove id row [] row
  | created (j : DispatchJob) : RelayMove id none [] (some j)
  | passed {j j' : DispatchJob} (past : publishable j' = false) :
      RelayMove id (some j) [] (some j')
  | putBack {j j' : DispatchJob} (how : PutBack) :
      RelayMove id (some j) [.putBack id how] (some j')
  | claimed {j : DispatchJob} {r : OwnerId} {t : Time} {p : MessagePriority}
      (due : eligible p t (t - seconds leaseSeconds) j = true) :
      RelayMove id (some j) [.claimed r id t] (some (lockRow r t j))

/-- A move of a row past the relays, or back to them by an act that puts back. -/
theorem RowMove.passed_or_putBack {s : Settings} {sys : System} {now : Time} {j j' : DispatchJob}
    {a : Act} {es : List Event} (h : RowMove s sys now j a es j')
    (ha : (InterleavedAct.act a).isRelayClaim = false) : publishable j' = false ∨
      (∃ how, (InterleavedAct.act a).putsBack = some how) ∧ j'.status = .retry ∧
        j'.lockedAt = none := by
  cases h with
  | locked => cases ha
  | published => exact Or.inl rfl
  | publishRetry => exact Or.inr ⟨⟨_, rfl⟩, rfl, rfl⟩
  | reclaimed => exact Or.inr ⟨⟨_, rfl⟩, rfl, rfl⟩
  | expired => exact Or.inl rfl
  | claimed => exact Or.inl rfl
  | recorded dispatching locked_by outcome =>
    cases outcome with
    | providerTemporaryFailure => exact Or.inr ⟨⟨_, rfl⟩, rfl, rfl⟩
    | _ => exact Or.inl rfl

namespace Relays

variable {s : Settings} {f : Relays}

/-- What is logged for job `id` when an act puts jobs back. -/
theorem filter_putBacks (a : InterleavedAct) (next : Interleaved) (id : UUID) :
    ((f.putBacks a next).filter fun e => e.jobId = id) =
      match a.putsBack, next.db.jobs.find? id with
      | some how, some j =>
        if (j.status = .retry ∧ j.lockedAt = none) ∧ f.db.jobs.find? id ≠ some j then
          [.putBack id how]
        else []
      | _, _ => [] := by
  unfold putBacks
  cases a.putsBack with
  | none => rfl
  | some how =>
    dsimp only
    rw [List.filter_map, List.filter_filter]
    cases hj : next.db.jobs.find? id with
    | none =>
      rw [List.map_eq_nil_iff, List.filter_eq_nil_iff]
      intro k hk
      simp [RelayEvent.jobId, Table.find?_eq_none.1 hj k hk]
    | some j =>
      obtain ⟨hm, rfl⟩ := Table.find?_eq_some.1 hj
      have hone : (next.db.jobs.rows.filter fun k => k.id = j.id) = [j] :=
        filter_key_eq next.db.jobs.nodup hm
      have hcomm : (next.db.jobs.rows.filter fun k =>
          ((fun e : RelayEvent => decide (e.jobId = j.id)) ∘ fun k : DispatchJob =>
            RelayEvent.putBack k.id how) k && decide ((k.status = .retry ∧ k.lockedAt = none) ∧
              f.db.jobs.find? k.id ≠ some k)) =
          [j].filter fun k => decide ((k.status = .retry ∧ k.lockedAt = none) ∧
            f.db.jobs.find? k.id ≠ some k) := by
        rw [← hone, List.filter_filter]
        exact List.filter_congr fun k _ => Bool.and_comm _ _
      rw [hcomm]
      dsimp only
      split_ifs with h
      · rw [List.filter_cons_of_pos (by simpa using h)]
        rfl
      · rw [List.filter_cons_of_neg (by simpa using h)]
        rfl

/-- A step that changes a row as an act of the system does. -/
theorem relayMove_of_row {a : InterleavedAct} {next : Interleaved} {id : UUID}
    (h : (∃ j, f.db.jobs.find? id = none ∧ next.db.jobs.find? id = some j ∧ a.putsBack = none) ∨
      next.db.jobs.find? id = f.db.jobs.find? id ∨
      ∃ j j', f.db.jobs.find? id = some j ∧ next.db.jobs.find? id = some j' ∧
        (publishable j' = false ∨ (∃ how, a.putsBack = some how) ∧ j'.status = .retry ∧
          j'.lockedAt = none)) :
    RelayMove id (f.db.jobs.find? id) ((f.putBacks a next).filter fun e => e.jobId = id)
      (next.db.jobs.find? id) := by
  rw [filter_putBacks]
  rcases h with ⟨j, hn, hj, ha⟩ | hsame | ⟨j, j', hj, hj', hpast | ⟨⟨how, ha⟩, hs, hl⟩⟩
  · rw [ha, hn, hj]
    exact .created j
  · rw [hsame]
    cases a.putsBack <;> cases hj : f.db.jobs.find? id <;> simp <;> exact .same
  · have hs : ¬(j'.status = .retry ∧ j'.lockedAt = none) := by
      rintro ⟨hs, -⟩
      simp [publishable, hs] at hpast
    rw [hj, hj']
    cases a.putsBack <;> simp only [hs, false_and, if_false] <;> exact .passed hpast
  · rw [ha, hj, hj']
    by_cases he : some j = some j'
    · rw [← he]
      simp only [ne_eq, not_true_eq_false, and_false, if_false]
      exact .same
    · simp only [hs, hl, he, ne_eq, not_false_eq_true, and_self, if_true]
      exact .putBack how

/-- An act of the system on the row of a job. -/
theorem interleaved_row (now : Time) {a : InterleavedAct} (ha : a.isRelayClaim = false)
    (id : UUID) :
    let next := f.toInterleaved.step s (now, a)
    (∃ j, f.db.jobs.find? id = none ∧ next.db.jobs.find? id = some j ∧ a.putsBack = none) ∨
      next.db.jobs.find? id = f.db.jobs.find? id ∨
      ∃ j j', f.db.jobs.find? id = some j ∧ next.db.jobs.find? id = some j' ∧
        (publishable j' = false ∨ (∃ how, a.putsBack = some how) ∧ j'.status = .retry ∧
          j'.lockedAt = none) := by
  intro next
  cases a with
  | act b =>
    obtain ⟨es, -, hmove⟩ := System.step_moves s f.toSystem (now, b) id
    change JobMove s f.toSystem now b (f.db.jobs.find? id) es (next.db.jobs.find? id) at hmove
    generalize f.db.jobs.find? id = row, next.db.jobs.find? id = row' at hmove ⊢
    cases hmove with
    | same => exact Or.inr (Or.inl rfl)
    | sent => exact Or.inr (Or.inl rfl)
    | created => exact Or.inl ⟨_, rfl, rfl, rfl⟩
    | row move => exact Or.inr (Or.inr ⟨_, _, rfl, rfl, move.passed_or_putBack ha⟩)
  | select p scan => exact Or.inr (Or.inl rfl)
  | write i =>
    cases hsel : f.selected[i]? with
    | none => exact Or.inr (Or.inl (by simp [next, Interleaved.step, Interleaved.write, hsel]))
    | some sel =>
      have hrow : next.db.jobs.find? id = (f.db.jobs.find? id).map fun j =>
          if j.id ∈ [sel.seen.id] then reclaimRow sel.now j else j := by
        simp only [next, Interleaved.step, Interleaved.write, hsel]
        exact find?_reclaimIds [sel.seen.id] id
      rw [hrow]
      cases hj : f.db.jobs.find? id with
      | none => exact Or.inr (Or.inl rfl)
      | some j =>
        rw [Option.map_some]
        split_ifs
        · exact Or.inr (Or.inr ⟨j, _, rfl, rfl, Or.inr ⟨⟨_, rfl⟩, rfl, rfl⟩⟩)
        · exact Or.inr (Or.inl rfl)

end Relays

/-! ## The claims of one job -/

/-- What is known of a job between the relays. Since it was last claimed, and not put back, it is
past the relays or has the lock of a claim no older. -/
structure RelayInv (id : UUID) (row : Option DispatchJob) (log : List RelayEvent) : Prop where
  present : log ≠ [] → row.isSome = true
  spent : ∀ l₁ r t l₂, log = l₁ ++ .claimed r id t :: l₂ → (∀ how, .putBack id how ∉ l₂) →
    ∀ j, row = some j → publishable j = true → ∃ t', j.lockedAt = some t' ∧ t ≤ t'
  apart : ∀ l₁ r₁ t₁ l₂ r₂ t₂ l₃,
    log = l₁ ++ .claimed r₁ id t₁ :: (l₂ ++ .claimed r₂ id t₂ :: l₃) →
      t₁ + seconds leaseSeconds < t₂ ∨ ∃ how, .putBack id how ∈ l₂

namespace RelayInv

variable {id : UUID} {row row' : Option DispatchJob} {log es : List RelayEvent}

/-- A move that logs nothing. -/
theorem quiet (h : RelayInv id row log) (hp : row.isSome = true → row'.isSome = true)
    (hr : ∀ j, row' = some j → publishable j = true → log = [] ∨ row = some j) :
    RelayInv id row' log where
  present hl := hp (h.present hl)
  spent l₁ r t l₂ hl hfree j hj hpub := by
    rcases hr j hj hpub with rfl | hold
    · simp at hl
    · exact h.spent l₁ r t l₂ hl hfree j hold hpub
  apart := h.apart

theorem putBack (h : RelayInv id row log) (how : PutBack) {j : DispatchJob} (hr : row' = some j) :
    RelayInv id row' (log ++ [.putBack id how]) where
  present _ := by rw [hr]; rfl
  spent l₁ r t l₂ hl hfree := by
    rcases split_of_append_singleton hl with ⟨-, he, -⟩ | ⟨l₃, rfl, -⟩
    · cases he
    · exact absurd (by simp) (hfree how)
  apart l₁ r₁ t₁ l₂ r₂ t₂ l₃ hl := by
    rw [← List.cons_append, ← List.append_assoc] at hl
    rcases split_of_append_singleton hl with ⟨-, he, -⟩ | ⟨l₄, rfl, hlog⟩
    · cases he
    · exact h.apart l₁ r₁ t₁ l₂ r₂ t₂ l₄ (by rw [hlog]; simp)

/-- A claim comes after the lease of the one before it, or after a put back. -/
theorem claimed {j : DispatchJob} (h : RelayInv id (some j) log) {r : OwnerId} {t : Time}
    {p : MessagePriority} (due : eligible p t (t - seconds leaseSeconds) j = true) :
    RelayInv id (some (lockRow r t j)) (log ++ [.claimed r id t]) := by
  obtain ⟨-, hpub, -, hlock⟩ := eligible_iff.1 due
  have hlease : 0 ≤ seconds leaseSeconds := by decide
  have hafter : ∀ l₁ r₁ t₁ l₂, log = l₁ ++ .claimed r₁ id t₁ :: l₂ →
      (∀ how, .putBack id how ∉ l₂) → t₁ + seconds leaseSeconds < t := by
    intro l₁ r₁ t₁ l₂ hl hfree
    obtain ⟨t', ht', hle⟩ := h.spent l₁ r₁ t₁ l₂ hl hfree j rfl hpub
    have hlt := hlock t' ht'
    linarith
  refine ⟨fun _ => rfl, fun l₁ r₁ t₁ l₂ hl hfree j' hj' _ => ?_, fun l₁ r₁ t₁ l₂ r₂ t₂ l₃ hl => ?_⟩
  · obtain rfl := Option.some.inj hj'
    refine ⟨t, rfl, ?_⟩
    rcases split_of_append_singleton hl with ⟨-, he, -⟩ | ⟨l₃, rfl, hlog⟩
    · exact (RelayEvent.claimed.inj he).2.2.ge
    · have := hafter l₁ r₁ t₁ l₃ hlog fun how hin => hfree how (by simp [hin])
      linarith
  · rw [← List.cons_append, ← List.append_assoc] at hl
    rcases split_of_append_singleton hl with ⟨hlog, he, -⟩ | ⟨l₄, rfl, hlog⟩
    · by_cases hback : ∃ how, RelayEvent.putBack id how ∈ l₂
      · exact Or.inr hback
      · left
        rw [← (RelayEvent.claimed.inj he).2.2]
        exact hafter l₁ r₁ t₁ l₂ hlog fun how hin => hback ⟨how, hin⟩
    · exact h.apart l₁ r₁ t₁ l₂ r₂ t₂ l₄ (by rw [hlog]; simp)

theorem move (h : RelayInv id row log) (hmove : RelayMove id row es row') :
    RelayInv id row' (log ++ es) := by
  cases hmove with
  | same => rwa [List.append_nil]
  | created j =>
    have hlog : log = [] := by
      by_contra hl
      exact Bool.false_ne_true (h.present hl)
    rw [List.append_nil]
    exact h.quiet (fun _ => rfl) fun _ _ _ => Or.inl hlog
  | passed past =>
    rw [List.append_nil]
    refine h.quiet (fun _ => rfl) fun j hj hpub => ?_
    obtain rfl := Option.some.inj hj
    exact absurd (past.symm.trans hpub) Bool.false_ne_true
  | putBack how => exact h.putBack how rfl
  | claimed due => exact h.claimed due

end RelayInv

/-! ## The open claims -/

/-- What the open claims hold : rows as they are, still eligible for the claim, each by one claim
and once. -/
structure ClaimsInv (f : Relays) : Prop where
  held : ∀ c ∈ f.claims, ∀ j ∈ c.jobs, f.db.jobs.find? j.id = some j ∧ c.eligible j = true
  exclusive : ∀ c ∈ f.claims, ∀ c' ∈ f.claims, ∀ j ∈ c.jobs, ∀ j' ∈ c'.jobs, j.id = j'.id → c = c'
  nodup : ∀ c ∈ f.claims, (c.jobs.map (·.id) ++ c.phase.todo).Nodup

namespace Relays

variable {s : Settings} {f : Relays} {now : Time} {r : OwnerId} {c : ClaimTxn}

theorem mem_lockedByOthers {id : UUID} : id ∈ f.lockedByOthers r ↔
    ∃ c ∈ f.claims, c.relayId ≠ r ∧ ∃ j ∈ c.jobs, j.id = id := by
  simp [lockedByOthers, Table.mem_def, and_assoc]

theorem mem_locked {id : UUID} : id ∈ f.locked ↔ ∃ c ∈ f.claims, ∃ j ∈ c.jobs, j.id = id := by
  simp [locked, Table.mem_def]

end Relays

namespace ClaimsInv

open Relays

variable {s : Settings} {f : Relays} {now : Time} {r : OwnerId} {c c' : ClaimTxn}

/-- The open claims when other transactions leave the locked rows as they are. -/
theorem of_locked {f' : Relays} (h : ClaimsInv f) (hc : f'.claims = f.claims)
    (hdb : ∀ id ∈ f.locked, f'.db.jobs.find? id = f.db.jobs.find? id) : ClaimsInv f' := by
  refine ⟨fun c hmem j hj => ?_, by rw [hc]; exact h.exclusive, by rw [hc]; exact h.nodup⟩
  rw [hc] at hmem
  rw [hdb j.id (mem_locked.2 ⟨c, hmem, j, hj, rfl⟩)]
  exact h.held c hmem j hj

/-- A statement of an open claim, which goes on as `c'`. -/
theorem put (h : ClaimsInv f) (hc : c ∈ f.claims) (hr : c'.relayId = c.relayId)
    (helig : c'.eligible = c.eligible)
    (hjobs : ∀ j ∈ c'.jobs, j ∈ c.jobs ∨ (f.db.jobs.find? j.id = some j ∧ c.eligible j = true ∧
      j.id ∉ f.lockedByOthers c.relayId))
    (hnodup : (c'.jobs.map (·.id) ++ c'.phase.todo).Nodup) :
    ClaimsInv { f with clock := now, claims := f.claims.put c' } := by
  have hother : ∀ x ∈ f.claims, x.relayId ≠ c'.relayId → ∀ j ∈ c'.jobs, ∀ k ∈ x.jobs,
      j.id ≠ k.id := by
    intro x hx hne j hj k hk hi
    rw [hr] at hne
    rcases hjobs j hj with hj | ⟨-, -, hfree⟩
    · exact hne (congrArg ClaimTxn.relayId (h.exclusive x hx c hc k hk j hj hi.symm))
    · exact hfree (mem_lockedByOthers.2 ⟨x, hx, hne, k, hk, hi.symm⟩)
  refine ⟨fun x hx j hj => ?_, fun x hx y hy j hj k hk hi => ?_, fun x hx => ?_⟩
  · rcases Table.mem_put.1 hx with ⟨hx, -⟩ | ⟨rfl, -⟩
    · exact h.held x hx j hj
    · rw [helig]
      rcases hjobs j hj with hj | ⟨hfind, he, -⟩
      · exact h.held c hc j hj
      · exact ⟨hfind, he⟩
  · rcases Table.mem_put.1 hx with ⟨hx', hxr⟩ | ⟨rfl, -⟩
    · rcases Table.mem_put.1 hy with ⟨hy', -⟩ | ⟨rfl, -⟩
      · exact h.exclusive x hx' y hy' j hj k hk hi
      · exact absurd hi.symm (hother x hx' hxr k hk j hj)
    · rcases Table.mem_put.1 hy with ⟨hy', hyr⟩ | ⟨rfl, -⟩
      · exact absurd hi (hother y hy' hyr j hj k hk)
      · rfl
  · rcases Table.mem_put.1 hx with ⟨hx, -⟩ | ⟨rfl, -⟩
    · exact h.nodup x hx
    · exact hnodup

/-- A claim ends, and with it its locks. -/
theorem erase {f' : Relays} (h : ClaimsInv f) (hclaims : f'.claims = f.claims.erase r)
    (hdb : ∀ c ∈ f.claims, c.relayId ≠ r → ∀ j ∈ c.jobs,
      f'.db.jobs.find? j.id = f.db.jobs.find? j.id) : ClaimsInv f' := by
  have hmem : ∀ c ∈ f'.claims, c ∈ f.claims ∧ c.relayId ≠ r := fun c hc =>
    Table.mem_erase.1 (hclaims ▸ hc)
  refine ⟨fun c hc j hj => ?_, fun c hc c' hc' =>
    h.exclusive c (hmem c hc).1 c' (hmem c' hc').1, fun c hc => h.nodup c (hmem c hc).1⟩
  rw [hdb c (hmem c hc).1 (hmem c hc).2 j hj]
  exact h.held c (hmem c hc).1 j hj

theorem mem_lock {locked : List UUID} {db : Db} {id : UUID} {j : DispatchJob} :
    j ∈ c.lock locked db id ↔ id ∉ locked ∧ db.jobs.find? id = some j ∧ c.eligible j = true := by
  unfold ClaimTxn.lock
  split_ifs with h
  · simp [h]
  · simp [h, Option.filter_eq_some_iff]

theorem lock_ids {locked : List UUID} {db : Db} {id : UUID} :
    ((c.lock locked db id).map (·.id)).Sublist [id] := by
  unfold ClaimTxn.lock
  split_ifs with h
  · exact List.nil_sublist _
  · cases hj : (db.jobs.find? id).filter c.eligible with
    | none => exact List.nil_sublist _
    | some j =>
      obtain ⟨hf, -⟩ := Option.filter_eq_some_iff.1 hj
      simp [(Table.find?_eq_some.1 hf).2]

/-- A query visits each row once. -/
theorem nodup_query (le : DispatchJob → DispatchJob → Prop) [DecidableRel le]
    (scan : Scan DispatchJob) (db : Db) (q : DispatchJob → Bool) :
    ((orderBy le scan (db.jobs.rows.filter q)).map (·.id)).Nodup :=
  ((orderBy_perm le scan _).map _).nodup_iff.2
    (db.jobs.nodup.sublist (List.filter_sublist.map _))

theorem fair (h : ClaimsInv f) (hc : c ∈ f.claims) (ranked fair : Scan DispatchJob) :
    ClaimsInv { f with clock := now, claims := f.claims.put (c.fair s ranked fair f.db) } := by
  refine h.put hc rfl rfl (fun j hj => by cases hj) ?_
  exact nodup_query dueLE fair f.db _

theorem topup (h : ClaimsInv f) (hc : c ∈ f.claims) (scan : Scan DispatchJob) :
    ClaimsInv { f with clock := now, claims := f.claims.put (c.topup scan f.db) } := by
  refine h.put hc rfl rfl (fun j hj => Or.inl hj) ?_
  have hjobs : (c.jobs.map (·.id)).Nodup := (List.nodup_append.1 (h.nodup c hc)).1
  refine List.nodup_append.2 ⟨hjobs, ?_, ?_⟩
  · exact (nodup_query dueLE scan f.db _).sublist
      ((List.take_sublist _ _).map _)
  · rintro id hid _ hid' rfl
    obtain ⟨j, hj, rfl⟩ := List.mem_map.1 hid'
    have hj := (mem_orderBy dueLE scan).1 (List.mem_of_mem_take hj)
    simp only [List.mem_filter, Bool.and_eq_true, decide_eq_true_eq] at hj
    exact hj.2.1.2 hid

/-- A visit goes on with the rest of the rows, and may lock the one it is at. -/
theorem visit_cases (locked : List UUID) (db : Db) : c.visit s locked db = c ∨
    ∃ id todo new, c.phase.todo = id :: todo ∧ (c.visit s locked db).phase.todo = todo ∧
      (c.visit s locked db).jobs = c.jobs ++ new ∧ (new = [] ∨ new = c.lock locked db id) ∧
        (c.visit s locked db).relayId = c.relayId ∧
          (c.visit s locked db).eligible = c.eligible := by
  obtain ⟨r, p, now, phase⟩ := c
  rcases phase with _ | ⟨_ | ⟨id, todo⟩, jobs⟩ | ⟨_ | ⟨id, todo⟩, jobs⟩
  · exact Or.inl rfl
  · exact Or.inl rfl
  · exact Or.inr ⟨id, todo, _, rfl, rfl, rfl, Or.inr rfl, rfl, rfl⟩
  · exact Or.inl rfl
  · right
    unfold ClaimTxn.visit
    dsimp only
    split_ifs
    · exact ⟨id, todo, _, rfl, rfl, rfl, Or.inr rfl, rfl, rfl⟩
    · exact ⟨id, todo, [], rfl, rfl, (List.append_nil _).symm, Or.inl rfl, rfl, rfl⟩

theorem visit (h : ClaimsInv f) (hc : c ∈ f.claims) (hr : c.relayId = r) :
    ClaimsInv { f with
      clock := now, claims := f.claims.put (c.visit s (f.lockedByOthers r) f.db) } := by
  subst hr
  have hnodup := h.nodup c hc
  rcases visit_cases (s := s) (c := c) (f.lockedByOthers c.relayId) f.db with
    hsame | ⟨id, todo, new, htodo, htodo', hjobs, hnew, hr, helig⟩
  · rw [hsame]
    exact h.put hc rfl rfl (fun j hj => Or.inl hj) hnodup
  refine h.put hc hr helig (fun j hj => ?_) ?_
  · rw [hjobs, List.mem_append] at hj
    rcases hj with hj | hj
    · exact Or.inl hj
    · rcases hnew with rfl | rfl
      · cases hj
      · obtain ⟨hfree, hfind, he⟩ := mem_lock.1 hj
        obtain ⟨-, rfl⟩ := Table.find?_eq_some.1 hfind
        exact Or.inr ⟨hfind, he, hfree⟩
  · rw [htodo] at hnodup
    rw [htodo', hjobs, List.map_append, List.append_assoc]
    refine hnodup.sublist ((List.Sublist.refl _).append ?_)
    rcases hnew with rfl | rfl
    · exact List.sublist_cons_self id todo
    · exact lock_ids.append (List.Sublist.refl todo)

end ClaimsInv

/-! ## Steps -/

namespace Relays

variable {s : Settings} {f : Relays} {now : Time} {r : OwnerId} {c : ClaimTxn}

/-- The state after the commit of a claim. -/
def committed (f : Relays) (now : Time) (c : ClaimTxn)
    (publications : Table Publication.relayId) : Relays :=
  { f with
    db := { f.db with
      jobs := f.db.jobs.updateWhere (fun j => j.id ∈ c.jobs.map (·.id)) (lockRow c.relayId c.now)
        fun _ _ => rfl }
    clock := now
    publications
    claims := f.claims.erase c.relayId
    relayLog := f.relayLog ++ c.jobs.map fun job => .claimed c.relayId job.id c.now }

/-- What an act of a claim does. -/
inductive ClaimStep (s : Settings) (f : Relays) (now : Time) : Relays → Prop
  | idle : ClaimStep s f now { f with clock := now }
  | began {r : OwnerId} {p : MessagePriority} {claims : Table ClaimTxn.relayId}
      (inserted : f.claims.insert ⟨r, p, now, .started⟩ = some claims) :
      ClaimStep s f now { f with clock := now, claims }
  | fair {c : ClaimTxn} (found : c ∈ f.claims) (ranked fair : Scan DispatchJob) :
      ClaimStep s f now
        { f with clock := now, claims := f.claims.put (c.fair s ranked fair f.db) }
  | visited {c : ClaimTxn} (found : c ∈ f.claims) :
      ClaimStep s f now { f with
        clock := now, claims := f.claims.put (c.visit s (f.lockedByOthers c.relayId) f.db) }
  | topup {c : ClaimTxn} (found : c ∈ f.claims) (scan : Scan DispatchJob) :
      ClaimStep s f now { f with clock := now, claims := f.claims.put (c.topup scan f.db) }
  | committed {c : ClaimTxn} (found : c ∈ f.claims) (publications : Table Publication.relayId) :
      ClaimStep s f now (f.committed now c publications)
  | rolledBack {c : ClaimTxn} (found : c ∈ f.claims) :
      ClaimStep s f now { f with clock := now, claims := f.claims.erase c.relayId }

theorem claim_step (a : ClaimAct) : ClaimStep s f now (f.claim s now r a) := by
  cases hfind : f.claims.find? r with
  | none =>
    cases a with
    | begin p =>
      simp only [claim, hfind]
      split
      · rename_i hins
        exact .began hins
      · exact .idle
    | _ =>
      simp only [claim, hfind]
      exact .idle
  | some c =>
    obtain ⟨hc, rfl⟩ := Table.find?_eq_some.1 hfind
    cases a <;> simp only [claim, hfind]
    case begin => exact .idle
    case fair ranked fair =>
      split
      · exact .fair hc ranked fair
      · exact .idle
    case visit => exact .visited hc
    case topup scan =>
      split
      · split_ifs
        · exact .topup hc scan
        · exact .idle
      · exact .idle
    case commit =>
      split_ifs
      · exact .committed hc _
      · exact .committed hc _
      · exact .idle
    case rollback => exact .rolledBack hc

theorem find?_committed (publications : Table Publication.relayId) (id : UUID) :
    (f.committed now c publications).db.jobs.find? id = (f.db.jobs.find? id).map fun j =>
      if j.id ∈ c.jobs.map (·.id) then lockRow c.relayId c.now j else j := by
  refine (@Table.find?_updateWhere _ _ _ _ f.db.jobs _ (lockRow c.relayId c.now) (fun _ _ => rfl)
    id).trans ?_
  simp only [decide_eq_true_eq]

theorem claimStep_inv {f' : Relays} (hstep : ClaimStep s f now f') (h : ClaimsInv f) :
    ClaimsInv f' := by
  cases hstep with
  | idle => exact h.of_locked rfl fun _ _ => rfl
  | began inserted =>
    have hmem := fun c : ClaimTxn => Table.mem_insert (x := c) inserted
    refine ⟨fun c hc j hj => ?_, fun c hc c' hc' j hj j' hj' hi => ?_, fun c hc => ?_⟩
    · rcases (hmem c).1 hc with hc | rfl
      · exact h.held c hc j hj
      · cases hj
    · rcases (hmem c).1 hc with hc | rfl
      · rcases (hmem c').1 hc' with hc' | rfl
        · exact h.exclusive c hc c' hc' j hj j' hj' hi
        · cases hj'
      · cases hj
    · rcases (hmem c).1 hc with hc | rfl
      · exact h.nodup c hc
      · exact List.nodup_nil
  | fair found ranked fair => exact h.fair found ranked fair
  | visited found => exact h.visit found rfl
  | topup found scan => exact h.topup found scan
  | @committed c found publications =>
    refine h.erase rfl fun x hx hne j hj => ?_
    rw [find?_committed, (h.held x hx j hj).1, Option.map_some, if_neg]
    intro hin
    obtain ⟨k, hk, hi⟩ := List.mem_map.1 hin
    exact hne (congrArg ClaimTxn.relayId (h.exclusive x hx c found j hj k hk hi.symm))
  | rolledBack found => exact h.erase rfl fun _ _ _ _ _ => rfl

/-- An act of a claim on the row of a job. -/
theorem claimStep_move {f' : Relays} (hstep : ClaimStep s f now f') (h : ClaimsInv f) (id : UUID) :
    ∃ es, f'.relayLogOf id = f.relayLogOf id ++ es ∧
      RelayMove id (f.db.jobs.find? id) es (f'.db.jobs.find? id) := by
  cases hstep with
  | @committed c found publications =>
    refine ⟨_, List.filter_append f.relayLog _, ?_⟩
    rw [find?_committed, List.filter_map]
    by_cases hin : id ∈ c.jobs.map (·.id)
    · obtain ⟨j, hj, rfl⟩ := List.mem_map.1 hin
      have hone : (c.jobs.filter fun k => k.id = j.id) = [j] :=
        filter_key_eq (List.nodup_append.1 (h.nodup c found)).1 hj
      obtain ⟨hfind, he⟩ := h.held c found j hj
      have hlog : (c.jobs.filter ((fun e : RelayEvent => decide (e.jobId = j.id)) ∘
          fun job => RelayEvent.claimed c.relayId job.id c.now)) = [j] := hone
      rw [hlog, hfind, Option.map_some, if_pos hin]
      exact .claimed he
    · have hnone : (c.jobs.filter ((fun e : RelayEvent => decide (e.jobId = id)) ∘
          fun job => RelayEvent.claimed c.relayId job.id c.now)) = [] := by
        refine List.filter_eq_nil_iff.2 fun k hk => ?_
        have hne : k.id ≠ id := fun hi => hin (List.mem_map.2 ⟨k, hk, hi⟩)
        simp [RelayEvent.jobId, hne]
      rw [hnone]
      cases hj : f.db.jobs.find? id with
      | none => exact .same
      | some j =>
        obtain ⟨-, rfl⟩ := Table.find?_eq_some.1 hj
        rw [Option.map_some, if_neg hin]
        exact .same
  | _ => exact ⟨[], (List.append_nil _).symm, .same⟩

/-- The invariant of the relays. -/
structure Inv (f : Relays) : Prop where
  claims : ClaimsInv f
  job : ∀ id, RelayInv id (f.db.jobs.find? id) (f.relayLogOf id)

theorem Inv.step (h : Inv f) (a : Time × RelaysAct) : Inv (f.step s a) := by
  obtain ⟨now, a⟩ := a
  cases a with
  | claim r b =>
    have hstep : ClaimStep s f now (f.step s (now, .claim r b)) := claim_step b
    refine ⟨claimStep_inv hstep h.claims, fun id => ?_⟩
    obtain ⟨es, hlog, hmove⟩ := claimStep_move hstep h.claims id
    rw [hlog]
    exact (h.job id).move hmove
  | act b =>
    simp only [Relays.step]
    split_ifs with hw
    · exact ⟨h.claims.of_locked rfl fun _ _ => rfl, h.job⟩
    rw [Bool.or_eq_true, not_or, Bool.not_eq_true, Bool.not_eq_true] at hw
    obtain ⟨hclaim, hwait⟩ := hw
    refine ⟨h.claims.of_locked rfl fun id hid => ?_, fun id => ?_⟩
    · simpa using List.any_eq_false.1 hwait id hid
    · have hmove : RelayMove id _ _ _ :=
        relayMove_of_row (f := f) (interleaved_row (s := s) (f := f) now hclaim id)
      have hjob := (h.job id).move hmove
      rw [relayLogOf, List.filter_append]
      exact hjob

theorem after_inv (s : Settings) (acts : List (Time × RelaysAct)) : Inv (after s acts) := by
  refine run_induction (P := Inv) (fun _ a h => h.step a) acts
    ⟨⟨?_, ?_, ?_⟩, fun id => ⟨?_, ?_, ?_⟩⟩ <;>
    simp [relayLogOf]

end Relays

/-- However the statements of the claims interleave, two open claims hold no job together, and
two claims of one job, in the order of their commits, have clock readings more than the lease
apart, or the job was put back between them. -/
theorem relay_claims_exclusive (s : Settings) (acts : List (Time × RelaysAct)) :
    let f := Relays.after s acts
    (∀ c ∈ f.claims, ∀ c' ∈ f.claims, ∀ j ∈ c.jobs, ∀ j' ∈ c'.jobs, j.id = j'.id → c = c') ∧
    ∀ id l₁ r₁ t₁ l₂ r₂ t₂ l₃,
      f.relayLogOf id = l₁ ++ .claimed r₁ id t₁ :: (l₂ ++ .claimed r₂ id t₂ :: l₃) →
        t₁ + seconds leaseSeconds < t₂ ∨ ∃ how, .putBack id how ∈ l₂ := by
  intro f
  have h := Relays.after_inv s acts
  exact ⟨h.claims.exclusive, fun id => (h.job id).apart⟩

/-- Relay 3 claims a job and stays open for longer than the lease. Relay 4 begins meanwhile and
comes to the job after the commit. -/
def slowClaimSample : List (Time × RelaysAct) :=
  [(0, .act (.act (.api (.createUser 1 "user")))),
    (0, .act (.act (.api (.topupUserCredits 1 5)))),
    (0, .act (.act (.api (.createMessage ⟨1, "09121234567", "hello", .normal, 7⟩ ⟨10, 20⟩)))),
    (0, .claim 3 (.begin .normal)), (0, .claim 3 (.fair .stored .stored)), (0, .claim 3 .visit),
    (0, .claim 3 (.topup .stored)), (seconds 61, .claim 4 (.begin .normal)),
    (seconds 61, .claim 4 (.fair .stored .stored))]

/-- The first claim commits more than the lease after it began, while the other one is under way. -/
def slowCommitSample : List (Time × RelaysAct) :=
  [(seconds 62, .claim 3 .commit), (seconds 63, .claim 4 .visit),
    (seconds 63, .claim 4 (.topup .stored)), (seconds 63, .claim 4 .commit)]

/-- Two claims that were open together have claimed one job. -/
theorem overlapping_claims_share :
    ¬∀ (s : Settings) (acts acts' : List (Time × RelaysAct)) (r r' : OwnerId) (id : UUID)
      (t t' : Time), AllSteps (Relays.step s) Relays.OnTime {} (acts ++ acts') → r ≠ r' →
        ((Relays.after s acts).claims.find? r).isSome = true →
        ((Relays.after s acts).claims.find? r').isSome = true →
        (∀ a ∈ acts', ∀ priority, a.2 ≠ .claim r (.begin priority) ∧
          a.2 ≠ .claim r' (.begin priority)) →
        (Relays.after s acts).relayLogOf id = [] →
          ¬(.claimed r id t ∈ (Relays.after s (acts ++ acts')).relayLogOf id ∧
            .claimed r' id t' ∈ (Relays.after s (acts ++ acts')).relayLogOf id) := by
  intro h
  refine h {} slowClaimSample slowCommitSample 3 4 20 0 (seconds 61) (by decide +kernel) (by decide)
    (by decide +kernel) (by decide +kernel) ?_ (by decide +kernel) ?_
  · simp [slowCommitSample]
  · decide +kernel

end Abrio
