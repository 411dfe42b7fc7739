import Abrio.Backoff
import Abrio.ClaimRuns
import Abrio.Contents
import Abrio.RelayLoop

/-!
# How long a job waits

A job that is due waits for the relays of its priority to claim it, behind the jobs of its user
that are due before it. Nothing gets ahead of it any more : what is submitted, retried or
reclaimed later is due later. And as long as a batch has a place for every user with due jobs, each
claim takes the first of the user's. So the job is claimed by the time there have been as many
claims as there are jobs up to it (`bounded_waiting`).

Transactions are atomic here : no claim meets a row that another transaction has locked. One that
does passes it over, and may fill its batch with jobs of other users.
-/

open Relational Runs

namespace Abrio

open DispatchJobRepository DispatchUseCase

/-! ## The queue of a user -/

/-- The job waits in the queue of the user of `k`, up to `k`. -/
def ahead (k j : DispatchJob) : Bool :=
  j.userId = k.userId && j.priority = k.priority && publishable j && j.lockedAt = none &&
    dueLE j k

theorem ahead_iff {k j : DispatchJob} : ahead k j = true ↔ j.userId = k.userId ∧
    j.priority = k.priority ∧ publishable j = true ∧ j.lockedAt = none ∧ dueLE j k := by
  simp only [ahead, Bool.and_eq_true, decide_eq_true_eq, and_assoc]

theorem DispatchJob.AtRest.ahead_self {k : DispatchJob} (h : k.AtRest) : ahead k k = true :=
  ahead_iff.2 ⟨rfl, rfl, h.isOpen, h.lockedAt, Or.inr ⟨rfl, le_rfl⟩⟩

/-- What is due later is not ahead. -/
theorem not_ahead_of_lt {k j : DispatchJob} (h : k.availableAt < j.availableAt) :
    ahead k j ≠ true := by
  intro hj
  rcases (ahead_iff.1 hj).2.2.2.2 with hlt | ⟨heq, -⟩
  · exact lt_asymm h hlt
  · exact h.ne' heq

/-- How many jobs wait up to `k`. -/
def System.aheadCount (k : DispatchJob) (sys : System) : ℕ :=
  sys.db.jobs.rows.countP (ahead k)

/-- What moves does not get ahead of a job that is due. The bookkeeping of relays aside. -/
theorem RowMove.not_ahead {s : Settings} {sys : System} {now : Time} {j j' k : DispatchJob}
    {a : Act} {es : List Event} (h : RowMove s sys now j a es j') (hk : k.availableAt < now)
    (ha : ∀ r error jitter, a ≠ .relayRecord r error jitter) : ahead k j' ≠ true := by
  intro hj'
  obtain ⟨-, -, hopen, hlocked, -⟩ := ahead_iff.1 hj'
  cases h with
  | locked => cases hlocked
  | published => exact ha _ _ _ rfl
  | publishRetry => exact ha _ _ _ rfl
  | reclaimed => exact not_ahead_of_lt hk hj'
  | expired => cases hopen
  | claimed => cases hlocked
  | recorded dispatching locked_by outcome =>
    cases outcome with
    | providerTemporaryFailure =>
      exact not_ahead_of_lt (hk.trans (lt_add_of_pos_right _ (Relay.calculateBackoff_pos _ _))) hj'
    | _ => cases hopen

namespace System

variable {s : Settings} {sys : System} {k : DispatchJob}

/-- Nothing gets ahead of a job that is due. -/
theorem mem_of_ahead {a : Time × Act} (hk : k.availableAt < a.1) {j' : DispatchJob}
    (hj' : j' ∈ (sys.step s a).db.jobs) (h : ahead k j' = true) : j' ∈ sys.db.jobs := by
  obtain ⟨now, a⟩ := a
  by_cases hapi : ∃ t, a = .api t
  · obtain ⟨t, rfl⟩ := hapi
    have hj' : j' ∈ (t.apply s now sys.db).jobs := hj'
    rcases ApiTxn.rows s now sys.db t with ⟨-, hsame⟩ | ⟨u, -, hacc⟩
    · rwa [hsame] at hj'
    · rcases hacc.mem_jobs.1 hj' with hold | ⟨sub, hsub, rfl⟩
      · exact hold
      · refine absurd h (not_ahead_of_lt ?_)
        show k.availableAt < sub.now
        rwa [submissions_now hsub]
  by_cases hrecord : ∃ r error jitter, a = .relayRecord r error jitter
  · obtain ⟨r, error, jitter, rfl⟩ := hrecord
    have hj' : j' ∈ (sys.relayRecord now r error jitter).db.jobs := hj'
    rcases sys.relayRecord_cases now r error jitter with hsame | ⟨published, failed, _, hdb⟩
    · rwa [hsame] at hj'
    · rw [hdb] at hj'
      have hfind := Table.find?_key hj'
      rw [Relay.find?_recordPublications] at hfind
      obtain ⟨j, hj, hjj'⟩ := Option.map_eq_some_iff.1 hfind
      split_ifs at hjj' with hpub hfail
      · subst hjj'
        cases (ahead_iff.1 h).2.2.1
      · subst hjj'
        refine absurd h (not_ahead_of_lt (hk.trans ?_))
        exact lt_add_of_pos_right _ (Relay.calculateBackoff_pos _ _)
      · exact hjj' ▸ (Table.find?_eq_some.1 hj).1
  · obtain ⟨es, -, hmove⟩ := step_moves s sys (now, a) j'.id
    rw [Table.find?_key hj'] at hmove
    generalize hrow : sys.db.jobs.find? j'.id = row at hmove
    cases hmove with
    | same => exact (Table.find?_eq_some.1 hrow).1
    | sent => exact (Table.find?_eq_some.1 hrow).1
    | created => exact absurd ⟨_, rfl⟩ hapi
    | row move =>
      exact absurd h (move.not_ahead hk fun r error jitter ha =>
        hrecord ⟨r, error, jitter, ha⟩)

theorem aheadCount_step_le {a : Time × Act} (hk : k.availableAt < a.1) :
    (sys.step s a).aheadCount k ≤ sys.aheadCount k :=
  Table.countP_le_countP fun j' hj' h => ⟨j', mem_of_ahead hk hj' h, rfl, h⟩

/-! ## Claims -/

/-- A claim of the priority, by a relay without a batch, has a place for every user with due jobs,
and no lock has run out. -/
def ServesClaim (s : Settings) (p : MessagePriority) (sys : System) (a : Time × Act) : Prop :=
  match a.2 with
  | .relayClaim r p' _ => p' = p → sys.publications.find? r = none ∧
      (dueUsers p leaseSeconds a.1 sys.db.jobs.rows).card ≤ (s.priorityConfig p).batchSize ∧
      ∀ j ∈ dueRows p leaseSeconds a.1 sys.db.jobs.rows, j.lockedAt = none
  | _ => True

instance (p : MessagePriority) (a : Time × Act) : Decidable (sys.ServesClaim s p a) := by
  obtain ⟨now, a⟩ := a
  cases a <;> unfold ServesClaim <;> infer_instance

/-- A step in which time passes and a claim serves all users. -/
def ServesAll (s : Settings) (p : MessagePriority) (sys : System) (a : Time × Act) : Prop :=
  sys.OnTime a ∧ sys.ServesClaim s p a

instance (p : MessagePriority) (a : Time × Act) : Decidable (sys.ServesAll s p a) :=
  inferInstanceAs (Decidable (_ ∧ _))

/-- The act is a claim of the priority. -/
def isClaim (p : MessagePriority) (a : Time × Act) : Bool :=
  match a.2 with
  | .relayClaim _ p' _ => p' = p
  | _ => false

/-- The job waits, it is due since before the last step. -/
structure Waits (k : DispatchJob) (sys : System) : Prop where
  mem : k ∈ sys.db.jobs
  atRest : k.AtRest
  due : k.availableAt < sys.clock

variable {now : Time} {p : MessagePriority} {scans : ClaimScans} {r : OwnerId}

theorem Waits.mem_dueRows (h : Waits k sys) (hc : sys.clock ≤ now) :
    k ∈ dueRows k.priority leaseSeconds now sys.db.jobs.rows := by
  refine List.mem_filter.2 ⟨h.mem, eligible_iff.2
    ⟨rfl, h.atRest.isOpen, (h.due.trans_le hc).le, fun t ht => ?_⟩⟩
  cases h.atRest.lockedAt.symm.trans ht

/-- A claim that does not take the job leaves it. -/
theorem find?_relayClaim_of_not_mem (hk : k ∈ sys.db.jobs)
    (h : k ∉ sys.claimedRows s now p scans) :
    (sys.relayClaim s now r p scans).db.jobs.find? k.id = some k := by
  rcases sys.relayClaim_cases s now r p scans with hsame | ⟨_, hdb⟩
  · rw [hsame]
    exact Table.find?_key hk
  · rw [hdb]
    exact (find?_claimBatch_of_mem (s.priorityConfig p).priority (s.priorityConfig p).batchSize
      (s.priorityConfig p).perUserLimit leaseSeconds scans now sys.db r hk).trans
        (congrArg some (if_neg h))

/-- Only a claim that takes the job moves it. -/
theorem Waits.step (h : Waits k sys) {a : Act} (hc : sys.clock ≤ now)
    (hclaim : ∀ r p scans, a = .relayClaim r p scans → k ∉ sys.claimedRows s now p scans) :
    Waits k (sys.step s (now, a)) := by
  refine ⟨?_, h.atRest, h.due.trans_le hc⟩
  obtain ⟨es, -, hmove⟩ := step_moves s sys (now, a) k.id
  rw [Table.find?_key h.mem] at hmove
  generalize hrow : (sys.step s (now, a)).db.jobs.find? k.id = row' at hmove
  cases hmove with
  | same => exact (Table.find?_eq_some.1 hrow).1
  | sent => exact (Table.find?_eq_some.1 hrow).1
  | row move =>
    obtain ⟨-, -, r, p, scans, rfl⟩ := h.atRest.locked move
    exact (Table.find?_eq_some.1
      (find?_relayClaim_of_not_mem h.mem (hclaim r p scans rfl))).1

/-- The user of a job that is due has a place in the batch, for the first job in the queue. -/
theorem exists_claimed_ahead (s : Settings) (scans : ClaimScans) (h : Waits k sys)
    (hc : sys.clock ≤ now)
    (hplaces : (dueUsers k.priority leaseSeconds now sys.db.jobs.rows).card ≤
      (s.priorityConfig k.priority).batchSize)
    (hlocks : ∀ j ∈ dueRows k.priority leaseSeconds now sys.db.jobs.rows, j.lockedAt = none) :
    ∃ j ∈ sys.claimedRows s now k.priority scans, ahead k j = true := by
  have hdue := h.mem_dueRows hc
  have hround := roundRobin_fairRows k.priority (s.priorityConfig k.priority).batchSize
    (s.priorityConfig k.priority).perUserLimit leaseSeconds scans now sys.db
  have huser : k.userId ∈ dueUsers k.priority leaseSeconds now sys.db.jobs.rows :=
    List.mem_toFinset.2 (List.mem_map_of_mem hdue)
  have hpos := hround.given_pos hplaces (fun u hu => ?_) huser
  · obtain ⟨j, hj, hu, holdest⟩ := exists_oldest_of_share_pos _ _ _ _ _ _ _ hpos
    have hjdue := mem_dueRows_of_mem_fairRows _ _ _ _ _ _ _ hj
    have helig := eligible_iff.1 (List.mem_filter.1 hjdue).2
    refine ⟨j, ?_, ahead_iff.2 ⟨hu, helig.1, helig.2.1, hlocks j hjdue, holdest k hdue rfl⟩⟩
    rw [claimedRows, Settings.priority_priorityConfig, claimRows_eq]
    exact List.mem_append_left _ hj
  · obtain ⟨j, hj, rfl⟩ := List.mem_map.1 (List.mem_toFinset.1 hu)
    exact lt_min (share_pos.2 ⟨j, hj, rfl⟩) (s.priorityConfig k.priority).perUserLimit_pos

/-- A claim that does not take the job takes one ahead of it. -/
theorem aheadCount_claim (h : Waits k sys) (hc : sys.clock ≤ now)
    (hfree : sys.publications.find? r = none)
    (hplaces : (dueUsers k.priority leaseSeconds now sys.db.jobs.rows).card ≤
      (s.priorityConfig k.priority).batchSize)
    (hlocks : ∀ j ∈ dueRows k.priority leaseSeconds now sys.db.jobs.rows, j.lockedAt = none) :
    (sys.step s (now, .relayClaim r k.priority scans)).aheadCount k < sys.aheadCount k := by
  obtain ⟨j, hj, hahead⟩ := exists_claimed_ahead s scans h hc hplaces hlocks
  have hdb := (relayClaim_eq s now hfree k.priority scans).1
  have hrows : (sys.step s (now, .relayClaim r k.priority scans)).db.jobs.rows =
      sys.db.jobs.rows.map fun x =>
        if x.id ∈ (sys.claimedRows s now k.priority scans).map (·.id) then lockRow r now x
        else x := by
    rw [hdb]
    simp only [Relay.claimJobs, claimBatch, Table.updateWhere, decide_eq_true_eq]
    rfl
  rw [aheadCount, aheadCount, hrows]
  have hlocked (x : DispatchJob) : ahead k (lockRow r now x) = false := by
    rw [← Bool.not_eq_true]
    intro hx
    cases (ahead_iff.1 hx).2.2.2.1
  refine countP_map_lt (fun x _ hx => ?_) (mem_claimRows hj).1 hahead ?_
  · split_ifs at hx
    · rw [hlocked] at hx
      cases hx
    · exact hx
  · rw [if_pos (List.mem_map_of_mem hj), hlocked]

/-- The job is claimed, or there was a claim for each job that no longer is ahead of it. -/
theorem claimed_or_waits {acts : List (Time × Act)} (h : Waits k sys)
    (hacts : AllSteps (step s) (ServesAll s k.priority) sys acts) :
    (∃ l₁ now r scans l₂, acts = l₁ ++ (now, .relayClaim r k.priority scans) :: l₂ ∧
      k ∈ (run (step s) sys l₁).claimedRows s now k.priority scans) ∨
    (Waits k (run (step s) sys acts) ∧
      (run (step s) sys acts).aheadCount k + acts.countP (isClaim k.priority) ≤
        sys.aheadCount k) := by
  induction acts generalizing sys with
  | nil => exact Or.inr ⟨h, le_rfl⟩
  | cons a acts ih =>
    obtain ⟨now, a⟩ := a
    obtain ⟨hserves, hacts⟩ := hacts
    by_cases hclaim : ∃ r p scans, a = .relayClaim r p scans ∧ k ∈ sys.claimedRows s now p scans
    · obtain ⟨r, p, scans, rfl, hk⟩ := hclaim
      have helig := (mem_claimRows hk).2
      rw [Settings.priority_priorityConfig] at helig
      obtain rfl := (eligible_iff.1 helig).1
      exact Or.inl ⟨[], now, r, scans, acts, rfl, hk⟩
    · have hstep : Waits k (sys.step s (now, a)) := h.step hserves.1 fun r p scans ha hk =>
        hclaim ⟨r, p, scans, ha, hk⟩
      have hcount : (sys.step s (now, a)).aheadCount k +
          (if isClaim k.priority (now, a) then 1 else 0) ≤ sys.aheadCount k := by
        split_ifs with his
        · cases a with
          | relayClaim r p scans =>
            obtain rfl : p = k.priority := of_decide_eq_true his
            obtain ⟨hfree, hplaces, hlocks⟩ := hserves.2 rfl
            exact aheadCount_claim h hserves.1 hfree hplaces hlocks
          | _ => cases his
        · exact aheadCount_step_le (h.due.trans_le hserves.1)
      rcases ih hstep hacts with ⟨l₁, now', r, scans, l₂, rfl, hk⟩ | ⟨hwaits, hle⟩
      · exact Or.inl ⟨(now, a) :: l₁, now', r, scans, l₂, rfl, hk⟩
      · refine Or.inr ⟨hwaits, ?_⟩
        rw [List.countP_cons, run_cons]
        omega

end System

/-- A job does not wait for long. In every run of atomic transactions from a state in which it has
been due, with readings that do not go back, whose claims of its priority have a place for every
user with due jobs and find no lock that has run out, the job is claimed by the time there are as
many claims as jobs wait in the queue of its user up to it. -/
theorem bounded_waiting (s : Settings) (before acts : List (Time × Act)) (k : DispatchJob)
    (hk : (System.after s before).Waits k)
    (hacts : AllSteps (System.step s) (System.ServesAll s k.priority) (System.after s before) acts)
    (hclaims : (System.after s before).aheadCount k ≤
      acts.countP (System.isClaim k.priority)) :
    ∃ l₁ now r scans l₂, acts = l₁ ++ (now, .relayClaim r k.priority scans) :: l₂ ∧
      k ∈ (System.after s (before ++ l₁)).claimedRows s now k.priority scans := by
  rcases System.claimed_or_waits hk hacts with ⟨l₁, now, r, scans, l₂, rfl, hmem⟩ | ⟨hw, hle⟩
  · refine ⟨l₁, now, r, scans, l₂, rfl, ?_⟩
    rw [System.after, run_append]
    exact hmem
  · have hself : 0 < (run (System.step s) (System.after s before) acts).aheadCount k :=
      List.countP_pos_iff.2 ⟨k, hw.mem, hw.atRest.ahead_self⟩
    omega

theorem bounded_waiting_sample :
    let s : Settings := { relayNormalBatchSize := 1, relayNormalPerUserLimit := 1 }
    let before : List (Time × Act) :=
      [(0, .api (.createUser 1 "user")), (0, .api (.topupUserCredits 1 5)),
        (0, .api (.createMessage ⟨1, "09121234567", "hello", .normal, 7⟩ ⟨10, 20⟩)),
        (1, .api (.createMessage ⟨1, "09121234567", "again", .normal, 8⟩ ⟨11, 21⟩)),
        (2, .dropTask 0)]
    let acts : List (Time × Act) :=
      [(2, .relayClaim 3 .normal {}), (2, .publish 3 (fun _ => true) fun _ => true),
        (2, .relayRecord 3 "" 0), (2, .relayClaim 3 .normal {})]
    ∃ k ∈ (System.after s before).db.jobs, k.id = 21 ∧ ∃ l₁ now r scans l₂,
      acts = l₁ ++ (now, .relayClaim r k.priority scans) :: l₂ ∧
        k ∈ (System.after s (before ++ l₁)).claimedRows s now k.priority scans := by
  intro s before acts
  have hjob : ∀ k ∈ (System.after s before).db.jobs.find? 21, publishable k = true ∧
      k.lockedAt = none ∧ k.lockedBy = none ∧ k.availableAt < (System.after s before).clock ∧
      k.priority = .normal ∧ (System.after s before).aheadCount k ≤ 2 := by decide +kernel
  obtain ⟨k, hk⟩ := Option.isSome_iff_exists.1
    (show ((System.after s before).db.jobs.find? 21).isSome = true by decide +kernel)
  obtain ⟨hopen, hat, hby, hdue, hp, hahead⟩ := hjob k hk
  obtain ⟨hmem, hid⟩ := Table.find?_eq_some.1 hk
  refine ⟨k, hmem, hid, bounded_waiting s before acts k ⟨hmem, ⟨hopen, hat, hby⟩, hdue⟩ ?_ ?_⟩
  · rw [hp]
    decide +kernel
  · rw [hp]
    exact hahead

end Abrio
