import Abrio.ClaimRuns
import Abrio.PaymentMonitor
import Abrio.Recovery

/-!
# The gauges of the database

What `/metrics` says of the database. A scrape collects the jobs that are ready for a relay, and
then the payment violations, by statements of their own between which the system goes on. It keeps
what it collected a short while ago, and where a statement fails it keeps what it has.

In every run without the debug endpoint that zeroes credits the payment gauges stay at zero, though
the two queries read two states (`gauges_exact`). The ready gauges are those of one moment, within
the life of the cache if the database answers, and what they count for a priority is what a relay
could have claimed then.
-/

open Relational Runs

namespace Abrio

open DispatchJobRepository

/-- `READY_JOBS_CACHE_SECONDS`. -/
def readyJobsCacheSeconds : ℤ := 5

/-- `PAYMENT_CONSISTENCY_CACHE_SECONDS`. -/
def paymentConsistencyCacheSeconds : ℤ := 30

namespace Metrics

/-! ## Ready jobs -/

/-- The clause of `ready_query`. -/
def isReady (now staleBefore : Time) (j : DispatchJob) : Bool :=
  publishable j && j.availableAt ≤ now && j.lockedAt.all fun t => t < staleBefore

/-- A row of `ready_query`, beside its priority. -/
structure ReadyRow where
  readyCount : ℕ
  oldestCreatedAt : Option Time

/-- `ready_query` : the jobs a relay could claim, by priority. -/
def readyQuery (now : Time) (rows : List DispatchJob) : List (MessagePriority × ReadyRow) :=
  groupBy DispatchJob.priority
    (fun group => ⟨group.length, (group.map DispatchJob.createdAt).min?⟩)
    (rows.filter (isReady now (now - seconds 60)))

/-- `abrio_dispatch_ready_jobs` and `abrio_dispatch_oldest_ready_age_seconds`, by priority. -/
abbrev ReadyGauges := MessagePriority → ℕ × Time

/-- The number of the row, and the age of its oldest job, of none zero. -/
def readyValue (now : Time) (row : ReadyRow) : ℕ × Time :=
  (row.readyCount, (row.oldestCreatedAt.map fun t => max 0 (now - t)).getD 0)

/-- `values` of `_collect_dispatch_ready_metrics`. -/
def readyValues (now : Time) (rows : List DispatchJob) : ReadyGauges :=
  (readyQuery now rows).foldl (fun values row => Function.update values row.1
    (readyValue now row.2)) fun _ => (0, 0)

/-! ## Collections -/

/-- `_MetricCache`. -/
structure MetricCache where
  expiresAt : Time := 0
  hadSuccess : Bool := false

/-- The collection is skipped. -/
def MetricCache.skips (cache : MetricCache) (force : Bool) (now : Time) : Bool :=
  !force && cache.hadSuccess && now < cache.expiresAt

/-- How far a scrape is, with its reading of the clock. -/
inductive ScrapePhase
  | idle
  | readyJobs (now : Time) (force : Bool)
  | payment (now : Time) (force : Bool)
  | mismatch (now : Time) (row : PaymentRow)

/-- An API process, its gauges and its caches. A gauge is there once it has been set. -/
structure Scraper where
  phase : ScrapePhase := .idle
  ready : Option ReadyGauges := none
  payment : Option PaymentGauges := none
  readyCache : MetricCache := {}
  paymentCache : MetricCache := {}
  warnings : List (PaymentViolation × ℕ) := []

/-- A statement of a scrape, which may fail. -/
inductive ScrapeAct
  | collect (monotonic : Time) (force : Bool)
  | readyJobs (utc : Time) (fails : Bool)
  | paymentQuery (fails : Bool)
  | mismatchQuery (fails : Bool)

/-- `collect_database_metrics`, statement by statement. -/
def Scraper.step (db : Db) (sc : Scraper) : ScrapeAct → Scraper
  | .collect monotonic force =>
    match sc.phase with
    | .idle => { sc with phase := .readyJobs monotonic force }
    | _ => sc
  | .readyJobs utc fails =>
    match sc.phase with
    | .readyJobs now force =>
      if sc.readyCache.skips force now || fails then { sc with phase := .payment now force }
      else
        { sc with
          phase := .payment now force
          ready := some (readyValues utc db.jobs.rows)
          readyCache := ⟨now + seconds readyJobsCacheSeconds, true⟩ }
    | _ => sc
  | .paymentQuery fails =>
    match sc.phase with
    | .payment now force =>
      if sc.paymentCache.skips force now || fails then { sc with phase := .idle }
      else { sc with phase := .mismatch now (Metrics.paymentQuery db.balances.rows) }
    | _ => sc
  | .mismatchQuery fails =>
    match sc.phase with
    | .mismatch now row =>
      if fails then { sc with phase := .idle }
      else
        let values := violationsOf row (Metrics.mismatchQuery db.balances.rows db.messages.rows)
        let (gauges, warnings) := paymentViolationTypes.foldl (setGauge values)
          (sc.payment.getD fun _ => 0, [])
        { sc with
          phase := .idle
          payment := some gauges
          paymentCache := ⟨now + seconds paymentConsistencyCacheSeconds, true⟩
          warnings := sc.warnings ++ warnings }
    | _ => sc

end Metrics

open Metrics

/-! ## The system with a scraper -/

/-- The system, and the process that is scraped. -/
structure Monitored where
  sys : System := {}
  scraper : Scraper := {}

/-- The system goes on between the statements of a scrape. -/
inductive MonitoredAct
  | act (a : Time × Act)
  | scrape (a : ScrapeAct)

namespace Monitored

/-- Either of them goes on. -/
def step (s : Settings) (m : Monitored) : MonitoredAct → Monitored
  | .act a => { m with sys := m.sys.step s a }
  | .scrape a => { m with scraper := m.scraper.step m.sys.db a }

/-- A run from the empty system. -/
def after (s : Settings) (acts : List MonitoredAct) : Monitored :=
  run (step s) {} acts

end Monitored

/-! ## What the ready gauges count -/

namespace Metrics

variable {now : Time} {rows : List DispatchJob} {p : MessagePriority}

/-- What is counted as ready is what a claim may take. -/
theorem filter_ready : (rows.filter (isReady now (now - seconds 60))).filter
    (fun j => j.priority = p) = dueRows p leaseSeconds now rows := by
  rw [List.filter_filter, dueRows]
  refine List.filter_congr fun j _ => ?_
  simp only [isReady, eligible, leaseSeconds, Bool.and_assoc]
  rfl

theorem readyValues_eq : readyValues now rows p =
    readyValue now ⟨(dueRows p leaseSeconds now rows).length,
      ((dueRows p leaseSeconds now rows).map DispatchJob.createdAt).min?⟩ := by
  rw [readyValues, readyQuery, foldl_update_groupBy, filter_ready]
  split_ifs with h
  · rfl
  · have hnil : dueRows p leaseSeconds now rows = [] := by
      rw [← filter_ready, List.filter_eq_nil_iff]
      exact fun j hj hp => h (List.mem_map.2 ⟨j, hj, of_decide_eq_true hp⟩)
    rw [hnil]
    rfl

/-- What the gauges of a priority say of the jobs : how many are ready, and how old the oldest of
them is. -/
structure Counts (now : Time) (due : List DispatchJob) (gauge : ℕ × Time) : Prop where
  count : gauge.1 = due.length
  age : ∀ j ∈ due, now - j.createdAt ≤ gauge.2
  oldest : gauge.2 = 0 ∨ ∃ j ∈ due, gauge.2 = now - j.createdAt

theorem counts_readyValues : Counts now (dueRows p leaseSeconds now rows)
    (readyValues now rows p) := by
  rw [readyValues_eq]
  generalize dueRows p leaseSeconds now rows = due
  cases hmin : (due.map DispatchJob.createdAt).min? with
  | none =>
    obtain rfl := List.map_eq_nil_iff.1 (List.min?_eq_none_iff.1 hmin)
    exact ⟨rfl, by simp, Or.inl rfl⟩
  | some t =>
    obtain ⟨hmem, hle⟩ := List.min?_eq_some_iff.1 hmin
    obtain ⟨j, hj, rfl⟩ := List.mem_map.1 hmem
    refine ⟨rfl, fun k hk => ?_, ?_⟩
    · have hjk := hle _ (List.mem_map_of_mem hk)
      show now - k.createdAt ≤ max 0 (now - j.createdAt)
      exact le_max_of_le_right (by linarith)
    · show max 0 (now - j.createdAt) = 0 ∨ ∃ k ∈ due, max 0 (now - j.createdAt) = _
      rcases max_choice 0 (now - j.createdAt) with h | h
      · exact Or.inl h
      · exact Or.inr ⟨j, hj, h⟩

end Metrics

/-! ## Runs -/

namespace Metrics.Scraper

variable {db : Db} {sc sc' : Scraper} {a : ScrapeAct}

/-- What a statement of a scrape does. -/
inductive Move (db : Db) (sc : Scraper) : ScrapeAct → Scraper → Prop
  | same (a : ScrapeAct) : Move db sc a sc
  | begins (now : Time) (force : Bool) :
    Move db sc (.collect now force) { sc with phase := .readyJobs now force }
  | keeps {utc now : Time} {fails force : Bool} (phase : sc.phase = .readyJobs now force)
    (skipped : (sc.readyCache.skips force now || fails) = true) :
    Move db sc (.readyJobs utc fails) { sc with phase := .payment now force }
  | readies {utc now : Time} {force : Bool} (phase : sc.phase = .readyJobs now force) :
    Move db sc (.readyJobs utc false)
      { sc with
        phase := .payment now force
        ready := some (readyValues utc db.jobs.rows)
        readyCache := ⟨now + seconds readyJobsCacheSeconds, true⟩ }
  | ends (a : ScrapeAct) (not_ready : ∀ utc fails, a ≠ .readyJobs utc fails) :
    Move db sc a { sc with phase := .idle }
  | asks (now : Time) : Move db sc (.paymentQuery false)
      { sc with phase := .mismatch now (Metrics.paymentQuery db.balances.rows) }
  | sets {now : Time} {row : PaymentRow} (phase : sc.phase = .mismatch now row) :
    Move db sc (.mismatchQuery false)
      (let values := violationsOf row (Metrics.mismatchQuery db.balances.rows db.messages.rows)
      let set := paymentViolationTypes.foldl (setGauge values) (sc.payment.getD fun _ => 0, [])
      { sc with
        phase := .idle
        payment := some set.1
        paymentCache := ⟨now + seconds paymentConsistencyCacheSeconds, true⟩
        warnings := sc.warnings ++ set.2 })

theorem step_move (db : Db) (sc : Scraper) (a : ScrapeAct) : Move db sc a (sc.step db a) := by
  cases a with
  | collect now force =>
    rw [step]
    split
    · exact .begins now force
    · exact .same _
  | readyJobs utc fails =>
    rw [step]
    split
    · rename_i now force phase
      split_ifs with h
      · exact .keeps phase h
      · obtain rfl := (Bool.or_eq_false_iff.1 (Bool.eq_false_of_not_eq_true h)).2
        exact .readies phase
    · exact .same _
  | paymentQuery fails =>
    rw [step]
    split
    · rename_i now force phase
      split_ifs with h
      · exact .ends _ (by simp)
      · obtain rfl := (Bool.or_eq_false_iff.1 (Bool.eq_false_of_not_eq_true h)).2
        exact .asks now
    · exact .same _
  | mismatchQuery fails =>
    rw [step]
    split
    · rename_i now row phase
      split_ifs with h
      · exact .ends _ (by simp)
      · obtain rfl : fails = false := by simpa using h
        exact .sets phase
    · exact .same _

/-- No violation has been seen. -/
structure Quiet (sc : Scraper) : Prop where
  payment : ∀ g, sc.payment = some g → ∀ t, g t = 0
  row : ∀ now row, sc.phase = .mismatch now row → row.negativeCredits = 0 ∧
    row.negativeReservedCredits = 0 ∧ row.reservedExceedsCredits = 0
  warnings : sc.warnings = []

theorem Quiet.move (h : sc.Quiet) (hdb : db.Accounted) (hm : Move db sc a sc') : sc'.Quiet := by
  cases hm with
  | same => exact h
  | begins => exact ⟨h.payment, by simp, h.warnings⟩
  | keeps => exact ⟨h.payment, by simp, h.warnings⟩
  | readies => exact ⟨h.payment, by simp, h.warnings⟩
  | ends => exact ⟨h.payment, by simp, h.warnings⟩
  | asks now =>
    refine ⟨h.payment, ?_, h.warnings⟩
    rintro _ _ ⟨⟩
    exact ⟨hdb.silent .negativeCredits, hdb.silent .negativeReservedCredits,
      hdb.silent .reservedExceedsCredits⟩
  | sets phase =>
    rename_i now row
    obtain ⟨hneg, hres, hexceeds⟩ := h.row _ _ phase
    have hzero (t : PaymentViolation) :
        violationsOf row (Metrics.mismatchQuery db.balances.rows db.messages.rows) t = 0 := by
      cases t with
      | negativeCredits => exact hneg
      | negativeReservedCredits => exact hres
      | reservedExceedsCredits => exact hexceeds
      | reservedWithoutMessage => exact hdb.silent .reservedWithoutMessage
      | messageBalanceMismatch => exact hdb.silent .messageBalanceMismatch
    refine ⟨?_, by simp, ?_⟩
    · rintro g ⟨⟩ t
      rw [foldl_setGauge_fst, if_pos (mem_paymentViolationTypes t), hzero]
    · show sc.warnings ++ _ = []
      rw [h.warnings, foldl_setGauge_snd]
      simp [hzero]

end Metrics.Scraper

namespace Monitored

variable {s : Settings} {acts : List MonitoredAct} {now : Time} {g : ReadyGauges}

theorem after_append (s : Settings) (acts : List MonitoredAct) (a : MonitoredAct) :
    after s (acts ++ [a]) = (after s acts).step s a := by
  rw [after, run_append, run_singleton]
  rfl

theorem after_consistent (s : Settings) (acts : List MonitoredAct) :
    (after s acts).sys.db.Consistent := by
  refine run_induction (P := fun m : Monitored => m.sys.db.Consistent) (fun m a h => ?_) acts
    Db.consistent_empty
  cases a with
  | act a => exact System.step_consistent a h
  | scrape a => exact h

theorem after_quiet (s : Settings) (acts : List MonitoredAct) : (after s acts).scraper.Quiet := by
  induction acts using List.reverseRecOn with
  | nil => exact ⟨by rintro g ⟨⟩, by rintro now row ⟨⟩, rfl⟩
  | append_singleton acts a ih =>
    rw [after_append]
    cases a with
    | act a => exact ih
    | scrape a => exact ih.move (after_consistent s acts).toAccounted (Scraper.step_move _ _ a)

/-- A scrape of the run that read `now` on its clock collected the ready gauges. They say how many
jobs were ready at that moment and how old they were, and what a relay would have claimed. -/
def CollectedAt (s : Settings) (acts : List MonitoredAct) (now : Time) (g : ReadyGauges) : Prop :=
  ∃ l₁ utc l₂ force, acts = l₁ ++ .scrape (.readyJobs utc false) :: l₂ ∧
    (after s l₁).scraper.phase = .readyJobs now force ∧
    ∀ p, Counts utc (dueRows p leaseSeconds utc (after s l₁).sys.db.jobs.rows) (g p) ∧
      ∀ scans, ((after s l₁).sys.claimedRows s utc p scans).length =
        min (s.priorityConfig p).batchSize (g p).1

theorem CollectedAt.append (h : CollectedAt s acts now g) (a : MonitoredAct) :
    CollectedAt s (acts ++ [a]) now g := by
  obtain ⟨l₁, utc, l₂, force, rfl, hphase, hg⟩ := h
  exact ⟨l₁, utc, l₂ ++ [a], force, by simp, hphase, hg⟩

theorem collectedAt_readyValues (utc : Time) {force : Bool}
    (h : (after s acts).scraper.phase = .readyJobs now force) :
    CollectedAt s (acts ++ [.scrape (.readyJobs utc false)]) now
      (readyValues utc (after s acts).sys.db.jobs.rows) := by
  refine ⟨acts, utc, [], force, rfl, h, fun p => ⟨counts_readyValues, fun scans => ?_⟩⟩
  rw [counts_readyValues.count, System.claimedRows, length_claimRows,
    Settings.priority_priorityConfig]

/-- What the ready gauges and their cache are. -/
structure ReadyInv (s : Settings) (acts : List MonitoredAct) : Prop where
  collected : ∀ g, (after s acts).scraper.ready = some g → ∃ now, CollectedAt s acts now g ∧
    (after s acts).scraper.readyCache.expiresAt = now + seconds readyJobsCacheSeconds
  cached : (after s acts).scraper.readyCache.hadSuccess = true →
    (after s acts).scraper.ready.isSome = true

theorem readyInv (s : Settings) (acts : List MonitoredAct) : ReadyInv s acts := by
  induction acts using List.reverseRecOn with
  | nil => exact ⟨by rintro g ⟨⟩, by rintro ⟨⟩⟩
  | append_singleton acts a ih =>
    have hkeep (h : (after s (acts ++ [a])).scraper.ready = (after s acts).scraper.ready)
        (hc : (after s (acts ++ [a])).scraper.readyCache = (after s acts).scraper.readyCache) :
        ReadyInv s (acts ++ [a]) := by
      refine ⟨fun g hg => ?_, ?_⟩
      · obtain ⟨now, hcol, hexp⟩ := ih.collected g (h ▸ hg)
        exact ⟨now, hcol.append a, hc ▸ hexp⟩
      · rw [h, hc]
        exact ih.cached
    have hafter := after_append s acts a
    cases a with
    | act a => exact hkeep (by rw [hafter]; rfl) (by rw [hafter]; rfl)
    | scrape a =>
      have hmove := Scraper.step_move (after s acts).sys.db (after s acts).scraper a
      have hscraper : (after s (acts ++ [.scrape a])).scraper =
          (after s acts).scraper.step (after s acts).sys.db a := by
        rw [hafter]
        rfl
      rw [← hscraper] at hmove
      generalize hsc : (after s (acts ++ [.scrape a])).scraper = sc at hmove hkeep
      cases hmove with
      | readies phase =>
        rename_i utc now force
        refine ⟨?_, fun _ => ?_⟩
        · rw [hsc]
          rintro g ⟨⟩
          exact ⟨now, collectedAt_readyValues utc phase, rfl⟩
        · rw [hsc]
          rfl
      | _ => exact hkeep rfl rfl

end Monitored

/-- The gauges of the database, in every run with scrapes in which no credits are zeroed. The
payment gauges are zero and no violation is ever logged. The ready gauges were collected at some
moment of the run, and those a scrape shows whose statement does not fail less than the life of the
cache ago. -/
theorem gauges_exact (s : Settings) (acts : List MonitoredAct) :
    let m := Monitored.after s acts
    (∀ g, m.scraper.payment = some g → ∀ t, g t = 0) ∧ m.scraper.warnings = [] ∧
      (∀ g, m.scraper.ready = some g → ∃ now, Monitored.CollectedAt s acts now g) ∧
      ∀ utc now force, m.scraper.phase = .readyJobs now force → ∃ now' g,
        (m.step s (.scrape (.readyJobs utc false))).scraper.ready = some g ∧
          Monitored.CollectedAt s (acts ++ [.scrape (.readyJobs utc false)]) now' g ∧
          now < now' + seconds readyJobsCacheSeconds := by
  intro m
  have hquiet := Monitored.after_quiet s acts
  have hready := Monitored.readyInv s acts
  refine ⟨hquiet.payment, hquiet.warnings, fun g hg => ?_, fun utc now force hphase => ?_⟩
  · obtain ⟨now, hcol, -⟩ := hready.collected g hg
    exact ⟨now, hcol⟩
  · by_cases hskip : m.scraper.readyCache.skips force now = true
    · have hfresh := hskip
      simp only [MetricCache.skips, Bool.and_eq_true, decide_eq_true_eq] at hfresh
      obtain ⟨g, hg⟩ := Option.isSome_iff_exists.1 (hready.cached hfresh.1.2)
      obtain ⟨now', hcol, hexp⟩ := hready.collected g hg
      refine ⟨now', g, ?_, hcol.append _, hexp ▸ hfresh.2⟩
      show (m.scraper.step m.sys.db (.readyJobs utc false)).ready = some g
      simp only [Scraper.step, hphase, hskip, Bool.true_or, if_true]
      exact hg
    · refine ⟨now, _, ?_, Monitored.collectedAt_readyValues utc hphase,
        lt_add_of_pos_right _ (by decide)⟩
      show (m.scraper.step m.sys.db (.readyJobs utc false)).ready = some _
      simp only [Scraper.step, hphase, hskip, Bool.or_self, Bool.false_eq_true, if_false]
      rfl

end Abrio
