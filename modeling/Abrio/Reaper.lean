import Abrio.Lifecycle

/-!
# The reaper's statement, interleaved

`reclaim_stale_inflight` is one `UPDATE … WHERE id IN (SELECT …)`. Under `READ COMMITTED`
its sub-select reads the statement's snapshot; a row that another transaction has changed
meanwhile is updated in its newest version, on which only the membership of its id is
checked again. So here the statement runs in two halves : `select` reads the rows that are
stale, and each of them is later written (`write`), with any steps of the system between.

A write hits a row that is stale by its statement's clock reading exactly when the row is
still the one that was selected (`writesStale_iff`). Runs in which it always is keep what
the reaper is meant to keep (`reaper_writes_stale`).

What a step does to one job is a move of it, or a late write (`InterleavedMove`), so an invariant of
a job is kept by every run when it is by these (`job_invariant`).
-/

open Relational Runs

namespace Abrio

open DispatchJobRepository DispatchUseCase

/-- A row the sub-select returned, with the clock reading of its statement. -/
structure Selected where
  now : Time
  seen : DispatchJob

/-- The system with the rows that reapers have selected and not yet written. -/
structure Interleaved extends System where
  selected : List Selected := []

/-- An act of the system, or one of the two halves of a sweep. -/
inductive InterleavedAct
  | act (a : Act)
  | select (priority : MessagePriority) (scan : Scan DispatchJob)
  | write (i : ℕ)

namespace Interleaved

variable (s : Settings) (f : Interleaved)

/-- The sub-select. -/
def select (now : Time) (priority : MessagePriority) (scan : Scan DispatchJob) : Interleaved :=
  { f with
    clock := now
    selected := f.selected ++ (f.reaped now priority scan).map fun j => ⟨now, j⟩ }

/-- The update of one selected row. -/
def write (now : Time) (i : ℕ) : Interleaved :=
  match f.selected[i]? with
  | none => { f with clock := now }
  | some sel =>
    { f with
      db := reclaimIds [sel.seen.id] sel.now f.db
      clock := now
      log := f.log ++ [.reclaimed sel.seen]
      selected := f.selected.eraseIdx i }

/-- Other acts come between the sub-select of a sweep and its updates. -/
def step (a : Time × InterleavedAct) : Interleaved :=
  match a.2 with
  | .act b => { f.toSystem.step s (a.1, b) with selected := f.selected }
  | .select priority scan => f.select a.1 priority scan
  | .write i => f.write a.1 i

/-- The clock does not go back. -/
def OnTime (a : Time × InterleavedAct) : Prop :=
  f.clock ≤ a.1

instance : DecidableRel OnTime := fun _ _ => inferInstanceAs (Decidable (_ ≤ _))

/-- The system after a run from the empty database. -/
def after (acts : List (Time × InterleavedAct)) : Interleaved :=
  run (step s) {} acts

/-! ## Conditions on a write -/

/-- The row a write is about to change, with what was selected. -/
def target (a : Time × InterleavedAct) : Option (Selected × DispatchJob) :=
  match a.2 with
  | .write i => do
    let sel ← f.selected[i]?
    let row ← f.db.jobs.find? sel.seen.id
    return (sel, row)
  | _ => none

/-- The rows that a step's sweep changes, as they are before. -/
def swept (a : Time × InterleavedAct) : List DispatchJob :=
  match a.2 with
  | .act (.reap priority scan) => f.reaped a.1 priority scan
  | .write _ => ((f.target a).map Prod.snd).toList
  | _ => []

/-- A write changes a row that is stale by the clock reading of its statement. -/
def writesStale (a : Time × InterleavedAct) : Bool :=
  (f.target a).all fun (sel, row) => staleInflight (sel.now - seconds inflightLeaseSeconds) row

/-- A write changes the row that was selected, which no one has changed since. -/
def undisturbed (a : Time × InterleavedAct) : Bool :=
  (f.target a).all fun (sel, row) => row = sel.seen

variable {s f}

theorem target_eq_some {a : Time × InterleavedAct} {sel : Selected} {row : DispatchJob} :
    f.target a = some (sel, row) ↔ ∃ i, a.2 = .write i ∧ f.selected[i]? = some sel ∧
      f.db.jobs.find? sel.seen.id = some row := by
  obtain ⟨now, a⟩ := a
  cases a with
  | write i =>
    simp only [target, bind, Option.bind_eq_some_iff, pure, Option.some.injEq, Prod.mk.injEq]
    constructor
    · rintro ⟨sel, hs, row, hr, rfl, rfl⟩
      exact ⟨i, rfl, hs, hr⟩
    · rintro ⟨_, ⟨⟩, hs, hr⟩
      exact ⟨sel, hs, row, hr, rfl, rfl⟩
  | _ => simp [target]

theorem mem_swept_write {now : Time} {i : ℕ} {sel : Selected} {j : DispatchJob}
    (hsel : f.selected[i]? = some sel) (hj : f.db.jobs.find? sel.seen.id = some j) :
    j ∈ f.swept (now, .write i) := by
  have ht : f.target (now, .write i) = some (sel, j) := target_eq_some.2 ⟨i, rfl, hsel, hj⟩
  simp [swept, ht]

end Interleaved

/-! ## What has been selected -/

/-- Nothing moves a row to a version that was stale before. -/
theorem RowMove.not_stale {s : Settings} {sys : System} {now t : Time} {j j' : DispatchJob}
    {a : Act} {es : List Event} (h : RowMove s sys now j a es j') (ht : t ≤ now) :
    staleInflight (t - seconds inflightLeaseSeconds) j' = false := by
  have hpos : 0 ≤ seconds inflightLeaseSeconds := by decide
  have hlt : ¬now < t - seconds inflightLeaseSeconds :=
    not_lt.2 ((sub_le_self t hpos).trans ht)
  rw [← Bool.not_eq_true, staleInflight_iff]
  cases h with
  | locked due =>
    rcases publishable_iff.1 (eligible_iff.1 due).2.1 with hs | hs <;> simp [lockRow, hs]
  | published isOpen locked_by => simpa [publishedRow] using not_lt.1 hlt
  | publishRetry isOpen locked_by => simp [publishRetryRow]
  | reclaimed taken => simp [reclaimRow]
  | expired not_terminal claimable storable => simp [markFailed]
  | claimed not_terminal claimable storable => simpa [markDispatching] using not_lt.1 hlt
  | recorded dispatching locked_by outcome storable =>
    cases outcome <;> simp [markCompleted, markFailed, markDeliveryRetry]

/-- Only a row that is not terminal moves. -/
theorem RowMove.not_terminal {s : Settings} {sys : System} {now : Time} {j j' : DispatchJob}
    {a : Act} {es : List Event} (h : RowMove s sys now j a es j') : j.status.terminal = false := by
  cases h with
  | locked due => exact not_terminal_of_publishable (eligible_iff.1 due).2.1
  | published isOpen locked_by => exact not_terminal_of_publishable isOpen
  | publishRetry isOpen locked_by => exact not_terminal_of_publishable isOpen
  | reclaimed taken => exact not_terminal_of_stale (mem_staleJobs taken).2.2
  | expired not_terminal claimable storable => exact not_terminal
  | claimed not_terminal claimable storable => exact not_terminal
  | recorded dispatching locked_by outcome storable =>
    rw [dispatching]
    rfl

/-- A selected row was stale, and its job's row is that row still or is not stale. -/
structure Selected.Inv (sys : System) (sel : Selected) : Prop where
  time : sel.now ≤ sys.clock
  stale : staleInflight (sel.now - seconds inflightLeaseSeconds) sel.seen = true
  current : ∃ row, sys.db.jobs.find? sel.seen.id = some row ∧
    (row ≠ sel.seen → staleInflight (sel.now - seconds inflightLeaseSeconds) row = false)

/-- A step of the system changes the row of a selected job, if at all, to one not stale. -/
theorem Selected.Inv.step {s : Settings} {sys : System} {sel : Selected} {a : Time × Act}
    (h : sel.Inv sys) (hc : sys.clock ≤ a.1) : sel.Inv (sys.step s a) := by
  obtain ⟨now, a⟩ := a
  have ht : sel.now ≤ now := h.time.trans hc
  obtain ⟨row, hrow, hs⟩ := h.current
  refine ⟨ht, h.stale, ?_⟩
  obtain ⟨es, -, hm⟩ := System.step_moves s sys (now, a) sel.seen.id
  rw [hrow] at hm
  generalize (sys.step s (now, a)).db.jobs.find? sel.seen.id = row' at hm
  cases hm with
  | same => exact ⟨row, rfl, hs⟩
  | sent => exact ⟨row, rfl, hs⟩
  | row hmove => exact ⟨_, rfl, fun _ => hmove.not_stale ht⟩

namespace Interleaved

variable {s : Settings} {f : Interleaved}

/-- A write leaves no row stale that it changes. -/
theorem write_inv {now : Time} {sel : Selected} (h : sel.Inv f.toSystem) (hc : f.clock ≤ now)
    (i : ℕ) : sel.Inv (f.write now i).toSystem := by
  unfold write
  split
  · exact ⟨h.time.trans hc, h.stale, h.current⟩
  · rename_i sel' _
    obtain ⟨row, hrow, hs⟩ := h.current
    refine ⟨h.time.trans hc, h.stale, _, (find?_reclaimIds _ _).trans (by rw [hrow]; rfl), ?_⟩
    intro hne
    dsimp only at hne ⊢
    split_ifs at hne ⊢
    · simp [staleInflight, reclaimRow]
    · exact hs hne

/-- What has been selected keeps its invariant while the clock does not go back. -/
theorem step_inv {a : Time × InterleavedAct} (hc : f.OnTime a)
    (h : ∀ sel ∈ f.selected, sel.Inv f.toSystem) :
    ∀ sel ∈ (f.step s a).selected, sel.Inv (f.step s a).toSystem := by
  obtain ⟨now, a⟩ := a
  cases a with
  | act b => exact fun sel hsel => (h sel hsel).step hc
  | select p scan =>
    intro sel hsel
    rcases List.mem_append.1 hsel with hsel | hsel
    · have hinv := h sel hsel
      exact ⟨hinv.time.trans hc, hinv.stale, hinv.current⟩
    · obtain ⟨j, hj, rfl⟩ := List.mem_map.1 hsel
      obtain ⟨hmem, -, hstale⟩ := mem_staleJobs hj
      exact ⟨le_rfl, hstale, j, Table.find?_key hmem, fun hne => absurd rfl hne⟩
  | write i =>
    intro sel hsel
    have hmem : sel ∈ f.selected := by
      simp only [step, write] at hsel
      split at hsel
      · exact hsel
      · exact List.mem_of_mem_eraseIdx hsel
    exact write_inv (h sel hmem) hc i

/-- A write hits a row that is stale exactly when it is the row that was selected. -/
theorem writesStale_iff {a : Time × InterleavedAct}
    (h : ∀ sel ∈ f.selected, sel.Inv f.toSystem) :
    f.writesStale a = true ↔ f.undisturbed a = true := by
  unfold writesStale undisturbed
  cases ht : f.target a with
  | none => simp
  | some x =>
    obtain ⟨sel, row⟩ := x
    obtain ⟨i, -, hi, hrow⟩ := target_eq_some.1 ht
    have hinv := h sel (List.mem_of_getElem? hi)
    simp only [Option.all_some, decide_eq_true_eq]
    refine ⟨fun hstale => ?_, fun he => he ▸ hinv.stale⟩
    obtain ⟨row', hrow', hs⟩ := hinv.current
    obtain rfl := Option.some.inj (hrow.symm.trans hrow')
    by_contra hne
    rw [hs hne] at hstale
    cases hstale

/-! ## What an undisturbed reaper keeps -/

/-- A job that is completed or failed stays as it is. -/
def KeepsTerminal (s : Settings) (f : Interleaved) (a : Time × InterleavedAct) : Prop :=
  ∀ id j, f.db.jobs.find? id = some j → j.status.terminal = true →
    (f.step s a).db.jobs.find? id = some j

/-- A write leaves alone a delivery whose worker's lease is not over at that moment. -/
def KeepsLeases (s : Settings) (f : Interleaved) (a : Time × InterleavedAct) : Prop :=
  ∀ i, a.2 = .write i → ∀ id j t, f.db.jobs.find? id = some j → j.status = .dispatching →
    j.lockedAt = some t → a.1 ≤ t + seconds workerLeaseSeconds →
    (f.step s a).db.jobs.find? id = some j

/-- The row of a job after a write, which is its row before or the one the write aims at. -/
theorem find?_write (now : Time) (i : ℕ) {id : UUID} {j : DispatchJob}
    (hj : f.db.jobs.find? id = some j) :
    (f.write now i).db.jobs.find? id = some j ∨
      ∃ sel, f.target (now, .write i) = some (sel, j) := by
  unfold write
  split
  · exact Or.inl hj
  · rename_i sel hsel
    obtain ⟨-, rfl⟩ := Table.find?_eq_some.1 hj
    show (reclaimIds [sel.seen.id] sel.now f.db).jobs.find? j.id = some j ∨ _
    rw [find?_reclaimIds, hj, Option.map_some]
    split_ifs with hid
    · rw [List.mem_singleton] at hid
      exact Or.inr ⟨sel, target_eq_some.2 ⟨i, rfl, hsel, hid ▸ hj⟩⟩
    · exact Or.inl rfl

/-- Terminal rows are left alone by the system, and by writes that hit stale rows. -/
theorem keepsTerminal {a : Time × InterleavedAct} (hw : f.writesStale a = true) :
    KeepsTerminal s f a := by
  intro id j hj hterm
  obtain ⟨now, a⟩ := a
  cases a with
  | act b =>
    obtain ⟨es, -, hm⟩ := System.step_moves s f.toSystem (now, b) id
    rw [show f.toSystem.db.jobs.find? id = some j from hj] at hm
    show (f.toSystem.step s (now, b)).db.jobs.find? id = some j
    generalize (f.toSystem.step s (now, b)).db.jobs.find? id = row' at hm ⊢
    cases hm with
    | same => rfl
    | sent => rfl
    | row hmove =>
      rw [hmove.not_terminal] at hterm
      cases hterm
  | select p scan => exact hj
  | write i =>
    rcases find?_write now i hj with h | ⟨sel, ht⟩
    · exact h
    · have hstale : staleInflight (sel.now - seconds inflightLeaseSeconds) j = true := by
        simpa [writesStale, ht] using hw
      rw [not_terminal_of_stale hstale] at hterm
      cases hterm

/-- Writes that hit stale rows hit no delivery whose lease is not over. -/
theorem keepsLeases {a : Time × InterleavedAct} (h : ∀ sel ∈ f.selected, sel.Inv f.toSystem)
    (hc : f.OnTime a) (hw : f.writesStale a = true) : KeepsLeases s f a := by
  rintro i ha id j t hj hd ht hfresh
  obtain ⟨now, a⟩ := a
  obtain rfl : a = .write i := ha
  rcases find?_write now i hj with h' | ⟨sel, htarget⟩
  · exact h'
  · have hstale : staleInflight (sel.now - seconds inflightLeaseSeconds) j = true := by
      simpa [writesStale, htarget] using hw
    obtain ⟨k, -, hsel, -⟩ := target_eq_some.1 htarget
    have hnow : sel.now ≤ now := (h sel (List.mem_of_getElem? hsel)).time.trans hc
    rcases staleInflight_iff.1 hstale with ⟨hp, -⟩ | ⟨-, t', ht', hlt⟩
    · rw [hd] at hp
      cases hp
    · rw [ht] at ht'
      cases ht'
      have hover : t + seconds workerLeaseSeconds < sel.now := lt_sub_iff_add_lt.1 hlt
      exact absurd (hover.trans_le hnow) (not_lt.2 hfresh)

end Interleaved

/-! ## Moves of one job -/

/-- What a step can do to the row of job `id` : what a step of the system can, or a late write
of a version of it that was selected, over the row as it is by then. -/
inductive InterleavedMove (s : Settings) (f : Interleaved) (id : UUID) (now : Time) :
    InterleavedAct → Option DispatchJob → List Event → Option DispatchJob → Prop
  | same {a : InterleavedAct} {row : Option DispatchJob} : InterleavedMove s f id now a row [] row
  | act {a : Act} {row row' : Option DispatchJob} {es : List Event}
      (move : JobMove s f.toSystem now a row es row') :
      InterleavedMove s f id now (.act a) row es row'
  | write {i : ℕ} {sel : Selected} {row : Option DispatchJob}
      (selected : f.selected[i]? = some sel) (job : sel.seen.id = id) :
      InterleavedMove s f id now (.write i) row [.reclaimed sel.seen]
        (row.map (reclaimRow sel.now))

namespace Interleaved

variable {s : Settings} {f : Interleaved}

/-- A step is a move of every job. -/
theorem step_moves (s : Settings) (f : Interleaved) (a : Time × InterleavedAct) (id : UUID) :
    ∃ es, (f.step s a).jobLog id = f.jobLog id ++ es ∧
      InterleavedMove s f id a.1 a.2 (f.db.jobs.find? id) es
        ((f.step s a).db.jobs.find? id) := by
  obtain ⟨now, a⟩ := a
  cases a with
  | act b =>
    obtain ⟨es, hlog, hm⟩ := System.step_moves s f.toSystem (now, b) id
    exact ⟨es, hlog, .act hm⟩
  | select p scan => exact ⟨[], (List.append_nil _).symm, .same⟩
  | write i =>
    cases hsel : f.selected[i]? with
    | none =>
      have hw : f.write now i = { f with clock := now } := by simp only [write, hsel]
      simp only [step, hw]
      exact ⟨[], (List.append_nil _).symm, .same⟩
    | some sel =>
      have hw : f.write now i = { f with
          db := reclaimIds [sel.seen.id] sel.now f.db
          clock := now
          log := f.log ++ [.reclaimed sel.seen]
          selected := f.selected.eraseIdx i } := by simp only [write, hsel]
      simp only [step, hw]
      refine ⟨[Event.reclaimed sel.seen].filter fun e => e.jobId = id, List.filter_append _ _, ?_⟩
      rw [find?_reclaimIds]
      by_cases hid : sel.seen.id = id
      · have hrow : ((f.db.jobs.find? id).map fun j =>
            if j.id ∈ [sel.seen.id] then reclaimRow sel.now j else j) =
              (f.db.jobs.find? id).map (reclaimRow sel.now) := by
          cases hj : f.db.jobs.find? id with
          | none => rfl
          | some j =>
            have hmem : j.id ∈ [sel.seen.id] := by simp [(Table.find?_eq_some.1 hj).2, hid]
            rw [Option.map_some, if_pos hmem, Option.map_some]
        rw [hrow]
        simpa [Event.jobId, hid] using InterleavedMove.write hsel hid
      · have hrow : ((f.db.jobs.find? id).map fun j =>
            if j.id ∈ [sel.seen.id] then reclaimRow sel.now j else j) = f.db.jobs.find? id := by
          cases hj : f.db.jobs.find? id with
          | none => rfl
          | some j =>
            have hmem : j.id ∉ [sel.seen.id] := by
              simpa [(Table.find?_eq_some.1 hj).2] using Ne.symm hid
            rw [Option.map_some, if_neg hmem]
        rw [hrow]
        simpa [Event.jobId, hid] using InterleavedMove.same

/-- What the moves of a job preserve holds along a run. -/
theorem job_invariant {C : Interleaved → Time × InterleavedAct → Prop} {id : UUID}
    {P : Option DispatchJob → List Event → Prop}
    (hP : ∀ (f : Interleaved) a es row', C f a →
      InterleavedMove s f id a.1 a.2 (f.db.jobs.find? id) es row' →
      P (f.db.jobs.find? id) (f.jobLog id) → P row' (f.jobLog id ++ es))
    (acts : List (Time × InterleavedAct)) (hC : AllSteps (step s) C f acts)
    (h : P (f.db.jobs.find? id) (f.jobLog id)) :
    P ((run (step s) f acts).db.jobs.find? id) ((run (step s) f acts).jobLog id) := by
  refine AllSteps.invariant (P := fun f : Interleaved => P (f.db.jobs.find? id) (f.jobLog id))
    (fun f a ha h => ?_) acts hC h
  obtain ⟨es, hlog, hmove⟩ := step_moves s f a id
  rw [hlog]
  exact hP f a es _ ha hmove h

/-- A write in an undisturbed run changes the version that was selected. -/
theorem eq_seen_of_undisturbed {now : Time} {i : ℕ} {sel : Selected} {j : DispatchJob}
    (hsel : f.selected[i]? = some sel) (hj : f.db.jobs.find? sel.seen.id = some j)
    (hu : f.undisturbed (now, .write i) = true) : j = sel.seen := by
  have ht : f.target (now, .write i) = some (sel, j) := target_eq_some.2 ⟨i, rfl, hsel, hj⟩
  simpa [undisturbed, ht] using hu

end Interleaved

/-! ## Strandings -/

/-- The row a reaper took. -/
def Event.reclaimed? : Event → Option DispatchJob
  | .reclaimed j => some j
  | _ => none

/-- The versions of job `id` that reapers took, one for each time they raised its attempts. -/
def System.strandings (sys : System) (id : UUID) : List DispatchJob :=
  (sys.jobLog id).filterMap Event.reclaimed?

/-- The attempts of a job count its strandings. -/
structure StrandingInv (row : Option DispatchJob) (log : List Event) : Prop where
  counted : ∀ k ∈ log.filterMap Event.reclaimed?, ∃ j, row = some j ∧
    k.deliveryAttempts < j.deliveryAttempts
  nodup : (log.filterMap Event.reclaimed?).Nodup

namespace StrandingInv

variable {row row' : Option DispatchJob} {log : List Event} {j j' : DispatchJob}

theorem keep (h : StrandingInv row log) {es : List Event}
    (he : es.filterMap Event.reclaimed? = [])
    (ha : ∀ j, row = some j → ∃ j', row' = some j' ∧ j.deliveryAttempts ≤ j'.deliveryAttempts) :
    StrandingInv row' (log ++ es) := by
  have hlog : (log ++ es).filterMap Event.reclaimed? = log.filterMap Event.reclaimed? := by
    rw [List.filterMap_append, he, List.append_nil]
  refine ⟨fun k hk => ?_, hlog ▸ h.nodup⟩
  obtain ⟨j, hj, hlt⟩ := h.counted k (hlog ▸ hk)
  obtain ⟨j', hj', hle⟩ := ha j hj
  exact ⟨j', hj', hlt.trans_le hle⟩

/-- A sweep of the current row. -/
theorem reclaimed (h : StrandingInv (some j) log) (now : Time) :
    StrandingInv (some (reclaimRow now j)) (log ++ [.reclaimed j]) := by
  have hlog : (log ++ [Event.reclaimed j]).filterMap Event.reclaimed? =
      log.filterMap Event.reclaimed? ++ [j] := by
    rw [List.filterMap_append]
    rfl
  have hlt : ∀ k ∈ log.filterMap Event.reclaimed?, k.deliveryAttempts < j.deliveryAttempts := by
    intro k hk
    obtain ⟨j', hj', hlt⟩ := h.counted k hk
    cases hj'
    exact hlt
  refine ⟨fun k hk => ⟨_, rfl, ?_⟩, ?_⟩
  · rw [hlog] at hk
    rcases List.mem_append.1 hk with hk | hk
    · exact (hlt k hk).trans (Nat.lt_succ_self _)
    · rw [List.mem_singleton.1 hk]
      exact Nat.lt_succ_self _
  · rw [hlog]
    refine h.nodup.append (List.nodup_singleton j) fun k hk hkj => ?_
    exact absurd (hlt k hk) (by rw [List.mem_singleton.1 hkj]; exact lt_irrefl _)

theorem move {s : Settings} {sys : System} {now : Time} {a : Act} {es : List Event}
    (h : StrandingInv row log) (hm : JobMove s sys now a row es row') :
    StrandingInv row' (log ++ es) := by
  cases hm with
  | same => exact h.keep rfl fun j hj => ⟨j, hj, le_rfl⟩
  | sent => exact h.keep rfl fun j hj => ⟨j, hj, le_rfl⟩
  | created storable => exact h.keep rfl (by simp)
  | row hmove =>
    cases hmove with
    | reclaimed taken => exact h.reclaimed now
    | recorded dispatching locked_by outcome storable =>
      refine h.keep rfl fun j hj => ⟨_, rfl, ?_⟩
      cases hj
      cases outcome <;> simp [markCompleted, markFailed, markDeliveryRetry]
    | _ =>
      refine h.keep rfl fun j hj => ⟨_, rfl, ?_⟩
      cases hj
      exact le_rfl

end StrandingInv

namespace Interleaved

variable {s : Settings} {f : Interleaved}

theorem strandingInv_step {a : Time × InterleavedAct}
    (hsel : ∀ sel ∈ f.selected, sel.Inv f.toSystem) (hu : f.undisturbed a = true) {id : UUID}
    (h : StrandingInv (f.db.jobs.find? id) (f.jobLog id)) :
    StrandingInv ((f.step s a).db.jobs.find? id) ((f.step s a).jobLog id) := by
  obtain ⟨now, a⟩ := a
  obtain ⟨es, hlog, hmove⟩ := step_moves s f (now, a) id
  rw [hlog]
  generalize (f.step s (now, a)).db.jobs.find? id = row' at hmove ⊢
  cases hmove with
  | same => simpa using h
  | act move => exact h.move move
  | write selected job =>
    subst job
    obtain ⟨row, hrow, -⟩ := (hsel _ (List.mem_of_getElem? selected)).current
    obtain rfl := eq_seen_of_undisturbed selected hrow hu
    rw [hrow] at h ⊢
    exact h.reclaimed _

/-- Runs on time keep what has been selected in its invariant. -/
theorem run_selected (s : Settings) {acts : List (Time × InterleavedAct)}
    {D : Interleaved → Time × InterleavedAct → Prop}
    (hD : ∀ (f : Interleaved) a, f.OnTime a → (∀ sel ∈ f.selected, sel.Inv f.toSystem) → D f a)
    (h : AllSteps (step s) OnTime {} acts) : AllSteps (step s) D {} acts :=
  AllSteps.imp_of_invariant (P := fun f : Interleaved => ∀ sel ∈ f.selected, sel.Inv f.toSystem)
    (fun _ _ hc h => step_inv hc h) hD acts h (by simp)

end Interleaved

/-- The reaper writes only stale rows along a run exactly when no one changes a row between
its selection and its write. Then no finished job is opened again, no lease is taken from a
worker before it is over, and no stranding is counted twice. -/
theorem reaper_writes_stale (s : Settings) (acts : List (Time × InterleavedAct))
    (h : AllSteps (Interleaved.step s) Interleaved.OnTime {} acts) :
    (AllSteps (Interleaved.step s) (fun f a => f.writesStale a = true) {} acts ↔
      AllSteps (Interleaved.step s) (fun f a => f.undisturbed a = true) {} acts) ∧
    (AllSteps (Interleaved.step s) (fun f a => f.undisturbed a = true) {} acts →
      AllSteps (Interleaved.step s) (Interleaved.KeepsTerminal s) {} acts ∧
        AllSteps (Interleaved.step s) (Interleaved.KeepsLeases s) {} acts ∧
          ∀ id, ((Interleaved.after s acts).strandings id).Nodup) := by
  have hiff := AllSteps.congr (Interleaved.run_selected s
    (fun f a _ hsel => Interleaved.writesStale_iff (a := a) hsel) h)
  refine ⟨hiff, fun hu => ?_⟩
  have hw := hiff.2 hu
  refine ⟨?_, ?_, fun id => ?_⟩
  · exact AllSteps.imp_of_invariant (P := fun _ => True) (fun _ _ _ _ => trivial)
      (fun _ _ hw _ => Interleaved.keepsTerminal hw) acts hw trivial
  · refine AllSteps.imp_of_invariant
      (P := fun f : Interleaved => ∀ sel ∈ f.selected, sel.Inv f.toSystem)
      (fun _ _ hc h => Interleaved.step_inv hc.1 h)
      (fun _ _ hc h => Interleaved.keepsLeases h hc.1 hc.2) acts (h.and hw) (by simp)
  · have hinv := AllSteps.invariant
      (P := fun f : Interleaved => (∀ sel ∈ f.selected, sel.Inv f.toSystem) ∧
        StrandingInv (f.db.jobs.find? id) (f.jobLog id))
      (fun _ _ hc h => ⟨Interleaved.step_inv hc.1 h.1, Interleaved.strandingInv_step h.1 hc.2 h.2⟩)
      acts (h.and hu) ⟨by simp, by simp [System.jobLog], by simp [System.jobLog]⟩
    exact hinv.2.nodup

/-- A worker records a delivery, and another reaper sweeps, between the selection of its
stale job and the write. -/
def disturbedSample : List (Time × InterleavedAct) :=
  publishedSample.map (fun a => (a.1, .act a.2)) ++ [(0, .act (.claim 5 20)),
    (0, .act (.send 5 ⟨.success, some "id", none⟩)), (seconds 121, .select .normal .stored),
    (seconds 121, .select .normal .stored), (seconds 121, .act (.record 5 0)),
    (seconds 122, .write 0), (seconds 122, .write 0)]

theorem finished_job_reopened :
    AllSteps (Interleaved.step {}) Interleaved.OnTime {} disturbedSample ∧
      ¬AllSteps (Interleaved.step {}) (fun f a => f.writesStale a = true) {} disturbedSample ∧
        ((Interleaved.after {} (disturbedSample.take 11)).db.jobs.find? 20).map (·.status) =
          some .completed ∧
        ((Interleaved.after {} disturbedSample).db.jobs.find? 20).map
          (fun j => (j.status, j.deliveryAttempts)) = some (.retry, 2) := by
  decide +kernel

/-- A sweep that no one disturbs. -/
def undisturbedSample : List (Time × InterleavedAct) :=
  publishedSample.map (fun a => (a.1, .act a.2)) ++ [(0, .act (.claim 5 20)),
    (seconds 121, .select .normal .stored), (seconds 122, .write 0)]

theorem reaper_writes_stale_sample :
    AllSteps (Interleaved.step {}) (fun f a => f.writesStale a = true) {} undisturbedSample ∧
      ((Interleaved.after {} undisturbedSample).strandings 20).Nodup ∧
        ((Interleaved.after {} undisturbedSample).strandings 20).length = 1 := by
  obtain ⟨hiff, hkeeps⟩ := reaper_writes_stale {} undisturbedSample (by decide +kernel)
  have hu : AllSteps (Interleaved.step {}) (fun f a => f.undisturbed a = true) {}
      undisturbedSample := by decide +kernel
  exact ⟨hiff.2 hu, (hkeeps hu).2.2 20, by decide +kernel⟩

end Abrio
