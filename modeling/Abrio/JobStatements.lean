import Abrio.Relay

/-!
# What the relay's statements do

Which rows the statements of `DispatchJobRepository` touch. A claim locks rows that are
eligible (`eligible_of_claimed`), the reaper resets rows that are in flight past their
lease (`stale_of_reclaimed`), and the bookkeeping after a publication touches rows that
are still publishable. None of them touches a terminal row.
-/

open Relational

namespace Abrio

namespace DispatchJobRepository

variable {db : Db} {j : DispatchJob} {now : Time}

@[simp] theorem publishable_iff :
    publishable j = true ↔ j.status = .pending ∨ j.status = .retry := by
  simp [publishable]

theorem eligible_iff {p : MessagePriority} {staleBefore : Time} :
    eligible p now staleBefore j = true ↔ j.priority = p ∧ publishable j = true ∧
      j.availableAt ≤ now ∧ ∀ t, j.lockedAt = some t → t < staleBefore := by
  simp [eligible, Option.all_eq_true, and_assoc]

theorem staleInflight_iff {staleBefore : Time} :
    staleInflight staleBefore j = true ↔
      (j.status = .published ∧ ∃ t, j.publishedAt = some t ∧ t < staleBefore) ∨
        (j.status = .dispatching ∧ ∃ t, j.lockedAt = some t ∧ t < staleBefore) := by
  simp [staleInflight, Option.any_eq_true]

theorem not_terminal_of_publishable (h : publishable j = true) : j.status.terminal = false := by
  rcases publishable_iff.1 h with h | h <;> rw [h] <;> rfl

theorem not_terminal_of_stale {staleBefore : Time} (h : staleInflight staleBefore j = true) :
    j.status.terminal = false := by
  rcases staleInflight_iff.1 h with ⟨h, -⟩ | ⟨h, -⟩ <;> rw [h] <;> rfl

/-! ## The claim -/

theorem mem_claimRows {p : MessagePriority} {limit perUserLimit : ℕ} {lease : ℤ}
    {scans : ClaimScans} {rows : List DispatchJob}
    (h : j ∈ claimRows p limit perUserLimit lease scans now rows) :
    j ∈ rows ∧ eligible p now (now - seconds lease) j = true := by
  rcases List.mem_append.1 h with h | h
  · have h := (mem_orderBy dueLE scans.fair).1 h
    simp only [List.mem_filter, Bool.and_eq_true] at h
    exact ⟨h.1, h.2.1.2⟩
  · have h := (mem_orderBy dueLE scans.topup).1 (List.mem_of_mem_take h)
    simp only [List.mem_filter, Bool.and_eq_true] at h
    exact ⟨h.1, h.2.1.1⟩

/-- The rows a claim locks are eligible. -/
theorem eligible_of_claimed {p : MessagePriority} {limit perUserLimit : ℕ} {lease : ℤ}
    {scans : ClaimScans} (hj : j ∈ db.jobs)
    (h : j.id ∈ (claimRows p limit perUserLimit lease scans now db.jobs.rows).map (·.id)) :
    eligible p now (now - seconds lease) j = true := by
  obtain ⟨k, hk, hi⟩ := List.mem_map.1 h
  obtain ⟨hk, he⟩ := mem_claimRows hk
  obtain rfl : k = j := Table.eq_of_key_eq hk hj hi
  exact he

theorem find?_claimBatch {p : MessagePriority} {r : OwnerId} {limit perUserLimit : ℕ} {lease : ℤ}
    {scans : ClaimScans} (id : UUID) :
    (claimBatch p r limit lease perUserLimit scans now db).1.jobs.find? id =
      (db.jobs.find? id).map fun j =>
        if j.id ∈ (claimRows p limit perUserLimit lease scans now db.jobs.rows).map (·.id) then
          lockRow r now j
        else j := by
  refine (@Table.find?_updateWhere _ _ _ _ db.jobs _ (lockRow r now) (fun _ _ => rfl) id).trans ?_
  simp only [decide_eq_true_eq]

/-! ## The reaper -/

theorem mem_staleJobs {p : MessagePriority} {lease : ℤ} {limit : ℕ} {scan : Scan DispatchJob}
    {rows : List DispatchJob} (h : j ∈ staleJobs p lease limit scan now rows) :
    j ∈ rows ∧ j.priority = p ∧ staleInflight (now - seconds lease) j = true := by
  have h := List.mem_of_mem_take h
  simp only [List.mem_filter, Scan.mem_visit, Bool.and_eq_true, decide_eq_true_eq] at h
  exact h

/-- The rows the reaper resets are in flight past their lease. -/
theorem stale_of_reclaimed {p : MessagePriority} {lease : ℤ} {limit : ℕ} {scan : Scan DispatchJob}
    (hj : j ∈ db.jobs) (h : j.id ∈ (staleJobs p lease limit scan now db.jobs.rows).map (·.id)) :
    j.priority = p ∧ staleInflight (now - seconds lease) j = true := by
  obtain ⟨k, hk, hi⟩ := List.mem_map.1 h
  obtain ⟨hk, hs⟩ := mem_staleJobs hk
  obtain rfl : k = j := Table.eq_of_key_eq hk hj hi
  exact hs

/-- The rows a sweep takes have distinct ids. -/
theorem nodup_staleJobs {p : MessagePriority} {lease : ℤ} {limit : ℕ} {scan : Scan DispatchJob} :
    ((staleJobs p lease limit scan now db.jobs.rows).map (·.id)).Nodup := by
  have hn : ((scan.visit db.jobs.rows).map (·.id)).Nodup :=
    ((scan.perm _).map _).nodup_iff.2 db.jobs.nodup
  exact hn.sublist (((List.take_sublist _ _).trans List.filter_sublist).map _)

theorem find?_reclaimIds (ids : List UUID) (id : UUID) :
    (reclaimIds ids now db).jobs.find? id =
      (db.jobs.find? id).map fun j => if j.id ∈ ids then reclaimRow now j else j := by
  refine (@Table.find?_updateWhere _ _ _ _ db.jobs _ (reclaimRow now) (fun _ _ => rfl) id).trans ?_
  simp only [decide_eq_true_eq]

/-! ## The bookkeeping after a publication -/

theorem publishable_of_heldBy {ids : List UUID} {relayId : OwnerId}
    (h : heldBy ids relayId j = true) : publishable j = true := by
  simp only [heldBy, Bool.and_eq_true] at h
  exact h.2

theorem lockedBy_of_heldBy {ids : List UUID} {relayId : OwnerId}
    (h : heldBy ids relayId j = true) : j.lockedBy = some relayId := by
  simp only [heldBy, Bool.and_eq_true, decide_eq_true_eq] at h
  exact h.1.2

theorem find?_markPublished (ids : List UUID) (r : OwnerId) (id : UUID) :
    (markPublished ids r now db).jobs.find? id =
      (db.jobs.find? id).map fun j => if heldBy ids r j then publishedRow now j else j := by
  unfold markPublished
  split_ifs with h
  · simp [heldBy, List.isEmpty_iff.1 h]
  · exact @Table.find?_updateWhere _ _ _ _ db.jobs _ (publishedRow now) (fun _ _ => rfl) id

theorem find?_markPublishRetry (ids : List UUID) (r : OwnerId) (error : String) (delay : Time)
    (id : UUID) : (markPublishRetry ids r error delay now db).jobs.find? id =
      (db.jobs.find? id).map fun j =>
        if heldBy ids r j then publishRetryRow now delay error j else j := by
  unfold markPublishRetry
  split_ifs with h
  · simp [heldBy, List.isEmpty_iff.1 h]
  · exact @Table.find?_updateWhere _ _ _ _ db.jobs _ (publishRetryRow now delay error)
      (fun _ _ => rfl) id

end DispatchJobRepository

namespace Relay

open DispatchJobRepository

/-- What the bookkeeping does to the row of a job. -/
theorem find?_recordPublications (r : OwnerId) (published : List UUID) (failed : List ClaimedJob)
    (error : String) (jitter : Jitter) (now : Time) (db : Db) (id : UUID) :
    (recordPublications r published failed error jitter now db).jobs.find? id =
      (db.jobs.find? id).map fun j =>
        if heldBy published r j then publishedRow now j
        else if heldBy (failed.map ClaimedJob.id) r j then
          publishRetryRow now (calculateBackoff (highestRetryCount failed) jitter) error j
        else j := by
  unfold recordPublications
  split_ifs with hf
  · rw [find?_markPublished]
    simp [heldBy, List.isEmpty_iff.1 hf]
  · rw [find?_markPublishRetry, find?_markPublished, Option.map_map]
    refine congrArg (Option.map · _) (funext fun j => ?_)
    rw [Function.comp_apply]
    by_cases h : heldBy published r j = true
    · -- a published row is not locked any more
      rw [if_pos h, if_neg (by simp [heldBy, publishedRow]), if_pos h]
    · rw [if_neg h, if_neg h]

end Relay

end Abrio
