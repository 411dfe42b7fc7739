import Abrio.JobStatements
import Abrio.Library.Ranking

/-!
# Fair claims

The first pass of `claim_batch` numbers the due jobs of every user by age, drops the numbers
beyond the limit per user and takes the first of what is left in the order of the numbers. It
gives out the places of the batch in turns, to every user their oldest jobs first
(`claim_fair`), whichever way ties are broken : the numbers of a user are 1, 2, 3, … in every
scan, and a job is taken when its number is at most what its user gets (`mem_firstPass_iff`).

The second query of that pass fetches the rows by their ids and sorts them anew, which
changes nothing about which rows they are (`fairRows_perm`).
-/

open Relational

namespace Abrio

namespace DispatchJobRepository

/-! ## The parts of a claim -/

/-- The rows that are eligible for a claim. -/
def dueRows (priority : MessagePriority) (leaseSeconds : ℤ) (now : Time)
    (rows : List DispatchJob) : List DispatchJob :=
  rows.filter (eligible priority now (now - seconds leaseSeconds))

/-- The rows of the fairness pass. -/
def fairRows (priority : MessagePriority) (limit perUserLimit : ℕ) (leaseSeconds : ℤ)
    (scans : ClaimScans) (now : Time) (rows : List DispatchJob) : List DispatchJob :=
  let elig := eligible priority now (now - seconds leaseSeconds)
  fairQuery elig (fairIds elig limit perUserLimit scans.ranked rows) [] scans.fair rows

/-- The rows of the top-up pass. -/
def topupRows (priority : MessagePriority) (limit perUserLimit : ℕ) (leaseSeconds : ℤ)
    (scans : ClaimScans) (now : Time) (rows : List DispatchJob) : List DispatchJob :=
  let fair := fairRows priority limit perUserLimit leaseSeconds scans now rows
  topupQuery (eligible priority now (now - seconds leaseSeconds)) (fair.map (·.id)) []
    (limit - fair.length) scans.topup rows

/-- The due rows with their numbers. -/
def rankedRows (priority : MessagePriority) (leaseSeconds : ℤ) (scans : ClaimScans) (now : Time)
    (rows : List DispatchJob) : List (DispatchJob × ℕ) :=
  rowNumbers DispatchJob.userId []
    (orderBy dueLE scans.ranked (dueRows priority leaseSeconds now rows))

/-- What the sub-query of the fairness pass selects. -/
def firstPass (priority : MessagePriority) (limit perUserLimit : ℕ) (leaseSeconds : ℤ)
    (scans : ClaimScans) (now : Time) (rows : List DispatchJob) : List (DispatchJob × ℕ) :=
  (((rankedRows priority leaseSeconds scans now rows).filter fun a =>
    a.2 ≤ perUserLimit).insertionSort rankLE).take limit

/-! ## Orders -/

instance : Std.Total dueLE :=
  ⟨fun j k => by unfold dueLE; grind⟩

instance : IsTrans DispatchJob dueLE :=
  ⟨fun j k l => by unfold dueLE; grind⟩

instance : Std.Total rankLE :=
  ⟨fun a b => by unfold rankLE; grind⟩

instance : IsTrans (DispatchJob × ℕ) rankLE :=
  ⟨fun a b c => by unfold rankLE; grind⟩

theorem snd_le_of_rankLE (a b : DispatchJob × ℕ) (h : rankLE a b) : a.2 ≤ b.2 := by
  unfold rankLE at h
  omega

section Claim

variable (priority : MessagePriority) (limit perUserLimit : ℕ) (lease : ℤ) (scans : ClaimScans)
  (now : Time)

theorem claimRows_eq (rows : List DispatchJob) :
    claimRows priority limit perUserLimit lease scans now rows =
      fairRows priority limit perUserLimit lease scans now rows ++
        topupRows priority limit perUserLimit lease scans now rows :=
  rfl

/-! ## The first pass -/

section Rows

variable (rows : List DispatchJob)

theorem map_fst_rankedRows : (rankedRows priority lease scans now rows).map Prod.fst =
    orderBy dueLE scans.ranked (dueRows priority lease now rows) :=
  map_fst_rowNumbers _ _ _

theorem exists_mem_rankedRows {j : DispatchJob} :
    (∃ a ∈ rankedRows priority lease scans now rows, a.1 = j) ↔
      j ∈ dueRows priority lease now rows := by
  rw [← List.mem_map, map_fst_rankedRows, mem_orderBy]

theorem share_rankedRows (u : UserId) :
    share (fun a => a.1.userId) (rankedRows priority lease scans now rows) u =
      share DispatchJob.userId (dueRows priority lease now rows) u := by
  rw [rankedRows, share_rowNumbers, share_perm (orderBy_perm dueLE scans.ranked _)]

theorem numbered_rankedRows :
    Numbered DispatchJob.userId (rankedRows priority lease scans now rows) :=
  numbered_rowNumbers _ _

theorem numbered_firstPass : Numbered DispatchJob.userId
    (firstPass priority limit perUserLimit lease scans now rows) :=
  ((numbered_rankedRows priority lease scans now rows).filter_le perUserLimit).take
    snd_le_of_rankLE limit

theorem mem_rankedRows_of_mem_firstPass {a : DispatchJob × ℕ}
    (h : a ∈ firstPass priority limit perUserLimit lease scans now rows) :
    a ∈ rankedRows priority lease scans now rows :=
  (List.mem_filter.1 ((List.mem_insertionSort rankLE).1 (List.mem_of_mem_take h))).1

theorem mem_dueRows_of_mem_firstPass {a : DispatchJob × ℕ}
    (h : a ∈ firstPass priority limit perUserLimit lease scans now rows) :
    a.1 ∈ dueRows priority lease now rows :=
  (exists_mem_rankedRows priority lease scans now rows).1
    ⟨a, mem_rankedRows_of_mem_firstPass priority limit perUserLimit lease scans now rows h, rfl⟩

/-- A job is taken when its number is at most what its user gets. -/
theorem mem_firstPass_iff {a : DispatchJob × ℕ}
    (ha : a ∈ rankedRows priority lease scans now rows) :
    a ∈ firstPass priority limit perUserLimit lease scans now rows ↔
      a.2 ≤ share (fun a => a.1.userId)
        (firstPass priority limit perUserLimit lease scans now rows) a.1.userId :=
  (numbered_rankedRows priority lease scans now rows).mem_iff_le_share
    (fun _ => mem_rankedRows_of_mem_firstPass priority limit perUserLimit lease scans now rows)
    (numbered_firstPass priority limit perUserLimit lease scans now rows) ha

/-- The numbers of a user follow the age of the jobs. -/
theorem dueLE_of_lt {a b : DispatchJob × ℕ} (ha : a ∈ rankedRows priority lease scans now rows)
    (hb : b ∈ rankedRows priority lease scans now rows) (hu : a.1.userId = b.1.userId)
    (hlt : a.2 < b.2) : dueLE a.1 b.1 :=
  le_of_rowNumbers_lt (List.pairwise_insertionSort dueLE _) ha hb hu hlt

end Rows

variable (db : Db)

/-- The rows of the fairness pass are those that its sub-query selects. -/
theorem fairRows_perm : (fairRows priority limit perUserLimit lease scans now db.jobs.rows).Perm
    ((firstPass priority limit perUserLimit lease scans now db.jobs.rows).map Prod.fst) := by
  set first := firstPass priority limit perUserLimit lease scans now db.jobs.rows with hfirst
  have hrows : db.jobs.rows.Nodup := .of_map _ db.jobs.nodup
  have hdue : ∀ a ∈ first, a.1 ∈ dueRows priority lease now db.jobs.rows := fun _ ha =>
    mem_dueRows_of_mem_firstPass priority limit perUserLimit lease scans now _ ha
  have hnodup : (first.map Prod.fst).Nodup := by
    have hranked : ((rankedRows priority lease scans now db.jobs.rows).map Prod.fst).Nodup := by
      rw [map_fst_rankedRows, (orderBy_perm _ _ _).nodup_iff]
      exact hrows.filter _
    have hcapped := hranked.sublist
      ((List.filter_sublist (p := fun a => a.2 ≤ perUserLimit)).map Prod.fst)
    exact (((List.perm_insertionSort rankLE _).map _).nodup_iff.2 hcapped).sublist
      ((List.take_sublist limit _).map _)
  refine (List.perm_ext_iff_of_nodup ?_ hnodup).2 fun j => ?_
  · exact (orderBy_perm _ _ _).nodup_iff.2 (hrows.filter _)
  · unfold fairRows fairQuery
    simp only [mem_orderBy, List.mem_filter, Bool.and_eq_true, decide_eq_true_eq,
      List.not_mem_nil, not_false_eq_true, and_true]
    refine ⟨?_, ?_⟩
    · rintro ⟨hj, hid, -⟩
      obtain ⟨a, ha, hai⟩ := List.mem_map.1 hid
      have hrow := (List.mem_filter.1 (hdue a ha)).1
      exact List.mem_map.2 ⟨a, ha, Table.eq_of_key_eq hrow hj hai⟩
    · intro hj
      obtain ⟨a, ha, rfl⟩ := List.mem_map.1 hj
      obtain ⟨hrow, helig⟩ := List.mem_filter.1 (hdue a ha)
      exact ⟨hrow, List.mem_map.2 ⟨a, ha, rfl⟩, helig⟩

theorem mem_fairRows_iff {j : DispatchJob} :
    j ∈ fairRows priority limit perUserLimit lease scans now db.jobs.rows ↔
      ∃ a ∈ firstPass priority limit perUserLimit lease scans now db.jobs.rows, a.1 = j := by
  rw [(fairRows_perm priority limit perUserLimit lease scans now db).mem_iff, List.mem_map]

theorem mem_dueRows_of_mem_fairRows {j : DispatchJob}
    (h : j ∈ fairRows priority limit perUserLimit lease scans now db.jobs.rows) :
    j ∈ dueRows priority lease now db.jobs.rows := by
  obtain ⟨a, ha, rfl⟩ := (mem_fairRows_iff priority limit perUserLimit lease scans now db).1 h
  exact mem_dueRows_of_mem_firstPass priority limit perUserLimit lease scans now _ ha

theorem share_fairRows (u : UserId) :
    share DispatchJob.userId (fairRows priority limit perUserLimit lease scans now db.jobs.rows) u =
      share (fun a => a.1.userId)
        (firstPass priority limit perUserLimit lease scans now db.jobs.rows) u := by
  rw [share_perm (fairRows_perm priority limit perUserLimit lease scans now db), share_map]
  rfl

/-- The users with due jobs. -/
def dueUsers (rows : List DispatchJob) : Finset UserId :=
  ((dueRows priority lease now rows).map DispatchJob.userId).toFinset

/-- The fairness pass gives out the places of the batch in turns. -/
theorem roundRobin_fairRows : RoundRobin (dueUsers priority lease now db.jobs.rows)
    (fun u => min (share DispatchJob.userId (dueRows priority lease now db.jobs.rows) u)
      perUserLimit)
    (share DispatchJob.userId (fairRows priority limit perUserLimit lease scans now db.jobs.rows))
    limit := by
  have hround : RoundRobin (dueUsers priority lease now db.jobs.rows) _ _ limit :=
    (numbered_rankedRows priority lease scans now db.jobs.rows).roundRobin
      snd_le_of_rankLE limit perUserLimit fun a ha => List.mem_toFinset.2 (List.mem_map_of_mem
        ((exists_mem_rankedRows priority lease scans now _).1 ⟨a, ha, rfl⟩))
  simp only [share_rankedRows] at hround
  rwa [show share DispatchJob.userId (fairRows priority limit perUserLimit lease scans now
    db.jobs.rows) = _ from funext (share_fairRows priority limit perUserLimit lease scans now db)]

/-- The rows of the fairness pass are the oldest of their users. -/
theorem dueLE_of_mem_fairRows {j k : DispatchJob}
    (hj : j ∈ fairRows priority limit perUserLimit lease scans now db.jobs.rows)
    (hk : k ∈ dueRows priority lease now db.jobs.rows) (hu : k.userId = j.userId)
    (hkj : k ∉ fairRows priority limit perUserLimit lease scans now db.jobs.rows) :
    dueLE j k := by
  obtain ⟨a, ha, rfl⟩ := (mem_fairRows_iff priority limit perUserLimit lease scans now db).1 hj
  obtain ⟨b, hb, rfl⟩ := (exists_mem_rankedRows priority lease scans now _).2 hk
  have hranked :=
    mem_rankedRows_of_mem_firstPass priority limit perUserLimit lease scans now _ ha
  have hb' : b ∉ firstPass priority limit perUserLimit lease scans now db.jobs.rows := fun h =>
    hkj ((mem_fairRows_iff priority limit perUserLimit lease scans now db).2 ⟨b, h, rfl⟩)
  rw [mem_firstPass_iff priority limit perUserLimit lease scans now _ hb] at hb'
  rw [mem_firstPass_iff priority limit perUserLimit lease scans now _ hranked] at ha
  rw [hu] at hb'
  exact dueLE_of_lt priority lease scans now _ hranked hb hu.symm (by omega)

/-- A user who gets a place gets it for their oldest job. -/
theorem exists_oldest_of_share_pos {u : UserId}
    (h : 0 < share DispatchJob.userId
      (fairRows priority limit perUserLimit lease scans now db.jobs.rows) u) :
    ∃ j ∈ fairRows priority limit perUserLimit lease scans now db.jobs.rows, j.userId = u ∧
      ∀ k ∈ dueRows priority lease now db.jobs.rows, k.userId = u → dueLE j k := by
  have hnum := numbered_firstPass priority limit perUserLimit lease scans now db.jobs.rows
  rw [share_fairRows] at h
  obtain ⟨a, ha, rfl, hone⟩ := (hnum.exists_iff u 1).2 ⟨le_rfl, h⟩
  have hranked :=
    mem_rankedRows_of_mem_firstPass priority limit perUserLimit lease scans now _ ha
  refine ⟨a.1, (mem_fairRows_iff priority limit perUserLimit lease scans now db).2 ⟨a, ha, rfl⟩,
    rfl, fun k hk hu => ?_⟩
  obtain ⟨b, hb, rfl⟩ := (exists_mem_rankedRows priority lease scans now _).2 hk
  have hall := numbered_rankedRows priority lease scans now db.jobs.rows
  rcases (hone ▸ hall.pos b hb : a.2 ≤ b.2).lt_or_eq with hlt | heq
  · exact dueLE_of_lt priority lease scans now _ hranked hb hu.symm hlt
  · obtain rfl := hall.eq_of_snd_eq hranked hb hu.symm heq
    exact Or.inr ⟨rfl, le_rfl⟩

end Claim

/-! ## Fairness -/

/-- With `n u` eligible jobs of user `u`, of which the first pass takes `f u`, the places are given
out in turns and the jobs of a user in the order of their age. No one is left out as long as there
is a place for every user, and the top-up breaks no limit that the first pass has used up. -/
theorem claim_fair {perUserLimit : ℕ} (hp : 0 < perUserLimit) (priority : MessagePriority)
    (limit : ℕ) (lease : ℤ) (scans : ClaimScans) (now : Time) (db : Db) :
    let due := dueRows priority lease now db.jobs.rows
    let users := (due.map DispatchJob.userId).toFinset
    let n := share DispatchJob.userId due
    let first := fairRows priority limit perUserLimit lease scans now db.jobs.rows
    let f := share DispatchJob.userId first
    let batch := claimRows priority limit perUserLimit lease scans now db.jobs.rows
    ∑ u ∈ users, f u = min limit (∑ u ∈ users, min (n u) perUserLimit) ∧
    (∀ j ∈ first, j ∈ due ∧ ∀ k ∈ due, k.userId = j.userId → k ∉ first → dueLE j k) ∧
    (∀ u v, f v + 2 ≤ f u → f v = min (n v) perUserLimit) ∧
    (users.card ≤ limit → ∀ u ∈ users, ∃ j ∈ batch, j.userId = u ∧
      ∀ k ∈ due, k.userId = u → dueLE j k) ∧
    (limit ≤ ∑ u ∈ users, min (n u) perUserLimit →
      ∀ u, share DispatchJob.userId batch u ≤ perUserLimit) := by
  intro due users n first f batch
  have hround : RoundRobin users (fun u => min (n u) perUserLimit) f limit :=
    roundRobin_fairRows priority limit perUserLimit lease scans now db
  have hdue : ∀ j ∈ first, j ∈ due := fun j hj =>
    mem_dueRows_of_mem_fairRows priority limit perUserLimit lease scans now db hj
  refine ⟨hround.sum_eq, fun j hj => ⟨hdue j hj, fun k hk hu hkj => ?_⟩, hround.even,
    fun hcard u hu => ?_, fun hfull u => ?_⟩
  · exact dueLE_of_mem_fairRows priority limit perUserLimit lease scans now db hj hk hu hkj
  · have hdemand : ∀ v ∈ users, 0 < min (n v) perUserLimit := fun v hv => by
      obtain ⟨j, hj, rfl⟩ := List.mem_map.1 (List.mem_toFinset.1 hv)
      exact lt_min (share_pos.2 ⟨j, hj, rfl⟩) hp
    obtain ⟨j, hj, hju, hold⟩ := exists_oldest_of_share_pos priority limit perUserLimit lease scans
      now db (hround.given_pos hcard hdemand hu)
    exact ⟨j, List.mem_append_left _ hj, hju, hold⟩
  · -- the first pass has filled the batch
    have hlength : first.length = limit := by
      have hmem : ∀ j ∈ first, j.userId ∈ users := fun j hj =>
        List.mem_toFinset.2 (List.mem_map_of_mem (hdue j hj))
      rw [← sum_share hmem, hround.sum_eq]
      exact min_eq_left hfull
    have htopup : topupRows priority limit perUserLimit lease scans now db.jobs.rows = [] := by
      unfold topupRows topupQuery
      dsimp only
      rw [show limit - first.length = 0 by omega, List.take_zero]
    have hbatch : batch = first := by
      rw [show batch = _ from claimRows_eq priority limit perUserLimit lease scans now _, htopup,
        List.append_nil]
    rw [hbatch]
    exact (hround.le_demand u).trans (min_le_right _ _)

/-- A job of a user, available from the beginning. -/
def sampleJob (id : UUID) (userId : UserId) : DispatchJob :=
  create id 0 id .normal ⟨userId, "09121234567", "hello", .normal, id, 100⟩

/-- Three jobs of one user and, at the end, one of another. -/
def sampleQueue : Db :=
  { Db.empty with
    jobs := ⟨[sampleJob 1 1, sampleJob 2 1, sampleJob 3 1, sampleJob 4 2], by decide⟩ }

/-- Of a batch of two each user gets one. -/
theorem claim_fair_sample :
    (∀ u, share DispatchJob.userId (claimRows .normal 2 1 60 {} 0 sampleQueue.jobs.rows) u ≤ 1) ∧
      (claimRows .normal 2 1 60 {} 0 sampleQueue.jobs.rows).map (·.id) = [1, 4] :=
  ⟨(claim_fair (by decide) .normal 2 60 {} 0 sampleQueue).2.2.2.2 (by decide), by decide⟩

end DispatchJobRepository

end Abrio
