import Abrio.Fairness

/-!
# Claims waste no place

A claim returns as many jobs as fit, each of them once : the rows of the second query are the
oldest of the due rows that the first one has left (`fairRows_append_restRows`). The returned
rows are locked from the reading of the claim on, so within a lease no later claim takes them
again, and whatever was due at the first claim stays due until it is returned (`Progress`). A
run of claims that is as long as the table has therefore returned all of it
(`claims_work_conserving`).

What a claim writes is the lock, and `updated_at` with it, which the column refreshes in every
update (`claim_refreshes_updated_at`).
-/

open Relational Runs

namespace Abrio

namespace DispatchJobRepository

/-! ## One claim -/

section Claim

variable (priority : MessagePriority) (limit perUserLimit : ℕ) (lease : ℤ) (scans : ClaimScans)
  (now : Time) (db : Db)

/-- The due rows that the first pass leaves. -/
def restRows : List DispatchJob :=
  (dueRows priority lease now db.jobs.rows).filter fun j =>
    j.id ∉ (fairRows priority limit perUserLimit lease scans now db.jobs.rows).map (·.id)

/-- The due rows are those of the first pass and those it leaves. -/
theorem fairRows_append_restRows :
    (fairRows priority limit perUserLimit lease scans now db.jobs.rows ++
      restRows priority limit perUserLimit lease scans now db).Perm
      (dueRows priority lease now db.jobs.rows) := by
  have hrows : db.jobs.rows.Nodup := .of_map _ db.jobs.nodup
  have hdue : (dueRows priority lease now db.jobs.rows).Nodup := hrows.filter _
  have hfair : (fairRows priority limit perUserLimit lease scans now db.jobs.rows).Nodup :=
    (orderBy_perm _ _ _).nodup_iff.2 (hrows.filter _)
  refine (List.perm_ext_iff_of_nodup ?_ hdue).2 fun j => ?_
  · refine hfair.append (hdue.filter _) fun j hj hr => ?_
    have hid := of_decide_eq_true (List.mem_filter.1 hr).2
    exact hid (List.mem_map_of_mem hj)
  · rw [List.mem_append, restRows, List.mem_filter, decide_eq_true_eq]
    refine ⟨?_, ?_⟩
    · rintro (h | h)
      · exact mem_dueRows_of_mem_fairRows priority limit perUserLimit lease scans now db h
      · exact h.1
    · intro h
      by_cases hid : j.id ∈ (fairRows priority limit perUserLimit lease scans now
          db.jobs.rows).map (·.id)
      · obtain ⟨k, hk, hki⟩ := List.mem_map.1 hid
        have hk' := mem_dueRows_of_mem_fairRows priority limit perUserLimit lease scans now db hk
        obtain rfl : k = j :=
          Table.eq_of_key_eq (List.mem_filter.1 hk').1 (List.mem_filter.1 h).1 hki
        exact Or.inl hk
      · exact Or.inr ⟨h, hid⟩

/-- The rows of the top-up pass are the first of those, in the order of their age. -/
theorem topupRows_eq : topupRows priority limit perUserLimit lease scans now db.jobs.rows =
    (orderBy dueLE scans.topup (restRows priority limit perUserLimit lease scans now db)).take
      (limit - (fairRows priority limit perUserLimit lease scans now db.jobs.rows).length) := by
  unfold topupRows topupQuery restRows dueRows
  rw [List.filter_filter]
  simp only [List.not_mem_nil, not_false_eq_true, decide_true, Bool.and_true]
  congr 3
  funext j
  exact Bool.and_comm _ _

theorem length_fairRows_le :
    (fairRows priority limit perUserLimit lease scans now db.jobs.rows).length ≤ limit := by
  rw [(fairRows_perm priority limit perUserLimit lease scans now db).length_eq, List.length_map,
    firstPass, List.length_take]
  exact min_le_left _ _

/-- A claim returns as many rows as fit. -/
theorem length_claimRows :
    (claimRows priority limit perUserLimit lease scans now db.jobs.rows).length =
      min limit (dueRows priority lease now db.jobs.rows).length := by
  have hsplit :=
    (fairRows_append_restRows priority limit perUserLimit lease scans now db).length_eq
  have hle := length_fairRows_le priority limit perUserLimit lease scans now db
  rw [List.length_append] at hsplit
  rw [claimRows_eq, List.length_append, topupRows_eq, List.length_take,
    (orderBy_perm dueLE scans.topup _).length_eq]
  omega

theorem nodup_claimRows :
    ((claimRows priority limit perUserLimit lease scans now db.jobs.rows).map (·.id)).Nodup := by
  have hperm := ((orderBy_perm dueLE scans.topup
    (restRows priority limit perUserLimit lease scans now db)).append_left
      (fairRows priority limit perUserLimit lease scans now db.jobs.rows)).trans
    (fairRows_append_restRows priority limit perUserLimit lease scans now db)
  have hdue : ((dueRows priority lease now db.jobs.rows).map (·.id)).Nodup :=
    db.jobs.nodup.sublist (List.filter_sublist.map _)
  rw [claimRows_eq, topupRows_eq]
  exact ((hperm.map _).nodup_iff.2 hdue).sublist
    (((List.take_sublist _ _).append_left _).map _)

/-- Beyond the first pass a claim takes the oldest rows that are left. -/
theorem dueLE_of_mem_topupRows {j k : DispatchJob}
    (hj : j ∈ topupRows priority limit perUserLimit lease scans now db.jobs.rows)
    (hk : k ∈ dueRows priority lease now db.jobs.rows)
    (hkc : k ∉ claimRows priority limit perUserLimit lease scans now db.jobs.rows) :
    dueLE j k := by
  rw [claimRows_eq, List.mem_append, not_or] at hkc
  have hrest : k ∈ restRows priority limit perUserLimit lease scans now db := by
    have hsplit :=
      (fairRows_append_restRows priority limit perUserLimit lease scans now db).mem_iff.2 hk
    exact (List.mem_append.1 hsplit).resolve_left hkc.1
  rw [topupRows_eq] at hj hkc
  set sorted := orderBy dueLE scans.topup (restRows priority limit perUserLimit lease scans now db)
    with hsorted
  set room := limit - (fairRows priority limit perUserLimit lease scans now db.jobs.rows).length
  have hpair : (sorted.take room ++ sorted.drop room).Pairwise dueLE := by
    rw [List.take_append_drop]
    exact List.pairwise_insertionSort dueLE _
  have hkd : k ∈ sorted.drop room := by
    have hmem : k ∈ sorted.take room ++ sorted.drop room := by
      rw [List.take_append_drop]
      exact (mem_orderBy dueLE scans.topup).2 hrest
    exact (List.mem_append.1 hmem).resolve_left hkc.2
  exact (List.pairwise_append.1 hpair).2.2 j hj k hkd

/-- The rows after a claim. -/
theorem find?_claimBatch_of_mem (relayId : OwnerId) {j : DispatchJob} (hj : j ∈ db.jobs) :
    (claimBatch priority relayId limit lease perUserLimit scans now db).1.jobs.find? j.id =
      some (if j ∈ claimRows priority limit perUserLimit lease scans now db.jobs.rows then
        lockRow relayId now j else j) := by
  have hiff : j.id ∈ (claimRows priority limit perUserLimit lease scans now
      db.jobs.rows).map (·.id) ↔
        j ∈ claimRows priority limit perUserLimit lease scans now db.jobs.rows := by
    refine ⟨fun h => ?_, List.mem_map_of_mem⟩
    obtain ⟨k, hk, hki⟩ := List.mem_map.1 h
    obtain rfl : k = j := Table.eq_of_key_eq (mem_claimRows hk).1 hj hki
    exact hk
  rw [find?_claimBatch, Table.find?_key hj, Option.map_some]
  simp only [hiff]

end Claim

/-! ## Repeated claims -/

/-- A call of `claim_batch`. -/
structure ClaimCall where
  relayId : OwnerId
  limit : ℕ+
  perUserLimit : ℕ+
  scans : ClaimScans := {}
  now : Time

/-- A run of claims : the database, and the ids that the claims have returned. -/
structure ClaimRun where
  db : Db
  returned : List UUID := []

/-- The next claim of a run. -/
def ClaimRun.claim (priority : MessagePriority) (lease : ℤ) (r : ClaimRun) (call : ClaimCall) :
    ClaimRun :=
  let (db, jobs) := claimBatch priority call.relayId call.limit lease call.perUserLimit call.scans
    call.now r.db
  ⟨db, r.returned ++ jobs.map (·.id)⟩

/-- Since a first claim of `db` at `start` the returned jobs are locked, and the others are as
they were. -/
structure Progress (db : Db) (start : Time) (r : ClaimRun) : Prop where
  nodup : r.returned.Nodup
  mem : ∀ id ∈ r.returned, id ∈ db.jobs.rows.map (·.id)
  locked : ∀ j ∈ r.db.jobs, j.id ∈ r.returned → ∃ t, j.lockedAt = some t ∧ start ≤ t
  same : ∀ id ∉ r.returned, r.db.jobs.find? id = db.jobs.find? id

namespace Progress

variable {priority : MessagePriority} {lease : ℤ} {db : Db} {start : Time} {r : ClaimRun}
  {call : ClaimCall}

theorem init (db : Db) (start : Time) : Progress db start ⟨db, []⟩ :=
  ⟨List.nodup_nil, by simp, by simp, by simp⟩

/-- What a claim returns. -/
theorem returned_claim (priority : MessagePriority) (lease : ℤ) (r : ClaimRun)
    (call : ClaimCall) : (r.claim priority lease call).returned =
      r.returned ++ (claimRows priority call.limit call.perUserLimit lease call.scans call.now
        r.db.jobs.rows).map (·.id) := by
  simp only [ClaimRun.claim, claimBatch, List.map_map]
  rfl

variable (h : Progress db start r)

include h

/-- Within a lease a returned job is not due. -/
theorem notMem_returned (hnow : call.now ≤ start + seconds lease) {j : DispatchJob}
    (hj : j ∈ claimRows priority call.limit call.perUserLimit lease call.scans call.now
      r.db.jobs.rows) : j.id ∉ r.returned := by
  intro hret
  obtain ⟨hrow, helig⟩ := mem_claimRows hj
  obtain ⟨t, ht, hle⟩ := h.locked j hrow hret
  have := (eligible_iff.1 helig).2.2.2 t ht
  linarith

theorem claim (hlow : start ≤ call.now) (hnow : call.now ≤ start + seconds lease) :
    Progress db start (r.claim priority lease call) := by
  set batch := claimRows priority call.limit call.perUserLimit lease call.scans call.now
    r.db.jobs.rows with hbatch
  have hrow : ∀ j ∈ batch, j ∈ r.db.jobs := fun j hj => (mem_claimRows hj).1
  have hfind : ∀ id, (r.claim priority lease call).db.jobs.find? id =
      (r.db.jobs.find? id).map fun j =>
        if j.id ∈ batch.map (·.id) then lockRow call.relayId call.now j else j :=
    fun id => find?_claimBatch id
  refine ⟨?_, fun id hid => ?_, fun j hj hid => ?_, fun id hid => ?_⟩
  · rw [returned_claim]
    refine h.nodup.append (nodup_claimRows _ _ _ _ _ _ _) fun id hret hid => ?_
    obtain ⟨j, hj, rfl⟩ := List.mem_map.1 hid
    exact h.notMem_returned hnow hj hret
  · rw [returned_claim] at hid
    rcases List.mem_append.1 hid with hid | hid
    · exact h.mem id hid
    · obtain ⟨j, hj, rfl⟩ := List.mem_map.1 hid
      have hsame := h.same j.id (h.notMem_returned hnow hj)
      rw [Table.find?_key (hrow j hj)] at hsame
      exact List.mem_map_of_mem (Table.find?_eq_some.1 hsame.symm).1
  · have hkey := Table.find?_key hj
    rw [hfind, Option.map_eq_some_iff] at hkey
    obtain ⟨k, hk, rfl⟩ := hkey
    obtain ⟨hk, -⟩ := Table.find?_eq_some.1 hk
    rw [returned_claim, List.mem_append] at hid
    by_cases hkb : k.id ∈ batch.map (·.id)
    · rw [if_pos hkb]
      exact ⟨call.now, rfl, hlow⟩
    · rw [if_neg hkb] at hid ⊢
      exact h.locked k hk (hid.resolve_right hkb)
  · rw [returned_claim, List.mem_append, not_or] at hid
    rw [hfind, h.same id hid.1]
    cases hj : db.jobs.find? id with
    | none => rfl
    | some j =>
      obtain ⟨-, rfl⟩ := Table.find?_eq_some.1 hj
      rw [Option.map_some, if_neg hid.2]

/-- While a job that was due at the start is missing, a claim returns something. -/
theorem length_lt (hlow : start ≤ call.now) {j : DispatchJob}
    (hj : j ∈ dueRows priority lease start db.jobs.rows) (hret : j.id ∉ r.returned) :
    r.returned.length < (r.claim priority lease call).returned.length := by
  obtain ⟨hrow, helig⟩ := List.mem_filter.1 hj
  obtain ⟨hp, hs, ha, hl⟩ := eligible_iff.1 helig
  have hsame := h.same j.id hret
  rw [Table.find?_key (show j ∈ db.jobs from hrow)] at hsame
  have hdue : j ∈ dueRows priority lease call.now r.db.jobs.rows := by
    refine List.mem_filter.2 ⟨(Table.find?_eq_some.1 hsame).1, eligible_iff.2 ⟨hp, hs, ?_, ?_⟩⟩
    · exact ha.trans hlow
    · intro t ht
      have := hl t ht
      linarith
  have hlength := length_claimRows priority call.limit call.perUserLimit lease call.scans call.now
    r.db
  have hlimit := call.limit.pos
  have hpos := List.length_pos_of_mem hdue
  rw [returned_claim, List.length_append, List.length_map, hlength]
  omega

/-- As many returned jobs as there are rows are all of them. -/
theorem mem_returned_of_length (hlen : db.jobs.rows.length ≤ r.returned.length)
    {j : DispatchJob} (hj : j ∈ db.jobs) : j.id ∈ r.returned := by
  have hsub : r.returned.Subperm (db.jobs.rows.map (·.id)) := h.nodup.subperm h.mem
  have hperm := hsub.perm_of_length_le (by rwa [List.length_map])
  exact hperm.mem_iff.2 (List.mem_map_of_mem hj)

end Progress

theorem mem_returned_run (priority : MessagePriority) (lease : ℤ) {r : ClaimRun} {id : UUID}
    (h : id ∈ r.returned) (calls : List ClaimCall) :
    id ∈ (run (ClaimRun.claim priority lease) r calls).returned :=
  run_induction (P := fun r : ClaimRun => id ∈ r.returned)
    (fun r call h => Progress.returned_claim priority lease r call ▸ List.mem_append_left _ h)
    calls h

/-- A run of claims returns something with every claim as long as a job that was due at the
start is missing. -/
theorem Progress.run (priority : MessagePriority) {lease : ℤ} {db : Db} {start : Time} :
    ∀ {calls : List ClaimCall} {r : ClaimRun}, Progress db start r →
      (∀ call ∈ calls, start ≤ call.now ∧ call.now ≤ start + seconds lease) →
      Progress db start (Runs.run (ClaimRun.claim priority lease) r calls) ∧
        ((∀ j ∈ dueRows priority lease start db.jobs.rows,
          j.id ∈ (Runs.run (ClaimRun.claim priority lease) r calls).returned) ∨
        r.returned.length + calls.length ≤
          (Runs.run (ClaimRun.claim priority lease) r calls).returned.length)
  | [], _, h, _ => ⟨h, Or.inr le_rfl⟩
  | call :: calls, r, h, hc => by
    obtain ⟨hlow, hnow⟩ := hc call List.mem_cons_self
    have hnext : Progress db start (r.claim priority lease call) := h.claim hlow hnow
    obtain ⟨hp, hrest⟩ := Progress.run priority hnext fun c hcs => hc c (List.mem_cons_of_mem _ hcs)
    refine ⟨hp, ?_⟩
    by_cases hall : ∀ j ∈ dueRows priority lease start db.jobs.rows, j.id ∈ r.returned
    · exact Or.inl fun j hj => mem_returned_run priority lease (hall j hj) (call :: calls)
    · push Not at hall
      obtain ⟨j, hj, hret⟩ := hall
      have hlt := h.length_lt hlow hj hret
      refine hrest.imp id fun hle => ?_
      rw [run_cons, List.length_cons]
      omega

/-- A claim returns as many of the due jobs as fit, and locks them. Within the lease of the first
claim no job is returned twice, and enough claims return every job that was due at the first. -/
theorem claims_work_conserving (priority : MessagePriority) (lease : ℤ) (db : Db) :
    (∀ call : ClaimCall,
      let due := dueRows priority lease call.now db.jobs.rows
      let first := fairRows priority call.limit call.perUserLimit lease call.scans call.now
        db.jobs.rows
      let batch := claimRows priority call.limit call.perUserLimit lease call.scans call.now
        db.jobs.rows
      let after := claimBatch priority call.relayId call.limit lease call.perUserLimit call.scans
        call.now db
      after.2 = batch.map (lockRow call.relayId call.now) ∧
      (batch.map (·.id)).Nodup ∧
      batch.length = min (call.limit : ℕ) due.length ∧
      (∀ j ∈ batch, j ∈ db.jobs ∧ j.priority = priority ∧
        (j.status = .pending ∨ j.status = .retry) ∧ j.availableAt ≤ call.now ∧
        ∀ t, j.lockedAt = some t → t < call.now - seconds lease) ∧
      (∀ j ∈ batch, j ∉ first → ∀ k ∈ due, k ∉ batch → dueLE j k) ∧
      (∀ j ∈ db.jobs, after.1.jobs.find? j.id = some (if j ∈ batch then
        { j with
          lockedAt := some call.now
          lockedBy := some call.relayId
          updatedAt := call.now }
        else j)) ∧
      after.1.jobs.rows.map (·.id) = db.jobs.rows.map (·.id) ∧
      after.1.messages = db.messages ∧ after.1.users = db.users ∧
      after.1.balances = db.balances) ∧
    ∀ (first : ClaimCall) (rest : List ClaimCall), (∀ call ∈ first :: rest,
      first.now ≤ call.now ∧ call.now ≤ first.now + seconds lease) →
      let returned := (run (ClaimRun.claim priority lease) ⟨db, []⟩ (first :: rest)).returned
      returned.Nodup ∧ (db.jobs.rows.length ≤ (first :: rest).length →
        ∀ j ∈ dueRows priority lease first.now db.jobs.rows, j.id ∈ returned) := by
  refine ⟨fun call => ?_, fun first rest hc => ?_⟩
  · intro due first batch after
    refine ⟨rfl, nodup_claimRows _ _ _ _ _ _ _, length_claimRows _ _ _ _ _ _ _, fun j hj => ?_,
      fun j hj hjf k hk hkb => ?_, fun j hj => find?_claimBatch_of_mem _ _ _ _ _ _ _ _ hj,
      @Table.map_key_updateWhere _ _ _ db.jobs _ (·.id) _ (lockRow call.relayId call.now)
        (fun _ _ => rfl) fun _ _ => rfl, rfl, rfl, rfl⟩
    · obtain ⟨hrow, helig⟩ := mem_claimRows hj
      obtain ⟨hp, hs, hrest⟩ := eligible_iff.1 helig
      exact ⟨hrow, hp, publishable_iff.1 hs, hrest⟩
    · have htop := (List.mem_append.1 hj).resolve_left hjf
      exact dueLE_of_mem_topupRows _ _ _ _ _ _ _ htop hk hkb
  · intro returned
    obtain ⟨hp, hall⟩ := Progress.run priority (Progress.init db first.now) hc
    refine ⟨hp.nodup, fun hlen j hj => ?_⟩
    rcases hall with hall | hle
    · exact hall j hj
    · refine hp.mem_returned_of_length (hlen.trans ?_) (List.mem_filter.1 hj).1
      rwa [List.length_nil, Nat.zero_add] at hle

/-- Four claims of one job each, by two relays at two readings, return the whole queue. -/
theorem claims_work_conserving_sample :
    ∀ j ∈ dueRows .normal 60 0 sampleQueue.jobs.rows,
      j.id ∈ (run (ClaimRun.claim .normal 60) ⟨sampleQueue, []⟩
        [⟨7, 1, 1, {}, 0⟩, ⟨8, 1, 1, {}, 5⟩, ⟨7, 1, 1, {}, 5⟩, ⟨8, 1, 1, {}, 9⟩]).returned :=
  ((claims_work_conserving .normal 60 sampleQueue).2 ⟨7, 1, 1, {}, 0⟩
    [⟨8, 1, 1, {}, 5⟩, ⟨7, 1, 1, {}, 5⟩, ⟨8, 1, 1, {}, 9⟩] (by decide)).2 (by decide)

/-- A claim changes more of a row than its lock. -/
theorem claim_refreshes_updated_at :
    ¬ ∀ (priority : MessagePriority) (lease : ℤ) (db : Db) (call : ClaimCall), ∀ j ∈ db.jobs,
      (claimBatch priority call.relayId call.limit lease call.perUserLimit call.scans call.now
        db).1.jobs.find? j.id = some (if j ∈ claimRows priority call.limit call.perUserLimit lease
          call.scans call.now db.jobs.rows then
            { j with lockedAt := some call.now, lockedBy := some call.relayId }
          else j) := by
  intro h
  have hrow := h .normal 60 sampleQueue ⟨7, 1, 1, {}, 5⟩ (sampleJob 1 1)
    (List.mem_of_getElem? (i := 0) rfl)
  revert hrow
  decide

end DispatchJobRepository

end Abrio
