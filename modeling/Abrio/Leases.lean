import Abrio.Lifecycle

/-!
# Worker leases

Two calls that both get a delivery context for a job are apart : the first one's outcome
is recorded before the second one claims, or the lease of the first is over by then. And an
outcome is recorded only by the call that claimed the job last and still has it
(`lease_exclusive`). The clock must not go back; a transaction reads it once.

The invariant (`LeaseInv`) reads the log of one job. A row in delivery names the last claim
in the log, with nothing after it that takes the job away (`LeaseInv.holder`), and of every
claim in the log the outcome is recorded, or the lease is over, or the row still names it
(`LeaseInv.settled`). Workers and reapers measure the same 120 seconds from the same
`locked_at`; the worker lets them pass in full and the reaper waits for more.
-/

open Relational Runs

namespace Abrio

open DispatchJobRepository DispatchUseCase

/-- The event gives the job to a worker or takes it from one. -/
def Event.takes : Event → Bool
  | .sent _ _ => false
  | _ => true

/-- The worker `w` claimed job `id` last, at `t`, and nothing has taken it away. -/
def HeldSince (id : UUID) (w : OwnerId) (t : Time) (log : List Event) : Prop :=
  ∃ l₁ l₂, log = l₁ ++ .claimed id w t :: l₂ ∧ ∀ e ∈ l₂, e.takes = false

/-- The last thing that happened to a held job is its claim or does not take it. -/
theorem HeldSince.last {id : UUID} {w : OwnerId} {t : Time} {l : List Event} {e : Event}
    (h : HeldSince id w t (l ++ [e])) : e = .claimed id w t ∨ e.takes = false := by
  obtain ⟨l₁, l₂, hl, hfree⟩ := h
  rcases split_of_append_singleton hl with ⟨-, he, -⟩ | ⟨l₃, rfl, -⟩
  · exact Or.inl he
  · exact Or.inr (hfree e (by simp))

/-- What the log of job `id` says of its leases. -/
structure LeaseInv (id : UUID) (clock : Time) (row : Option DispatchJob) (log : List Event) :
    Prop where
  holder : ∀ j, row = some j → j.status = .dispatching →
    ∃ w t, j.lockedBy = some w ∧ j.lockedAt = some t ∧ HeldSince id w t log
  time : ∀ w t, .claimed id w t ∈ log → t ≤ clock
  settled : ∀ l₁ w t l₂, log = l₁ ++ .claimed id w t :: l₂ →
    (∃ m r, .recorded id w m r ∈ l₂) ∨ t + seconds workerLeaseSeconds ≤ clock ∨
      ∃ j, row = some j ∧ j.status = .dispatching ∧ j.lockedBy = some w ∧ j.lockedAt = some t
  apart : ∀ l₁ w₁ t₁ l₂ w₂ t₂ l₃, log = l₁ ++ .claimed id w₁ t₁ :: (l₂ ++ .claimed id w₂ t₂ :: l₃) →
    t₁ ≤ t₂ ∧ ((∃ m r, .recorded id w₁ m r ∈ l₂) ∨ t₁ + seconds workerLeaseSeconds ≤ t₂)

namespace LeaseInv

variable {id : UUID} {clock now : Time} {row row' : Option DispatchJob} {log : List Event}
  {s : Settings} {j : DispatchJob}

theorem start (clock : Time) : LeaseInv id clock none [] where
  holder := by simp
  time := by simp
  settled := by simp
  apart := by simp

/-- A move that neither starts nor ends a delivery. -/
theorem quiet (h : LeaseInv id clock row log) (hc : clock ≤ now)
    (hto : ∀ j, row' = some j → j.status = .dispatching → row = some j)
    (hfrom : ∀ j, row = some j → j.status = .dispatching → row' = some j) :
    LeaseInv id now row' log where
  holder j hj hd := h.holder j (hto j hj hd) hd
  time w t hm := (h.time w t hm).trans hc
  settled l₁ w t l₂ hl := by
    rcases h.settled l₁ w t l₂ hl with hr | ht | ⟨j, hj, hd, hl⟩
    · exact Or.inl hr
    · exact Or.inr (Or.inl (ht.trans hc))
    · exact Or.inr (Or.inr ⟨j, hfrom j hj hd, hd, hl⟩)
  apart := h.apart

/-- A call to the provider. -/
theorem sent (h : LeaseInv id clock row log) (hc : clock ≤ now) (id' : UUID) (w : OwnerId) :
    LeaseInv id now row (log ++ [.sent id' w]) where
  holder j hj hd := by
    obtain ⟨w₀, t, hw, ht, l₁, l₂, hlog, hl⟩ := h.holder j hj hd
    refine ⟨w₀, t, hw, ht, l₁, l₂ ++ [.sent id' w], by simp [hlog], fun e he => ?_⟩
    rcases List.mem_append.1 he with he | he
    · exact hl e he
    · rw [List.mem_singleton.1 he]
      rfl
  time w t hm := by
    rcases List.mem_append.1 hm with hm | hm
    · exact (h.time w t hm).trans hc
    · simp at hm
  settled l₁ w t l₂ hl := by
    rcases split_of_append_singleton hl with ⟨-, he, -⟩ | ⟨l₃, rfl, hlog⟩
    · cases he
    · rcases h.settled l₁ w t l₃ hlog with ⟨m, r, hr⟩ | ht | hj
      · exact Or.inl ⟨m, r, List.mem_append_left _ hr⟩
      · exact Or.inr (Or.inl (ht.trans hc))
      · exact Or.inr (Or.inr hj)
  apart l₁ w₁ t₁ l₂ w₂ t₂ l₃ hl := by
    rw [← List.cons_append, ← List.append_assoc] at hl
    rcases split_of_append_singleton hl with ⟨-, he, -⟩ | ⟨l₄, rfl, hlog⟩
    · cases he
    · exact h.apart l₁ w₁ t₁ l₂ w₂ t₂ l₄ (by rw [hlog]; simp)

/-- A write to a job that is not in delivery. -/
theorem waiting {j' : DispatchJob} (h : LeaseInv id clock (some j) log) (hc : clock ≤ now)
    (hd : j.status ≠ .dispatching) (hd' : j'.status ≠ .dispatching) :
    LeaseInv id now (some j') (log ++ []) := by
  rw [List.append_nil]
  refine h.quiet hc (fun k hk hs => ?_) fun k hk hs => ?_
  · cases hk
    exact absurd hs hd'
  · cases hk
    exact absurd hs hd

/-- An event that ends a delivery, by recording its outcome or after its lease. -/
theorem ended (h : LeaseInv id clock row log) (hc : clock ≤ now) {e : Event}
    (he : ∀ w t, e ≠ .claimed id w t) (hrow' : ∀ j, row' = some j → j.status ≠ .dispatching)
    (hend : ∀ j w t, row = some j → j.status = .dispatching → j.lockedBy = some w →
      j.lockedAt = some t → (∃ m r, e = .recorded id w m r) ∨
        t + seconds workerLeaseSeconds ≤ now) : LeaseInv id now row' (log ++ [e]) where
  holder j hj hd := absurd hd (hrow' j hj)
  time w t hm := by
    rcases List.mem_append.1 hm with hm | hm
    · exact (h.time w t hm).trans hc
    · exact absurd (List.mem_singleton.1 hm).symm (he w t)
  settled l₁ w t l₂ hl := by
    rcases split_of_append_singleton hl with ⟨-, hx, -⟩ | ⟨l₃, rfl, hlog⟩
    · exact absurd hx (he w t)
    · rcases h.settled l₁ w t l₃ hlog with ⟨m, r, hr⟩ | ht | ⟨j, hj, hd, hw, ht⟩
      · exact Or.inl ⟨m, r, List.mem_append_left _ hr⟩
      · exact Or.inr (Or.inl (ht.trans hc))
      · rcases hend j w t hj hd hw ht with ⟨m, r, rfl⟩ | ht
        · exact Or.inl ⟨m, r, by simp⟩
        · exact Or.inr (Or.inl ht)
  apart l₁ w₁ t₁ l₂ w₂ t₂ l₃ hl := by
    rw [← List.cons_append, ← List.append_assoc] at hl
    rcases split_of_append_singleton hl with ⟨-, hx, -⟩ | ⟨l₄, rfl, hlog⟩
    · exact absurd hx (he w₂ t₂)
    · exact h.apart l₁ w₁ t₁ l₂ w₂ t₂ l₄ (by rw [hlog]; simp)

/-- A claim, which waits for the lease of a delivery in progress. -/
theorem claimed (h : LeaseInv id clock (some j) log) (hc : clock ≤ now) (w : OwnerId)
    (hfree : j.status = .dispatching → ∀ t, j.lockedAt = some t →
      t + seconds workerLeaseSeconds ≤ now) :
    LeaseInv id now (some (markDispatching w now j)) (log ++ [.claimed id w now]) where
  holder j' hj' _ := by
    cases hj'
    exact ⟨w, now, rfl, rfl, log, [], rfl, by simp⟩
  time w' t hm := by
    rcases List.mem_append.1 hm with hm | hm
    · exact (h.time w' t hm).trans hc
    · cases List.mem_singleton.1 hm
      exact le_rfl
  settled l₁ w' t l₂ hl := by
    rcases split_of_append_singleton hl with ⟨-, hx, -⟩ | ⟨l₃, rfl, hlog⟩
    · cases hx
      exact Or.inr (Or.inr ⟨_, rfl, rfl, rfl, rfl⟩)
    · rcases h.settled l₁ w' t l₃ hlog with ⟨m, r, hr⟩ | ht | ⟨j', hj', hd, -, ht⟩
      · exact Or.inl ⟨m, r, List.mem_append_left _ hr⟩
      · exact Or.inr (Or.inl (ht.trans hc))
      · cases hj'
        exact Or.inr (Or.inl (hfree hd t ht))
  apart l₁ w₁ t₁ l₂ w₂ t₂ l₃ hl := by
    rw [← List.cons_append, ← List.append_assoc] at hl
    rcases split_of_append_singleton hl with ⟨hlog, hx, -⟩ | ⟨l₄, rfl, hlog⟩
    · cases hx
      refine ⟨(h.time w₁ t₁ (by rw [hlog]; simp)).trans hc, ?_⟩
      rcases h.settled l₁ w₁ t₁ l₂ (by rw [hlog]) with hr | ht | ⟨j', hj', hd, -, ht⟩
      · exact Or.inl hr
      · exact Or.inr (ht.trans hc)
      · cases hj'
        exact Or.inr (hfree hd t₁ ht)
    · exact h.apart l₁ w₁ t₁ l₂ w₂ t₂ l₄ (by rw [hlog]; simp)

end LeaseInv

/-- The lease of a claimable delivery is over. -/
theorem lease_over_of_claimable {s : Settings} {now : Time} {j : DispatchJob}
    (h : isClaimable s.dispatchConfig now j = true) (hd : j.status = .dispatching) {t : Time}
    (ht : j.lockedAt = some t) : t + seconds workerLeaseSeconds ≤ now := by
  simp only [isClaimable, hd, ht, Settings.dispatchConfig, Option.any_some,
    Bool.not_eq_true'] at h
  exact le_sub_iff_add_le.1 (not_lt.1 (of_decide_eq_false h))

/-- The lease of a stale delivery is over. -/
theorem lease_over_of_stale {now : Time} {j : DispatchJob}
    (h : staleInflight (now - seconds inflightLeaseSeconds) j = true) (hd : j.status = .dispatching)
    {t : Time} (ht : j.lockedAt = some t) : t + seconds workerLeaseSeconds ≤ now := by
  rcases staleInflight_iff.1 h with ⟨hp, -⟩ | ⟨-, t', ht', hlt⟩
  · rw [hd] at hp
    cases hp
  · rw [ht] at ht'
    cases ht'
    exact (lt_sub_iff_add_lt.1 hlt).le

theorem not_dispatching_of_publishable {j : DispatchJob} (h : publishable j = true) :
    j.status ≠ .dispatching := by
  rcases publishable_iff.1 h with h | h <;> simp [h]

/-- The row after a recorded outcome is not in delivery. -/
theorem DispatchUseCase.Outcome.not_dispatching {cfg : DispatchConfig} {result : ProviderResult}
    {jitter : Jitter} {now : Time} {j j' : DispatchJob} {message message' : Message} {r : Recorded}
    (h : Outcome cfg result jitter now j message r message' j') : j'.status ≠ .dispatching := by
  cases h <;> simp [markCompleted, markFailed, markDeliveryRetry]

/-- Every move of a job keeps its leases apart. -/
theorem LeaseInv.move {s : Settings} {sys : System} {id : UUID} {clock now : Time} {a : Act}
    {row row' : Option DispatchJob} {es log : List Event} (h : LeaseInv id clock row log)
    (hc : clock ≤ now) (hid : ∀ j, row = some j → j.id = id)
    (hm : JobMove s sys now a row es row') : LeaseInv id now row' (log ++ es) := by
  cases hm with
  | same => simpa using h.quiet hc (fun _ hj _ => hj) fun _ hj _ => hj
  | sent => exact h.sent hc _ _
  | created =>
    rw [List.append_nil]
    refine h.quiet hc (fun j hj hd => ?_) (by simp)
    cases hj
    cases hd
  | row hrow =>
    rename_i j j'
    obtain rfl := hid j rfl
    cases hrow with
    | locked due =>
      have hd := not_dispatching_of_publishable (eligible_iff.1 due).2.1
      exact h.waiting hc hd hd
    | published isOpen locked_by =>
      exact h.waiting hc (not_dispatching_of_publishable isOpen) (by simp [publishedRow])
    | publishRetry isOpen locked_by =>
      exact h.waiting hc (not_dispatching_of_publishable isOpen) (by simp [publishRetryRow])
    | reclaimed taken =>
      refine h.ended hc (by simp) (fun k hk => ?_) fun k w t hk hd _ ht => ?_
      · cases hk
        simp [reclaimRow]
      · cases hk
        exact Or.inr (lease_over_of_stale (mem_staleJobs taken).2.2 hd ht)
    | expired not_terminal claimable storable =>
      refine h.ended hc (by simp) (fun k hk => ?_) fun k w t hk hd _ ht => ?_
      · cases hk
        simp [markFailed]
      · cases hk
        exact Or.inr (lease_over_of_claimable claimable hd ht)
    | claimed not_terminal claimable storable =>
      exact h.claimed hc _ fun hd t ht => lease_over_of_claimable claimable hd ht
    | recorded dispatching locked_by outcome storable =>
      refine h.ended hc (by simp) (fun k hk => ?_) fun k w t hk _ hw _ => ?_
      · cases hk
        exact outcome.not_dispatching
      · cases hk
        rw [locked_by] at hw
        cases hw
        exact Or.inl ⟨_, _, rfl⟩

namespace System

/-- The invariant of the leases holds along a run. -/
theorem run_leaseInv (s : Settings) {acts : List (Time × Act)}
    (h : AllSteps (step s) OnTime {} acts) (id : UUID) :
    LeaseInv id (after s acts).clock ((after s acts).db.jobs.find? id) ((after s acts).jobLog id) :=
  job_invariant (P := LeaseInv id)
    (fun _ _ _ _ hc hm h => h.move hc (fun _ hj => (Table.find?_eq_some.1 hj).2) hm) acts h
    (LeaseInv.start 0)

/-- An outcome transaction that writes is the one of a call that holds its job. -/
theorem held_of_record {s : Settings} {sys : System} {now : Time} {w : OwnerId} {jitter : Jitter}
    (h : (sys.record s now w jitter).db ≠ sys.db) :
    ∃ id result j, sys.processes.find? w = some ⟨w, id, .answered result⟩ ∧
      sys.db.jobs.find? id = some j ∧ j.status = .dispatching ∧ j.lockedBy = some w := by
  rcases sys.record_cases s now w jitter with
    he | ⟨jobId, result, hp, he | ⟨db', recorded, hr, he⟩⟩ <;> rw [he] at h
  · exact absurd rfl h
  · exact absurd rfl h
  · rcases recordOutcome_ok hr with ⟨-, rfl⟩ | ⟨job, _, _, _, _, -, hh, -, -⟩
    · exact absurd rfl h
    · exact ⟨jobId, result, job, hp, hh.job_found, hh.dispatching, hh.locked_by⟩

end System

/-- Deliveries of one job are apart, and only the call that has the job records an outcome. -/
theorem lease_exclusive (s : Settings) (acts : List (Time × Act))
    (h : AllSteps (System.step s) System.OnTime {} acts) :
    let sys := System.after s acts
    (∀ id l₁ w₁ t₁ l₂ w₂ t₂ l₃,
      sys.jobLog id = l₁ ++ .claimed id w₁ t₁ :: (l₂ ++ .claimed id w₂ t₂ :: l₃) →
      t₁ ≤ t₂ ∧
        ((∃ m r, .recorded id w₁ m r ∈ l₂) ∨ t₁ + seconds workerLeaseSeconds ≤ t₂)) ∧
    ∀ now w jitter, (sys.step s (now, .record w jitter)).db = sys.db ∨
      ∃ id result t, sys.processes.find? w = some ⟨w, id, .answered result⟩ ∧
        HeldSince id w t (sys.jobLog id) := by
  intro sys
  have hinv := System.run_leaseInv s h
  refine ⟨fun id => (hinv id).apart, fun now w jitter => ?_⟩
  by_cases hdb : (sys.step s (now, .record w jitter)).db = sys.db
  · exact Or.inl hdb
  · obtain ⟨id, result, j, hp, hj, hd, hw⟩ := System.held_of_record hdb
    obtain ⟨w', t, hw', -, hheld⟩ := (hinv id).holder j hj hd
    rw [hw] at hw'
    cases hw'
    exact Or.inr ⟨id, result, t, hp, hheld⟩

/-- A second worker takes over at the end of the lease, and the first one comes back. -/
def takeoverSample : List (Time × Act) :=
  publishedSample ++ [(0, .claim 5 20), (seconds 120, .claim 6 20),
    (seconds 121, .send 5 ⟨.success, some "id", none⟩),
    (seconds 121, .send 6 ⟨.success, some "id", none⟩), (seconds 122, .record 6 0)]

theorem lease_exclusive_sample :
    let sys := System.after {} takeoverSample
    sys.jobLog 20 = [.claimed 20 5 0, .claimed 20 6 (seconds 120), .sent 20 5, .sent 20 6,
      .recorded 20 6 10 .succeeded] ∧
      0 + seconds workerLeaseSeconds ≤ seconds 120 ∧
        (sys.step {} (seconds 122, .record 5 0)).db = sys.db := by
  intro sys
  have hlog : sys.jobLog 20 = [.claimed 20 5 0, .claimed 20 6 (seconds 120), .sent 20 5,
      .sent 20 6, .recorded 20 6 10 .succeeded] := by decide +kernel
  obtain ⟨hapart, hfence⟩ := lease_exclusive {} takeoverSample (by decide +kernel)
  refine ⟨hlog, ?_, ?_⟩
  · obtain ⟨-, ⟨m, r, hr⟩ | ht⟩ := hapart 20 [] 5 0 [] 6 (seconds 120) _ hlog
    · cases hr
    · exact ht
  · rcases hfence (seconds 122) 5 0 with h | ⟨id, result, t, hp, hheld⟩
    · exact h
    · have hid : (sys.processes.find? 5).map Process.jobId = some 20 := by decide +kernel
      rw [hp] at hid
      cases hid
      rw [hlog] at hheld
      rcases HeldSince.last (l := [.claimed 20 5 0, .claimed 20 6 (seconds 120), .sent 20 5,
        .sent 20 6]) hheld with he | he <;> cases he

end Abrio
