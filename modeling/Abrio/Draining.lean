import Abrio.Deadline
import Abrio.Reaper
import Abrio.Recovery

/-!
# The system drains

Each open job can be brought to its end from any state a run reaches, and a recovery brings no new
job and opens none again. So recoveries one after the other leave fewer and fewer open jobs
(`exists_drained`), and when none is left every message that was accepted is sent and paid for, or
given up and refunded, and no user has anything reserved (`drains`).

The runs are those of atomic transactions without the debug endpoint that zeroes credits. No worker
ends a job whose message is paid for, which a late update of a sweep may open again, and none
records an outcome that the zeroed credits do not cover.
-/

open Relational Runs

namespace Abrio

open DispatchJobRepository

section Open

variable {s : Settings} {scan : Scan DispatchJob} {scans : ClaimScans}

/-- A step of a recovery opens no job. -/
theorem JobMove.exists_open {sys : System} {now : Time} {a : Act} {row row' : Option DispatchJob}
    {es : List Event} (h : JobMove s sys now a row es row') (ha : a.Recovers scan scans)
    {j' : DispatchJob} (hj : row' = some j') (hopen : j'.status.terminal = false) :
    ∃ j, row = some j ∧ j.status.terminal = false := by
  cases h with
  | same => exact ⟨j', hj, hopen⟩
  | sent => exact ⟨j', hj, hopen⟩
  | created => exact ha.elim
  | row move => exact ⟨_, rfl, move.not_terminal⟩

namespace System

variable {sys t : System} {id : UUID}

/-- The jobs that are not over. -/
def openJobs (sys : System) : Finset UUID :=
  ((sys.db.jobs.rows.filter fun j => j.status.terminal = false).map DispatchJob.id).toFinset

theorem mem_openJobs : id ∈ sys.openJobs ↔
    ∃ j, sys.db.jobs.find? id = some j ∧ j.status.terminal = false := by
  simp only [openJobs, List.mem_toFinset, List.mem_map, List.mem_filter, decide_eq_true_eq]
  constructor
  · rintro ⟨j, ⟨hj, hopen⟩, rfl⟩
    exact ⟨j, Table.find?_key hj, hopen⟩
  · rintro ⟨j, hj, hopen⟩
    obtain ⟨hj, hi⟩ := Table.find?_eq_some.1 hj
    exact ⟨j, ⟨hj, hopen⟩, hi⟩

theorem not_mem_openJobs (h : Ended id t) : id ∉ t.openJobs := by
  rw [mem_openJobs]
  rintro ⟨j, hj, hopen⟩
  obtain ⟨j', hj', hstatus⟩ := h
  obtain rfl := Option.some.inj (hj.symm.trans hj')
  rcases hstatus with hs | hs <;> simp [hs, DispatchJobStatus.terminal] at hopen

theorem openJobs_step {a : Time × Act} (h : Recovery s scan scans sys a) :
    (sys.step s a).openJobs ⊆ sys.openJobs := by
  intro id hid
  obtain ⟨j', hj', hopen⟩ := mem_openJobs.1 hid
  obtain ⟨es, -, hmove⟩ := step_moves s sys a id
  exact mem_openJobs.2 (hmove.exists_open h.recovers hj' hopen)

theorem openJobs_reaches (h : Reaches (step s) (Recovery s scan scans) sys t) :
    t.openJobs ⊆ sys.openJobs := by
  obtain ⟨acts, hall, rfl⟩ := h
  exact AllSteps.invariant (P := fun t : System => t.openJobs ⊆ sys.openJobs)
    (fun _ _ hrec hsub => (openJobs_step hrec).trans hsub) acts hall subset_rfl

/-- What a recovery starts from. -/
structure Recoverable (sys : System) : Prop where
  consistent : sys.db.Consistent
  well_formed : ∀ j ∈ sys.db.jobs, j.WellFormed

theorem after_recoverable (s : Settings) (acts : List (Time × Act)) : (after s acts).Recoverable :=
  ⟨after_consistent s acts, fun _ hj => after_wellFormed hj⟩

theorem Recoverable.step (h : sys.Recoverable) (a : Time × Act) : (sys.step s a).Recoverable := by
  refine ⟨step_consistent a h.consistent, fun j hj => ?_⟩
  obtain ⟨es, -, hmove⟩ := step_moves s sys a j.id
  exact hmove.wellFormed (fun k hk => h.well_formed k (Table.find?_eq_some.1 hk).1) j
    (Table.find?_key hj)

/-- Recoveries end one open job after the other. -/
theorem exists_drained (h : sys.Recoverable) :
    ∃ t, Reaches (step s) (Recovery s scan scans) sys t ∧ t.openJobs = ∅ := by
  refine Reaches.of_variant (P := Recoverable) (fun sys => sys.openJobs.card) (fun sys h => ?_) h
  by_cases hnone : sys.openJobs = ∅
  · exact Or.inl ⟨sys, .refl sys, hnone⟩
  obtain ⟨id, hid⟩ := Finset.nonempty_iff_ne_empty.2 hnone
  obtain ⟨j, hj, hopen⟩ := mem_openJobs.1 hid
  obtain ⟨t, hreach, hend⟩ : ∃ t, Reaches (step s) (Recovery s scan scans) sys t ∧ Ended id t :=
    exists_recovered h.consistent hj (h.well_formed j (Table.find?_eq_some.1 hj).1) hopen
  have hlt : t.openJobs ⊂ sys.openJobs :=
    (Finset.ssubset_iff_of_subset (openJobs_reaches hreach)).2 ⟨id, hid, not_mem_openJobs hend⟩
  exact Or.inr ⟨t, hreach, hreach.preserves (fun _ a h => h.step a) h, Finset.card_lt_card hlt⟩

end System

end Open

/-! ## What is left -/

/-- A message that is over is paid for or refunded. -/
def Message.Over (m : Message) : Prop :=
  m.status = .sent ∧ m.paymentStatus = .deducted ∨
    m.status = .permanentFailed ∧ m.paymentStatus = .refunded

namespace Db.Consistent

variable {db : Db} (h : db.Consistent)
  (hjobs : ∀ j ∈ db.jobs, j.status = .completed ∨ j.status = .failed)

include h hjobs

theorem message_over {m : Message} (hm : m ∈ db.messages) : m.Over := by
  obtain ⟨j, hj, hl⟩ := h.message_job m hm
  have hagree := h.agree j hj m hm hl.messageId
  rcases hjobs j hj with hs | hs
  · have hsent := hagree.completed.1 hs
    exact Or.inl ⟨hsent, hagree.sent.1 hsent⟩
  · have hfailed := hagree.failed.1 hs
    exact Or.inr ⟨hfailed, hagree.refunded.1 hfailed⟩

theorem reserved_eq_zero {b : Balance} (hb : b ∈ db.balances) : b.reservedCredits = 0 := by
  have hnil : (db.messages.rows.filter fun m =>
      m.userId = b.userId ∧ m.paymentStatus = .reserved) = [] := by
    refine List.filter_eq_nil_iff.2 fun m hm hres => ?_
    have hres := (of_decide_eq_true hres).2
    rcases h.message_over hjobs hm with ⟨-, hp⟩ | ⟨-, hp⟩ <;> simp [hp] at hres
  rw [h.reserved b hb, Db.reservedCost, hnil]
  rfl

end Db.Consistent

/-- Whatever has happened in a run of atomic transactions in which no credits were zeroed, some
recovery brings everything to an end : all jobs are completed or failed, all messages that were
there are paid for or refunded, and nothing is reserved. -/
theorem drains (s : Settings) (acts : List (Time × Act)) (scan : Scan DispatchJob)
    (scans : ClaimScans) :
    ∃ acts', AllSteps (System.step s) (System.Recovery s scan scans) (System.after s acts) acts' ∧
      let db := (System.after s acts).db
      let db' := (System.after s (acts ++ acts')).db
      (∀ j ∈ db'.jobs, j.status = .completed ∨ j.status = .failed) ∧
        (∀ m ∈ db.messages, ∃ m' ∈ db'.messages, m'.original = m.original ∧ m'.Over) ∧
          ∀ b ∈ db'.balances, b.reservedCredits = 0 := by
  obtain ⟨t, ⟨acts', hall, rfl⟩, hnone⟩ :
      ∃ t, Reaches (System.step s) (System.Recovery s scan scans) (System.after s acts) t ∧
        t.openJobs = ∅ :=
    System.exists_drained (System.after_recoverable s acts)
  have hrun : run (System.step s) (System.after s acts) acts' = System.after s (acts ++ acts') :=
    (run_append _ _ _ _).symm
  rw [hrun] at hnone
  have hjobs : ∀ j ∈ (System.after s (acts ++ acts')).db.jobs,
      j.status = .completed ∨ j.status = .failed := by
    intro j hj
    by_contra hne
    have hopen : j.status.terminal = false := by
      cases hs : j.status <;> simp_all [DispatchJobStatus.terminal]
    have hmem := System.mem_openJobs.2 ⟨j, Table.find?_key hj, hopen⟩
    simp [hnone] at hmem
  have hdb := System.after_consistent s (acts ++ acts')
  have hextends : (System.after s acts).db.Extends (System.after s (acts ++ acts')).db := by
    rw [← hrun]
    exact run_induction (P := fun sys : System => (System.after s acts).db.Extends sys.db)
      (fun sys a h => h.trans (System.step_extends s sys a)) acts' (.refl _)
  refine ⟨acts', hall, hjobs, fun m hm => ?_, fun b hb => hdb.reserved_eq_zero hjobs hb⟩
  obtain ⟨m', hm', ho⟩ := hextends.message m hm
  exact ⟨m', hm', ho, hdb.message_over hjobs hm'⟩

end Abrio
