import Abrio.Calls
import Abrio.Leases

/-!
# Time limits and leases

Celery kills a task `worker_task_time_limit_seconds` after it started. The validators ask that
the soft limit is below it, and nothing of the delivery lease, which is a constant. A job whose
lease is over is taken over, so its first delivery must be dead by then : a run in which every
kill is on time has no two calls delivering one job when the limit is at most the lease, and
for any longer limit some run has two (`sends_exclusive_iff`).
-/

open Relational Runs

namespace Abrio

/-- The time limits of a worker's task, with what the validators of `Settings` ask of them. -/
structure WorkerTimeLimits where
  workerTaskSoftTimeLimitSeconds : ℕ := 30
  workerTaskTimeLimitSeconds : ℕ := 60
  soft_pos : 0 < workerTaskSoftTimeLimitSeconds := by decide
  time_pos : 0 < workerTaskTimeLimitSeconds := by decide
  /-- `validate_worker_time_limits`. -/
  soft_lt_time : workerTaskSoftTimeLimitSeconds < workerTaskTimeLimitSeconds := by decide

/-- When the task that started at `started` is killed. -/
def WorkerTimeLimits.killedAt (l : WorkerTimeLimits) (started : Time) : Time :=
  started + seconds l.workerTaskTimeLimitSeconds

/-- The call that an act begins. -/
def Act.begins : Act → Option OwnerId
  | .claim w _ => some w
  | _ => none

/-- A worker is killed. -/
def Act.kills : Act → Bool
  | .workerCrash _ => true
  | _ => false

namespace System

variable (l : WorkerTimeLimits) (started : OwnerId → Time)

/-- The clock does not go back, a call claims after its task started, and a call whose time is
up is killed before anything else happens. -/
def Punctual (sys : System) (a : Time × Act) : Prop :=
  sys.OnTime a ∧
    (∀ w ∈ a.2.begins, started w ≤ a.1 ∧ a.1 < l.killedAt (started w)) ∧
    ∀ p ∈ sys.processes.rows, p.state ≠ .ended → a.1 < l.killedAt (started p.workerId) ∨
      (a.1 = l.killedAt (started p.workerId) ∧ a.2.kills = true)

instance (sys : System) (a : Time × Act) : Decidable (sys.Punctual l started a) :=
  inferInstanceAs (Decidable (_ ∧ _ ∧ _))

/-- No two calls are between their claim of one job and the end of its `provider.send`. -/
def ExclusiveSends (sys : System) : Prop :=
  ∀ p ∈ sys.processes, ∀ q ∈ sys.processes, ∀ c c', p.state = .delivering c →
    q.state = .delivering c' → p.jobId = q.jobId → p = q

theorem Punctual.mono {l l' : WorkerTimeLimits} {started : OwnerId → Time} {sys : System}
    {a : Time × Act} (hle : l.workerTaskTimeLimitSeconds ≤ l'.workerTaskTimeLimitSeconds)
    (h : sys.Punctual l started a) : sys.Punctual l' started a := by
  have hsec : seconds l.workerTaskTimeLimitSeconds ≤ seconds l'.workerTaskTimeLimitSeconds :=
    mul_le_mul_of_nonneg_right (Int.ofNat_le.2 hle) (by decide)
  have hkilled : ∀ t, l.killedAt t ≤ l'.killedAt t := fun t => add_le_add_right hsec t
  obtain ⟨hon, hbegins, hkills⟩ := h
  refine ⟨hon, fun w hw => ?_, fun p hp hl => ?_⟩
  · obtain ⟨hs, hlt⟩ := hbegins w hw
    exact ⟨hs, hlt.trans_le (hkilled _)⟩
  · rcases hkills p hp hl with hlt | ⟨heq, hkill⟩
    · exact Or.inl (hlt.trans_le (hkilled _))
    · rcases (hkilled (started p.workerId)).lt_or_eq with hlt | hsame
      · exact Or.inl (heq.trans_lt hlt)
      · exact Or.inr ⟨heq.trans hsame, hkill⟩

/-- What punctual kills give : claims are made between the start and the kill of their task,
and whatever has been claimed was claimed before any live call is killed. -/
structure LimitsInv (sys : System) : Prop where
  claims : ∀ id w t, .claimed id w t ∈ sys.log → started w ≤ t ∧ t ≤ sys.clock
  live : ∀ p ∈ sys.processes, p.state ≠ .ended → ∀ id w t, .claimed id w t ∈ sys.log →
    t < l.killedAt (started p.workerId)

variable {l started} {s : Settings} {sys : System}

/-- A new claim is the act's. -/
theorem claimed_step {a : Time × Act} {id : UUID} {w : OwnerId} {t : Time}
    (h : .claimed id w t ∈ (sys.step s a).log) :
    .claimed id w t ∈ sys.log ∨ (t = a.1 ∧ w ∈ a.2.begins) := by
  obtain ⟨es, hlog, hmove⟩ := step_calls s sys a w
  have hin : .claimed id w t ∈ sys.callLog w ++ es := by
    rw [← hlog]
    exact List.mem_filter.2 ⟨h, by simp [Event.workerId]⟩
  rcases List.mem_append.1 hin with hin | hin
  · exact Or.inl (List.mem_filter.1 hin).1
  · obtain ⟨now, a⟩ := a
    generalize sys.processes.find? w = p, (sys.step s (now, a)).processes.find? w = p' at hmove
    cases hmove with
    | same => cases hin
    | @began jobId claim =>
      cases claim <;> simp [claimEnd] at hin
      exact Or.inr ⟨hin.2, rfl⟩
    | sent => simp at hin
    | recorded outcome => cases outcome <;> simp [recordEnd] at hin
    | crashed => cases hin

/-- A live call was live, or is new. -/
theorem live_step {a : Time × Act} {p : Process} (hp : p ∈ (sys.step s a).processes)
    (hl : p.state ≠ .ended) : p.workerId ∈ a.2.begins ∨
      ∃ p₀ ∈ sys.processes, p₀.workerId = p.workerId ∧ p₀.state ≠ .ended := by
  obtain ⟨es, -, hmove⟩ := step_calls s sys a p.workerId
  rw [Table.find?_key hp] at hmove
  obtain ⟨now, a⟩ := a
  generalize hp₀ : sys.processes.find? p.workerId = p₀ at hmove
  generalize hw : p.workerId = w at hmove hp₀ ⊢
  generalize hp' : some p = p' at hmove
  cases hmove with
  | same =>
    subst hp'
    obtain ⟨hm, -⟩ := Table.find?_eq_some.1 hp₀
    exact Or.inr ⟨p, hm, hw, hl⟩
  | began => exact Or.inl rfl
  | sent =>
    obtain ⟨hm, -⟩ := Table.find?_eq_some.1 hp₀
    exact Or.inr ⟨_, hm, rfl, by simp⟩
  | recorded =>
    obtain rfl := Option.some.inj hp'
    exact absurd rfl hl
  | crashed =>
    obtain rfl := Option.some.inj hp'
    exact absurd rfl hl

theorem LimitsInv.step {a : Time × Act} (ha : sys.Punctual l started a)
    (h : LimitsInv l started sys) : LimitsInv l started (sys.step s a) := by
  obtain ⟨hon, hbegins, hkills⟩ := ha
  refine ⟨fun id w t he => ?_, fun p hp hl id w t he => ?_⟩
  · rcases claimed_step he with he | ⟨rfl, hw⟩
    · obtain ⟨hs, hc⟩ := h.claims id w t he
      exact ⟨hs, hc.trans hon⟩
    · exact ⟨(hbegins w hw).1, le_refl _⟩
  · rcases live_step hp hl with hw | ⟨p₀, hp₀, hw, hl₀⟩
    · rcases claimed_step he with he | ⟨rfl, -⟩
      · exact ((h.claims id w t he).2.trans hon).trans_lt (hbegins _ hw).2
      · exact (hbegins _ hw).2
    · rw [← hw]
      rcases claimed_step he with he | ⟨rfl, hbegin⟩
      · exact h.live p₀ hp₀ hl₀ id w t he
      · rcases hkills p₀ hp₀ hl₀ with hlt | ⟨-, hkill⟩
        · exact hlt
        · obtain ⟨now, a⟩ := a
          cases a <;> simp [Act.begins, Act.kills] at hbegin hkill

theorem run_limitsInv (s : Settings) {acts : List (Time × Act)}
    (h : AllSteps (step s) (Punctual l started) {} acts) : LimitsInv l started (after s acts) :=
  AllSteps.invariant (P := LimitsInv l started) (fun _ _ ha h => h.step ha) acts h
    ⟨by simp, by simp⟩

/-- Nothing claims the job of a live delivery, when the limit is at most the lease. -/
theorem not_taken_over {acts : List (Time × Act)}
    (hrun : AllSteps (step s) (Punctual l started) {} acts)
    (hlimit : (l.workerTaskTimeLimitSeconds : ℤ) ≤ workerLeaseSeconds) {p : Process}
    {c : DeliveryContext} (hp : p ∈ (after s acts).processes) (hs : p.state = .delivering c)
    {l₁ l₂ l₃ : List Event} {w : OwnerId} {t t' : Time}
    (hlog : (after s acts).jobLog p.jobId =
      l₁ ++ .claimed p.jobId p.workerId t :: (l₂ ++ .claimed p.jobId w t' :: l₃)) : False := by
  have hon : AllSteps (step s) OnTime {} acts :=
    AllSteps.imp_of_invariant (P := fun _ => True) (fun _ _ _ _ => trivial) (fun _ _ ha _ => ha.1)
      acts hrun trivial
  have hlimits : LimitsInv l started (after s acts) := run_limitsInv s hrun
  have hmem : ∀ e ∈ (after s acts).jobLog p.jobId, e ∈ (after s acts).log :=
    fun e he => (List.mem_filter.1 he).1
  rcases ((run_leaseInv s hon p.jobId).apart _ _ _ _ _ _ _ hlog).2 with ⟨m, r, hr⟩ | htime
  · -- a call that has recorded is not delivering any more
    obtain ⟨t₁, hcall⟩ := callLog_of_delivering hp hs
    have hin : .recorded p.jobId p.workerId m r ∈ (after s acts).callLog p.workerId :=
      List.mem_filter.2 ⟨hmem _ (by rw [hlog]; simp [hr]), by simp [Event.workerId]⟩
    rw [hcall] at hin
    simp at hin
  · have hstart := (hlimits.claims p.jobId p.workerId t (hmem _ (by rw [hlog]; simp))).1
    have hkill : t' < l.killedAt (started p.workerId) :=
      hlimits.live p hp (by simp [hs]) p.jobId w t' (hmem _ (by rw [hlog]; simp))
    have hsec : seconds l.workerTaskTimeLimitSeconds ≤ seconds workerLeaseSeconds :=
      mul_le_mul_of_nonneg_right hlimit (by decide)
    rw [WorkerTimeLimits.killedAt] at hkill
    linarith

theorem exclusiveSends {acts : List (Time × Act)}
    (hrun : AllSteps (step s) (Punctual l started) {} acts)
    (hlimit : (l.workerTaskTimeLimitSeconds : ℤ) ≤ workerLeaseSeconds) :
    (after s acts).ExclusiveSends := by
  intro p hp q hq c c' hpc hqc hjob
  obtain ⟨t, ht⟩ := callLog_of_delivering hp hpc
  obtain ⟨t', ht'⟩ := callLog_of_delivering hq hqc
  have hpe : .claimed p.jobId p.workerId t ∈ (after s acts).jobLog p.jobId := by
    refine List.mem_filter.2 ⟨(List.mem_filter.1 (ht ▸ List.mem_singleton_self _)).1, ?_⟩
    simp [Event.jobId]
  have hqe : .claimed p.jobId q.workerId t' ∈ (after s acts).jobLog p.jobId := by
    rw [hjob]
    refine List.mem_filter.2 ⟨(List.mem_filter.1 (ht' ▸ List.mem_singleton_self _)).1, ?_⟩
    simp [Event.jobId]
  by_contra hne
  have hw : p.workerId ≠ q.workerId := fun hw => hne (Table.eq_of_key_eq hp hq hw)
  -- whichever of the two claims is the later one takes the job over
  obtain ⟨l₁, l₂, hlog⟩ := List.append_of_mem hpe
  rw [hlog, List.mem_append, List.mem_cons] at hqe
  rcases hqe with hqe | hqe | hqe
  · obtain ⟨l₃, l₄, rfl⟩ := List.append_of_mem hqe
    have hlog' : (after s acts).jobLog q.jobId =
        l₃ ++ .claimed q.jobId q.workerId t' :: (l₄ ++ .claimed q.jobId p.workerId t :: l₂) := by
      rw [← hjob, hlog, List.append_assoc, List.cons_append]
    exact not_taken_over hrun hlimit hq hqc hlog'
  · exact hw (Event.claimed.inj hqe).2.1.symm
  · obtain ⟨l₃, l₄, rfl⟩ := List.append_of_mem hqe
    exact not_taken_over hrun hlimit hp hpc hlog

end System

/-- One task claims the job at once and stays in `provider.send`; another one takes the job over
at the end of the lease. -/
def slowSendSample : List (Time × Act) :=
  publishedSample ++ [(0, .claim 5 20), (seconds 120, .claim 6 20)]

/-- When the tasks of `slowSendSample` start. -/
def slowSendStarted (w : OwnerId) : Time :=
  if w = 5 then 0 else seconds 120

theorem slowSend_overlaps : ¬(System.after {} slowSendSample).ExclusiveSends := by
  intro h
  have hstate : ∀ w ∈ [5, 6], ((System.after {} slowSendSample).processes.find? w).map
      (fun p => (p.jobId, p.state)) =
        some (20, .delivering ⟨10, "09121234567", "hello", .normal⟩) := by decide +kernel
  obtain ⟨p, hp, hpe⟩ := Option.map_eq_some_iff.1 (hstate 5 (by simp))
  obtain ⟨q, hq, hqe⟩ := Option.map_eq_some_iff.1 (hstate 6 (by simp))
  obtain ⟨hpm, hpw⟩ := Table.find?_eq_some.1 hp
  obtain ⟨hqm, hqw⟩ := Table.find?_eq_some.1 hq
  obtain ⟨hpj, hps⟩ := Prod.mk.inj hpe
  obtain ⟨hqj, hqs⟩ := Prod.mk.inj hqe
  have hsame : p = q := h p hpm q hqm _ _ hps hqs (hpj.trans hqj.symm)
  have hw : (6 : OwnerId) = 5 := hqw.symm.trans (hsame ▸ hpw)
  cases hw

/-- The time limits exclude simultaneous sends exactly when the hard limit is at most the
lease. -/
theorem sends_exclusive_iff (l : WorkerTimeLimits) :
    (∀ (s : Settings) (started : OwnerId → Time) (acts : List (Time × Act)),
      AllSteps (System.step s) (System.Punctual l started) {} acts →
        (System.after s acts).ExclusiveSends) ↔
      (l.workerTaskTimeLimitSeconds : ℤ) ≤ workerLeaseSeconds := by
  constructor
  · intro h
    by_contra hlimit
    have hle : 121 ≤ l.workerTaskTimeLimitSeconds := by
      rw [workerLeaseSeconds] at hlimit
      omega
    have hshort : AllSteps (System.step {}) (System.Punctual
        { workerTaskTimeLimitSeconds := 121 } slowSendStarted) {} slowSendSample := by
      decide +kernel
    refine slowSend_overlaps (h {} slowSendStarted slowSendSample ?_)
    exact AllSteps.imp_of_invariant (P := fun _ => True) (fun _ _ _ _ => trivial)
      (fun _ _ ha _ => ha.mono hle) _ hshort trivial
  · exact fun hlimit s started acts hrun => System.exclusiveSends hrun hlimit

/-- Limits of 299 and 300 seconds are accepted, and two calls send one message together. -/
theorem sends_not_exclusive :
    let l : WorkerTimeLimits := ⟨299, 300, by decide, by decide, by decide⟩
    ¬∀ (s : Settings) (started : OwnerId → Time) (acts : List (Time × Act)),
      AllSteps (System.step s) (System.Punctual l started) {} acts →
        (System.after s acts).ExclusiveSends := by
  intro l h
  exact slowSend_overlaps (h {} slowSendStarted slowSendSample (by decide +kernel))

end Abrio
