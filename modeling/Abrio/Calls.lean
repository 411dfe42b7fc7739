import Abrio.Lifecycle

/-!
# The calls of the workers

What one `process()` call does, whatever the other calls do meanwhile. A step of the system
is a move of every call (`CallMove`, `step_calls`), and so the events of a call are fixed by
how far it is (`CallTrace`, `after_callTrace`) : it claims its job once, sends once after
that, and records once after that; or it ends before, having done nothing or having given
an expired message up.
-/

open Relational Runs

namespace Abrio

open DispatchUseCase

/-- The call an event is one of. -/
def Event.workerId : Event → Option OwnerId
  | .claimed _ w _ => some w
  | .expired _ w _ => some w
  | .sent _ w => some w
  | .recorded _ w _ _ => some w
  | .reclaimed _ => none

namespace System

/-- The log of one call. -/
def callLog (sys : System) (w : OwnerId) : List Event :=
  sys.log.filter fun e => e.workerId = some w

/-! ## Moves of one call -/

/-- What an act at `now` can do to the call of `w`, with what it logs for it. -/
inductive CallMove (now : Time) (w : OwnerId) :
    Act → Option Process → List Event → Option Process → Prop
  | same {a : Act} {p : Option Process} : CallMove now w a p [] p
  | began {jobId : UUID} {claim : Claim} :
      CallMove now w (.claim w jobId) none (claimEnd now jobId w claim).2
        (some ⟨w, jobId, (claimEnd now jobId w claim).1⟩)
  | sent {jobId : UUID} {context : DeliveryContext} {result : ProviderResult} :
      CallMove now w (.send w result) (some ⟨w, jobId, .delivering context⟩) [.sent jobId w]
        (some ⟨w, jobId, .answered result⟩)
  | recorded {jobId : UUID} {result : ProviderResult} {jitter : Jitter}
      (outcome : Option (UUID × Recorded)) :
      CallMove now w (.record w jitter) (some ⟨w, jobId, .answered result⟩)
        (recordEnd jobId w outcome) (some ⟨w, jobId, .ended⟩)
  | crashed {jobId : UUID} {state : ProcessState} :
      CallMove now w (.workerCrash w) (some ⟨w, jobId, state⟩) [] (some ⟨w, jobId, .ended⟩)

variable {s : Settings} {now : Time} {sys sys' : System}

/-- What a step is for the call of `w`. -/
def MovesCall (a : Time × Act) (sys sys' : System) (w : OwnerId) : Prop :=
  ∃ es, sys'.callLog w = sys.callLog w ++ es ∧
    CallMove a.1 w a.2 (sys.processes.find? w) es (sys'.processes.find? w)

/-- A step that changes no call. -/
theorem MovesCall.of_same {a : Time × Act} (hp : sys'.processes = sys.processes)
    {es : List Event} (hl : sys'.log = sys.log ++ es) (hes : ∀ e ∈ es, e.workerId = none)
    (w : OwnerId) : MovesCall a sys sys' w := by
  refine ⟨[], ?_, by rw [hp]; exact .same⟩
  have hnil : (es.filter fun e => e.workerId = some w) = [] :=
    List.filter_eq_nil_iff.2 fun e he => by simp [hes e he]
  rw [callLog, hl, List.filter_append, hnil, callLog]

/-- A step of the call of `w'`, which logs `es`. -/
theorem MovesCall.of_put {now : Time} {b : Act} {w' : OwnerId} {jobId : UUID}
    {state state' : ProcessState} {es : List Event}
    (hfind : sys.processes.find? w' = some ⟨w', jobId, state⟩)
    (hp : sys'.processes = sys.processes.put ⟨w', jobId, state'⟩) (hl : sys'.log = sys.log ++ es)
    (hes : ∀ e ∈ es, e.workerId = some w')
    (hmove : CallMove now w' b (some ⟨w', jobId, state⟩) es (some ⟨w', jobId, state'⟩))
    (w : OwnerId) : MovesCall (now, b) sys sys' w := by
  have hput : (sys.processes.put ⟨w', jobId, state'⟩).find? w = _ :=
    Table.find?_put (r := ⟨w', jobId, state'⟩) (Table.find?_eq_some.1 hfind).1 rfl w
  refine ⟨es.filter fun e => e.workerId = some w, by rw [callLog, hl, List.filter_append, callLog],
    ?_⟩
  rw [hp, hput]
  dsimp only
  by_cases hw : w' = w
  · subst hw
    have hall : (es.filter fun e => e.workerId = some w') = es :=
      List.filter_eq_self.2 fun e he => by simp [hes e he]
    rw [hall, if_pos rfl, hfind]
    exact hmove
  · have hnone : (es.filter fun e => e.workerId = some w) = [] :=
      List.filter_eq_nil_iff.2 fun e he => by simp [hes e he, hw]
    rw [hnone, if_neg hw]
    exact .same

theorem claimEnd_workerId {jobId : UUID} {w : OwnerId} {claim : Claim} {e : Event}
    (he : e ∈ (claimEnd now jobId w claim).2) : e.workerId = some w := by
  cases claim <;> simp only [claimEnd, List.not_mem_nil, List.mem_singleton] at he <;>
    rw [he] <;> rfl

theorem claim_movesCall (w' : OwnerId) (jobId : UUID) (w : OwnerId) :
    MovesCall (now, .claim w' jobId) sys (sys.claim s now w' jobId) w := by
  rcases sys.claim_cases s now w' jobId with h | ⟨db', claim, processes, -, hins, h⟩ <;> rw [h]
  · exact .of_same (by rfl) (List.append_nil _).symm (by simp) w
  refine ⟨(claimEnd now jobId w' claim).2.filter fun e => e.workerId = some w,
    List.filter_append _ _, ?_⟩
  show CallMove now w _ _ _ (processes.find? w)
  rw [Table.find?_insert hins]
  dsimp only
  by_cases hw : w' = w
  · subst hw
    have hall : ((claimEnd now jobId w' claim).2.filter fun e => e.workerId = some w') =
        (claimEnd now jobId w' claim).2 :=
      List.filter_eq_self.2 fun e he => by simp [claimEnd_workerId he]
    have hfresh : sys.processes.find? w' = none :=
      Table.find?_eq_none.2 fun p hp => Table.key_ne_of_insert hins hp
    rw [hall, if_pos rfl, hfresh]
    exact .began
  · have hnone : ((claimEnd now jobId w' claim).2.filter fun e => e.workerId = some w) = [] :=
      List.filter_eq_nil_iff.2 fun e he => by simp [claimEnd_workerId he, hw]
    rw [hnone, if_neg hw]
    exact .same

/-- A step of the system is a move of every call. -/
theorem step_calls (s : Settings) (sys : System) (a : Time × Act) (w : OwnerId) :
    MovesCall a sys (sys.step s a) w := by
  have h : MovesCall a sys (sys.act s a.1 a.2) w := by
    obtain ⟨now, a⟩ := a
    cases a with
    | api t => exact .of_same (by rfl) (List.append_nil _).symm (by simp) w
    | reap p scan =>
      refine .of_same (by rfl) (by rfl) (fun e he => ?_) w
      obtain ⟨job, -, rfl⟩ := List.mem_map.1 he
      rfl
    | relayClaim r p scans =>
      rcases sys.relayClaim_cases s now r p scans with h | ⟨_, h⟩ <;> rw [act, h] <;>
        exact .of_same (by rfl) (List.append_nil _).symm (by simp) w
    | publish r accepts delivered =>
      obtain ⟨_, _, h⟩ := sys.publish_cases r accepts delivered
      rw [act, h]
      exact .of_same (by rfl) (List.append_nil _).symm (by simp) w
    | relayRecord r error jitter =>
      rcases sys.relayRecord_cases now r error jitter with h | ⟨_, _, _, h⟩ <;> rw [act, h] <;>
        exact .of_same (by rfl) (List.append_nil _).symm (by simp) w
    | relayCrash r => exact .of_same (by rfl) (List.append_nil _).symm (by simp) w
    | dropTask jobId => exact .of_same (by rfl) (List.append_nil _).symm (by simp) w
    | claim w' jobId => exact claim_movesCall w' jobId w
    | send w' result =>
      rcases sys.send_cases w' result with h | ⟨jobId, context, hp, h⟩ <;> rw [act, h]
      · exact .of_same (by rfl) (List.append_nil _).symm (by simp) w
      · exact .of_put hp (by rfl) (by rfl) (by simp [Event.workerId]) .sent w
    | record w' jitter =>
      rcases sys.record_cases s now w' jitter with
        h | ⟨jobId, result, hp, h | ⟨db', recorded, -, h⟩⟩ <;> rw [act, h]
      · exact .of_same (by rfl) (List.append_nil _).symm (by simp) w
      · exact .of_put hp (by rfl) (by exact (List.append_nil _).symm) (by simp [recordEnd])
          (.recorded none) w
      · refine .of_put hp (by rfl) (by rfl) (fun e he => ?_) (.recorded recorded) w
        cases recorded <;> simp only [recordEnd, List.not_mem_nil, List.mem_singleton] at he
        rw [he]
        rfl
    | workerCrash w' =>
      rcases sys.workerCrash_cases w' with h | ⟨jobId, state, hp, h⟩ <;> rw [act, h]
      · exact .of_same (by rfl) (List.append_nil _).symm (by simp) w
      · exact .of_put hp (by rfl) (by exact (List.append_nil _).symm) (by simp) .crashed w
  exact h

/-- What the moves of a call preserve holds along a run. -/
theorem call_invariant {C : System → Time × Act → Prop} {w : OwnerId}
    {P : Option Process → List Event → Prop}
    (hP : ∀ (sys : System) a es p', C sys a →
      CallMove a.1 w a.2 (sys.processes.find? w) es p' →
      P (sys.processes.find? w) (sys.callLog w) → P p' (sys.callLog w ++ es))
    (acts : List (Time × Act)) {sys : System} (hC : AllSteps (step s) C sys acts)
    (h : P (sys.processes.find? w) (sys.callLog w)) :
    P ((run (step s) sys acts).processes.find? w) ((run (step s) sys acts).callLog w) := by
  refine AllSteps.invariant (P := fun sys : System =>
    P (sys.processes.find? w) (sys.callLog w)) (fun sys a ha h => ?_) acts hC h
  obtain ⟨es, hlog, hmove⟩ := step_calls s sys a w
  rw [hlog]
  exact hP sys a es _ ha hmove h

/-! ## The trace of a call -/

/-- The log of the call of `w`, by how far the call is. -/
inductive CallTrace (w : OwnerId) : Option Process → List Event → Prop
  | absent : CallTrace w none []
  | delivering (jobId : UUID) (context : DeliveryContext) (t : Time) :
      CallTrace w (some ⟨w, jobId, .delivering context⟩) [.claimed jobId w t]
  | answered (jobId : UUID) (result : ProviderResult) (t : Time) :
      CallTrace w (some ⟨w, jobId, .answered result⟩) [.claimed jobId w t, .sent jobId w]
  | idle (jobId : UUID) : CallTrace w (some ⟨w, jobId, .ended⟩) []
  | expired (jobId messageId : UUID) :
      CallTrace w (some ⟨w, jobId, .ended⟩) [.expired jobId w messageId]
  | unsent (jobId : UUID) (t : Time) : CallTrace w (some ⟨w, jobId, .ended⟩) [.claimed jobId w t]
  | unrecorded (jobId : UUID) (t : Time) :
      CallTrace w (some ⟨w, jobId, .ended⟩) [.claimed jobId w t, .sent jobId w]
  | recorded (jobId : UUID) (t : Time) (messageId : UUID) (r : Recorded) :
      CallTrace w (some ⟨w, jobId, .ended⟩)
        [.claimed jobId w t, .sent jobId w, .recorded jobId w messageId r]

theorem CallTrace.move {w : OwnerId} {a : Act} {p p' : Option Process} {log es : List Event}
    (hmove : CallMove now w a p es p') (h : CallTrace w p log) : CallTrace w p' (log ++ es) := by
  cases hmove with
  | same => rwa [List.append_nil]
  | @began jobId claim =>
    cases h
    cases claim with
    | nothing => exact .idle jobId
    | expired messageId => exact .expired jobId messageId
    | delivery context => exact .delivering jobId context now
  | sent =>
    cases h
    exact .answered _ _ _
  | recorded outcome =>
    cases h
    rcases outcome with _ | ⟨messageId, r⟩
    · exact .unrecorded _ _
    · exact .recorded _ _ messageId r
  | crashed =>
    rw [List.append_nil]
    cases h with
    | delivering => exact .unsent _ _
    | answered => exact .unrecorded _ _
    | idle => exact .idle _
    | expired => exact .expired _ _
    | unsent => exact .unsent _ _
    | unrecorded => exact .unrecorded _ _
    | recorded => exact .recorded _ _ _ _

/-- The log of every call is what the call has done. -/
theorem after_callTrace (s : Settings) (acts : List (Time × Act)) (w : OwnerId) :
    CallTrace w ((after s acts).processes.find? w) ((after s acts).callLog w) :=
  call_invariant (C := fun _ _ => True) (P := CallTrace w) (fun _ _ _ _ _ hmove h => h.move hmove)
    acts (AllSteps.of_forall (fun _ _ => trivial) acts) .absent

/-- A call that is delivering has claimed its job, and that is all. -/
theorem callLog_of_delivering {acts : List (Time × Act)} {p : Process} {context : DeliveryContext}
    (hp : p ∈ (after s acts).processes) (hs : p.state = .delivering context) :
    ∃ t, (after s acts).callLog p.workerId = [.claimed p.jobId p.workerId t] := by
  have htrace := after_callTrace s acts p.workerId
  rw [Table.find?_key hp] at htrace
  obtain ⟨w, jobId, state⟩ := p
  subst hs
  generalize (after s acts).callLog w = log at htrace
  cases htrace with
  | delivering _ _ t => exact ⟨t, rfl⟩

/-- A call sends after it has claimed. -/
theorem CallTrace.claimed_of_sent {w : OwnerId} {p : Option Process} {id : UUID}
    {pre post : List Event} (h : CallTrace w p (pre ++ .sent id w :: post)) :
    ∃ t, pre = [.claimed id w t] := by
  generalize hlog : pre ++ .sent id w :: post = log at h
  rcases pre with _ | ⟨e, _ | ⟨e', pre⟩⟩
  · cases h <;> simp at hlog
  · cases h <;> simp at hlog <;> exact ⟨_, by rw [hlog.1, hlog.2.1]⟩
  · have hin : .sent id w ∈ pre ++ .sent id w :: post := by simp
    cases h <;> simp only [List.cons_append, List.cons.injEq, reduceCtorEq, and_false] at hlog
    all_goals
      rw [hlog.2.2] at hin
      simp at hin

/-- Every `provider.send` of a run follows the claim of its call. -/
theorem claimed_of_sent {acts : List (Time × Act)} {pre : List Event} {id : UUID} {w : OwnerId}
    (h : pre ++ [.sent id w] <+: (after s acts).log) : ∃ t, .claimed id w t ∈ pre := by
  obtain ⟨post, hlog⟩ := h
  have htrace := after_callTrace s acts w
  have hsplit : (after s acts).callLog w = (pre.filter fun e => e.workerId = some w) ++
      .sent id w :: post.filter fun e => e.workerId = some w := by
    rw [callLog, ← hlog, List.filter_append, List.filter_append, List.append_assoc]
    simp [Event.workerId]
  rw [hsplit] at htrace
  obtain ⟨t, ht⟩ := htrace.claimed_of_sent
  have hmem : .claimed id w t ∈ pre.filter fun e => e.workerId = some w := by simp [ht]
  exact ⟨t, (List.mem_filter.1 hmem).1⟩

/-- A call that is over and has not sent never will. -/
theorem not_sent_of_ended {w : OwnerId} {jobId : UUID}
    (hp : sys.processes.find? w = some ⟨w, jobId, .ended⟩) (hl : ∀ id, .sent id w ∉ sys.callLog w)
    (acts : List (Time × Act)) (id : UUID) : .sent id w ∉ (run (step s) sys acts).log := by
  have h := call_invariant (s := s) (C := fun _ _ => True) (w := w)
    (P := fun p log => p = some ⟨w, jobId, .ended⟩ ∧ ∀ id, .sent id w ∉ log)
    (fun sys a es p' _ hmove hcall => ?_) acts (AllSteps.of_forall (fun _ _ => trivial) acts)
    ⟨hp, hl⟩
  · exact fun hin => h.2 id (List.mem_filter.2 ⟨hin, by simp [Event.workerId]⟩)
  · obtain ⟨hcall, hlog⟩ := hcall
    obtain ⟨now, a⟩ := a
    rw [hcall] at hmove
    cases hmove with
    | same => simpa using hlog
    | crashed => simpa using hlog

end System

end Abrio
