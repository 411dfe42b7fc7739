import Abrio.AtomicSubmission
import Abrio.Library.Linear
import Abrio.Transactions

/-!
# Submissions are linearizable

The transactions of the submissions run statement by statement, side by side, and the use cases
are stated as if each ran alone. Every run of `SubmissionSystem` agrees with a serial one : a call
takes effect at one of its steps, its commit or the statement that raises, and there it does and
returns what `create_message` or `batch_create_message` does in that state (`linearizable`). So
what is proved of the atomic use cases holds of the calls.
-/

open Relational Runs

namespace Abrio

open MessageUseCase

/-! ## The points -/

/-- A submission as an operation : the call, with the clock reading it takes. -/
abbrev SubmissionOp := SubmissionCall × Time

/-- A call with its operation and the answer it took effect with. -/
abbrev SubmissionPoint := Point ℕ SubmissionOp (Except Exn Answer)

/-- What the use cases do and return. A batch with a value that does not fit may raise for
something else first. -/
def SubmissionCall.Effect (s : Settings) (op : SubmissionOp) (db : Db)
    (r : Except Exn Answer) (db' : Db) : Prop :=
  match op.1 with
  | .single payload ids =>
    db' = (createMessage s payload ids op.2 db).1 ∧
      r = (createMessage s payload ids op.2 db).2.map .single
  | .batch payload ids =>
    db' = (batchCreateMessage s payload ids op.2 db).1 ∧
      (r = (batchCreateMessage s payload ids op.2 db).2.map .batch ∨
        (∃ item ∈ payload.messages, (item.toRequest payload.userId).storable s = false) ∧
          ∃ e, r = .error e)

theorem SubmissionCall.effect_alone {s : Settings} {c : SubmissionCall} {now : Time} {db db' : Db}
    {r : Except Exn Answer} (h : c.alone s now db = (r, db')) : Effect s (c, now) db r db' := by
  cases c with
  | single payload ids =>
    rw [alone_single] at h
    obtain ⟨rfl, rfl⟩ := Prod.mk.inj h
    exact ⟨rfl, rfl⟩
  | batch payload ids =>
    have hbatch := @alone_batch s db now payload ids
    rw [h] at hbatch
    exact hbatch

namespace SubmissionSystem

variable (s : Settings)

/-- The point of a call, where it returns `r`. -/
def pointOf (c : Call) (r : Except Exn Answer) : SubmissionPoint :=
  ⟨c.id, (c.call, c.now), r⟩

/-- A running call is decided by its commit, or by the statement that raises. -/
def advancePoints (sys : SubmissionSystem) (c : Call) : List SubmissionPoint :=
  match c.state with
  | .running t =>
    match t.todo with
    | [] => [pointOf c (.ok (c.call.answer s c.now))]
    | stmt :: _ =>
      if sys.blocked c stmt then []
      else match t.exec sys.db c.call.userId stmt with
        | .ok _ => []
        | .error e => [pointOf c (c.call.handle s sys.db e)]
  | _ => []

/-- A batch with a duplicate key is decided at once. -/
def beginPoints (sys : SubmissionSystem) (id : ℕ) (call : SubmissionCall) (now : Time) :
    List SubmissionPoint :=
  if sys.fresh (call.submissions now) then
    match sys.calls.insert ⟨id, call, now, call.begin s now⟩, call.begin s now with
    | some _, .returned r => [⟨id, (call, now), r⟩]
    | _, _ => []
  else []

/-- The calls that take effect with a step. -/
def points (sys : SubmissionSystem) : SubmissionAct → List SubmissionPoint
  | .start id call now => sys.beginPoints s id call now
  | .advance id =>
    match sys.calls.find? id with
    | some c => sys.advancePoints s c
    | none => []
  | .kill _ => []

/-- The call has not taken effect. -/
def Undecided (ps : List SubmissionPoint) (c : Call) : Prop :=
  ∀ p ∈ ps, p.call ≠ c.id

/-- A call that has raised or returned has taken effect, unless it was killed. -/
def Settled (db : Db) (ps : List SubmissionPoint) (c : Call) : Prop :=
  match c.state with
  | .running _ => Undecided ps c
  | .aborted e => pointOf c (c.call.handle s db e) ∈ ps ∨
      e = .db .operationalError ∧ Undecided ps c
  | .returned r => pointOf c r ∈ ps ∨ r = .error (.db .operationalError) ∧ Undecided ps c

/-- The invariant of a run and its points. -/
structure Linear (db₀ : Db) (sys : SubmissionSystem) (ps : List SubmissionPoint) : Prop where
  inv : sys.Inv s db₀
  ready : ∀ c ∈ sys.calls, ∀ t, c.state = .running t → Ready sys.db c t
  serial : Serial (SubmissionCall.Effect s) db₀ ps sys.db
  once : (ps.map Point.call).Nodup
  settled : ∀ c ∈ sys.calls, Settled s sys.db ps c
  known : ∀ p ∈ ps, ∃ c ∈ sys.calls, c.id = p.call ∧ (c.call, c.now) = p.op

variable {s} {db₀ db' : Db} {sys : SubmissionSystem} {ps : List SubmissionPoint} {c c' : Call}

/-- The handler of a call reads the same of a later state. -/
theorem handle_eq {e : Exn} (h : Aborted sys.db c e) (hdb : sys.db.Constrained)
    (hdb' : db'.Constrained) (hm : ∀ m ∈ sys.db.messages, m ∈ db'.messages) :
    c.call.handle s db' e = c.call.handle s sys.db e := by
  cases hcall : c.call with
  | batch payload ids => rfl
  | single payload ids =>
    simp only [SubmissionCall.handle]
    unfold createMessageHandler
    split
    · rename_i con
      obtain ⟨m, hmem, hu, hk⟩ := h.taken payload ids con hcall rfl
      have hfound : sys.db.messageWithKey payload.userId payload.idempotencyKey = some m := by
        rw [← hu, ← hk]
        exact Db.messageWithKey_eq hdb hmem
      have hfound' : db'.messageWithKey payload.userId payload.idempotencyKey = some m := by
        rw [← hu, ← hk]
        exact Db.messageWithKey_eq hdb' (hm m hmem)
      simp only [MessageRepository.getUserMessageByIdempotencyKey, hfound, hfound']
    · rfl
    · rfl
    · rfl

theorem Undecided.append (h : Undecided ps c') {ps' : List SubmissionPoint}
    (hps' : ∀ p ∈ ps', p.call ≠ c'.id) : Undecided (ps ++ ps') c' := by
  intro p hp
  rcases List.mem_append.1 hp with hp | hp
  · exact h p hp
  · exact hps' p hp

theorem Settled.append {db : Db} (h : Settled s db ps c') {ps' : List SubmissionPoint}
    (hps' : ∀ p ∈ ps', p.call ≠ c'.id)
    (hh : ∀ e, c'.state = .aborted e → c'.call.handle s db' e = c'.call.handle s db e) :
    Settled s db' (ps ++ ps') c' := by
  unfold Settled at h ⊢
  cases hs : c'.state with
  | running t =>
    rw [hs] at h
    exact h.append hps'
  | aborted e =>
    rw [hs] at h
    simp only [hh e hs]
    exact h.imp (List.mem_append_left _) (And.imp_right fun h => h.append hps')
  | returned r =>
    rw [hs] at h
    exact h.imp (List.mem_append_left _) (And.imp_right fun h => h.append hps')

theorem known_put {p : SubmissionPoint} (hc : c ∈ sys.calls) (state : CallState)
    (h : ∃ x ∈ sys.calls, x.id = p.call ∧ (x.call, x.now) = p.op) :
    ∃ x ∈ sys.calls.put { c with state }, x.id = p.call ∧ (x.call, x.now) = p.op := by
  obtain ⟨x, hx, hi, ho⟩ := h
  by_cases he : x.id = c.id
  · obtain rfl := Table.eq_of_key_eq hx hc he
    exact ⟨{ x with state }, Table.mem_put_self hc rfl, hi, ho⟩
  · exact ⟨x, Table.mem_put_of_ne hx he, hi, ho⟩

namespace Linear

/-- A call goes on, and has not taken effect by that. -/
theorem goto (h : Linear s db₀ sys ps) (hc : c ∈ sys.calls) {state : CallState}
    (hinv : Inv s db₀ (sys.goto c state))
    (hready : ∀ t, state = .running t → Ready sys.db c t)
    (hself : Settled s sys.db ps { c with state }) : Linear s db₀ (sys.goto c state) ps := by
  refine ⟨hinv, fun x hx t ht => ?_, h.serial, h.once, fun x hx => ?_, fun p hp =>
    known_put hc state (h.known p hp)⟩
  · rcases Table.mem_put.1 hx with ⟨hx, -⟩ | ⟨rfl, -⟩
    · exact h.ready x hx t ht
    · exact ⟨(hready t ht).checked, (hready t ht).unlocked⟩
  · rcases Table.mem_put.1 hx with ⟨hx, -⟩ | ⟨rfl, -⟩
    · exact h.settled x hx
    · exact hself

/-- A running call takes effect. -/
theorem takeEffect (h : Linear s db₀ sys ps) (hc : c ∈ sys.calls) {t : Open}
    (hrun : c.state = .running t) {state : CallState} {r : Except Exn Answer}
    (hinv : Inv s db₀ ⟨db', sys.calls.put { c with state }⟩)
    (halone : c.call.alone s c.now sys.db = (r, db')) (husers : db'.users = sys.db.users)
    (hmessages : ∀ m ∈ sys.db.messages, m ∈ db'.messages) (hstate : ∀ t, state ≠ .running t)
    (hself : Settled s db' (ps ++ [pointOf c r]) { c with state }) :
    Linear s db₀ ⟨db', sys.calls.put { c with state }⟩ (ps ++ [pointOf c r]) := by
  have hundecided : Undecided ps c := by
    have hs := h.settled c hc
    unfold Settled at hs
    rwa [hrun] at hs
  refine ⟨hinv, fun x hx t ht => ?_, h.serial.snoc (SubmissionCall.effect_alone halone), ?_,
    fun x hx => ?_, fun p hp => ?_⟩
  · rcases Table.mem_put.1 hx with ⟨hx, -⟩ | ⟨rfl, -⟩
    · obtain ⟨hchecked, hunlocked⟩ := h.ready x hx t ht
      refine ⟨fun hcheck => ?_, hunlocked⟩
      obtain ⟨u, hu, hi⟩ := hchecked hcheck
      exact ⟨u, husers ▸ hu, hi⟩
    · exact absurd ht (hstate t)
  · rw [List.map_append, List.nodup_append]
    refine ⟨h.once, List.nodup_singleton _, fun i hi i' hi' => ?_⟩
    obtain ⟨p, hp, rfl⟩ := List.mem_map.1 hi
    rw [List.mem_singleton.1 hi']
    exact hundecided p hp
  · rcases Table.mem_put.1 hx with ⟨hx, hne⟩ | ⟨rfl, -⟩
    · refine (h.settled x hx).append (fun p hp => ?_) fun e he => ?_
      · rw [List.mem_singleton.1 hp]
        exact Ne.symm hne
      · have haborted := h.inv.call x hx
        unfold CallInv at haborted
        rw [he] at haborted
        exact handle_eq haborted h.inv.constrained hinv.constrained hmessages
    · exact hself
  · refine known_put hc state ?_
    rcases List.mem_append.1 hp with hp | hp
    · exact h.known p hp
    · rw [List.mem_singleton.1 hp]
      exact ⟨c, hc, rfl, rfl⟩

/-- No point has the name of a new call. -/
theorem undecided_of_insert (h : Linear s db₀ sys ps) {calls : Table Call.id}
    (hi : sys.calls.insert c = some calls) : Undecided ps c := by
  intro p hp he
  obtain ⟨x, hx, hxi, -⟩ := h.known p hp
  exact Table.key_ne_of_insert hi hx (hxi.trans he)

theorem begin (h : Linear s db₀ sys ps) (id : ℕ) (call : SubmissionCall) (now : Time) :
    Linear s db₀ (sys.begin s id call now) (ps ++ sys.beginPoints s id call now) := by
  have hinv := h.inv.begin id call now
  unfold SubmissionSystem.begin at hinv ⊢
  unfold beginPoints
  split_ifs at hinv ⊢ with hf
  swap
  · rwa [List.append_nil]
  cases hi : sys.calls.insert ⟨id, call, now, call.begin s now⟩ with
  | none =>
    simp only
    rwa [List.append_nil]
  | some calls =>
    simp only [hi] at hinv ⊢
    have hundecided := h.undecided_of_insert hi
    have hmem := fun c => Table.mem_insert (x := c) hi
    have hknown : ∀ p ∈ ps, ∃ c ∈ calls, c.id = p.call ∧ (c.call, c.now) = p.op := by
      intro p hp
      obtain ⟨c, hc, hk⟩ := h.known p hp
      exact ⟨c, (hmem c).2 (Or.inl hc), hk⟩
    rcases call.begin_cases s now with ⟨t, ht⟩ | ⟨_, _, r, -, hr⟩
    · simp only [ht]
      rw [List.append_nil]
      refine ⟨hinv, fun c hc t' ht' => ?_, h.serial, h.once, fun c hc => ?_, hknown⟩
      · rcases (hmem c).1 hc with hc | rfl
        · exact h.ready c hc t' ht'
        · obtain ⟨rfl, -⟩ := call.begin_running s now ht'
          exact ⟨fun hno => absurd (call.checkUsers_mem_program s now) hno, fun _ _ => rfl⟩
      · rcases (hmem c).1 hc with hc | rfl
        · exact h.settled c hc
        · unfold Settled
          simp only [ht]
          exact hundecided
    · simp only [hr]
      have halone : call.alone s now sys.db = (r, sys.db) := by
        rw [SubmissionCall.alone, hr]
      refine ⟨hinv, fun c hc t' ht' => ?_, h.serial.snoc (SubmissionCall.effect_alone halone),
        ?_, fun c hc => ?_, fun p hp => ?_⟩
      · rcases (hmem c).1 hc with hc | rfl
        · exact h.ready c hc t' ht'
        · rw [hr] at ht'
          cases ht'
      · rw [List.map_append, List.nodup_append]
        refine ⟨h.once, List.nodup_singleton _, fun i hi i' hi' => ?_⟩
        obtain ⟨p, hp, rfl⟩ := List.mem_map.1 hi
        rw [List.mem_singleton.1 hi']
        exact hundecided p hp
      · rcases (hmem c).1 hc with hc | rfl
        · refine (h.settled c hc).append (fun p hp => ?_) fun _ _ => rfl
          rw [List.mem_singleton.1 hp]
          exact (Table.key_ne_of_insert hi hc).symm
        · unfold Settled
          simp only [hr]
          exact Or.inl (by simp [pointOf])
      · rcases List.mem_append.1 hp with hp | hp
        · exact hknown p hp
        · rw [List.mem_singleton.1 hp]
          exact ⟨_, (hmem _).2 (Or.inr rfl), rfl, rfl⟩

theorem advance (h : Linear s db₀ sys ps) (hc : c ∈ sys.calls) :
    Linear s db₀ (sys.advance s c) (ps ++ sys.advancePoints s c) := by
  have hinv := h.inv.advance hc
  have hcall := h.inv.call c hc
  have hsettled := h.settled c hc
  have hdb := h.inv.constrained
  unfold CallInv at hcall
  unfold Settled at hsettled
  unfold SubmissionSystem.advance at hinv ⊢
  unfold advancePoints
  cases hstate : c.state with
  | running t =>
    simp only [hstate] at hinv hcall hsettled ⊢
    obtain ⟨done, hrun⟩ := hcall
    have hready := h.ready c hc t hstate
    cases htodo : t.todo with
    | nil =>
      simp only [htodo] at hinv ⊢
      have hacc := hrun.accepted hdb htodo
      refine h.takeEffect hc hstate hinv (hrun.alone_of_nil hdb hready htodo) hacc.users
        (fun m hm => hacc.mem_messages.2 (Or.inl hm)) (by simp) (Or.inl ?_)
      exact List.mem_append_right _ (List.mem_singleton.2 rfl)
    | cons stmt todo =>
      simp only [htodo] at hinv ⊢
      split_ifs at hinv ⊢
      · rwa [List.append_nil]
      · cases he : t.exec sys.db c.call.userId stmt with
        | ok t' =>
          simp only [he] at hinv ⊢
          rw [List.append_nil]
          refine h.goto hc hinv ?_ hsettled
          rintro _ ⟨⟩
          exact hrun.ready_exec hready htodo he
        | error e =>
          simp only [he] at hinv ⊢
          refine h.takeEffect hc hstate hinv (hrun.alone_of_error hdb hready htodo he) rfl
            (fun _ hm => hm) (by simp) (Or.inl ?_)
          exact List.mem_append_right _ (List.mem_singleton.2 rfl)
  | aborted e =>
    simp only [hstate] at hinv hsettled ⊢
    rw [List.append_nil]
    refine h.goto hc hinv (by simp) ?_
    rcases hsettled with hp | ⟨rfl, hundecided⟩
    · exact Or.inl hp
    · refine Or.inr ⟨?_, hundecided⟩
      cases c.call <;> rfl
  | returned r =>
    simp only
    rwa [List.append_nil]

theorem step (h : Linear s db₀ sys ps) (a : SubmissionAct) :
    Linear s db₀ (sys.step s a) (ps ++ sys.points s a) := by
  cases a with
  | start id call now => exact h.begin id call now
  | advance id =>
    rw [SubmissionSystem.step, points]
    cases hf : sys.calls.find? id with
    | some c => exact h.advance (Table.find?_eq_some.1 hf).1
    | none =>
      simp only
      rwa [List.append_nil]
  | kill id =>
    have hinv := h.inv.step (.kill id)
    rw [SubmissionSystem.step] at hinv ⊢
    rw [points, List.append_nil]
    cases hf : sys.calls.find? id with
    | none => exact h
    | some c =>
      have hc := (Table.find?_eq_some.1 hf).1
      simp only [hf] at hinv ⊢
      cases hstate : c.state with
      | running t =>
        simp only [hstate] at hinv ⊢
        have hsettled := h.settled c hc
        unfold Settled at hsettled
        rw [hstate] at hsettled
        exact h.goto hc hinv (by simp) (Or.inr ⟨rfl, hsettled⟩)
      | _ => exact h

end Linear

/-- The points of a run. -/
def decided (s : Settings) (db₀ : Db) (acts : List SubmissionAct) : List SubmissionPoint :=
  history (step s) (points s) (start db₀) acts

theorem linear_run (s : Settings) {db₀ : Db} (hdb : db₀.Constrained) (acts : List SubmissionAct) :
    Linear s db₀ (run (step s) (start db₀) acts) (decided s db₀ acts) := by
  refine history_induction (P := Linear s db₀) (fun _ _ a h => h.step a) ?_ acts
  refine ⟨inv_start hdb, fun c hc => ?_, .nil, List.nodup_nil, fun c hc => ?_, fun p hp => ?_⟩
  · exact absurd hc (Table.not_mem_empty c)
  · exact absurd hc (Table.not_mem_empty c)
  · exact absurd hp List.not_mem_nil

/-- A call takes effect while it runs. -/
theorem running_of_point {sys : SubmissionSystem} {a : SubmissionAct} {p : SubmissionPoint}
    (hp : p ∈ sys.points s a) {c : Call} (hc : c ∈ sys.calls) (hi : c.id = p.call) :
    ∃ t, c.state = .running t := by
  cases a with
  | start id call now =>
    simp only [points, beginPoints] at hp
    split_ifs at hp
    · split at hp
      · rename_i hcalls _
        rw [List.mem_singleton.1 hp] at hi
        exact absurd hi (Table.key_ne_of_insert hcalls hc)
      · cases hp
    · cases hp
  | advance id =>
    simp only [points] at hp
    split at hp
    swap
    · cases hp
    rename_i c' hf
    have hpoint : (∃ t, c'.state = .running t) ∧ p.call = c'.id := by
      unfold advancePoints at hp
      split at hp
      · rename_i t ht
        refine ⟨⟨t, ht⟩, ?_⟩
        split at hp
        · rw [List.mem_singleton.1 hp]
          rfl
        · split_ifs at hp
          · cases hp
          · split at hp
            · cases hp
            · rw [List.mem_singleton.1 hp]
              rfl
      · cases hp
    obtain rfl := Table.eq_of_key_eq hc (Table.find?_eq_some.1 hf).1 (hi.trans hpoint.2)
    exact hpoint.1
  | kill id => cases hp

end SubmissionSystem

/-- A submission as a request of the API. -/
def SubmissionCall.txn : SubmissionCall → ApiTxn
  | .single payload ids => .createMessage payload ids
  | .batch payload ids => .batchCreateMessage payload ids

theorem SubmissionCall.Effect.apply {s : Settings} {op : SubmissionOp} {db db' : Db}
    {r : Except Exn Answer} (h : Effect s op db r db') : db' = op.1.txn.apply s op.2 db := by
  obtain ⟨c, now⟩ := op
  cases c <;> exact h.1

theorem serial_foldl_apply {s : Settings} {db₀ db : Db} {ps : List SubmissionPoint}
    (h : Serial (SubmissionCall.Effect s) db₀ ps db) :
    db = ps.foldl (fun db p => p.op.1.txn.apply s p.op.2 db) db₀ := by
  induction h with
  | nil => rfl
  | snoc before last ih =>
    rw [List.foldl_append, ← ih]
    exact last.apply

open SubmissionSystem in
/-- Every run of the submissions, statement by statement and side by side, agrees with a serial one.
Its points are a serial run of the use cases, one for a call at most, and lead to the state of the
run, as the atomic requests do. A call that has returned returned what its point says; one that was
killed has none. The points of a later run follow, and are of calls that have not returned yet. -/
theorem linearizable (s : Settings) {db₀ : Db} (hdb : db₀.Constrained) (acts : List SubmissionAct) :
    let sys := run (SubmissionSystem.step s) (.start db₀) acts
    let ps := decided s db₀ acts
    (Serial (SubmissionCall.Effect s) db₀ ps sys.db ∧ (ps.map Point.call).Nodup ∧
      sys.db = ps.foldl (fun db p => p.op.1.txn.apply s p.op.2 db) db₀) ∧
    (∀ c ∈ sys.calls, ∀ r, c.state = .returned r →
      pointOf c r ∈ ps ∨ r = .error (.db .operationalError) ∧ ∀ p ∈ ps, p.call ≠ c.id) ∧
    (∀ p ∈ ps, ∃ c ∈ sys.calls, c.id = p.call ∧ (c.call, c.now) = p.op) ∧
    ∀ later, ∃ ps', decided s db₀ (acts ++ later) = ps ++ ps' ∧
      ∀ p ∈ ps', ∀ c ∈ sys.calls, c.id = p.call → ∀ r, c.state ≠ .returned r := by
  intro sys ps
  have h := linear_run s hdb acts
  refine ⟨⟨h.serial, h.once, serial_foldl_apply h.serial⟩, fun c hc r hr => ?_, h.known,
    fun later => ?_⟩
  · have hs := h.settled c hc
    unfold Settled at hs
    rwa [hr] at hs
  · refine ⟨_, history_append _ acts later, fun p hp c hc hi r hr => ?_⟩
    obtain ⟨pre, a, post, -, hpoint⟩ := exists_of_mem_history hp
    obtain ⟨t, ht⟩ := running_of_point hpoint (run_of_returned hc hr pre) hi
    rw [hr] at ht
    cases ht

/-- The calls of two racing submissions take effect one after the other. -/
theorem linearizable_sample :
    (SubmissionSystem.decided {} .oneUser (racingSample ++ [.advance 1])).map Point.call = [0, 1] ∧
      Serial (SubmissionCall.Effect {}) .oneUser
        (SubmissionSystem.decided {} .oneUser (racingSample ++ [.advance 1]))
        (run (SubmissionSystem.step {}) (.start .oneUser) (racingSample ++ [.advance 1])).db :=
  ⟨by decide +kernel, (linearizable {} Db.constrained_oneUser (racingSample ++ [.advance 1])).1.1⟩

end Abrio
