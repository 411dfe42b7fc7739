import Abrio.Library.Locking
import Abrio.Serializability

/-!
# Deadlocks of submissions

An open transaction of a submission holds the keys it has inserted and the balance it has locked,
and a statement of another one that needs them waits. A cycle of waits is a deadlock, which the
database ends by killing somebody.

Only batches ever get into one, while they insert their messages : a single submission holds
nothing when it comes to its key, and who has locked the balance waits for nobody. Where the
batches list their keys in one order there is no cycle. Then some call can go on as long as one
has not returned, and whichever go on, all have returned after as many steps as there were left
(`submissions_progress`).
-/

open Relational Relation Runs Locking

namespace Abrio

open MessageUseCase

/-! ## Waits -/

/-- What an open transaction may hold against others. -/
inductive Lock
  | key (userId : UserId) (key : UUID)
  | balance (userId : UserId)

namespace Call

/-- What the next statement of the call has to get. -/
def wants (c : Call) : Option Lock :=
  match c.state with
  | .running ⟨.insertMessage m :: _, _, _, _⟩ => some (.key m.userId m.idempotencyKey)
  | .running ⟨.reserve _ :: _, _, _, _⟩ => some (.balance c.call.userId)
  | _ => none

/-- What the transaction of the call has got. -/
def Holds (c : Call) (lock : Lock) : Prop :=
  ∃ t, c.state = .running t ∧
    match lock with
    | .key userId key => ∃ m ∈ t.messages, m.userId = userId ∧ m.idempotencyKey = key
    | .balance userId => t.balance.isSome ∧ c.call.userId = userId

/-- A batch in the midst of its inserts. -/
def InsertsBatch (c : Call) : Prop :=
  (∃ payload ids, c.call = .batch payload ids) ∧ ∃ t m todo, c.state = .running t ∧
    t.messages ≠ [] ∧ t.todo = .insertMessage m :: todo

end Call

namespace SubmissionCall

/-- The keys of a submission, in the order of its inserts. -/
def keys : SubmissionCall → List UUID
  | .single payload _ => [payload.idempotencyKey]
  | .batch payload _ => payload.messages.map (·.idempotencyKey)

/-- The keys are listed in the order of their ranks. -/
def Sorted (rank : UUID → ℕ) (c : SubmissionCall) : Prop :=
  c.keys.Pairwise fun k k' => rank k < rank k'

instance (rank : UUID → ℕ) (c : SubmissionCall) : Decidable (c.Sorted rank) :=
  inferInstanceAs (Decidable (List.Pairwise _ _))

theorem keys_eq (s : Settings) (now : Time) (c : SubmissionCall) :
    ((c.submissions now).map (newMessage s)).map (·.idempotencyKey) = c.keys := by
  rw [List.map_map]
  cases c with
  | single payload ids => rfl
  | batch payload ids => exact map_key_batchSubmissions

end SubmissionCall

namespace SubmissionSystem

/-- `c` has to wait for `c'`. -/
structure Waits (sys : SubmissionSystem) (c c' : Call) : Prop where
  mem : c ∈ sys.calls
  mem_other : c' ∈ sys.calls
  ne : c.id ≠ c'.id
  waits : waitsFor c c' = true

/-- The call has not returned, and need not wait. -/
def GoesOn (sys : SubmissionSystem) (id : ℕ) : Prop :=
  ∃ c, sys.calls.find? id = some c ∧ BatchRace.weight c.state ≠ 0 ∧ ∀ c', ¬sys.Waits c c'

/-- How many steps all calls have left, at most. -/
def left (sys : SubmissionSystem) : ℕ :=
  (sys.calls.rows.map fun c => BatchRace.weight c.state).sum

/-- A call goes on. -/
def turn (s : Settings) (sys : SubmissionSystem) (id : ℕ) : SubmissionSystem :=
  sys.step s (.advance id)

end SubmissionSystem

/-! ## What a call wants and holds -/

namespace Running

variable {s : Settings} {db : Db} {c : Call} {t : Open} {done todo : List Stmt} {stmt : Stmt}
  {m : Message}

/-- A call that still inserts messages has not locked the balance. -/
theorem balance_eq_none (h : Running s db c t done) (hr : Ready db c t)
    (ht : t.todo = .insertMessage m :: todo) : t.balance = none := by
  obtain ⟨-, hres, -⟩ := c.call.mem_program s c.now
  have hp := c.call.pairwise_inserts s c.now
  rw [h.program, List.mem_append] at hres
  rw [h.program, List.pairwise_append] at hp
  rcases hres with hres | hres
  · cases hp.2.2 _ hres (.insertMessage m) (by simp [ht]) rfl
  · exact hr.unlocked _ hres

/-- The keys of a sorted call rise with its inserts. -/
theorem rank_lt_of_sorted {rank : UUID → ℕ} (h : Running s db c t done)
    (hsorted : c.call.Sorted rank) (ht : t.todo = .insertMessage m :: todo) {m' : Message}
    (hm' : m' ∈ t.messages) : rank m'.idempotencyKey < rank m.idempotencyKey := by
  have hkeys : (t.messages.map (·.idempotencyKey) ++
      (m :: todo.filterMap Stmt.message?).map (·.idempotencyKey)).Pairwise
        fun k k' => rank k < rank k' := by
    rw [← List.map_append, h.messages_append ht, c.call.keys_eq]
    exact hsorted
  exact (List.pairwise_append.1 hkeys).2.2 _ (List.mem_map_of_mem hm') _ (by simp)

/-- A single submission holds no key when it inserts its message. -/
theorem messages_eq_nil {payload : MessageRequest} {ids : Ids} (h : Running s db c t done)
    (hc : c.call = .single payload ids) (ht : t.todo = .insertMessage m :: todo) :
    t.messages = [] := by
  have hlen := congrArg List.length (h.messages_append ht)
  simp only [hc, SubmissionCall.submissions, List.length_append, List.length_cons, List.length_map,
    List.length_nil] at hlen
  exact List.length_eq_zero_iff.1 (by omega)

theorem jobs_todo (h : Running s db c t done) :
    t.jobs ++ t.todo.flatMap Stmt.jobs = (c.call.submissions c.now).map (newJob s) := by
  rw [h.jobs, ← List.flatMap_append, ← h.program]
  exact c.call.flatMap_program s c.now

end Running

namespace SubmissionSystem

variable {s : Settings} {db₀ : Db} {sys : SubmissionSystem} {ps : List SubmissionPoint}
  {c c' : Call} {rank : UUID → ℕ}

/-- The statements of a running call. -/
theorem Linear.running (h : Linear s db₀ sys ps) (hc : c ∈ sys.calls) {t : Open}
    (ht : c.state = .running t) : (∃ done, Running s sys.db c t done) ∧ Ready sys.db c t := by
  have hcall := h.inv.call c hc
  rw [CallInv, ht] at hcall
  exact ⟨hcall, h.ready c hc t ht⟩

/-- The transactions of a wait. -/
theorem Waits.exists_running (h : sys.Waits c c') : ∃ t t' stmt todo, c.state = .running t ∧
    c'.state = .running t' ∧ t.todo = stmt :: todo ∧
      t'.blocks c'.call.userId c.call.userId stmt = true := by
  have hw := h.waits
  unfold waitsFor at hw
  split at hw
  · rename_i stmt todo ms js bal t' ht ht'
    exact ⟨_, _, stmt, todo, ht, ht', rfl, hw⟩
  · cases hw

/-- Who waits does so for what the other one holds. -/
theorem Waits.waitsFor (hinv : Linear s db₀ sys ps) (h : sys.Waits c c') :
    WaitsFor Call.wants Call.Holds c c' := by
  obtain ⟨t, t', stmt, todo, ht, ht', htodo, hb⟩ := h.exists_running
  obtain ⟨⟨done, hrun⟩, -⟩ := hinv.running h.mem ht
  obtain ⟨⟨done', hrun'⟩, -⟩ := hinv.running h.mem_other ht'
  have hids := hinv.inv.distinct c h.mem c' h.mem_other h.ne
  obtain ⟨_, messages, jobs, balance⟩ := t
  obtain rfl := htodo
  cases stmt with
  | insertMessage m =>
    refine ⟨.key m.userId m.idempotencyKey, by simp only [Call.wants, ht], t', ht', ?_⟩
    simp only [Open.blocks, List.any_eq_true, Bool.or_eq_true, decide_eq_true_eq,
      Db.sameKey_iff] at hb
    obtain ⟨x, hx, hid | hsame⟩ := hb
    · have hm := hrun.messages_append rfl ▸ List.mem_append_right messages List.mem_cons_self
      have hx' := hrun'.messages_todo ▸ List.mem_append_left _ hx
      obtain ⟨sub, hsub, rfl⟩ := List.mem_map.1 hm
      obtain ⟨sub', hsub', rfl⟩ := List.mem_map.1 hx'
      exact absurd hid.symm (hids sub hsub sub' hsub').1
    · exact ⟨x, hx, hsame⟩
  | reserve amount =>
    refine ⟨.balance c.call.userId, by simp only [Call.wants, ht], t', ht', ?_⟩
    simp only [Open.blocks, Bool.and_eq_true, decide_eq_true_eq] at hb
    exact ⟨hb.2, hb.1⟩
  | insertJobs js =>
    obtain ⟨j, hj, hany⟩ := List.any_eq_true.1 hb
    obtain ⟨j', hj', hsame⟩ := List.any_eq_true.1 hany
    obtain ⟨-, rfl⟩ := hrun.jobs_append rfl
    have hj'' := hrun'.jobs_todo ▸ List.mem_append_left _ hj'
    obtain ⟨sub, hsub, rfl⟩ := List.mem_map.1 hj
    obtain ⟨sub', hsub', rfl⟩ := List.mem_map.1 hj''
    obtain ⟨hm, hid⟩ := hids sub hsub sub' hsub'
    rcases Bool.or_eq_true_iff.1 hsame with hid' | hm'
    · exact absurd (of_decide_eq_true hid').symm hid
    · exact absurd (of_decide_eq_true hm').symm hm
  | checkUsers => cases hb
  | writeBalance => cases hb

/-- What a running call wants. -/
theorem exists_of_wants {lock : Lock} (h : c.wants = some lock) : ∃ t stmt todo,
    c.state = .running t ∧ t.todo = stmt :: todo ∧
      ((∃ m, stmt = .insertMessage m ∧ lock = .key m.userId m.idempotencyKey) ∨
        ∃ amount, stmt = .reserve amount ∧ lock = .balance c.call.userId) := by
  unfold Call.wants at h
  split at h
  · rename_i m todo ms js bal ht
    exact ⟨_, _, todo, ht, rfl, Or.inl ⟨m, rfl, (Option.some.inj h).symm⟩⟩
  · rename_i amount todo ms js bal ht
    exact ⟨_, _, todo, ht, rfl, Or.inr ⟨amount, rfl, (Option.some.inj h).symm⟩⟩
  · cases h

/-- Who holds a balance wants nothing. -/
theorem Linear.not_wants (hinv : Linear s db₀ sys ps) (hc : c ∈ sys.calls) {u : UserId}
    (h : c.Holds (.balance u)) : c.wants = none := by
  by_contra hne
  obtain ⟨lock, hlock⟩ := Option.ne_none_iff_exists'.1 hne
  obtain ⟨t', ht', hsome, -⟩ := h
  obtain ⟨t, stmt, todo, ht, htodo, hwants⟩ := exists_of_wants hlock
  obtain rfl : t = t' := CallState.running.inj (ht.symm.trans ht')
  obtain ⟨⟨done, hrun⟩, hready⟩ := hinv.running hc ht
  have hnone : t.balance = none := by
    rcases hwants with ⟨m, rfl, -⟩ | ⟨amount, rfl, -⟩
    · exact hrun.balance_eq_none hready htodo
    · exact hready.unlocked amount (by simp [htodo])
  simp [hnone] at hsome

/-! ## Cycles -/

/-- Everyone in a deadlock is a batch in the midst of its inserts. -/
theorem insertsBatch_of_cycle (hinv : Linear s db₀ sys ps) (h : TransGen sys.Waits c c) :
    c.InsertsBatch := by
  obtain ⟨a, -, hac⟩ := exists_waits_of_cycle h
  obtain ⟨b, hb, hcb⟩ := exists_waited_of_cycle h
  obtain ⟨d, -, hbd⟩ := exists_waited_of_cycle hb
  obtain ⟨lock, hwants, hholds⟩ := hcb.waitsFor hinv
  obtain ⟨t, stmt, todo, ht, htodo, ⟨m, rfl, rfl⟩ | ⟨amount, rfl, rfl⟩⟩ := exists_of_wants hwants
  · obtain ⟨held, -, t', ht', hheld⟩ := hac.waitsFor hinv
    obtain rfl : t = t' := CallState.running.inj (ht.symm.trans ht')
    obtain ⟨⟨done, hrun⟩, hready⟩ := hinv.running hcb.mem ht
    -- a waits for a key of c, who has not locked the balance
    have hne : t.messages ≠ [] := by
      cases held with
      | key u k =>
        obtain ⟨x, hx, -⟩ := hheld
        exact List.ne_nil_of_mem hx
      | balance u =>
        have hsome := hheld.1
        rw [hrun.balance_eq_none hready htodo] at hsome
        cases hsome
    refine ⟨?_, t, m, todo, ht, hne, htodo⟩
    cases hcall : c.call with
    | single payload ids => exact absurd (hrun.messages_eq_nil hcall htodo) hne
    | batch payload ids => exact ⟨payload, ids, rfl⟩
  · -- b holds the balance and waits for nobody
    obtain ⟨r, hr, -⟩ := hbd.waitsFor hinv
    rw [hinv.not_wants hcb.mem_other hholds] at hr
    cases hr

end SubmissionSystem

/-- The balance comes after all keys. -/
def Lock.rank (rank : UUID → ℕ) : Lock → WithTop ℕ
  | .key _ k => WithTop.some (rank k)
  | .balance _ => ⊤

namespace SubmissionSystem

variable {s : Settings} {db₀ : Db} {sys : SubmissionSystem} {ps : List SubmissionPoint}
  {c c' : Call} {rank : UUID → ℕ}

/-- Sorted calls get what they want in the order of the ranks. -/
theorem Linear.ranked (hinv : Linear s db₀ sys ps) (hc : c ∈ sys.calls)
    (hsorted : c.call.Sorted rank) : Ranked (Lock.rank rank) Call.wants Call.Holds c := by
  intro lock hlock held hheld
  cases held with
  | balance u =>
    rw [hinv.not_wants hc hheld] at hlock
    cases hlock
  | key u k =>
    obtain ⟨t', ht', x, hx, -, rfl⟩ := hheld
    obtain ⟨t, stmt, todo, ht, htodo, ⟨m, rfl, rfl⟩ | ⟨amount, rfl, rfl⟩⟩ := exists_of_wants hlock
    · obtain rfl : t = t' := CallState.running.inj (ht.symm.trans ht')
      obtain ⟨⟨done, hrun⟩, -⟩ := hinv.running hc ht
      exact WithTop.coe_lt_coe.2 (hrun.rank_lt_of_sorted hsorted htodo hx)
    · exact WithTop.coe_lt_top _

theorem Linear.acyclic (hinv : Linear s db₀ sys ps)
    (hsorted : ∀ c ∈ sys.calls, c.call.Sorted rank) : Acyclic sys.Waits :=
  acyclic_of_ranked (fun _ _ h => h.waitsFor hinv)
    fun _ c' h => hinv.ranked h.mem_other (hsorted c' h.mem_other)

/-! ## Steps -/

/-- A call that need not wait is not blocked. -/
theorem blocked_eq_false (hc : c ∈ sys.calls) (h : ∀ c', ¬sys.Waits c c') {t : Open} {stmt : Stmt}
    {todo : List Stmt} (ht : c.state = .running t) (htodo : t.todo = stmt :: todo) :
    sys.blocked c stmt = false := by
  rw [blocked, List.any_eq_false]
  intro c' hc' hblocked
  simp only [ne_eq, Bool.and_eq_true, decide_eq_true_eq] at hblocked
  obtain ⟨hne, hb⟩ := hblocked
  refine h c' ⟨hc, hc', fun he => hne he.symm, ?_⟩
  obtain ⟨_, messages, jobs, balance⟩ := t
  obtain rfl := htodo
  unfold waitsFor
  rw [ht]
  split at hb
  · rename_i t' ht'
    rw [ht']
    exact hb
  · cases hb

theorem left_put (hc : c ∈ sys.calls) {db : Db} {state : CallState}
    (h : BatchRace.weight state < BatchRace.weight c.state) :
    left ⟨db, sys.calls.put { c with state }⟩ < sys.left := by
  have hsum : _ + BatchRace.weight c.state = sys.left + BatchRace.weight state :=
    Table.sum_put (fun c : Call => BatchRace.weight c.state) (r := { c with state }) hc rfl
  have hleft : left ⟨db, sys.calls.put { c with state }⟩ =
      ((sys.calls.put { c with state }).rows.map fun c => BatchRace.weight c.state).sum := rfl
  omega

/-- Whoever goes on brings the end nearer. -/
theorem left_turn (s : Settings) {id : ℕ} (h : sys.GoesOn id) :
    (sys.turn s id).left < sys.left := by
  obtain ⟨c, hf, hne, hwaits⟩ := h
  have hc := (Table.find?_eq_some.1 hf).1
  rw [turn, step, hf]
  simp only [advance]
  cases hstate : c.state with
  | returned r => simp [hstate, BatchRace.weight] at hne
  | aborted e =>
    refine left_put hc ?_
    simp [hstate, BatchRace.weight]
  | running t =>
    cases htodo : t.todo with
    | nil =>
      simp only [htodo]
      refine left_put hc ?_
      simp [hstate, BatchRace.weight]
    | cons stmt todo =>
      simp only [htodo, blocked_eq_false hc hwaits hstate htodo, Bool.false_eq_true, if_false]
      cases t.exec sys.db c.call.userId stmt with
      | ok t' =>
        refine left_put hc ?_
        simp [hstate, htodo, BatchRace.weight]
      | error e =>
        refine left_put hc ?_
        simp [hstate, BatchRace.weight]

/-- A step of a call is no new call. -/
theorem exists_call_of_turn {id : ℕ} (hc : c ∈ (sys.turn s id).calls) :
    ∃ c' ∈ sys.calls, c'.call = c.call := by
  have hput : ∀ c₀ ∈ sys.calls, ∀ state, c ∈ sys.calls.put { c₀ with state } →
      ∃ c' ∈ sys.calls, c'.call = c.call := by
    rintro c₀ hc₀ state hmem
    rcases Table.mem_put.1 hmem with ⟨hmem, -⟩ | ⟨rfl, -⟩
    · exact ⟨c, hmem, rfl⟩
    · exact ⟨c₀, hc₀, rfl⟩
  rw [turn, step] at hc
  split at hc
  · rename_i c₀ hf
    have hput := hput c₀ (Table.find?_eq_some.1 hf).1
    unfold advance at hc
    split at hc
    · split at hc
      · exact hput _ hc
      · split_ifs at hc
        · exact ⟨c, hc, rfl⟩
        · split at hc <;> exact hput _ hc
    · exact hput _ hc
    · exact ⟨c, hc, rfl⟩
  · exact ⟨c, hc, rfl⟩

/-- Some call goes on, or all have returned. -/
theorem exists_goesOn (h : Acyclic sys.Waits) : (∃ id, sys.GoesOn id) ∨
    ∀ c ∈ sys.calls, ∃ r, c.state = .returned r := by
  by_cases hall : ∀ c ∈ sys.calls, BatchRace.weight c.state = 0
  · exact Or.inr fun c hc => BatchRace.weight_eq_zero.1 (hall c hc)
  · push Not at hall
    obtain ⟨c, hc, hne⟩ := hall
    have hmem : c ∈ sys.calls.rows.filter fun c => BatchRace.weight c.state ≠ 0 :=
      List.mem_filter.2 ⟨hc, by simpa using hne⟩
    obtain ⟨b, hb, hfree⟩ := exists_free h hmem
    obtain ⟨hb, hbne⟩ := List.mem_filter.1 hb
    refine Or.inl ⟨b.id, b, Table.find?_key hb, by simpa using hbne, fun c' hw => ?_⟩
    -- who is waited for has not returned
    obtain ⟨-, t', -, -, -, ht', -⟩ := hw.exists_running
    refine hfree c' (List.mem_filter.2 ⟨hw.mem_other, ?_⟩) hw
    simp [ht', BatchRace.weight]

/-- Calls of sorted submissions come to an end. -/
theorem progress (s : Settings) {db₀ : Db} (hdb : db₀.Constrained) {rank : UUID → ℕ}
    (ids : List ℕ) :
    ∀ acts, let sys := run (step s) (start db₀) acts
      (∀ c ∈ sys.calls, c.call.Sorted rank) → AllSteps (turn s) GoesOn sys ids →
        let sys' := run (turn s) sys ids
        ids.length + sys'.left ≤ sys.left ∧ Acyclic sys'.Waits ∧
          ((∃ id, sys'.GoesOn id) ∨ ∀ c ∈ sys'.calls, ∃ r, c.state = .returned r) := by
  induction ids with
  | nil =>
    intro acts sys hsorted _
    have hacyclic := (linear_run s hdb acts).acyclic hsorted
    exact ⟨by simp, hacyclic, exists_goesOn hacyclic⟩
  | cons id ids ih =>
    rintro acts sys hsorted ⟨hgoes, hsteps⟩
    have hrun : sys.turn s id = run (step s) (start db₀) (acts ++ [.advance id]) := by
      rw [run_append, run_singleton]
      rfl
    have hlt := left_turn s hgoes
    have hsorted' : ∀ c ∈ (sys.turn s id).calls, c.call.Sorted rank := by
      intro c hc
      obtain ⟨c', hc', heq⟩ := exists_call_of_turn hc
      rw [← heq]
      exact hsorted c' hc'
    rw [hrun] at hsteps hlt hsorted'
    obtain ⟨hle, hacyclic, hend⟩ := ih (acts ++ [.advance id]) hsorted' hsteps
    simp only [run_cons, hrun]
    refine ⟨?_, hacyclic, hend⟩
    rw [List.length_cons]
    omega

end SubmissionSystem

/-- Deadlocks, in every run with any number of submissions. Only batches in the midst of their
inserts get into one. Where all submissions list their keys in one order, there is none; as long
as one has not returned some call goes on, and all return after no more steps than were left. -/
theorem submissions_progress (s : Settings) {db₀ : Db} (hdb : db₀.Constrained)
    (acts : List SubmissionAct) :
    let sys := run (SubmissionSystem.step s) (.start db₀) acts
    (∀ c, TransGen sys.Waits c c → c.InsertsBatch) ∧
      ∀ rank : UUID → ℕ, (∀ c ∈ sys.calls, c.call.Sorted rank) →
        ∀ ids, AllSteps (SubmissionSystem.turn s) SubmissionSystem.GoesOn sys ids →
          let sys' := run (SubmissionSystem.turn s) sys ids
          ids.length + sys'.left ≤ sys.left ∧ Acyclic sys'.Waits ∧
            ((∃ id, sys'.GoesOn id) ∨ ∀ c ∈ sys'.calls, ∃ r, c.state = .returned r) := by
  intro sys
  refine ⟨fun c h => ?_, fun rank hsorted ids hsteps => ?_⟩
  · exact SubmissionSystem.insertsBatch_of_cycle (SubmissionSystem.linear_run s hdb acts) h
  · exact SubmissionSystem.progress s hdb ids acts hsorted hsteps

/-- A batch with the same messages, in the opposite order. -/
def BatchMessageRequest.reversed (payload : BatchMessageRequest) : BatchMessageRequest where
  userId := payload.userId
  messages := payload.messages.reverse
  messages_ne := List.reverse_ne_nil_iff.2 payload.messages_ne

/-- The sample batch and another one. Each inserts its first message, if it need not wait. -/
def twoBatches (payload : BatchMessageRequest) : List SubmissionAct :=
  [.start 0 (.batch .sample fun i => ⟨10 + i, 20 + i⟩) 0,
    .start 1 (.batch payload fun i => ⟨12 + i, 22 + i⟩) 0, .advance 0, .advance 1]

/-- Crossed batches wait for each other, and those in one order do not. -/
theorem submissions_progress_sample :
    (let sys := run (SubmissionSystem.step {}) (.start .oneUser)
        (twoBatches BatchMessageRequest.sample.reversed)
      ∃ c ∈ sys.calls, TransGen sys.Waits c c ∧ c.InsertsBatch) ∧
    Acyclic (run (SubmissionSystem.step {}) (.start .oneUser) (twoBatches .sample)).Waits := by
  refine ⟨?_, ?_⟩
  · intro sys
    have hboth : ∃ c ∈ sys.calls, ∃ c' ∈ sys.calls, c.id ≠ c'.id ∧
        SubmissionSystem.waitsFor c c' = true ∧ SubmissionSystem.waitsFor c' c = true := by
      decide +kernel
    obtain ⟨c, hc, c', hc', hne, hw, hw'⟩ := hboth
    have hcycle : TransGen sys.Waits c c :=
      (TransGen.single ⟨hc, hc', hne, hw⟩).tail ⟨hc', hc, hne.symm, hw'⟩
    have hbatch := (submissions_progress {} Db.constrained_oneUser
      (twoBatches BatchMessageRequest.sample.reversed)).1 c hcycle
    exact ⟨c, hc, hcycle, hbatch⟩
  · exact ((submissions_progress {} Db.constrained_oneUser (twoBatches .sample)).2 id
      (by decide +kernel) [] trivial).2.1

end Abrio
