import Abrio.Consistency
import Abrio.SubmissionOutcomes

/-!
# A batch and its messages one by one

`batch_create_message` accepts a batch exactly when `create_message` accepts its items one
after another, in any order, and the states they end in differ in generated ids and clock
readings only (`batch_eq_singles`). Both sides come down to `Acceptable`, which does not
depend on the order of the requests : one accepted submission followed by others is one
accepted list (`Accepted.cons`), so a sequence of calls commits what a batch commits
(`accepted_of_createEach`, `exists_createEach`).
-/

open Relational Runs

namespace Abrio

namespace MessageUseCase

variable {s : Settings} {db db' : Db} {u : UserId} {sub : Submission} {subs : List Submission}

/-! ## One submission after another -/

theorem FreshIds.head (h : FreshIds db (sub :: subs)) : FreshIds db [sub] :=
  ⟨by simpa using h.message_id sub (by simp), by simpa using h.job_id sub (by simp), by simp,
    by simp⟩

theorem FreshIds.tail {d : Db} (h : FreshIds db (sub :: subs)) (hd : Accepted s u [sub] db d) :
    FreshIds d subs := by
  obtain ⟨hmn, hmns⟩ := List.nodup_cons.1 h.message_ids
  obtain ⟨hjn, hjns⟩ := List.nodup_cons.1 h.job_ids
  refine ⟨fun x hx m hm he => ?_, fun x hx j hj he => ?_, hmns, hjns⟩
  · rcases hd.mem_messages.1 hm with hm | ⟨y, hy, rfl⟩
    · exact h.message_id x (List.mem_cons_of_mem _ hx) m hm he
    · rw [List.mem_singleton.1 hy] at he
      exact hmn (List.mem_map.2 ⟨x, hx, he.symm⟩)
  · rcases hd.mem_jobs.1 hj with hj | ⟨y, hy, rfl⟩
    · exact h.job_id x (List.mem_cons_of_mem _ hx) j hj he
    · rw [List.mem_singleton.1 hy] at he
      exact hjn (List.mem_map.2 ⟨x, hx, he.symm⟩)

section Acceptable

variable {r : MessageRequest} {rs : List MessageRequest}

theorem Acceptable.head (hdb : db.Constrained) (h : Acceptable s db u (r :: rs)) :
    Acceptable s db u [r] := by
  obtain ⟨b, hb, hcon⟩ := h.balance
  have hres := (hdb.balance b (Table.find?_eq_some.1 hb).1).reserved_nonneg
  have hcost : 0 < s.messageCost r.priority := h.cost_pos r (by simp)
  have hrest : 0 ≤ requestsCost s rs := by
    refine List.sum_nonneg fun c hc => ?_
    obtain ⟨x, hx, rfl⟩ := List.mem_map.1 hc
    exact (h.cost_pos x (List.mem_cons_of_mem _ hx)).le
  have hge := hcon.credits_ge_reserved
  rw [show requestsCost s (r :: rs) = s.messageCost r.priority + requestsCost s rs from rfl,
    ← Balance.raised_raised, Balance.raised_reservedCredits] at hge
  refine ⟨by simpa using h.storable r (by simp), by simpa using hcost, by simp,
    by simpa using h.new_key r (by simp), h.user, b, hb, ?_⟩
  rw [show requestsCost s [r] = s.messageCost r.priority by simp [requestsCost]]
  exact ⟨(le_add_of_nonneg_right hrest).trans hge, add_nonneg hres hcost.le, hcon.credits_fits⟩

/-- What is left of an acceptable list is acceptable once its first request is accepted. -/
theorem Acceptable.tail {d : Db} (h : Acceptable s db u (sub.request :: rs))
    (hd : Accepted s u [sub] db d) : Acceptable s d u rs := by
  obtain ⟨hn, hns⟩ := List.nodup_cons.1 h.keys
  obtain ⟨b, hb, hcon⟩ := h.balance
  obtain ⟨b', hb', -, hbal⟩ := hd.balance
  obtain rfl : b' = b := Option.some.inj (hb'.symm.trans hb)
  obtain ⟨hbm, hbu⟩ := Table.find?_eq_some.1 hb
  refine ⟨fun x hx => h.storable x (List.mem_cons_of_mem _ hx),
    fun x hx => h.cost_pos x (List.mem_cons_of_mem _ hx), hns, ?_, ?_,
    b'.raised (submissionCost s sub), ?_, ?_⟩
  · rintro x hx ⟨m, hm, hmu, hmk⟩
    rcases hd.mem_messages.1 hm with hm | ⟨y, hy, rfl⟩
    · exact h.new_key x (List.mem_cons_of_mem _ hx) ⟨m, hm, hmu, hmk⟩
    · rw [List.mem_singleton.1 hy] at hmk
      have hmk : sub.request.idempotencyKey = x.idempotencyKey := hmk
      exact hn (hmk ▸ List.mem_map_of_mem hx)
  · rw [Db.hasUser, hd.users]
    exact h.user
  · rw [hbal, Table.find?_put hbm (Balance.raised_userId _ _).symm]
    simp [hbu]
  · simpa [requestsCost, submissionCost] using hcon

/-- Whether requests are acceptable does not depend on their order. -/
theorem Acceptable.perm {rs' : List MessageRequest} (hp : rs'.Perm rs)
    (h : Acceptable s db u rs) : Acceptable s db u rs' := by
  obtain ⟨b, hb, hcon⟩ := h.balance
  refine ⟨fun r hr => h.storable r (hp.mem_iff.1 hr), fun r hr => h.cost_pos r (hp.mem_iff.1 hr),
    (hp.map _).nodup_iff.2 h.keys, fun r hr => h.new_key r (hp.mem_iff.1 hr), h.user, b, hb, ?_⟩
  rwa [requestsCost, (hp.map _).sum_eq]

end Acceptable

/-- An accepted submission followed by an accepted list is an accepted list. -/
theorem Accepted.cons {d : Db} (hd : Accepted s u [sub] db d) (h : Accepted s u subs d db') :
    Accepted s u (sub :: subs) db db' := by
  obtain ⟨hs, hc, hk, hks, hu⟩ := h.messages_new
  obtain ⟨hjs, hjm, hjms, hjo⟩ := h.jobs_new
  obtain ⟨hs₁, hc₁, hk₁, -, hu₁⟩ := hd.messages_new
  obtain ⟨hjs₁, hjm₁, -, hjo₁⟩ := hd.jobs_new
  obtain ⟨b, hb, hcon, hbal⟩ := h.balance
  obtain ⟨b₁, hb₁, hcon₁, hbal₁⟩ := hd.balance
  have hdm := hd.messages
  have hdj := hd.jobs
  simp only [List.map_singleton, List.mem_singleton, forall_eq] at hs₁ hc₁ hk₁ hu₁ hjs₁ hjm₁ hjo₁
  simp only [List.map_singleton, List.sum_singleton] at hcon₁ hbal₁ hdm hdj
  have holdm : ∀ x ∈ db.messages, x ∈ d.messages := fun x hx => by
    rw [Table.mem_def, hdm]
    exact List.mem_append_left _ hx
  have holdj : ∀ x ∈ db.jobs, x ∈ d.jobs := fun x hx => by
    rw [Table.mem_def, hdj]
    exact List.mem_append_left _ hx
  have hnewm : newMessage s sub ∈ d.messages := by simp [Table.mem_def, hdm]
  have hnewj : newJob s sub ∈ d.jobs := by simp [Table.mem_def, hdj]
  refine ⟨h.users.trans hd.users, ?_, ?_, ⟨?_, ?_, ?_, ?_, ?_⟩, ⟨?_, ?_, ?_, ?_⟩, ?_, b₁, hb₁, ?_⟩
  · rw [h.messages, hdm]
    simp
  · rw [h.jobs, hdj]
    simp
  · exact List.forall_mem_cons.2 ⟨hs₁, hs⟩
  · exact List.forall_mem_cons.2 ⟨hc₁, hc⟩
  · exact List.forall_mem_cons.2 ⟨hk₁, fun m hm x hx => hk m hm x (holdm x hx)⟩
  · exact List.pairwise_cons.2 ⟨fun m hm => hk m hm _ hnewm, hks⟩
  · exact List.forall_mem_cons.2 ⟨hu₁, hd.users ▸ hu⟩
  · exact List.forall_mem_cons.2 ⟨hjs₁, hjs⟩
  · exact List.forall_mem_cons.2 ⟨hjm₁, fun j hj x hx => hjm j hj x (holdj x hx)⟩
  · exact List.pairwise_cons.2 ⟨fun j hj => hjm j hj _ hnewj, hjms⟩
  · refine List.forall_mem_cons.2 ⟨⟨⟨newMessage s sub, ?_, rfl⟩, hjo₁.2⟩, fun j hj => ?_⟩
    · have : newMessage s sub ∈ db'.messages.rows := by
        rw [h.messages]
        exact List.mem_append_left _ hnewm
      exact this
    · have := hjo j hj
      rwa [show ({ d with messages := db'.messages } : Db).users = db.users from hd.users] at this
  · rw [List.map_cons, List.sum_cons]
    exact add_pos hc₁ h.cost_pos
  · obtain ⟨hbm, hbu⟩ := Table.find?_eq_some.1 hb₁
    rw [hbal₁, Table.find?_put hbm (Balance.raised_userId _ _).symm,
      if_pos ((Balance.raised_userId _ _).trans hbu)] at hb
    obtain rfl := Option.some.inj hb
    rw [Balance.raised_raised] at hcon hbal
    rw [List.map_cons, List.sum_cons]
    refine ⟨hcon, ?_⟩
    rw [hbal, hbal₁]
    exact Table.put_put ((Balance.raised_userId _ _).trans (Balance.raised_userId _ _).symm)

/-! ## A sequence of calls -/

/-- `create_message` for each of `subs` in turn : the state after the last call, if every
call returned normally. -/
def createEach (s : Settings) : List Submission → Db → Option Db
  | [], db => some db
  | sub :: subs, db =>
    match createMessage s sub.request sub.ids sub.now db with
    | (db', .ok _) => createEach s subs db'
    | (_, .error _) => none

theorem createEach_cons : createEach s (sub :: subs) db =
    match createMessage s sub.request sub.ids sub.now db with
    | (db', .ok _) => createEach s subs db'
    | (_, .error _) => none :=
  (rfl)

/-- A call for a key that is not taken returns normally when its request is accepted. -/
theorem createMessage_ok_iff (hk : ¬db.hasKey sub.request.userId sub.request.idempotencyKey) :
    (∃ r, createMessage s sub.request sub.ids sub.now db = (db', .ok r)) ↔
      Accepted s sub.request.userId [sub] db db' := by
  constructor
  · rintro ⟨r, h⟩
    unfold createMessage at h
    split at h
    · rename_i htx
      obtain ⟨rfl, -⟩ := Prod.mk.inj h
      exact (createMessageTx_ok.1 htx).2
    · rename_i e htx
      obtain ⟨-, he⟩ := Prod.mk.inj h
      exfalso
      unfold createMessageHandler at he
      split at he
      · obtain ⟨m, hm, -⟩ := bind_eq_ok.1 he
        unfold MessageRepository.getUserMessageByIdempotencyKey at hm
        split at hm
        · cases hm
        · rename_i hf
          exact hk (Db.messageWithKey_isSome.1 ⟨_, hf⟩)
      all_goals cases he
  · intro h
    exact ⟨.created (newMessage s sub), by simp [createMessage, createMessageTx_ok.2 ⟨rfl, h⟩]⟩

/-- Calls one after another for distinct keys that are not taken commit what the list of
their submissions commits. -/
theorem accepted_of_createEach (hu : ∀ sub ∈ subs, sub.request.userId = u) (hne : subs ≠ [])
    (hkeys : (subs.map fun sub => sub.request.idempotencyKey).Nodup)
    (hnew : ∀ sub ∈ subs, ¬db.hasKey u sub.request.idempotencyKey)
    (h : createEach s subs db = some db') : Accepted s u subs db db' := by
  induction subs generalizing db with
  | nil => exact absurd rfl hne
  | cons sub subs ih =>
    obtain ⟨hn, hns⟩ := List.nodup_cons.1 hkeys
    obtain ⟨hu₁, hus⟩ := List.forall_mem_cons.1 hu
    obtain ⟨hk, hks⟩ := List.forall_mem_cons.1 hnew
    rw [createEach_cons] at h
    split at h
    · rename_i d r hd
      have hacc := (createMessage_ok_iff (hu₁ ▸ hk)).1 ⟨r, hd⟩
      rw [hu₁] at hacc
      cases subs with
      | nil =>
        obtain rfl := Option.some.inj h
        exact hacc
      | cons sub' subs =>
        refine hacc.cons (ih hus (by simp) hns (fun x hx => ?_) h)
        rintro ⟨m, hm, hmu, hmk⟩
        rcases hacc.mem_messages.1 hm with hm | ⟨y, hy, rfl⟩
        · exact hks x hx ⟨m, hm, hmu, hmk⟩
        · rw [List.mem_singleton.1 hy] at hmk
          exact hn (List.mem_map.2 ⟨x, hx, hmk.symm⟩)
    · cases h

/-- Acceptable requests are accepted one after another. -/
theorem exists_createEach (hdb : db.Constrained) (hf : FreshIds db subs)
    (hu : ∀ sub ∈ subs, sub.request.userId = u)
    (h : Acceptable s db u (subs.map Submission.request)) :
    ∃ db', createEach s subs db = some db' := by
  induction subs generalizing db with
  | nil => exact ⟨db, rfl⟩
  | cons sub subs ih =>
    obtain ⟨hu₁, hus⟩ := List.forall_mem_cons.1 hu
    obtain ⟨d, hd⟩ := (exists_accepted_iff hdb hf.head (by simpa using hu₁) (by simp)).2
      (h.head hdb)
    have hk := h.new_key sub.request (by simp)
    rw [← hu₁] at hd hk
    obtain ⟨r, hr⟩ := (createMessage_ok_iff hk).2 hd
    rw [hu₁] at hd
    rw [createEach_cons, hr]
    exact ih (hd.constrained hdb) (hf.tail hd) hus (h.tail hd)

/-! ## The equivalence -/

end MessageUseCase

/-- A message but for its id and its clock readings. -/
def Message.erased (m : Message) : Message :=
  { m with id := 0, createdAt := 0, updatedAt := 0 }

/-- A job but for its ids and the clock readings of its insert. -/
def DispatchJob.erased (j : DispatchJob) : DispatchJob :=
  { j with
    id := 0
    messageId := 0
    payload := { j.payload with messageId := 0 }
    availableAt := 0
    createdAt := 0
    updatedAt := 0 }

/-- The messages with their jobs, but for ids and clock readings. -/
def Db.erased (db : Db) : List (Message × List DispatchJob) :=
  db.messages.rows.map fun m =>
    (m.erased, (db.jobs.rows.filter fun j => j.messageId = m.id).map DispatchJob.erased)

/-- Two states that differ in ids and clock readings of their messages and jobs only. -/
structure SameUpToIds (db db' : Db) : Prop where
  users : db.users = db'.users
  balances : db.balances = db'.balances
  messages : db.erased.Perm db'.erased
  jobs : (db.jobs.rows.map DispatchJob.erased).Perm (db'.jobs.rows.map DispatchJob.erased)

namespace MessageUseCase

variable {s : Settings} {db db₁ db₂ : Db} {u : UserId} {subs subs' : List Submission}

/-- What a new message and its job say, but for ids and clock readings. -/
def erasedRequest (s : Settings) (r : MessageRequest) : Message × List DispatchJob :=
  ((newMessage s ⟨r, ⟨0, 0⟩, 0⟩).erased, [(newJob s ⟨r, ⟨0, 0⟩, 0⟩).erased])

/-- The jobs of an old message are the old ones, and a new message has its own. -/
theorem Accepted.erased (hdb : db.Constrained) (h : Accepted s u subs db db₁) :
    db₁.erased = db.erased ++ (subs.map Submission.request).map (erasedRequest s) := by
  have hn := db₁.messages.nodup
  rw [h.messages, List.map_append, List.nodup_append] at hn
  rw [Db.erased, h.messages, h.jobs, List.map_append, List.map_map, List.map_map]
  congr 1
  · refine List.map_congr_left fun m hm => ?_
    have hnone : (subs.map (newJob s)).filter (fun j => j.messageId = m.id) = [] := by
      refine List.filter_eq_nil_iff.2 fun j hj => ?_
      obtain ⟨sub, hsub, rfl⟩ := List.mem_map.1 hj
      have hne := hn.2.2 m.id (List.mem_map_of_mem hm) sub.ids.messageId
        (List.mem_map.2 ⟨newMessage s sub, List.mem_map_of_mem hsub, rfl⟩)
      exact Bool.not_eq_true _ ▸ decide_eq_false (Ne.symm hne)
    rw [List.filter_append, List.map_append, hnone, List.map_nil, List.append_nil]
  · refine List.map_congr_left fun sub hsub => ?_
    have hnone : db.jobs.rows.filter (fun j => j.messageId = sub.ids.messageId) = [] := by
      refine List.filter_eq_nil_iff.2 fun j hj => ?_
      obtain ⟨m, hm, hi⟩ := hdb.job_message j hj
      have hne := hn.2.2 m.id (List.mem_map_of_mem hm) sub.ids.messageId
        (List.mem_map.2 ⟨newMessage s sub, List.mem_map_of_mem hsub, rfl⟩)
      simpa [← hi] using hne
    have hone : (subs.map (newJob s)).filter (fun j => j.messageId = sub.ids.messageId) =
        [newJob s sub] := by
      have hids : (subs.map fun sub => sub.ids.messageId).Nodup := by
        simpa [List.map_map, Function.comp_def, newMessage, MessageRepository.createMessage]
          using hn.2.1
      rw [List.filter_map]
      exact congrArg (List.map (newJob s)) (filter_key_eq hids hsub)
    have hjobs : (db.jobs.rows ++ subs.map (newJob s)).filter
        (fun j => j.messageId = (newMessage s sub).id) = [newJob s sub] := by
      rw [List.filter_append]
      exact congrArg₂ (· ++ ·) hnone hone
    simp only [Function.comp_apply, hjobs]
    rfl

/-- Lists of the same requests, in any order, lead to states that differ in ids and clock
readings only. -/
theorem Accepted.sameUpToIds (hdb : db.Constrained)
    (hp : (subs'.map Submission.request).Perm (subs.map Submission.request))
    (h₁ : Accepted s u subs db db₁) (h₂ : Accepted s u subs' db db₂) : SameUpToIds db₁ db₂ := by
  obtain ⟨b, hb, -, hbal⟩ := h₁.balance
  obtain ⟨b', hb', -, hbal'⟩ := h₂.balance
  obtain rfl : b' = b := Option.some.inj (hb'.symm.trans hb)
  have hsum : (subs'.map (submissionCost s)).sum = (subs.map (submissionCost s)).sum := by
    rw [sum_submissionCost, sum_submissionCost, requestsCost, requestsCost, (hp.map _).sum_eq]
  refine ⟨h₁.users.trans h₂.users.symm, ?_, ?_, ?_⟩
  · rw [hbal, hbal', hsum]
  · rw [h₁.erased hdb, h₂.erased hdb]
    exact (hp.symm.map _).append_left _
  · have hnew : ∀ l : List Submission, (l.map (newJob s)).map DispatchJob.erased =
        (l.map Submission.request).map fun r => (newJob s ⟨r, ⟨0, 0⟩, 0⟩).erased := fun l => by
      rw [List.map_map, List.map_map]
      rfl
    rw [h₁.jobs, h₂.jobs, List.map_append, List.map_append, hnew, hnew]
    exact (hp.symm.map _).append_left _

/-- A batch with distinct keys returns normally when its submissions are accepted. -/
theorem batchCreateMessage_ok_iff {payload : BatchMessageRequest} {ids : ℕ → Ids} {now : Time}
    (hkeys : (payload.messages.map (·.idempotencyKey)).Nodup) :
    (∃ ms, batchCreateMessage s payload ids now db = (db₁, .ok ms)) ↔
      Accepted s payload.userId (batchSubmissions payload ids now) db db₁ := by
  rw [batchCreateMessage_of_nodup hkeys]
  constructor
  · rintro ⟨ms, h⟩
    split at h
    · rename_i htx
      obtain ⟨rfl, -⟩ := Prod.mk.inj h
      exact (batchCreateMessageTx_ok.1 htx).2
    · cases h
  · intro h
    exact ⟨(batchSubmissions payload ids now).map (newMessage s),
      by rw [batchCreateMessageTx_ok.2 ⟨rfl, h⟩]⟩

/-- A batch of new keys is accepted exactly when its messages are accepted one by one, in
whatever order, and then both lead to the same state but for ids and clock readings. -/
theorem batch_eq_singles (s : Settings) (db : Db) (payload : BatchMessageRequest)
    (ids : ℕ → Ids) (now : Time) (singles : List Submission) (hdb : db.Constrained)
    (hperm : (singles.map Submission.request).Perm
      (payload.messages.map (·.toRequest payload.userId)))
    (hkeys : (payload.messages.map (·.idempotencyKey)).Nodup)
    (hnew : ∀ item ∈ payload.messages, ¬db.hasKey payload.userId item.idempotencyKey)
    (hbatch : FreshIds db (batchSubmissions payload ids now)) (hsingles : FreshIds db singles) :
    ((∃ db₁ ms, batchCreateMessage s payload ids now db = (db₁, .ok ms)) ↔
      ∃ db₂, createEach s singles db = some db₂) ∧
    ∀ db₁ ms db₂, batchCreateMessage s payload ids now db = (db₁, .ok ms) →
      createEach s singles db = some db₂ → SameUpToIds db₁ db₂ := by
  have hreq := map_request_batchSubmissions payload ids now
  have hub : ∀ sub ∈ batchSubmissions payload ids now, sub.request.userId = payload.userId :=
    fun _ => user_of_mem_batchSubmissions
  have hus : ∀ sub ∈ singles, sub.request.userId = payload.userId := by
    intro sub hsub
    have hr := hperm.mem_iff.1 (List.mem_map_of_mem hsub)
    obtain ⟨item, -, hi⟩ := List.mem_map.1 hr
    rw [← hi]
    rfl
  have hneb := batchSubmissions_ne payload ids now
  have hnes : singles ≠ [] := by
    rintro rfl
    exact payload.messages_ne (by simpa using hperm.symm.eq_nil)
  have hsingles_acc : ∀ db₂, createEach s singles db = some db₂ →
      Accepted s payload.userId singles db db₂ := by
    intro db₂ h
    have hk : (singles.map fun sub => sub.request.idempotencyKey).Perm
        (payload.messages.map (·.idempotencyKey)) := by
      have := hperm.map MessageRequest.idempotencyKey
      rwa [List.map_map, List.map_map] at this
    refine accepted_of_createEach hus hnes (hk.nodup_iff.2 hkeys) (fun sub hsub => ?_) h
    obtain ⟨item, hitem, hi⟩ := List.mem_map.1 (hk.mem_iff.1 (List.mem_map_of_mem hsub))
    rw [← hi]
    exact hnew item hitem
  refine ⟨⟨?_, ?_⟩, fun db₁ ms db₂ h₁ h₂ => ?_⟩
  · rintro ⟨db₁, ms, h⟩
    have hacc := (exists_accepted_iff hdb hbatch hub hneb).1
      ⟨db₁, (batchCreateMessage_ok_iff hkeys).1 ⟨ms, h⟩⟩
    rw [hreq] at hacc
    exact exists_createEach hdb hsingles hus (hacc.perm hperm)
  · rintro ⟨db₂, h⟩
    have hacc := (exists_accepted_iff hdb hsingles hus hnes).1 ⟨db₂, hsingles_acc db₂ h⟩
    have hacc' := hacc.perm hperm.symm
    rw [← hreq] at hacc'
    obtain ⟨db₁, h₁⟩ := (exists_accepted_iff hdb hbatch hub hneb).2 hacc'
    exact ⟨db₁, (batchCreateMessage_ok_iff hkeys).2 h₁⟩
  · rw [← hreq] at hperm
    exact ((batchCreateMessage_ok_iff hkeys).1 ⟨ms, h₁⟩).sameUpToIds hdb hperm
      (hsingles_acc db₂ h₂)

/-- The messages of the sample batch, the second one first. -/
def singlesSample : List Submission :=
  [⟨⟨1, "09121234567", "again", .express, 8⟩, ⟨30, 40⟩, 5⟩,
    ⟨⟨1, "09121234567", "hello", .normal, 7⟩, ⟨31, 41⟩, 6⟩]

theorem batch_eq_singles_sample :
    (∃ db₁ ms, batchCreateMessage {} .sample (fun i => ⟨10 + i, 20 + i⟩) 0 Db.oneUser =
        (db₁, .ok ms)) ↔ ∃ db₂, createEach {} singlesSample Db.oneUser = some db₂ :=
  (batch_eq_singles {} Db.oneUser .sample (fun i => ⟨10 + i, 20 + i⟩) 0 singlesSample
    Db.constrained_oneUser (List.Perm.swap _ _ _) (by decide) (by simp [Db.oneUser, Db.hasKey])
    (freshIds_oneUser (by decide) (by decide)) (freshIds_oneUser (by decide) (by decide))).1

end MessageUseCase

end Abrio
