import Abrio.Library.Run
import Mathlib.Algebra.BigOperators.Group.List.Basic
import Mathlib.Data.Fintype.EquivFin
import Mathlib.Data.List.Nodup
import Mathlib.Tactic.Abel

/-!
# Tables with a primary key

A table is a list of rows whose keys are pairwise distinct. `insert` refuses a key that
is there already, `updateWhere` is an `UPDATE … SET … WHERE` that keeps keys, and `put`
writes one row over the row with its key. The row with a key is unique (`eq_of_key_eq`),
so `find?` and membership say the same (`find?_eq_some`), and a sum over the rows changes
by one row's difference when one row is written (`sum_put`). `insertRow` is one row of an
`INSERT` with its checks and unique indexes, and `foldlM_insertRow_ok` says when a list of
rows goes in.
-/

namespace Relational

variable {ρ κ : Type*} {key : ρ → κ}

/-- Among rows with distinct keys one row has the key of `r`. -/
theorem filter_key_eq [DecidableEq κ] {l : List ρ} (hn : (l.map key).Nodup) {r : ρ} (hr : r ∈ l) :
    (l.filter fun x => key x = key r) = [r] := by
  induction l with
  | nil => simp at hr
  | cons x l ih =>
    obtain ⟨hx, hl⟩ := List.nodup_cons.1 hn
    rcases List.mem_cons.1 hr with rfl | hr
    · have hnone : (l.filter fun x => key x = key r) = [] :=
        List.filter_eq_nil_iff.2 fun y hy => by
          simpa using fun he : key y = key r => hx (he ▸ List.mem_map_of_mem hy)
      simp [hnone]
    · have hne : key x ≠ key r := fun he => hx (he ▸ List.mem_map_of_mem hr)
      simp [hne, ih hl hr]

/-- A map that gives no entry a property and takes it from one leaves fewer with it. -/
theorem countP_map_lt {l : List ρ} {f : ρ → ρ} {q : ρ → Bool}
    (hf : ∀ r ∈ l, q (f r) = true → q r = true) {r : ρ} (hr : r ∈ l) (hq : q r = true)
    (hn : q (f r) = false) : (l.map f).countP q < l.countP q := by
  obtain ⟨l₁, l₂, rfl⟩ := List.append_of_mem hr
  have h₁ : l₁.countP (q ∘ f) ≤ l₁.countP q :=
    List.countP_mono_left fun x hx => hf x (List.mem_append_left _ hx)
  have h₂ : l₂.countP (q ∘ f) ≤ l₂.countP q :=
    List.countP_mono_left fun x hx => hf x (by simp [hx])
  rw [List.countP_map, List.countP_append, List.countP_append, List.countP_cons,
    List.countP_cons, Function.comp_apply, if_neg (by simp [hn]), if_pos hq]
  omega

/-- Rows with pairwise distinct keys. -/
@[ext]
structure Table (key : ρ → κ) where
  rows : List ρ
  nodup : (rows.map key).Nodup

namespace Table

instance : Membership ρ (Table key) :=
  ⟨fun t r => r ∈ t.rows⟩

theorem mem_def {t : Table key} {r : ρ} : r ∈ t ↔ r ∈ t.rows :=
  Iff.rfl

/-- The table with no rows. -/
def empty : Table key :=
  ⟨[], List.nodup_nil⟩

@[simp] theorem not_mem_empty (r : ρ) : r ∉ (empty : Table key) :=
  List.not_mem_nil

theorem eq_of_key_eq {t : Table key} {r r' : ρ} (h : r ∈ t) (h' : r' ∈ t)
    (hk : key r = key r') : r = r' :=
  List.inj_on_of_nodup_map t.nodup h h' hk

/-- A count of rows is no more than another one, where each row counted has one of its key there. -/
theorem countP_le_countP {t t' : Table key} {q q' : ρ → Bool}
    (h : ∀ r ∈ t, q r = true → ∃ r' ∈ t', key r' = key r ∧ q' r' = true) :
    t.rows.countP q ≤ t'.rows.countP q' := by
  have hkeys (rs : List ρ) : (rs.map key).length = rs.length := List.length_map key
  rw [List.countP_eq_length_filter, List.countP_eq_length_filter, ← hkeys (t.rows.filter q),
    ← hkeys (t'.rows.filter q')]
  refine ((t.nodup.sublist (List.filter_sublist.map key)).subperm fun k hk => ?_).length_le
  obtain ⟨r, hr, rfl⟩ := List.mem_map.1 hk
  obtain ⟨hmem, hq⟩ := List.mem_filter.1 hr
  obtain ⟨r', hmem', hk', hq'⟩ := h r hmem hq
  exact List.mem_map.2 ⟨r', List.mem_filter.2 ⟨hmem', hq'⟩, hk'⟩

/-- `UPDATE … SET f WHERE p`, for an `f` that keeps the keys of the rows it changes. -/
def updateWhere (t : Table key) (p : ρ → Bool) (f : ρ → ρ)
    (hf : ∀ r, p r = true → key (f r) = key r) : Table key where
  rows := t.rows.map fun r => if p r then f r else r
  nodup := by
    have h : (t.rows.map fun r => if p r then f r else r).map key = t.rows.map key := by
      rw [List.map_map]
      refine List.map_congr_left fun r _ => ?_
      by_cases hp : p r = true <;> simp [hp, hf]
    rw [h]
    exact t.nodup

theorem mem_updateWhere {t : Table key} {p : ρ → Bool} {f : ρ → ρ}
    {hf : ∀ r, p r = true → key (f r) = key r} {r' : ρ} :
    r' ∈ t.updateWhere p f hf ↔ ∃ r ∈ t, (if p r then f r else r) = r' := by
  simp [mem_def, updateWhere, List.mem_map]

theorem map_key_updateWhere (t : Table key) {β : Type*} (g : ρ → β) {p : ρ → Bool} {f : ρ → ρ}
    {hf : ∀ r, p r = true → key (f r) = key r} (hg : ∀ r, p r = true → g (f r) = g r) :
    (t.updateWhere p f hf).rows.map g = t.rows.map g := by
  rw [updateWhere, List.map_map]
  refine List.map_congr_left fun r _ => ?_
  by_cases hp : p r = true <;> simp [hp, hg]

variable [DecidableEq κ]

/-- The row with key `k`. -/
def find? (t : Table key) (k : κ) : Option ρ :=
  t.rows.find? fun r => key r = k

theorem find?_eq_some {t : Table key} {k : κ} {r : ρ} :
    t.find? k = some r ↔ r ∈ t ∧ key r = k := by
  constructor
  · intro h
    exact ⟨List.mem_of_find?_eq_some h, by simpa using List.find?_some h⟩
  · rintro ⟨hr, rfl⟩
    unfold find?
    cases h : t.rows.find? fun r' => key r' = key r with
    | none => exact absurd (List.find?_eq_none.1 h r hr) (by simp)
    | some r' =>
      have hk : key r' = key r := by simpa using List.find?_some h
      rw [eq_of_key_eq (List.mem_of_find?_eq_some h) hr hk]

theorem find?_key {t : Table key} {r : ρ} (h : r ∈ t) : t.find? (key r) = some r :=
  find?_eq_some.2 ⟨h, rfl⟩

theorem find?_eq_none {t : Table key} {k : κ} : t.find? k = none ↔ ∀ r ∈ t, key r ≠ k := by
  simp [find?, List.find?_eq_none, mem_def]

@[simp] theorem find?_empty (k : κ) : (empty : Table key).find? k = none :=
  rfl

/-- A new row, refused when its key is taken. -/
def insert (t : Table key) (r : ρ) : Option (Table key) :=
  if h : key r ∈ t.rows.map key then none
  else some
    { rows := t.rows ++ [r]
      nodup := by
        rw [List.map_append, List.map_singleton]
        exact t.nodup.append (List.nodup_singleton _) (by simpa using h) }

theorem insert_eq_none {t : Table key} {r : ρ} :
    t.insert r = none ↔ ∃ r' ∈ t, key r' = key r := by
  unfold insert
  split_ifs with h
  · simpa [mem_def] using h
  · simpa [mem_def] using h

theorem rows_insert {t t' : Table key} {r : ρ} (h : t.insert r = some t') :
    t'.rows = t.rows ++ [r] := by
  unfold insert at h
  split_ifs at h
  obtain rfl := Option.some.inj h
  rfl

theorem mem_insert {t t' : Table key} {r x : ρ} (h : t.insert r = some t') :
    x ∈ t' ↔ x ∈ t ∨ x = r := by
  rw [mem_def, rows_insert h, List.mem_append, List.mem_singleton, mem_def]

theorem key_ne_of_insert {t t' : Table key} {r x : ρ} (h : t.insert r = some t') (hx : x ∈ t) :
    key x ≠ key r := by
  intro hk
  rw [insert_eq_none.2 ⟨x, hx, hk⟩] at h
  cases h

theorem exists_insert {t : Table key} {r : ρ} (h : ∀ x ∈ t, key x ≠ key r) :
    ∃ t', t.insert r = some t' := by
  cases hi : t.insert r with
  | some t' => exact ⟨t', rfl⟩
  | none =>
    obtain ⟨x, hx, hk⟩ := insert_eq_none.1 hi
    exact absurd hk (h x hx)

/-- Infinitely many keys are never all taken. -/
theorem exists_fresh [Infinite κ] (t : Table key) : ∃ k, ∀ r ∈ t, key r ≠ k := by
  obtain ⟨k, hk⟩ := Infinite.exists_notMem_finset (t.rows.map key).toFinset
  exact ⟨k, fun r hr he => hk (List.mem_toFinset.2 (he ▸ List.mem_map_of_mem hr))⟩

/-- The rows `rs` at the end, if their keys leave all keys distinct. -/
def append? (t : Table key) (rs : List ρ) : Option (Table key) :=
  if h : ((t.rows ++ rs).map key).Nodup then some ⟨t.rows ++ rs, h⟩ else none

theorem append?_eq_some {t t' : Table key} {rs : List ρ} :
    t.append? rs = some t' ↔ t'.rows = t.rows ++ rs := by
  unfold append?
  constructor
  · intro h
    split_ifs at h
    obtain rfl := Option.some.inj h
    rfl
  · intro h
    rw [dif_pos (h ▸ t'.nodup)]
    exact congrArg some (Table.ext h.symm)

/-- The row `r` written over the row with its key. -/
def put (t : Table key) (r : ρ) : Table key :=
  t.updateWhere (fun x => key x = key r) (fun _ => r) fun _ hx => (of_decide_eq_true hx).symm

theorem mem_put {t : Table key} {r x : ρ} :
    x ∈ t.put r ↔ (x ∈ t ∧ key x ≠ key r) ∨ (x = r ∧ ∃ y ∈ t, key y = key r) := by
  rw [put, mem_updateWhere]
  constructor
  · rintro ⟨y, hy, rfl⟩
    by_cases hk : key y = key r
    · exact Or.inr ⟨by simp [hk], y, hy, hk⟩
    · simpa [hk] using Or.inl hy
  · rintro (⟨hx, hk⟩ | ⟨rfl, y, hy, hk⟩)
    · exact ⟨x, hx, by simp [hk]⟩
    · exact ⟨y, hy, by simp [hk]⟩

theorem mem_put_self {t : Table key} {r y : ρ} (hy : y ∈ t) (hk : key y = key r) : r ∈ t.put r :=
  mem_put.2 (Or.inr ⟨rfl, y, hy, hk⟩)

/-- Writing a row that is there changes nothing. -/
theorem put_of_mem {t : Table key} {r : ρ} (hr : r ∈ t) : t.put r = t := by
  refine Table.ext ((List.map_congr_left fun x hx => ?_).trans (List.map_id _))
  by_cases h : key x = key r
  · simp [eq_of_key_eq hx hr h]
  · simp [h]

theorem mem_put_of_ne {t : Table key} {r x : ρ} (hx : x ∈ t) (hk : key x ≠ key r) : x ∈ t.put r :=
  mem_put.2 (Or.inl ⟨hx, hk⟩)

theorem forall_mem_put {t : Table key} {r : ρ} {P : ρ → Prop} (ht : ∀ x ∈ t, P x) (hr : P r) :
    ∀ x ∈ t.put r, P x := by
  intro x hx
  rcases mem_put.1 hx with ⟨hx, -⟩ | ⟨rfl, -⟩
  · exact ht x hx
  · exact hr

/-- A key that was there is still there. -/
theorem exists_mem_put {t : Table key} {x : ρ} (hx : x ∈ t) (r : ρ) :
    ∃ y ∈ t.put r, key y = key x := by
  by_cases hk : key x = key r
  · exact ⟨r, mem_put_self hx hk, hk.symm⟩
  · exact ⟨x, mem_put_of_ne hx hk, rfl⟩

theorem map_put {t : Table key} {r y : ρ} {β : Type*} (g : ρ → β) (hy : y ∈ t)
    (hk : key y = key r) (hg : g y = g r) : (t.put r).rows.map g = t.rows.map g := by
  rw [put, updateWhere, List.map_map]
  refine List.map_congr_left fun x hx => ?_
  by_cases hxr : key x = key r
  · obtain rfl := eq_of_key_eq hx hy (hxr.trans hk.symm)
    simp [hk, hg]
  · simp [hxr]

theorem find?_put {t : Table key} {r y : ρ} (hy : y ∈ t) (hk : key y = key r) (k : κ) :
    (t.put r).find? k = if key r = k then some r else t.find? k := by
  split_ifs with h
  · exact find?_eq_some.2 ⟨mem_put_self hy hk, h⟩
  · cases hf : t.find? k with
    | some x =>
      obtain ⟨hx, rfl⟩ := find?_eq_some.1 hf
      exact find?_key (mem_put_of_ne hx (Ne.symm h))
    | none =>
      rw [find?_eq_none] at hf ⊢
      intro x hx
      rcases mem_put.1 hx with ⟨hx, -⟩ | ⟨rfl, -⟩
      · exact hf x hx
      · exact h

/-- The second of two writes over one row stays. -/
theorem put_put {t : Table key} {r r' : ρ} (hk : key r = key r') : (t.put r).put r' = t.put r' := by
  refine Table.ext ?_
  simp only [put, updateWhere, List.map_map]
  refine List.map_congr_left fun x _ => ?_
  by_cases hx : key x = key r'
  · simp [hk, hx]
  · simp [hk, hx]

theorem find?_updateWhere {t : Table key} {p : ρ → Bool} {f : ρ → ρ}
    {hf : ∀ r, p r = true → key (f r) = key r} (k : κ) :
    (t.updateWhere p f hf).find? k = (t.find? k).map fun r => if p r then f r else r := by
  cases h : t.find? k with
  | some r =>
    obtain ⟨hr, rfl⟩ := find?_eq_some.1 h
    refine find?_eq_some.2 ⟨mem_updateWhere.2 ⟨r, hr, rfl⟩, ?_⟩
    by_cases hp : p r = true <;> simp [hp, hf]
  | none =>
    rw [find?_eq_none] at h
    refine find?_eq_none.2 fun x hx => ?_
    obtain ⟨r, hr, rfl⟩ := mem_updateWhere.1 hx
    by_cases hp : p r = true
    · simpa [hp, hf r hp] using h r hr
    · simpa [hp] using h r hr

theorem find?_insert {t t' : Table key} {r : ρ} (h : t.insert r = some t') (k : κ) :
    t'.find? k = if key r = k then some r else t.find? k := by
  rw [find?, rows_insert h, List.find?_append]
  by_cases hk : key r = k
  · have hn : t.find? k = none := find?_eq_none.2 fun x hx => hk ▸ key_ne_of_insert h hx
    rw [find?] at hn
    simp [hn, hk]
  · simp [hk, find?]

/-- The table without the row with key `k`. -/
def erase (t : Table key) (k : κ) : Table key where
  rows := t.rows.filter fun r => key r ≠ k
  nodup := t.nodup.sublist (List.filter_sublist.map key)

theorem mem_erase {t : Table key} {k : κ} {r : ρ} : r ∈ t.erase k ↔ r ∈ t ∧ key r ≠ k := by
  rw [mem_def, mem_def, erase, List.mem_filter, decide_eq_true_eq]

@[simp] theorem find?_erase_self (t : Table key) (k : κ) : (t.erase k).find? k = none :=
  find?_eq_none.2 fun _ hr => (mem_erase.1 hr).2

theorem find?_erase_of_ne (t : Table key) {k k' : κ} (h : k' ≠ k) :
    (t.erase k').find? k = t.find? k := by
  cases hf : t.find? k with
  | some r =>
    obtain ⟨hr, rfl⟩ := find?_eq_some.1 hf
    exact find?_key (mem_erase.2 ⟨hr, h.symm⟩)
  | none =>
    rw [find?_eq_none] at hf ⊢
    exact fun r hr => hf r (mem_erase.1 hr).1

/-! ## Inserting rows one after another -/

section InsertRow

variable {ε : Type*} (check : ρ → Except ε Unit) (pkey : ε) (same : ρ → ρ → Bool) (unique : ε)

/-- One row of an `INSERT` : its own checks, then the primary key, then a further unique
index, in which two rows clash when they are `same`. -/
def insertRow (t : Table key) (r : ρ) : Except ε (Table key) :=
  match check r with
  | .error e => .error e
  | .ok () =>
    match t.insert r with
    | none => .error pkey
    | some t' => if t.rows.any fun x => same x r then .error unique else .ok t'

variable {check pkey same unique}

theorem insertRow_ok {t t' : Table key} {r : ρ} :
    t.insertRow check pkey same unique r = .ok t' ↔
      check r = .ok () ∧ (∀ x ∈ t, same x r = false) ∧ t'.rows = t.rows ++ [r] := by
  constructor
  · intro h
    unfold insertRow at h
    cases hc : check r with
    | error e => simp [hc] at h
    | ok u =>
      cases hi : t.insert r with
      | none => simp [hc, hi] at h
      | some t₁ =>
        simp only [hc, hi] at h
        split_ifs at h with hs
        obtain rfl := Except.ok.inj h
        exact ⟨rfl, by simpa [mem_def] using hs, rows_insert hi⟩
  · rintro ⟨hc, hs, ht⟩
    have hn := t'.nodup
    rw [ht, List.map_append, List.nodup_append] at hn
    obtain ⟨t₁, hi⟩ : ∃ t₁, t.insert r = some t₁ :=
      exists_insert fun x hx => hn.2.2 _ (List.mem_map_of_mem hx) _ (by simp)
    have hany : ¬(t.rows.any fun x => same x r) = true := by simpa [mem_def] using hs
    rw [insertRow, hc, hi]
    simp only [hany]
    exact congrArg Except.ok (Table.ext ((rows_insert hi).trans ht.symm))

/-- Rows go in one after another when each passes its checks and no two of the old and new
rows clash; they are then appended. -/
theorem foldlM_insertRow_ok {rs : List ρ} {t t' : Table key} :
    rs.foldlM (insertRow check pkey same unique) t = .ok t' ↔
      (∀ r ∈ rs, check r = .ok ()) ∧ (∀ r ∈ rs, ∀ x ∈ t, same x r = false) ∧
        rs.Pairwise (fun a b => same a b = false) ∧ t'.rows = t.rows ++ rs := by
  induction rs generalizing t with
  | nil =>
    simp only [List.foldlM_nil, pure, Except.pure, Except.ok.injEq, List.append_nil]
    constructor
    · rintro rfl
      simp
    · exact fun h => (Table.ext h.2.2.2).symm
  | cons r rs ih =>
    rw [List.foldlM_cons, Runs.bind_eq_ok]
    constructor
    · rintro ⟨t₁, h₁, h⟩
      obtain ⟨hc, hs, hr⟩ := insertRow_ok.1 h₁
      obtain ⟨hcs, hss, hp, ht⟩ := ih.1 h
      simp only [mem_def, hr, List.mem_append, List.mem_singleton] at hss
      refine ⟨List.forall_mem_cons.2 ⟨hc, hcs⟩, List.forall_mem_cons.2 ⟨hs, ?_⟩,
        List.pairwise_cons.2 ⟨?_, hp⟩, by rw [ht, hr, List.append_assoc, List.singleton_append]⟩
      · exact fun a ha x hx => hss a ha x (Or.inl hx)
      · exact fun a ha => hss a ha r (Or.inr rfl)
    · rintro ⟨hc, hs, hp, ht⟩
      rw [List.forall_mem_cons] at hc hs
      rw [List.pairwise_cons] at hp
      have hn := t'.nodup
      rw [ht, ← List.singleton_append, ← List.append_assoc, List.map_append] at hn
      refine ⟨⟨t.rows ++ [r], hn.of_append_left⟩, insertRow_ok.2 ⟨hc.1, hs.1, rfl⟩,
        ih.2 ⟨hc.2, ?_, hp.2, by rw [ht]; simp⟩⟩
      intro a ha x hx
      rcases List.mem_append.1 hx with hx | hx
      · exact hs.2 a ha x hx
      · exact List.mem_singleton.1 hx ▸ hp.1 a ha

/-- A row is refused by its checks, for its key, or for a row it clashes with. -/
theorem insertRow_error {t : Table key} {r : ρ} {e : ε}
    (h : t.insertRow check pkey same unique r = .error e) :
    check r = .error e ∨ (e = pkey ∧ ∃ x ∈ t, key x = key r) ∨
      (e = unique ∧ ∃ x ∈ t, same x r = true) := by
  unfold insertRow at h
  cases hc : check r with
  | error e' =>
    rw [hc] at h
    exact Or.inl (congrArg Except.error (Except.error.inj h))
  | ok u =>
    simp only [hc] at h
    split at h
    · rename_i hi
      exact Or.inr (Or.inl ⟨(Except.error.inj h).symm, insert_eq_none.1 hi⟩)
    · split_ifs at h with hs
      exact Or.inr (Or.inr ⟨(Except.error.inj h).symm, by simpa [mem_def] using hs⟩)

/-- Rows are refused because one does not pass its checks, for a key that is there twice,
or because two of the old and new rows clash. -/
theorem foldlM_insertRow_error {rs : List ρ} {t : Table key} {e : ε}
    (h : rs.foldlM (insertRow check pkey same unique) t = .error e) :
    (∃ r ∈ rs, check r = .error e) ∨ (e = pkey ∧ ¬((t.rows ++ rs).map key).Nodup) ∨
      (e = unique ∧ ¬((∀ r ∈ rs, ∀ x ∈ t, same x r = false) ∧
        rs.Pairwise fun a b => same a b = false)) := by
  induction rs generalizing t with
  | nil => cases h
  | cons r rs ih =>
    rw [List.foldlM_cons] at h
    cases hr : t.insertRow check pkey same unique r with
    | ok t₁ =>
      rw [hr] at h
      obtain ⟨-, -, ht⟩ := insertRow_ok.1 hr
      rcases ih h with ⟨x, hx, hc⟩ | ⟨he, hn⟩ | ⟨he, hs⟩
      · exact Or.inl ⟨x, List.mem_cons_of_mem _ hx, hc⟩
      · rw [ht, List.append_assoc, List.singleton_append] at hn
        exact Or.inr (Or.inl ⟨he, hn⟩)
      · refine Or.inr (Or.inr ⟨he, fun hall => hs ⟨fun a ha x hx => ?_, ?_⟩⟩)
        · rw [mem_def, ht] at hx
          rcases List.mem_append.1 hx with hx | hx
          · exact hall.1 a (List.mem_cons_of_mem _ ha) x hx
          · exact List.mem_singleton.1 hx ▸ (List.pairwise_cons.1 hall.2).1 a ha
        · exact (List.pairwise_cons.1 hall.2).2
    | error e' =>
      rw [hr] at h
      obtain rfl : e' = e := Except.error.inj h
      rcases insertRow_error hr with hc | ⟨he, x, hx, hk⟩ | ⟨he, x, hx, hs⟩
      · exact Or.inl ⟨r, by simp, hc⟩
      · refine Or.inr (Or.inl ⟨he, fun hn => ?_⟩)
        rw [List.map_append, List.nodup_append] at hn
        exact hn.2.2 _ (List.mem_map_of_mem hx) (key r) (by simp) hk
      · refine Or.inr (Or.inr ⟨he, fun hall => ?_⟩)
        have hf := hall.1 r (by simp) x hx
        rw [hs] at hf
        cases hf

end InsertRow

section Sum

variable {M : Type*} [AddCommMonoid M] (g : ρ → M)

theorem sum_insert {t t' : Table key} {r : ρ} (h : t.insert r = some t') :
    (t'.rows.map g).sum = (t.rows.map g).sum + g r := by
  rw [rows_insert h]
  simp

theorem sum_map_replace {l : List ρ} (hn : (l.map key).Nodup) {r y : ρ} (hy : y ∈ l)
    (hk : key y = key r) :
    ((l.map fun x => if key x = key r then r else x).map g).sum + g y = (l.map g).sum + g r := by
  induction l with
  | nil => simp at hy
  | cons x l ih =>
    simp only [List.map_cons, List.nodup_cons] at hn
    rcases List.mem_cons.1 hy with rfl | hy
    · have hl : (l.map fun x => if key x = key r then r else x) = l := by
        refine (List.map_congr_left fun z hz => ?_).trans (List.map_id l)
        have : key z ≠ key r := fun hzr => hn.1 (by rw [hk, ← hzr]; exact List.mem_map_of_mem hz)
        simp [this]
      simp only [List.map_cons, List.sum_cons, hk, if_true, hl]
      abel
    · have hx : key x ≠ key r := by
        intro hxr
        exact hn.1 (by rw [hxr, ← hk]; exact List.mem_map_of_mem hy)
      simp only [List.map_cons, List.sum_cons, hx, if_false, add_assoc, ih hn.2 hy]

/-- Writing one row changes a sum by the difference of that row. -/
theorem sum_put {t : Table key} {r y : ρ} (hy : y ∈ t) (hk : key y = key r) :
    ((t.put r).rows.map g).sum + g y = (t.rows.map g).sum + g r := by
  have h := sum_map_replace g t.nodup hy hk
  simpa [put, updateWhere] using h

omit [DecidableEq κ] in
/-- An update changes a sum by what it adds to the rows it takes. -/
theorem sum_updateWhere {t : Table key} {p : ρ → Bool} {f : ρ → ρ}
    {hf : ∀ r, p r = true → key (f r) = key r} (d : ρ → M)
    (h : ∀ r ∈ t, p r = true → g (f r) = g r + d r) :
    ((t.updateWhere p f hf).rows.map g).sum =
      (t.rows.map g).sum + ((t.rows.filter p).map d).sum := by
  have hrows : ∀ l : List ρ, (∀ r ∈ l, p r = true → g (f r) = g r + d r) →
      ((l.map fun r => if p r then f r else r).map g).sum =
        (l.map g).sum + ((l.filter p).map d).sum := by
    intro l
    induction l with
    | nil => simp
    | cons r l ih =>
      intro hl
      rw [List.forall_mem_cons] at hl
      simp only [List.map_cons, List.sum_cons, ih hl.2]
      by_cases hp : p r = true
      · rw [if_pos hp, hl.1 hp, List.filter_cons_of_pos hp, List.map_cons, List.sum_cons]
        abel
      · rw [if_neg hp, List.filter_cons_of_neg hp, add_assoc]
  exact hrows t.rows h

end Sum

theorem countP_eq_sum (q : ρ → Bool) (l : List ρ) :
    l.countP q = (l.map fun r => if q r then 1 else 0).sum := by
  induction l with
  | nil => rfl
  | cons r l ih => rw [List.countP_cons, List.map_cons, List.sum_cons, ih, add_comm]

/-- Writing one row changes a count of rows by that row. -/
theorem countP_put {t : Table key} {r y : ρ} (hy : y ∈ t) (hk : key y = key r) (q : ρ → Bool) :
    (t.put r).rows.countP q + (if q y then 1 else 0) = t.rows.countP q + if q r then 1 else 0 := by
  rw [countP_eq_sum, countP_eq_sum]
  exact sum_put _ hy hk

/-- The rows with keys in a list are no more than the list. -/
theorem countP_key_le (t : Table key) (ks : List κ) :
    t.rows.countP (fun r => decide (key r ∈ ks)) ≤ ks.length := by
  rw [List.countP_eq_length_filter, ← List.length_map (f := key)]
  refine ((t.nodup.sublist (List.filter_sublist.map key)).subperm fun k hk => ?_).length_le
  obtain ⟨r, hr, rfl⟩ := List.mem_map.1 hk
  exact of_decide_eq_true (List.mem_filter.1 hr).2

end Table

end Relational
