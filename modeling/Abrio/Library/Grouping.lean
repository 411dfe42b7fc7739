import Abrio.Library.Ranking
import Mathlib.Data.List.Dedup

/-!
# Grouped queries and outer joins

`GROUP BY` with an aggregate, and the `LEFT OUTER JOIN` of a table to it. A group has one row, so
the join has one row for each row on its left, with what the group of its key says
(`leftJoin_groupBy`). SQL fixes neither the order of the groups nor that of the joined rows, and
an aggregate `count(…) FILTER (WHERE …)` of them, here `List.countP`, does not depend on it.

Where a set of keys has one row for each of them (`OneEach`) a count of rows is a count of keys.
-/

set_option linter.unusedSectionVars false

namespace Relational

variable {α β γ κ ρ : Type*} [DecidableEq κ]

section GroupBy

variable (key : α → κ) (aggregate : List α → γ)

/-- `SELECT key, aggregate … GROUP BY key`. -/
def groupBy (l : List α) : List (κ × γ) :=
  (l.map key).dedup.map fun k => (k, aggregate (l.filter fun a => key a = k))

/-- The group of a key, if there is one. -/
def group (l : List α) (k : κ) : Option (κ × γ) :=
  if k ∈ l.map key then some (k, aggregate (l.filter fun a => key a = k)) else none

/-- A key has one group or none. -/
theorem filter_groupBy (l : List α) (k : κ) :
    ((groupBy key aggregate l).filter fun g => g.1 = k) = (group key aggregate l k).toList := by
  have hkeys : ((l.map key).dedup.filter fun k' => k' = k) = if k ∈ l.map key then [k] else [] := by
    rw [List.filter_eq, List.count_dedup]
    split_ifs <;> rfl
  rw [groupBy, List.filter_map, group]
  refine (congrArg _ hkeys).trans ?_
  split_ifs <;> rfl

/-- The rows of the query as a dictionary, over the defaults. -/
theorem foldl_update_groupBy {δ : Type*} (f : γ → δ) (values : κ → δ) (l : List α) (k : κ) :
    (groupBy key aggregate l).foldl (fun values g => Function.update values g.1 (f g.2))
      values k = if k ∈ l.map key then f (aggregate (l.filter fun a => key a = k))
        else values k := by
  have hkeys : ∀ (ks : List κ) (values : κ → δ),
      (ks.map fun k => (k, aggregate (l.filter fun a => key a = k))).foldl
        (fun values g => Function.update values g.1 (f g.2)) values k =
        if k ∈ ks then f (aggregate (l.filter fun a => key a = k)) else values k := by
    intro ks
    induction ks with
    | nil => exact fun _ => rfl
    | cons k' ks ih =>
      intro values
      rw [List.map_cons, List.foldl_cons, ih]
      by_cases h : k = k'
      · subst h
        simp
      · simp [h]
  rw [groupBy, hkeys]
  simp only [List.mem_dedup]

end GroupBy

/-- `l LEFT OUTER JOIN r ON matching` : a row without a match is joined to no row. -/
def leftJoin (matching : α → β → Bool) (l : List α) (r : List β) : List (α × Option β) :=
  l.flatMap fun a =>
    match r.filter (matching a) with
    | [] => [(a, none)]
    | rows => rows.map fun b => (a, some b)

/-- With one match at most, a row on the left is one row of the join. -/
theorem leftJoin_of_unique {matching : α → β → Bool} {r : List β} {f : α → Option β}
    (h : ∀ a, r.filter (matching a) = (f a).toList) (l : List α) :
    leftJoin matching l r = l.map fun a => (a, f a) := by
  rw [leftJoin, ← List.flatMap_singleton' (l.map _), List.flatMap_map]
  refine List.flatMap_congr fun a _ => ?_
  rw [h a]
  cases f a <;> rfl

/-- A join to a grouped table has the row of each row's group beside it. -/
theorem leftJoin_groupBy (key : α → κ) (aggregate : List α → γ) (key' : ρ → κ) (l : List ρ)
    (r : List α) :
    leftJoin (fun a g => decide (g.1 = key' a)) l (groupBy key aggregate r) =
      l.map fun a => (a, group key aggregate r (key' a)) :=
  leftJoin_of_unique (fun a => filter_groupBy key aggregate r (key' a)) l

/-! ## One row for each key -/

/-- The rows are one for each of `keys`. -/
structure OneEach (key : ρ → κ) (rows : List ρ) (keys : Finset κ) : Prop where
  one : ∀ k ∈ keys, share key rows k = 1
  owner : ∀ a ∈ rows, key a ∈ keys

namespace OneEach

variable {key : ρ → κ} {rows : List ρ} {keys : Finset κ} (h : OneEach key rows keys)

include h

theorem nodup : (rows.map key).Nodup := by
  refine List.nodup_iff_count_eq_one.2 fun k hk => ?_
  obtain ⟨a, ha, rfl⟩ := List.mem_map.1 hk
  exact h.one _ (h.owner a ha)

theorem exists_row {k : κ} (hk : k ∈ keys) : ∃ a ∈ rows, key a = k :=
  share_pos.1 (h.one k hk ▸ Nat.one_pos)

/-- A count of rows is a count of the keys whose row is counted. -/
theorem countP_eq_card (p : ρ → Prop) [DecidablePred p] :
    rows.countP (fun a => decide (p a)) =
      (keys.filter fun k => ∃ a ∈ rows, key a = k ∧ p a).card := by
  have hkeys : (keys.filter fun k => ∃ a ∈ rows, key a = k ∧ p a) =
      ((rows.filter fun a => decide (p a)).map key).toFinset := by
    ext k
    simp only [Finset.mem_filter, List.mem_toFinset, List.mem_map, List.mem_filter,
      decide_eq_true_eq]
    refine ⟨?_, ?_⟩
    · rintro ⟨-, a, ha, rfl, hp⟩
      exact ⟨a, ⟨ha, hp⟩, rfl⟩
    · rintro ⟨a, ⟨ha, hp⟩, rfl⟩
      exact ⟨h.owner a ha, a, ha, rfl, hp⟩
  rw [hkeys, List.toFinset_card_of_nodup (h.nodup.sublist (List.filter_sublist.map key)),
    List.length_map, List.countP_eq_length_filter]

end OneEach

end Relational
