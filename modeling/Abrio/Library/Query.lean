import Mathlib.Data.List.Sort

/-!
# Ordered queries

SQL fixes neither the order in which a query visits rows nor the order of rows that
compare equal under its `ORDER BY`. A `Scan` is the order of one query, any permutation
of the rows; `orderBy` sorts the scanned rows and leaves equal ones in scan order, so a
statement about every scan is a statement about every tie-break. `rowNumbers` is
`row_number() OVER (PARTITION BY … )` along an ordered list.
-/

namespace Relational

variable {α γ : Type*}

/-- The order in which one query visits the rows. -/
structure Scan (α : Type*) where
  visit : List α → List α
  perm : ∀ l, (visit l).Perm l

namespace Scan

/-- The scan that visits the rows as they are stored. -/
def stored : Scan α :=
  ⟨fun l => l, fun l => .refl l⟩

@[simp] theorem mem_visit (scan : Scan α) {l : List α} {a : α} : a ∈ scan.visit l ↔ a ∈ l :=
  (scan.perm l).mem_iff

end Scan

section OrderBy

variable (le : α → α → Prop) [DecidableRel le] (scan : Scan α)

/-- `ORDER BY le` over the rows in scan order. -/
def orderBy (l : List α) : List α :=
  (scan.visit l).insertionSort le

theorem orderBy_perm (l : List α) : (orderBy le scan l).Perm l :=
  (List.perm_insertionSort le _).trans (scan.perm l)

@[simp] theorem mem_orderBy {l : List α} {a : α} : a ∈ orderBy le scan l ↔ a ∈ l :=
  (orderBy_perm le scan l).mem_iff

end OrderBy

/-- Each row with its number among the rows of its partition, `seen` being the partitions
of the rows before it. -/
def rowNumbers [DecidableEq γ] (part : α → γ) : List γ → List α → List (α × ℕ)
  | _, [] => []
  | seen, a :: l => (a, seen.count (part a) + 1) :: rowNumbers part (part a :: seen) l

end Relational
