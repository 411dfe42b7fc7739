import Mathlib.Data.Set.Finite.Basic
import Mathlib.Logic.Relation
import Mathlib.Order.WellFounded

/-!
# Waiting for resources

Agents hold resources, and one that wants a resource waits for those who hold it. Who is in a
cycle of waits holds what another one in it wants (`exists_wants_of_cycle`). Where resources are
ranked, and nobody who is waited for wants one below what he holds, what they want rises along
the waits, so there is no cycle (`acyclic_of_ranked`). Without one somebody is free to go on
(`exists_free`).
-/

open Relation

namespace Locking

variable {α ρ β : Type*}

/-- `b` holds what `a` wants. -/
def WaitsFor (wants : α → Option ρ) (holds : α → ρ → Prop) (a b : α) : Prop :=
  ∃ r, wants a = some r ∧ holds b r

/-- What `a` wants is above everything he holds. -/
def Ranked [LT β] (rank : ρ → β) (wants : α → Option ρ) (holds : α → ρ → Prop) (a : α) : Prop :=
  ∀ r, wants a = some r → ∀ q, holds a q → rank q < rank r

/-- No wait leads back. -/
def Acyclic (waits : α → α → Prop) : Prop :=
  ∀ a, ¬TransGen waits a a

section Cycles

variable {waits : α → α → Prop} {wants : α → Option ρ} {holds : α → ρ → Prop} {rank : ρ → β}
  {a b : α}

/-- Someone in the cycle waits for `a`. -/
theorem exists_waits_of_cycle (h : TransGen waits a a) : ∃ b, TransGen waits b b ∧ waits b a := by
  obtain ⟨b, hab, hba⟩ := TransGen.tail'_iff.1 h
  exact ⟨b, TransGen.head' hba hab, hba⟩

/-- `a` waits for someone in the cycle. -/
theorem exists_waited_of_cycle (h : TransGen waits a a) : ∃ b, TransGen waits b b ∧ waits a b := by
  obtain ⟨b, hab, hba⟩ := TransGen.head'_iff.1 h
  exact ⟨b, TransGen.tail' hba hab, hab⟩

/-- What is wanted rises along the waits. -/
theorem rank_lt_of_transGen [Preorder β] (hwaits : ∀ a b, waits a b → WaitsFor wants holds a b)
    (hranked : ∀ a b, waits a b → Ranked rank wants holds b) (h : TransGen waits a b) {q r : ρ}
    (hq : wants a = some q) (hr : wants b = some r) : rank q < rank r := by
  induction h generalizing r with
  | single h =>
    obtain ⟨q', hq', hb⟩ := hwaits _ _ h
    obtain rfl := Option.some.inj (hq'.symm.trans hq)
    exact hranked _ _ h r hr _ hb
  | tail _ h ih =>
    obtain ⟨p, hp, hb⟩ := hwaits _ _ h
    exact (ih hp).trans (hranked _ _ h r hr _ hb)

theorem acyclic_of_ranked [Preorder β] (hwaits : ∀ a b, waits a b → WaitsFor wants holds a b)
    (hranked : ∀ a b, waits a b → Ranked rank wants holds b) : Acyclic waits := by
  intro a h
  obtain ⟨b, -, hab⟩ := exists_waited_of_cycle h
  obtain ⟨r, hr, -⟩ := hwaits _ _ hab
  exact lt_irrefl _ (rank_lt_of_transGen hwaits hranked h hr hr)

/-- Without a cycle somebody waits for none of the others. -/
theorem exists_free (h : Acyclic waits) {l : List α} (ha : a ∈ l) :
    ∃ b ∈ l, ∀ c ∈ l, ¬waits b c := by
  let r : {x // x ∈ l} → {x // x ∈ l} → Prop := fun x y => TransGen waits y.1 x.1
  have htrans : IsTrans _ r := ⟨fun _ _ _ hxy hyz => hyz.trans hxy⟩
  have hirrefl : Std.Irrefl r := ⟨fun x hx => h x.1 hx⟩
  have hfinite : Finite {x // x ∈ l} := List.finite_toSet l
  obtain ⟨b, -, hb⟩ := (Finite.wellFounded_of_trans_of_irrefl r).has_min Set.univ
    ⟨⟨a, ha⟩, trivial⟩
  exact ⟨b.1, b.2, fun c hc hbc => hb ⟨c, hc⟩ trivial (TransGen.single hbc)⟩

end Cycles

end Locking
