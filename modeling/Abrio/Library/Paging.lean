import Abrio.Library.Query
import Mathlib.Algebra.Order.Ring.Nat

/-!
# Paging

`LIMIT size OFFSET i * size` of one query after another, each with a scan of its own. A number of
rows comes first in every order when it is the number of rows up to some row (`Cut`). Where every
page ends at a cut the pages together are the rows, whatever the scans (`pages_perm`). A page that
ends elsewhere ends between two rows that compare equal, and with the two exchanged for the next
query one of them is on both pages (`not_nodup_pages`). So the pages are the rows for every choice
of scans exactly when they end at cuts (`pages_perm_iff`).
-/

set_option linter.unusedSectionVars false

namespace Relational

variable {α : Type*} (le : α → α → Prop) [DecidableRel le]

/-- `LIMIT limit OFFSET offset`. -/
def slice (limit offset : ℕ) (l : List α) : List α :=
  (l.drop offset).take limit

/-- The pages of `size` rows up to the `n`-th, the `i`-th of them in the order of the `i`-th
scan. -/
def pages (scans : ℕ → Scan α) (size : ℕ) (l : List α) (n : ℕ) : List α :=
  (List.range n).flatMap fun i => slice size (i * size) (orderBy le (scans i) l)

/-- The first `k` rows are those up to some row. -/
def Cut (l : List α) (k : ℕ) : Prop :=
  ∃ a ∈ l, (l.filter fun b => le b a).length = k

variable {le} {l s s' : List α} {k size : ℕ}

theorem slice_eq_nil {limit offset : ℕ} (h : l.length ≤ offset) : slice limit offset l = [] := by
  rw [slice, List.drop_eq_nil_of_le h, List.take_nil]

theorem mem_slice {pre post : List α} {a : α} {limit offset : ℕ} (h : offset ≤ pre.length)
    (hlt : pre.length < offset + limit) : a ∈ slice limit offset (pre ++ a :: post) := by
  obtain ⟨r, hr⟩ : ∃ r, limit - (pre.length - offset) = r + 1 :=
    ⟨limit - (pre.length - offset) - 1, by omega⟩
  rw [slice, List.drop_append_of_le_length h, List.take_append, List.length_drop, hr,
    List.take_succ_cons]
  exact List.mem_append_right _ List.mem_cons_self

theorem take_append_slice (n : ℕ) :
    l.take (n * size) ++ slice size (n * size) l = l.take ((n + 1) * size) := by
  rw [slice, Nat.add_mul, one_mul, List.take_add]

theorem pages_succ (scans : ℕ → Scan α) (size : ℕ) (l : List α) (n : ℕ) :
    pages le scans size l (n + 1) =
      pages le scans size l n ++ slice size (n * size) (orderBy le (scans n) l) := by
  rw [pages, List.range_succ, List.flatMap_append, List.flatMap_singleton]
  rfl

/-- In one order the pages are the rows that come first. -/
theorem pages_const (scan : Scan α) (size : ℕ) (l : List α) (n : ℕ) :
    pages le (fun _ => scan) size l n = (orderBy le scan l).take (n * size) := by
  induction n with
  | zero => simp [pages]
  | succ n ih => rw [pages_succ, ih, take_append_slice]

/-- A query without `ORDER BY` returns the rows as they are scanned. -/
theorem orderBy_true (scan : Scan α) (l : List α) :
    orderBy (fun _ _ => True) scan l = scan.visit l :=
  List.Pairwise.insertionSort_eq (List.pairwise_of_forall fun _ _ => trivial)

section Order

variable [Std.Total le] [IsTrans α le]

variable (le) in
theorem pairwise_orderBy (scan : Scan α) (l : List α) : (orderBy le scan l).Pairwise le :=
  List.pairwise_insertionSort le _

/-- In an ordered list the rows up to some row come first. -/
theorem filter_le_eq_take (hs : s.Pairwise le) (a : α) :
    (s.filter fun b => le b a) = s.take (s.filter fun b => le b a).length := by
  induction s with
  | nil => rfl
  | cons b s ih =>
    obtain ⟨hb, hs⟩ := List.pairwise_cons.1 hs
    by_cases hba : le b a
    · rw [List.filter_cons_of_pos (by simpa using hba), List.length_cons, List.take_succ_cons,
        ← ih hs]
    · have hnil : (s.filter fun c => le c a) = [] :=
        List.filter_eq_nil_iff.2 fun c hc hca =>
          hba (Trans.trans (hb c hc) (of_decide_eq_true hca))
      rw [List.filter_cons_of_neg (by simpa using hba), hnil, List.length_nil, List.take_zero]

/-- Up to a cut all ordered lists of the rows have the same rows. -/
theorem Cut.take_perm (h : Cut le l k) (hp : s.Perm l) (hs : s.Pairwise le) (hp' : s'.Perm l)
    (hs' : s'.Pairwise le) : (s.take k).Perm (s'.take k) := by
  obtain ⟨a, -, rfl⟩ := h
  have hlength := ((hp.filter fun b => le b a).length_eq)
  have hlength' := ((hp'.filter fun b => le b a).length_eq)
  rw [← hlength, ← filter_le_eq_take hs a, hlength, ← hlength', ← filter_le_eq_take hs' a]
  exact (hp.trans hp'.symm).filter _

/-- The pages up to a cut are the rows that come first. -/
theorem pages_perm_take (hcut : ∀ i, 1 ≤ i → i * size < l.length → Cut le l (i * size))
    (scans : ℕ → Scan α) :
    ∀ n {s : List α}, s.Perm l → s.Pairwise le →
      (pages le scans size l n).Perm (s.take (n * size))
  | 0, s, _, _ => by simp [pages]
  | n + 1, s, hp, hs => by
    have hp' := orderBy_perm le (scans n) l
    have hs' := pairwise_orderBy le (scans n) l
    have ih := pages_perm_take hcut scans n hp' hs'
    rw [pages_succ]
    refine (ih.append_right _).trans ?_
    rw [take_append_slice]
    by_cases hlt : (n + 1) * size < l.length
    · exact (hcut (n + 1) (Nat.le_add_left 1 n) hlt).take_perm hp' hs' hp hs
    · rw [List.take_of_length_le (by rw [hp'.length_eq]; omega),
        List.take_of_length_le (by rw [hp.length_eq]; omega)]
      exact hp'.trans hp.symm

/-- With every page ending at a cut the pages are the rows. -/
theorem pages_perm (hcut : ∀ i, 1 ≤ i → i * size < l.length → Cut le l (i * size))
    (scans : ℕ → Scan α) {n : ℕ} (hn : l.length ≤ n * size) :
    (pages le scans size l n).Perm l := by
  have hp := orderBy_perm le (scans 0) l
  have h := pages_perm_take hcut scans n hp (pairwise_orderBy le (scans 0) l)
  rw [List.take_of_length_le (by rwa [hp.length_eq])] at h
  exact h.trans hp

theorem Cut.perm (h : Cut le s k) (hp : s.Perm l) : Cut le l k := by
  obtain ⟨a, ha, rfl⟩ := h
  exact ⟨a, hp.mem_iff.1 ha, (hp.symm.filter _).length_eq⟩

/-- Where there is no cut, the rows before and after compare equal. -/
theorem exists_tie (hs : s.Pairwise le) (hk : 1 ≤ k) (hlt : k < s.length) (hcut : ¬Cut le s k) :
    ∃ pre a b post, s = pre ++ a :: b :: post ∧ pre.length + 1 = k ∧ le b a := by
  obtain ⟨pre, a, b, post, rfl, hpre⟩ : ∃ pre a b post, s = pre ++ a :: b :: post ∧
      pre.length + 1 = k := by
    have hlt' : k - 1 < s.length := by omega
    refine ⟨s.take (k - 1), s[k - 1], s[k], s.drop (k + 1), ?_, ?_⟩
    · conv_lhs => rw [← List.take_append_drop (k - 1) s, List.drop_eq_getElem_cons hlt',
        Nat.sub_add_cancel hk, List.drop_eq_getElem_cons hlt]
    · rw [List.length_take]
      omega
  refine ⟨pre, a, b, post, rfl, hpre, ?_⟩
  by_contra hba
  refine hcut ⟨a, by simp, ?_⟩
  obtain ⟨-, htail, hbefore⟩ := List.pairwise_append.1 hs
  have hafter := List.pairwise_cons.1 (List.pairwise_cons.1 htail).2
  have hfirst : (pre.filter fun c => le c a) = pre :=
    List.filter_eq_self.2 fun c hc => decide_eq_true (hbefore c hc a List.mem_cons_self)
  have hrest : ((b :: post).filter fun c => le c a) = [] := by
    refine List.filter_eq_nil_iff.2 fun c hc hca => hba ?_
    rcases List.mem_cons.1 hc with rfl | hc
    · exact of_decide_eq_true hca
    · exact Trans.trans (hafter.1 c hc) (of_decide_eq_true hca)
  have hself : le a a := (Std.Total.total a a).elim id id
  rw [List.filter_append, hfirst, List.filter_cons_of_pos (by simpa using hself), hrest,
    List.length_append, List.length_singleton, hpre]

open Classical in
/-- The scan that visits `l` in some other order. -/
noncomputable def Scan.of (h : s.Perm l) : Scan α where
  visit l' := if l' = l then s else l'
  perm l' := by
    split_ifs with he
    · exact he ▸ h
    · exact .refl l'

theorem orderBy_of (h : s.Perm l) (hs : s.Pairwise le) : orderBy le (Scan.of h) l = s := by
  have hvisit : (Scan.of h).visit l = s := if_pos rfl
  rw [orderBy, hvisit, hs.insertionSort_eq]

theorem pages_prefix_of_le (scans : ℕ → Scan α) {m n : ℕ} (h : m ≤ n) :
    pages le scans size l m <+: pages le scans size l n := by
  induction n, h using Nat.le_induction with
  | base => exact List.prefix_rfl
  | succ n _ ih =>
    rw [pages_succ]
    exact ih.trans (List.prefix_append _ _)

/-- A page that does not end at a cut can have a row in common with the next one. -/
theorem not_nodup_pages {i n : ℕ} (hi : 1 ≤ i) (hsize : 1 ≤ size) (hlt : i * size < l.length)
    (hn : i + 1 ≤ n) (hcut : ¬Cut le l (i * size)) :
    ∃ scans : ℕ → Scan α, ¬(pages le scans size l n).Nodup := by
  have hp := orderBy_perm le .stored l
  have hs := pairwise_orderBy le .stored l
  generalize orderBy le .stored l = s at hp hs
  obtain ⟨pre, a, b, post, rfl, hpre, hba⟩ := exists_tie hs
    (Nat.mul_pos hi hsize) (hp.length_eq ▸ hlt) fun h => hcut (h.perm hp)
  -- the order in which the tie is broken the other way
  have hp' : (pre ++ b :: a :: post).Perm l :=
    ((List.Perm.swap a b post).append_left pre).trans hp
  have hs' : (pre ++ b :: a :: post).Pairwise le := by
    simp only [List.pairwise_append, List.pairwise_cons, List.mem_cons, forall_eq_or_imp] at hs ⊢
    obtain ⟨hfirst, ⟨⟨-, hapost⟩, hbpost, hpost⟩, hbefore⟩ := hs
    exact ⟨hfirst, ⟨⟨hba, hbpost⟩, hapost, hpost⟩, fun c hc =>
      ⟨(hbefore c hc).2.1, (hbefore c hc).1, (hbefore c hc).2.2⟩⟩
  let scans : ℕ → Scan α := fun j => if j < i then .of hp else .of hp'
  refine ⟨scans, fun hnodup => ?_⟩
  have hlast : a ∈ pages le scans size l i := by
    obtain ⟨j, rfl⟩ : ∃ j, i = j + 1 := ⟨i - 1, by omega⟩
    have hj : scans j = .of hp := if_pos (Nat.lt_succ_self j)
    rw [pages_succ, hj, orderBy_of hp hs]
    rw [Nat.add_mul] at hpre
    exact List.mem_append_right _ (mem_slice (by omega) (by omega))
  have hnext : a ∈ slice size (i * size) (orderBy le (scans i) l) := by
    have hi' : scans i = .of hp' := if_neg (lt_irrefl i)
    rw [hi', orderBy_of hp' hs', List.append_cons, ← hpre]
    exact mem_slice (by simp) (by simp; omega)
  have hsub := (pages_prefix_of_le scans hn).sublist.nodup hnodup
  rw [pages_succ] at hsub
  exact List.disjoint_of_nodup_append hsub hlast hnext

/-- The pages are the rows, whatever the scans, exactly when every page but the last ends at a
cut. -/
theorem pages_perm_iff {n : ℕ} (hl : l.Nodup) (hsize : 1 ≤ size) (hn : l.length ≤ n * size) :
    (∀ scans : ℕ → Scan α, (pages le scans size l n).Perm l) ↔
      ∀ i, 1 ≤ i → i * size < l.length → Cut le l (i * size) := by
  refine ⟨?_, ?_⟩
  · intro h i hi hlt
    by_contra hcut
    have hin : i < n := Nat.lt_of_mul_lt_mul_right (hlt.trans_le hn)
    obtain ⟨scans, hnodup⟩ := not_nodup_pages hi hsize hlt hin hcut
    exact hnodup ((h scans).nodup_iff.2 hl)
  · exact fun hcut scans => pages_perm hcut scans hn

end Order

end Relational
