import Abrio.Library.Query
import Mathlib.Algebra.BigOperators.Group.Finset.Basic
import Mathlib.Algebra.Order.BigOperators.Group.Finset
import Mathlib.Order.Interval.Finset.Nat
import Mathlib.Tactic.Linarith

/-!
# Ranks within partitions

`rowNumbers` numbers the rows of every partition 1, 2, 3, … (`numbered_rowNumbers`). Numbered
rows stay so when only low numbers are kept, and when the first rows in an order by number are
taken : what is taken of a partition are the rows numbered up to the share of the partition
(`Numbered.mem_iff_le_share`).

The shares then are those of a division in turns (`RoundRobin`) : no partition is two rows
ahead of one that has not got all it could. With a place for each partition no one is left out
(`RoundRobin.given_pos`).
-/

set_option linter.unusedSectionVars false

namespace Relational

variable {α γ : Type*} [DecidableEq γ]

/-- How many rows of a partition there are. -/
def share (part : α → γ) (rows : List α) (g : γ) : ℕ :=
  (rows.map part).count g

section Share

variable {part : α → γ} {rows rows' : List α} {g : γ}

theorem share_eq_length_filter :
    share part rows g = (rows.filter fun a => part a = g).length := by
  rw [share, List.count, List.countP_map, List.countP_eq_length_filter]
  rfl

theorem share_perm (h : rows.Perm rows') : share part rows g = share part rows' g :=
  (h.map part).count_eq g

theorem share_map {β : Type*} (f : β → α) (rows : List β) :
    share part (rows.map f) g = share (part ∘ f) rows g := by
  rw [share, share, List.map_map]

theorem share_pos : 0 < share part rows g ↔ ∃ a ∈ rows, part a = g := by
  rw [share, List.count_pos_iff, List.mem_map]

theorem sum_share {groups : Finset γ} (h : ∀ a ∈ rows, part a ∈ groups) :
    ∑ g ∈ groups, share part rows g = rows.length := by
  have hsub : (rows.map part).toFinset ⊆ groups := by
    intro g hg
    obtain ⟨a, ha, rfl⟩ := List.mem_map.1 (List.mem_toFinset.1 hg)
    exact h a ha
  rw [← Finset.sum_subset hsub, ← List.length_map part]
  · exact List.sum_toFinset_count_eq_length (rows.map part)
  · intro g _ hg
    exact List.count_eq_zero.2 fun hmem => hg (List.mem_toFinset.2 hmem)

end Share

/-! ## Row numbers -/

section RowNumbers

variable {part : α → γ}

variable (part) in
/-- The numbers of one partition count on from the rows seen before. -/
theorem map_snd_rowNumbers (g : γ) : ∀ (seen : List γ) (l : List α),
    ((rowNumbers part seen l).filter fun a => part a.1 = g).map Prod.snd =
      List.range' (seen.count g + 1) (share part l g)
  | _, [] => rfl
  | seen, a :: l => by
    have ih := map_snd_rowNumbers g (part a :: seen) l
    rw [rowNumbers]
    by_cases ha : part a = g
    · rw [List.filter_cons_of_pos (by simpa using ha), List.map_cons, ih, ha,
        List.count_cons_self, share, share, List.map_cons, ha, List.count_cons_self,
        List.range'_succ]
    · rw [List.filter_cons_of_neg (by simpa using ha), ih, share, share, List.map_cons,
        List.count_cons_of_ne ha, List.count_cons_of_ne ha]

variable (part) in
theorem map_fst_rowNumbers : ∀ (seen : List γ) (l : List α),
    (rowNumbers part seen l).map Prod.fst = l
  | _, [] => rfl
  | seen, a :: l => by rw [rowNumbers, List.map_cons, map_fst_rowNumbers]

theorem share_rowNumbers (seen : List γ) (l : List α) (g : γ) :
    share (fun a => part a.1) (rowNumbers part seen l) g = share part l g := by
  conv_rhs => rw [← map_fst_rowNumbers part seen l]
  rw [share_map]
  rfl

theorem count_lt_of_mem_rowNumbers {seen : List γ} {l : List α} {a : α × ℕ}
    (h : a ∈ rowNumbers part seen l) : seen.count (part a.1) < a.2 := by
  have hmem : a.2 ∈ ((rowNumbers part seen l).filter fun b => part b.1 = part a.1).map Prod.snd :=
    List.mem_map_of_mem (List.mem_filter.2 ⟨h, by simp⟩)
  rw [map_snd_rowNumbers, List.mem_range'_1] at hmem
  omega

variable (part) in
theorem pairwise_rowNumbers {le : α → α → Prop} :
    ∀ {l : List α}, l.Pairwise le → ∀ seen : List γ,
      (rowNumbers part seen l).Pairwise fun a b =>
        le a.1 b.1 ∧ (part a.1 = part b.1 → a.2 < b.2)
  | [], _, _ => List.Pairwise.nil
  | a :: l, h, seen => by
    obtain ⟨ha, hl⟩ := List.pairwise_cons.1 h
    refine List.pairwise_cons.2 ⟨fun b hb => ⟨ha b.1 ?_, fun hp => ?_⟩,
      pairwise_rowNumbers hl _⟩
    · rw [← map_fst_rowNumbers part (part a :: seen) l]
      exact List.mem_map_of_mem hb
    · have hlt := count_lt_of_mem_rowNumbers hb
      rw [← hp, List.count_cons_self] at hlt
      exact hlt

/-- In a partition the numbers follow the order of the rows. -/
theorem le_of_rowNumbers_lt {le : α → α → Prop} {l : List α} (h : l.Pairwise le) {seen : List γ}
    {a b : α × ℕ} (ha : a ∈ rowNumbers part seen l) (hb : b ∈ rowNumbers part seen l)
    (hp : part a.1 = part b.1) (hlt : a.2 < b.2) : le a.1 b.1 := by
  obtain ⟨i, hi, rfl⟩ := List.mem_iff_getElem.1 ha
  obtain ⟨j, hj, rfl⟩ := List.mem_iff_getElem.1 hb
  have hpair := List.pairwise_iff_getElem.1 (pairwise_rowNumbers part h seen)
  rcases lt_trichotomy i j with hij | rfl | hij
  · exact (hpair i j hi hj hij).1
  · exact absurd hlt (lt_irrefl _)
  · exact absurd hlt (lt_asymm ((hpair j i hj hi hij).2 hp.symm))

end RowNumbers

/-! ## Numbered rows -/

/-- The rows of every partition are numbered 1, 2, 3, … -/
structure Numbered (part : α → γ) (rows : List (α × ℕ)) : Prop where
  nodup : ∀ g, ((rows.filter fun a => part a.1 = g).map Prod.snd).Nodup
  pos : ∀ a ∈ rows, 1 ≤ a.2
  below : ∀ a ∈ rows, ∀ k, 1 ≤ k → k ≤ a.2 → ∃ b ∈ rows, part b.1 = part a.1 ∧ b.2 = k

theorem numbered_rowNumbers (part : α → γ) (l : List α) : Numbered part (rowNumbers part [] l) := by
  have hnumbers : ∀ g, ((rowNumbers part [] l).filter fun a => part a.1 = g).map Prod.snd =
      List.range' 1 (share part l g) := fun g => by
    simpa using map_snd_rowNumbers part g [] l
  refine ⟨fun g => ?_, fun a ha => ?_, fun a ha k h1 hk => ?_⟩
  · rw [hnumbers]
    exact List.nodup_range'
  · exact Nat.succ_le_of_lt (Nat.zero_lt_of_lt (count_lt_of_mem_rowNumbers ha))
  · have hmem : a.2 ∈ ((rowNumbers part [] l).filter fun b => part b.1 = part a.1).map Prod.snd :=
      List.mem_map_of_mem (List.mem_filter.2 ⟨ha, by simp⟩)
    have hk' : k ∈ ((rowNumbers part [] l).filter fun b => part b.1 = part a.1).map Prod.snd := by
      rw [hnumbers, List.mem_range'_1] at hmem ⊢
      omega
    obtain ⟨b, hb, hbk⟩ := List.mem_map.1 hk'
    obtain ⟨hb, hp⟩ := List.mem_filter.1 hb
    exact ⟨b, hb, of_decide_eq_true hp, hbk⟩

namespace Numbered

variable {part : α → γ} {rows rows' : List (α × ℕ)}

/-- A set of positive numbers with all that are lower is an initial one. -/
theorem eq_Icc_card {s : Finset ℕ} (hpos : ∀ k ∈ s, 1 ≤ k)
    (hbelow : ∀ k ∈ s, ∀ i, 1 ≤ i → i ≤ k → i ∈ s) : s = Finset.Icc 1 s.card := by
  refine Finset.eq_of_subset_of_card_le (fun k hk => ?_) (by simp)
  have hsub : Finset.Icc 1 k ⊆ s := fun i hi => by
    obtain ⟨h1, h2⟩ := Finset.mem_Icc.1 hi
    exact hbelow k hk i h1 h2
  have hcard := Finset.card_le_card hsub
  rw [Nat.card_Icc, Nat.add_sub_cancel] at hcard
  exact Finset.mem_Icc.2 ⟨hpos k hk, hcard⟩

/-- The numbers of a partition are those up to its share. -/
theorem exists_iff (h : Numbered part rows) (g : γ) (k : ℕ) :
    (∃ a ∈ rows, part a.1 = g ∧ a.2 = k) ↔ 1 ≤ k ∧ k ≤ share (fun a => part a.1) rows g := by
  set s := ((rows.filter fun a => part a.1 = g).map Prod.snd).toFinset with hs
  have hmem : ∀ i, i ∈ s ↔ ∃ a ∈ rows, part a.1 = g ∧ a.2 = i := by
    intro i
    simp [hs, and_assoc]
  have hcard : s.card = share (fun a => part a.1) rows g := by
    rw [hs, List.toFinset_card_of_nodup (h.nodup g), List.length_map, share_eq_length_filter]
  have hIcc : s = Finset.Icc 1 s.card := by
    refine eq_Icc_card (fun i hi => ?_) fun i hi j h1 hj => ?_
    · obtain ⟨a, ha, -, rfl⟩ := (hmem i).1 hi
      exact h.pos a ha
    · obtain ⟨a, ha, rfl, rfl⟩ := (hmem i).1 hi
      exact (hmem j).2 (h.below a ha j h1 hj)
  rw [← hmem, hIcc, Finset.mem_Icc, hcard]

theorem le_share (h : Numbered part rows) {a : α × ℕ} (ha : a ∈ rows) :
    a.2 ≤ share (fun a => part a.1) rows (part a.1) :=
  ((h.exists_iff (part a.1) a.2).1 ⟨a, ha, rfl, rfl⟩).2

/-- The number of a row tells it within its partition. -/
theorem eq_of_snd_eq (h : Numbered part rows) {a b : α × ℕ} (ha : a ∈ rows) (hb : b ∈ rows)
    (hp : part a.1 = part b.1) (hn : a.2 = b.2) : a = b :=
  List.inj_on_of_nodup_map (h.nodup (part b.1)) (List.mem_filter.2 ⟨ha, by simpa using hp⟩)
    (List.mem_filter.2 ⟨hb, by simp⟩) hn

theorem perm (h : Numbered part rows) (hp : rows.Perm rows') : Numbered part rows' := by
  refine ⟨fun g => (((hp.filter _).map _).nodup_iff).1 (h.nodup g),
    fun a ha => h.pos a (hp.mem_iff.2 ha), fun a ha k h1 hk => ?_⟩
  obtain ⟨b, hb, hbk⟩ := h.below a (hp.mem_iff.2 ha) k h1 hk
  exact ⟨b, hp.mem_iff.1 hb, hbk⟩

/-- Rows taken together with all lower numbers are numbered. -/
theorem sublist (h : Numbered part rows) (hs : rows'.Sublist rows)
    (hc : ∀ a ∈ rows', ∀ b ∈ rows, part b.1 = part a.1 → b.2 < a.2 → b ∈ rows') :
    Numbered part rows' := by
  refine ⟨fun g => (h.nodup g).sublist ((hs.filter _).map _), fun a ha => h.pos a (hs.subset ha),
    fun a ha k h1 hk => ?_⟩
  obtain ⟨b, hb, hp, rfl⟩ := h.below a (hs.subset ha) k h1 hk
  rcases hk.lt_or_eq with hlt | heq
  · exact ⟨b, hc a ha b hb hp hlt, hp, rfl⟩
  · exact ⟨a, ha, rfl, heq.symm⟩

/-- What is taken of a partition are the numbers up to its share. -/
theorem mem_iff_le_share (h : Numbered part rows) (hs : ∀ a ∈ rows', a ∈ rows)
    (h' : Numbered part rows') {a : α × ℕ} (ha : a ∈ rows) :
    a ∈ rows' ↔ a.2 ≤ share (fun a => part a.1) rows' (part a.1) := by
  refine ⟨fun ha' => h'.le_share ha', fun hle => ?_⟩
  obtain ⟨b, hb, hp, hn⟩ := (h'.exists_iff (part a.1) a.2).2 ⟨h.pos a ha, hle⟩
  exact h.eq_of_snd_eq (hs b hb) ha hp hn ▸ hb

/-- A cap on the numbers. -/
theorem filter_le (h : Numbered part rows) (cap : ℕ) :
    Numbered part (rows.filter fun a => a.2 ≤ cap) := by
  refine h.sublist List.filter_sublist fun a ha b hb _ hlt => ?_
  have hcap := of_decide_eq_true (List.mem_filter.1 ha).2
  exact List.mem_filter.2 ⟨hb, decide_eq_true (hlt.le.trans hcap)⟩

theorem share_filter_le (h : Numbered part rows) (cap : ℕ) (g : γ) :
    share (fun a => part a.1) (rows.filter fun a => a.2 ≤ cap) g =
      min (share (fun a => part a.1) rows g) cap := by
  have key : ∀ k, 1 ≤ k → (k ≤ share (fun a => part a.1) (rows.filter fun a => a.2 ≤ cap) g ↔
      k ≤ share (fun a => part a.1) rows g ∧ k ≤ cap) := by
    intro k hk
    have hcapped := (h.filter_le cap).exists_iff g k
    have hrows := h.exists_iff g k
    refine ⟨?_, ?_⟩
    · intro hle
      obtain ⟨a, ha, hp, rfl⟩ := hcapped.2 ⟨hk, hle⟩
      obtain ⟨ha, hcap⟩ := List.mem_filter.1 ha
      exact ⟨(hrows.1 ⟨a, ha, hp, rfl⟩).2, of_decide_eq_true hcap⟩
    · rintro ⟨hle, hcap⟩
      obtain ⟨a, ha, hp, rfl⟩ := hrows.2 ⟨hk, hle⟩
      exact (hcapped.1 ⟨a, List.mem_filter.2 ⟨ha, decide_eq_true hcap⟩, hp, rfl⟩).2
  refine le_antisymm ?_ ?_
  · rcases Nat.eq_zero_or_pos (share (fun a => part a.1) (rows.filter fun a => a.2 ≤ cap) g)
      with h0 | hpos
    · omega
    · exact le_min ((key _ hpos).1 le_rfl).1 ((key _ hpos).1 le_rfl).2
  · rcases Nat.eq_zero_or_pos (min (share (fun a => part a.1) rows g) cap) with h0 | hpos
    · omega
    · exact (key _ hpos).2 ⟨min_le_left _ _, min_le_right _ _⟩

section Take

variable {le : α × ℕ → α × ℕ → Prop} [DecidableRel le] [Std.Total le] [IsTrans _ le]

/-- With a row all lower numbers are among the first. -/
theorem mem_take_of_lt (hle : ∀ a b, le a b → a.2 ≤ b.2) {limit : ℕ} {a b : α × ℕ}
    (ha : a ∈ (rows.insertionSort le).take limit) (hb : b ∈ rows) (hlt : b.2 < a.2) :
    b ∈ (rows.insertionSort le).take limit := by
  have hsorted := List.pairwise_insertionSort le rows
  rw [← List.take_append_drop limit (rows.insertionSort le), List.pairwise_append] at hsorted
  have hmem : b ∈ (rows.insertionSort le).take limit ++ (rows.insertionSort le).drop limit := by
    rwa [List.take_append_drop, List.mem_insertionSort]
  rcases List.mem_append.1 hmem with hb | hb
  · exact hb
  · exact absurd (hle a b (hsorted.2.2 a ha b hb)) (not_le.2 hlt)

/-- The first rows in an order by number. -/
theorem take (h : Numbered part rows) (hle : ∀ a b, le a b → a.2 ≤ b.2) (limit : ℕ) :
    Numbered part ((rows.insertionSort le).take limit) :=
  (h.perm (List.perm_insertionSort le rows).symm).sublist (List.take_sublist _ _)
    fun _ ha _ hb _ hlt => mem_take_of_lt hle ha ((List.mem_insertionSort le).1 hb) hlt

end Take

end Numbered

/-! ## Division in turns -/

/-- At most `limit` places are given out in turns, to everyone at most what they ask for. -/
structure RoundRobin (groups : Finset γ) (demand given : γ → ℕ) (limit : ℕ) : Prop where
  sum_eq : ∑ g ∈ groups, given g = min limit (∑ g ∈ groups, demand g)
  le_demand : ∀ g, given g ≤ demand g
  even : ∀ g h, given h + 2 ≤ given g → given h = demand h

namespace RoundRobin

variable {groups : Finset γ} {demand given : γ → ℕ} {limit : ℕ}

/-- With a place for everyone no one is left out. -/
theorem given_pos (h : RoundRobin groups demand given limit) (hl : groups.card ≤ limit)
    (hd : ∀ g ∈ groups, 0 < demand g) {g : γ} (hg : g ∈ groups) : 0 < given g := by
  by_contra h0
  have h0 : given g = 0 := by omega
  -- no one has two places, and `g` has none
  have hone : ∀ i ∈ groups, given i ≤ 1 := fun i _ => by
    by_contra hi
    have heven := h.even i g (by omega)
    have := hd g hg
    omega
  have hlt : ∑ i ∈ groups, given i < ∑ _i ∈ groups, 1 :=
    Finset.sum_lt_sum hone ⟨g, hg, by omega⟩
  have hsum : groups.card ≤ ∑ i ∈ groups, demand i := by
    rw [Finset.card_eq_sum_ones]
    exact Finset.sum_le_sum fun i hi => hd i hi
  rw [h.sum_eq, ← Finset.card_eq_sum_ones] at hlt
  omega

end RoundRobin

/-- The shares of the first rows in an order by number, with a cap on the numbers. -/
theorem Numbered.roundRobin {part : α → γ} {rows : List (α × ℕ)} (h : Numbered part rows)
    {le : α × ℕ → α × ℕ → Prop} [DecidableRel le] [Std.Total le] [IsTrans _ le]
    (hle : ∀ a b, le a b → a.2 ≤ b.2) (limit cap : ℕ) {groups : Finset γ}
    (hg : ∀ a ∈ rows, part a.1 ∈ groups) :
    RoundRobin groups (fun g => min (share (fun a => part a.1) rows g) cap)
      (share (fun a => part a.1)
        (((rows.filter fun a => a.2 ≤ cap).insertionSort le).take limit)) limit := by
  set capped := rows.filter fun a => a.2 ≤ cap with hcapped
  set first := (capped.insertionSort le).take limit with hfirst
  have hsub : ∀ a ∈ first, a ∈ capped := fun a ha =>
    (List.mem_insertionSort le).1 (List.mem_of_mem_take ha)
  have hnum : Numbered part capped := h.filter_le cap
  have hnum' : Numbered part first := hnum.take hle limit
  have hshare : ∀ g, share (fun a => part a.1) capped g =
      min (share (fun a => part a.1) rows g) cap := h.share_filter_le cap
  have hgroups : ∀ a ∈ capped, part a.1 ∈ groups := fun a ha => hg a (List.mem_filter.1 ha).1
  have hle_demand : ∀ g, share (fun a => part a.1) first g ≤
      share (fun a => part a.1) capped g := fun g => by
    rw [← share_perm (List.perm_insertionSort le capped)]
    exact ((List.take_sublist limit _).map _).count_le g
  refine ⟨?_, fun g => hshare g ▸ hle_demand g, fun g i hlt => ?_⟩
  · simp only [← hshare]
    rw [sum_share hgroups, sum_share fun a ha => hgroups a (hsub a ha), hfirst, List.length_take,
      List.length_insertionSort]
  · refine le_antisymm (hshare i ▸ hle_demand i) ?_
    rw [← hshare i]
    by_contra hlow
    -- the next row of `i` has a lower number than the last one of `g`
    obtain ⟨b, hb, rfl, hbn⟩ := (hnum.exists_iff i (share (fun a => part a.1) first i + 1)).2
      ⟨by omega, by omega⟩
    obtain ⟨a, ha, -, han⟩ := (hnum'.exists_iff g (share (fun a => part a.1) first g)).2
      ⟨by omega, le_rfl⟩
    have hmem : b ∈ first := Numbered.mem_take_of_lt hle ha hb (by omega)
    have := hnum'.le_share hmem
    omega

end Relational
