import Abrio.Library.Table
import Mathlib.Algebra.Order.BigOperators.Group.List
import Mathlib.Algebra.Order.Group.Unbundled.Basic

/-!
# Escrow

Accounts with funds, and holds on the funds. A hold sets an amount aside without taking it;
later it is captured, which takes the amount, or voided, which gives it back. `Step` lists what
may be done to a book of accounts and holds, with what must be true before.

A book reached from the empty one is `Valid` : the holds of an account never exceed its funds.
The funds are what was deposited less what was captured (`Steps.conservation`), and a hold is
decided as often as its status says (`Steps.decided`), so at most once.
-/

open Relational

namespace Escrow

/-- A hold is open, or was closed in one of two ways. -/
inductive Status
  | held
  | captured
  | voided
  deriving DecidableEq, Repr

/-- An amount of an account that is set aside. -/
structure Hold (ι α M : Type*) where
  id : ι
  account : α
  amount : M
  status : Status := .held

/-- A book : the funds of the accounts that are open, and the holds on them. -/
@[ext]
structure Book (ι α M : Type*) where
  funds : α → Option M
  holds : Table (Hold.id : Hold ι α M → ι)

/-- What can be done to a book. Several holds of one account are placed at once. -/
inductive Action (ι α M : Type*)
  | openAccount (a : α)
  | deposit (a : α) (amount : M)
  | place (a : α) (amounts : List (ι × M))
  | capture (i : ι)
  | void (i : ι)

variable {ι α M : Type*}

/-- A new hold on `a`. -/
def Hold.placed (a : α) (h : ι × M) : Hold ι α M :=
  ⟨h.1, a, h.2, .held⟩

/-- No accounts, and nothing held. -/
def Book.empty : Book ι α M :=
  ⟨fun _ => none, .empty⟩

/-- What the holds on `a` with a status amount to. -/
def Book.total [DecidableEq α] [AddCommMonoid M] (b : Book ι α M) (status : Status) (a : α) : M :=
  ((b.holds.rows.filter fun h => h.account = a ∧ h.status = status).map Hold.amount).sum

/-- What `h` adds to the total of `a`. -/
def Hold.share [DecidableEq α] [AddCommMonoid M] (status : Status) (a : α) (h : Hold ι α M) : M :=
  if h.account = a ∧ h.status = status then h.amount else 0

/-! ## Totals -/

namespace Book

variable [DecidableEq α] [AddCommMonoid M] {b b' : Book ι α M}

theorem total_eq (b : Book ι α M) (status : Status) (a : α) :
    b.total status a = (b.holds.rows.map (Hold.share status a)).sum := by
  unfold total
  induction b.holds.rows with
  | nil => rfl
  | cons h hs ih =>
    by_cases hp : h.account = a ∧ h.status = status
    · simpa [hp, Hold.share] using congrArg (h.amount + ·) ih
    · simpa [hp, Hold.share] using ih

/-- Writing a hold moves its amount from one total to another. -/
theorem total_put [DecidableEq ι] {h h' : Hold ι α M} (hh : h ∈ b.holds) (hi : h'.id = h.id)
    (hb : b'.holds = b.holds.put h') (status : Status) (a : α) :
    b'.total status a + h.share status a = b.total status a + h'.share status a := by
  rw [total_eq, total_eq, hb]
  exact Table.sum_put _ hh hi.symm

/-- What new holds add to a total. -/
theorem total_placed {c : α} {amounts : List (ι × M)}
    (hb : b'.holds.rows = b.holds.rows ++ amounts.map (Hold.placed c)) (status : Status) (a : α) :
    b'.total status a = b.total status a +
      if c = a ∧ status = .held then (amounts.map Prod.snd).sum else 0 := by
  rw [total_eq, total_eq, hb, List.map_append, List.sum_append, List.map_map]
  congr 1
  by_cases h : c = a ∧ status = .held
  · obtain ⟨rfl, rfl⟩ := h
    rw [if_pos ⟨rfl, rfl⟩]
    exact congrArg List.sum (List.map_congr_left fun x _ => if_pos ⟨rfl, rfl⟩)
  · rw [if_neg h]
    refine List.sum_eq_zero fun m hm => ?_
    obtain ⟨x, -, rfl⟩ := List.mem_map.1 hm
    exact if_neg fun he => h ⟨he.1, he.2.symm⟩

end Book

/-! ## Steps -/

variable [DecidableEq ι] [DecidableEq α] [AddCommGroup M] [LinearOrder M]

/-- What may be done to a book. -/
inductive Step (b : Book ι α M) : Action ι α M → Book ι α M → Prop
  | opened {a : α} (closed : b.funds a = none) :
      Step b (.openAccount a) { b with funds := Function.update b.funds a (some 0) }
  | deposited {a : α} {funds amount : M} (isOpen : b.funds a = some funds) (nonneg : 0 ≤ amount) :
      Step b (.deposit a amount)
        { b with funds := Function.update b.funds a (some (funds + amount)) }
  | placed {a : α} {funds : M} {amounts : List (ι × M)} {holds : Table Hold.id}
      (isOpen : b.funds a = some funds) (pos : ∀ h ∈ amounts, 0 < h.2)
      (covered : b.total .held a + (amounts.map Prod.snd).sum ≤ funds)
      (fresh : holds.rows = b.holds.rows ++ amounts.map (Hold.placed a)) :
      Step b (.place a amounts) { b with holds }
  | captured {h : Hold ι α M} {funds : M} (mem : h ∈ b.holds) (held : h.status = .held)
      (isOpen : b.funds h.account = some funds) :
      Step b (.capture h.id)
        { funds := Function.update b.funds h.account (some (funds - h.amount))
          holds := b.holds.put { h with status := .captured } }
  | voided {h : Hold ι α M} (mem : h ∈ b.holds) (held : h.status = .held) :
      Step b (.void h.id) { b with holds := b.holds.put { h with status := .voided } }

/-- The book that a list of actions leads to from the empty one. -/
inductive Steps : List (Action ι α M) → Book ι α M → Prop
  | nil : Steps [] .empty
  | snoc {as : List (Action ι α M)} {b b' : Book ι α M} {a : Action ι α M} (steps : Steps as b)
      (step : Step b a b') : Steps (as ++ [a]) b'

/-! ## Valid books -/

/-- The holds are positive amounts on open accounts, and covered by the funds. -/
structure Book.Valid (b : Book ι α M) : Prop where
  pos : ∀ h ∈ b.holds, 0 < h.amount
  isOpen : ∀ h ∈ b.holds, (b.funds h.account).isSome
  covered : ∀ a funds, b.funds a = some funds → b.total .held a ≤ funds

omit [DecidableEq ι] in
theorem Book.valid_empty : (Book.empty : Book ι α M).Valid where
  pos h hh := by simp [Book.empty] at hh
  isOpen h hh := by simp [Book.empty] at hh
  covered a funds h := by simp [Book.empty] at h

omit [DecidableEq ι] in
/-- Nothing is held on an account that is not open. -/
theorem Book.Valid.total_of_closed {b : Book ι α M} (hb : b.Valid) {a : α} (h : b.funds a = none)
    (status : Status) : b.total status a = 0 := by
  unfold Book.total
  rw [List.filter_eq_nil_iff.2]
  · rfl
  · intro x hx hp
    have hopen := hb.isOpen x hx
    rw [(of_decide_eq_true hp).1, h] at hopen
    cases hopen

namespace Step

variable {b b' : Book ι α M} {act : Action ι α M}

/-- An account stays open. -/
theorem isSome_funds (hs : Step b act b') {a : α} (h : (b.funds a).isSome) :
    (b'.funds a).isSome := by
  cases hs with
  | placed => exact h
  | voided => exact h
  | _ =>
    simp only [Function.update_apply]
    split_ifs
    · rfl
    · exact h

omit [LinearOrder M] in
/-- Deciding a hold takes it from the held total, and adds it to the captured one if it is
captured. -/
theorem total_decided {status : Status} (hd : status ≠ .held) (funds : α → Option M)
    {h : Hold ι α M} (hh : h ∈ b.holds) (held : h.status = .held) (a : α) :
    let b' : Book ι α M := ⟨funds, b.holds.put { h with status }⟩
    b'.total .held a + (if h.account = a then h.amount else 0) = b.total .held a ∧
      b'.total .captured a = b.total .captured a +
        if h.account = a ∧ status = .captured then h.amount else 0 := by
  intro b'
  have hb : b'.holds = b.holds.put { h with status } := rfl
  refine ⟨?_, ?_⟩
  · have hput := Book.total_put hh (by rfl) hb .held a
    simpa [Hold.share, held, hd] using hput
  · have hput := Book.total_put hh (by rfl) hb .captured a
    simpa [Hold.share, held] using hput

variable [IsOrderedAddMonoid M]

omit [IsOrderedAddMonoid M] in
/-- A hold after a step was there with its account and amount, or is new. -/
theorem mem_cases (hs : Step b act b') {h : Hold ι α M} (hh : h ∈ b'.holds) :
    (∃ x ∈ b.holds, h.account = x.account ∧ h.amount = x.amount) ∨
      (b.funds h.account).isSome ∧ 0 < h.amount := by
  have hput : ∀ {x y : Hold ι α M}, x ∈ b.holds → h ∈ b.holds.put y → y.account = x.account →
      y.amount = x.amount → ∃ x ∈ b.holds, h.account = x.account ∧ h.amount = x.amount := by
    intro x y hx hh ha hm
    rcases Table.mem_put.1 hh with ⟨hh, -⟩ | ⟨rfl, -⟩
    · exact ⟨h, hh, rfl, rfl⟩
    · exact ⟨x, hx, ha, hm⟩
  cases hs with
  | opened => exact Or.inl ⟨h, hh, rfl, rfl⟩
  | deposited => exact Or.inl ⟨h, hh, rfl, rfl⟩
  | placed isOpen pos covered fresh =>
    rw [Table.mem_def, fresh] at hh
    rcases List.mem_append.1 hh with hh | hh
    · exact Or.inl ⟨h, hh, rfl, rfl⟩
    · obtain ⟨x, hx, rfl⟩ := List.mem_map.1 hh
      exact Or.inr ⟨Option.isSome_of_eq_some isOpen, pos x hx⟩
  | captured mem => exact Or.inl (hput mem hh rfl rfl)
  | voided mem => exact Or.inl (hput mem hh rfl rfl)

theorem valid (hs : Step b act b') (hb : b.Valid) : b'.Valid := by
  refine ⟨fun h hh => ?_, fun h hh => ?_, ?_⟩
  · rcases hs.mem_cases hh with ⟨x, hx, -, hm⟩ | ⟨-, hpos⟩
    · rw [hm]
      exact hb.pos x hx
    · exact hpos
  · rcases hs.mem_cases hh with ⟨x, hx, ha, -⟩ | ⟨hopen, -⟩
    · rw [ha]
      exact hs.isSome_funds (hb.isOpen x hx)
    · exact hs.isSome_funds hopen
  cases hs with
  | opened closed =>
    intro a funds ha
    simp only [Function.update_apply] at ha
    split_ifs at ha with he
    · obtain rfl := Option.some.inj ha
      rw [he]
      exact (hb.total_of_closed closed .held).le
    · exact hb.covered a funds ha
  | @deposited c f amount isOpen nonneg =>
    intro a funds ha
    simp only [Function.update_apply] at ha
    split_ifs at ha with he
    · obtain rfl := Option.some.inj ha
      rw [he]
      exact (hb.covered c f isOpen).trans (le_add_of_nonneg_right nonneg)
    · exact hb.covered a funds ha
  | @placed c f amounts holds isOpen pos covered fresh =>
    intro a funds ha
    rw [Book.total_placed fresh .held a]
    by_cases he : c = a
    · subst he
      obtain rfl := Option.some.inj (isOpen.symm.trans ha)
      simpa using covered
    · simpa [he] using hb.covered a funds ha
  | @captured h f mem held isOpen =>
    intro a funds ha
    have htotal : _ + _ = _ := (total_decided (by decide : Status.captured ≠ .held)
      (Function.update b.funds h.account (some (f - h.amount))) mem held a).1
    simp only [Function.update_apply] at ha
    by_cases he : h.account = a
    · subst he
      rw [if_pos rfl] at ha htotal
      obtain rfl := Option.some.inj ha
      rw [le_sub_iff_add_le, htotal]
      exact hb.covered h.account f isOpen
    · rw [if_neg (Ne.symm he)] at ha
      rw [if_neg he, add_zero] at htotal
      rw [htotal]
      exact hb.covered a funds ha
  | @voided h mem held =>
    intro a funds ha
    have htotal : _ + _ = _ := (total_decided (by decide : Status.voided ≠ .held) b.funds mem held
      a).1
    have hle : (0 : M) ≤ if h.account = a then h.amount else 0 := by
      split_ifs
      · exact (hb.pos h mem).le
      · exact le_rfl
    exact (le_add_of_nonneg_right hle).trans (htotal.trans_le (hb.covered a funds ha))

end Step

/-! ## Runs -/

/-- What an action deposits to `a`. -/
def Action.depositTo (a : α) : Action ι α M → M
  | .deposit a' amount => if a' = a then amount else 0
  | _ => 0

/-- The decision an action takes on `i`. -/
def Action.decision (i : ι) : Action ι α M → Option Status
  | .capture i' => if i' = i then some .captured else none
  | .void i' => if i' = i then some .voided else none
  | _ => none

/-- The decisions that lead to a status. -/
def Status.decisions : Status → List Status
  | .held => []
  | status => [status]

/-- What was decided on `i`. -/
def Book.decisions (b : Book ι α M) (i : ι) : List Status :=
  (b.holds.find? i).elim [] fun h => h.status.decisions

namespace Step

variable {b b' : Book ι α M} {act : Action ι α M}

/-- A step moves what an account has had by what it deposits. -/
theorem balance (hs : Step b act b') (a : α) :
    (b'.funds a).getD 0 + b'.total .captured a =
      (b.funds a).getD 0 + b.total .captured a + act.depositTo a := by
  cases hs with
  | @opened c closed =>
    simp only [Function.update_apply, Action.depositTo, add_zero]
    split_ifs with he
    · rw [he, closed]
      rfl
    · rfl
  | @deposited c f amount isOpen nonneg =>
    simp only [Function.update_apply, Action.depositTo]
    by_cases he : a = c
    · subst he
      simp [isOpen, add_right_comm, Book.total]
    · simp [he, Ne.symm he, Book.total]
  | @placed c f amounts holds isOpen pos covered fresh =>
    rw [Book.total_placed fresh .captured a]
    simp [Action.depositTo]
  | @captured h f mem held isOpen =>
    have htotal : _ = _ := (total_decided (by decide : Status.captured ≠ .held)
      (Function.update b.funds h.account (some (f - h.amount))) mem held a).2
    rw [htotal]
    simp only [Function.update_apply, Action.depositTo]
    by_cases he : a = h.account
    · subst he
      simp [isOpen]
    · simp [he, Ne.symm he]
  | @voided h mem held =>
    have htotal : _ = _ := (total_decided (by decide : Status.voided ≠ .held) b.funds mem held a).2
    rw [htotal]
    simp [Action.depositTo]

omit [DecidableEq α] [AddCommGroup M] [LinearOrder M] in
/-- Deciding a hold adds its status to its decisions, and to no other hold's. -/
theorem decisions_put {h : Hold ι α M} {status : Status} (hd : status ≠ .held) (hh : h ∈ b.holds)
    (held : h.status = .held) (funds : α → Option M) (i : ι) :
    (⟨funds, b.holds.put { h with status }⟩ : Book ι α M).decisions i =
      b.decisions i ++ if h.id = i then [status] else [] := by
  have hfind : (b.holds.put { h with status }).find? i = _ :=
    Table.find?_put (r := { h with status }) hh rfl i
  unfold Book.decisions
  rw [hfind]
  by_cases hi : h.id = i
  · subst hi
    rw [if_pos rfl, if_pos rfl, Table.find?_key hh]
    cases status <;> simp_all [Status.decisions]
  · rw [if_neg hi, if_neg hi, List.append_nil]

/-- A step adds the decision it takes. -/
theorem decisions (hs : Step b act b') (i : ι) :
    b'.decisions i = b.decisions i ++ (act.decision i).toList := by
  cases hs with
  | opened => simp [Book.decisions, Action.decision]
  | deposited => simp [Book.decisions, Action.decision]
  | @placed c f amounts holds isOpen pos covered fresh =>
    have hfind : holds.find? i = (b.holds.find? i).or
        ((amounts.map (Hold.placed c)).find? fun h => h.id = i) := by
      unfold Table.find?
      rw [fresh, List.find?_append]
    simp only [Book.decisions, hfind, Action.decision, Option.toList_none, List.append_nil]
    cases b.holds.find? i with
    | some h => rfl
    | none =>
      cases hnew : (amounts.map (Hold.placed c)).find? fun h => h.id = i with
      | none => rfl
      | some h =>
        obtain ⟨x, -, rfl⟩ := List.mem_map.1 (List.mem_of_find?_eq_some hnew)
        rfl
  | captured mem held isOpen =>
    rw [decisions_put (by decide) mem held, Action.decision]
    split_ifs <;> rfl
  | voided mem held =>
    rw [decisions_put (by decide) mem held, Action.decision]
    split_ifs <;> rfl

end Step

namespace Steps

variable {b : Book ι α M} {as : List (Action ι α M)}

theorem valid [IsOrderedAddMonoid M] (hs : Steps as b) : b.Valid := by
  induction hs with
  | nil => exact Book.valid_empty
  | snoc steps step ih => exact step.valid ih

/-- What an account has, and what was captured from it, is what was deposited to it. -/
theorem conservation (hs : Steps as b) (a : α) :
    (b.funds a).getD 0 + b.total .captured a = (as.map (Action.depositTo a)).sum := by
  induction hs with
  | nil => simp [Book.empty, Book.total, Table.empty]
  | snoc steps step ih => simp [step.balance a, ih]

/-- A hold is decided as often as its status says. -/
theorem decided (hs : Steps as b) (i : ι) :
    as.filterMap (Action.decision i) = b.decisions i := by
  induction hs with
  | nil => rfl
  | @snoc as b b' a steps step ih =>
    rw [step.decisions i, List.filterMap_append, ih]
    cases hd : Action.decision i a <;> simp [hd]

end Steps

end Escrow
