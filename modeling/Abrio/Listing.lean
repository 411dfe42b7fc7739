import Abrio.Library.Paging
import Abrio.Schema

/-!
# Listings

`get_messages_slice` and `get_users_slice`, and the pages that the API makes of them. The data
query and the count query get their conditions side by side, one for each filter whose value is
true in Python. So a user id of 0 is no filter, and the listing honours its filters exactly when
there is none, or nothing that it could leave out (`filters_honoured_iff`). Integers are cast to
32 bits where they are bound to a query.
-/

open Relational Runs

namespace Abrio

/-! ## Pages -/

/-- `PaginationParams`, with what its validators ask for. -/
structure PaginationParams where
  page : ℕ := 1
  size : ℕ := 20
  page_pos : 1 ≤ page := by decide
  size_pos : 1 ≤ size := by decide
  size_le : size ≤ 100 := by decide

namespace PaginationParams

/-- `params.offset`, of pages that begin with 1. -/
def offset (params : PaginationParams) : ℕ :=
  (params.page - 1) * params.size

/-- `params.limit`. -/
def limit (params : PaginationParams) : ℕ :=
  params.size

end PaginationParams

/-- A page, with how many rows and pages there are. -/
structure PaginatedResponse (α : Type) where
  items : List α
  total : ℕ
  page : ℕ
  size : ℕ
  pages : ℕ
  deriving DecidableEq

/-- `PaginatedResponse.make`. The quotient is a float; for the number of rows of a table its
ceiling is that of the exact one. -/
def PaginatedResponse.make {α : Type} (items : List α) (total : ℕ) (params : PaginationParams) :
    PaginatedResponse α where
  items := items
  total := total
  page := params.page
  size := params.size
  pages := if 0 < total then ⌈(total / params.size : ℚ)⌉₊ else 0

/-! ## Queries -/

/-- A condition on rows, with the integers that are bound to it. -/
structure Condition (ρ : Type) where
  holds : ρ → Bool
  integers : List ℤ := []

/-- An integer is bound with a cast to `INTEGER`. -/
def bindInteger (n : ℤ) : Except Exn Unit :=
  if fitsInt4 n then .ok () else Db.dataError

/-- The rows that satisfy all conditions of a query. -/
def selectWhere {ρ : Type} (conditions : List (Condition ρ)) (rows : List ρ) :
    Except Exn (List ρ) := do
  forM (conditions.flatMap Condition.integers) bindInteger
  return rows.filter fun row => conditions.all fun condition => condition.holds row

/-- `LIMIT limit OFFSET offset` of an ordered query. -/
def limitOffset {ρ : Type} (limit offset : ℕ) (rows : List ρ) : Except Exn (List ρ) := do
  forM [(limit : ℤ), (offset : ℤ)] bindInteger
  return slice limit offset rows

/-! ## Messages -/

/-- The optional filters of `get_messages_slice`. -/
structure MessageFilters where
  userId : Option UserId := none
  status : Option MessageStatus := none
  priority : Option MessagePriority := none
  paymentStatus : Option PaymentStatus := none
  createdAfter : Option Time := none
  createdBefore : Option Time := none
  updatedAfter : Option Time := none
  updatedBefore : Option Time := none

/-- `data_query` and `count_query`, by their conditions. -/
structure Queries where
  data : List (Condition Message) := []
  count : List (Condition Message) := []

/-- `if value:` both queries get a condition on it. -/
def Queries.whereIf {β : Type} (queries : Queries) (truthy : β → Bool) (value : Option β)
    (condition : β → Condition Message) : Queries :=
  match value with
  | none => queries
  | some b =>
    if truthy b then
      { data := queries.data ++ [condition b], count := queries.count ++ [condition b] }
    else queries

/-- The truth value of an integer. Members of the enumerations and points in time are always
true. -/
def truthyInt (n : ℤ) : Bool :=
  n ≠ 0

/-- The truth value of what is never false. -/
def always {β : Type} (_ : β) : Bool :=
  true

namespace MessageRepository

/-- The queries that the filters build. -/
def queries (filters : MessageFilters) : Queries :=
  let queries : Queries := {}
  let queries := queries.whereIf truthyInt filters.userId fun userId =>
    ⟨fun m => m.userId = userId, [userId]⟩
  let queries := queries.whereIf always filters.status fun status =>
    ⟨fun m => m.status = status, []⟩
  let queries := queries.whereIf always filters.priority fun priority =>
    ⟨fun m => m.priority = priority, []⟩
  let queries := queries.whereIf always filters.paymentStatus fun paymentStatus =>
    ⟨fun m => m.paymentStatus = paymentStatus, []⟩
  let queries := queries.whereIf always filters.createdAfter fun t => ⟨fun m => t ≤ m.createdAt, []⟩
  let queries := queries.whereIf always filters.createdBefore fun t =>
    ⟨fun m => m.createdAt ≤ t, []⟩
  let queries := queries.whereIf always filters.updatedAfter fun t => ⟨fun m => t ≤ m.updatedAt, []⟩
  queries.whereIf always filters.updatedBefore fun t => ⟨fun m => m.updatedAt ≤ t, []⟩

/-- `ORDER BY created_at DESC`. -/
def newestFirst (m m' : Message) : Prop :=
  m'.createdAt ≤ m.createdAt

instance : DecidableRel newestFirst := fun m m' =>
  inferInstanceAs (Decidable (m'.createdAt ≤ m.createdAt))

instance : Std.Total newestFirst :=
  ⟨fun m m' => le_total m'.createdAt m.createdAt⟩

instance : IsTrans Message newestFirst :=
  ⟨fun _ _ _ h h' => le_trans h' h⟩

/-- `get_messages_slice` : the count and the rows of a slice. -/
def getMessagesSlice (scan : Scan Message) (limit offset : ℕ) (filters : MessageFilters)
    (db : Db) : Except Exn (List Message × ℕ) := do
  let queries := queries filters
  let counted ← selectWhere queries.count db.messages.rows
  let selected ← selectWhere queries.data db.messages.rows
  let messages ← limitOffset limit offset (orderBy newestFirst scan selected)
  return (messages, counted.length)

end MessageRepository

/-- `MessageUseCase.get_messages_slice`. -/
def MessageUseCase.getMessagesSlice (scan : Scan Message) (params : PaginationParams)
    (filters : MessageFilters) (db : Db) : Except Exn (PaginatedResponse Message) := do
  let (messages, total) ←
    MessageRepository.getMessagesSlice scan params.limit params.offset filters db
  return .make messages total params

/-! ## Users -/

/-- `get_users_slice`, in no order. -/
def UserRepository.getUsersSlice (scan : Scan User) (limit offset : ℕ) (db : Db) :
    Except Exn (List User × ℕ) := do
  let totalCount := db.users.rows.length
  let users ← limitOffset limit offset (scan.visit db.users.rows)
  return (users, totalCount)

/-- `UserUseCase.get_users_slice`. -/
def UserUseCase.getUsersSlice (scan : Scan User) (params : PaginationParams) (db : Db) :
    Except Exn (PaginatedResponse User) := do
  let (users, total) ← UserRepository.getUsersSlice scan params.limit params.offset db
  return .make users total params

/-! ## What the queries select -/

theorem bindInteger_ok {n : ℤ} {u : Unit} : bindInteger n = .ok u ↔ fitsInt4 n = true := by
  unfold bindInteger
  split_ifs with h <;> simp [h]

theorem limitOffset_ok {ρ : Type} {limit offset : ℕ} {rows rows' : List ρ} :
    limitOffset limit offset rows = .ok rows' ↔
      (fitsInt4 limit = true ∧ fitsInt4 offset = true) ∧ rows' = slice limit offset rows := by
  simp only [limitOffset, bind_eq_ok, forM_eq_ok, bindInteger_ok, pure, Except.pure,
    Except.ok.injEq, exists_const, List.forall_mem_cons, List.not_mem_nil, false_implies,
    implies_true, and_true, eq_comm (b := rows')]

namespace MessageFilters

/-- Every filter that is supplied is satisfied. -/
def accepts (filters : MessageFilters) (m : Message) : Bool :=
  filters.userId.all (fun userId => m.userId = userId) &&
    filters.status.all (fun status => m.status = status) &&
    filters.priority.all (fun priority => m.priority = priority) &&
    filters.paymentStatus.all (fun paymentStatus => m.paymentStatus = paymentStatus) &&
    filters.createdAfter.all (fun t => t ≤ m.createdAt) &&
    filters.createdBefore.all (fun t => m.createdAt ≤ t) &&
    filters.updatedAfter.all (fun t => t ≤ m.updatedAt) &&
    filters.updatedBefore.all (fun t => m.updatedAt ≤ t)

/-- The filters that the queries apply. -/
def applied (filters : MessageFilters) : MessageFilters :=
  { filters with userId := filters.userId.filter truthyInt }

/-- The rows that the queries select. -/
def selected (filters : MessageFilters) (db : Db) : List Message :=
  db.messages.rows.filter filters.applied.accepts

end MessageFilters

namespace Queries

variable {β : Type} {queries : Queries} {truthy : β → Bool} {value : Option β}
  {condition : β → Condition Message}

theorem data_whereIf (h : queries.data = queries.count) :
    (queries.whereIf truthy value condition).data =
      (queries.whereIf truthy value condition).count := by
  unfold whereIf
  split
  · exact h
  · split_ifs
    · exact congrArg (· ++ _) h
    · exact h

theorem holds_whereIf (m : Message) :
    ((queries.whereIf truthy value condition).count.all fun c => c.holds m) =
      ((queries.count.all fun c => c.holds m) &&
        (value.filter truthy).all fun b => (condition b).holds m) := by
  unfold whereIf
  cases value with
  | none => simp
  | some b => by_cases hb : truthy b = true <;> simp [hb]

theorem integers_whereIf :
    (queries.whereIf truthy value condition).count.flatMap Condition.integers =
      queries.count.flatMap Condition.integers ++
        (value.filter truthy).toList.flatMap fun b => (condition b).integers := by
  unfold whereIf
  cases value with
  | none => simp
  | some b => by_cases hb : truthy b = true <;> simp [hb, Option.filter]

end Queries

theorem filter_always {β : Type} (value : Option β) : value.filter always = value := by
  cases value <;> rfl

namespace MessageRepository

variable {filters : MessageFilters}

/-- Both queries have the same conditions. -/
theorem data_queries : (queries filters).data = (queries filters).count := by
  unfold queries
  iterate 8 refine Queries.data_whereIf ?_
  rfl

theorem holds_queries (m : Message) :
    ((queries filters).count.all fun c => c.holds m) = filters.applied.accepts m := by
  simp only [queries, Queries.holds_whereIf, filter_always, List.all_nil, Bool.true_and,
    MessageFilters.accepts, MessageFilters.applied]

/-- The user is the one integer that is bound to a condition. -/
theorem integers_queries : (queries filters).count.flatMap Condition.integers =
    filters.applied.userId.toList := by
  simp only [queries, Queries.integers_whereIf, filter_always, MessageFilters.applied]
  simp

theorem selectWhere_ok {conditions : List (Condition Message)}
    (hc : conditions = (queries filters).count) {db : Db} {rows : List Message} :
    selectWhere conditions db.messages.rows = .ok rows ↔
      (∀ u ∈ filters.applied.userId, fitsInt4 u = true) ∧ rows = filters.selected db := by
  have hselected : (db.messages.rows.filter fun m =>
      (queries filters).count.all fun c => c.holds m) = filters.selected db :=
    List.filter_congr fun m _ => holds_queries m
  subst hc
  simp only [selectWhere, bind_eq_ok, forM_eq_ok, bindInteger_ok, integers_queries,
    Option.mem_toList, hselected, pure, Except.pure, Except.ok.injEq, exists_const,
    eq_comm (b := rows)]
  rfl

/-- A listing that is returned is a slice of the rows selected, with their number. -/
theorem getMessagesSlice_ok {scan : Scan Message} {limit offset : ℕ} {db : Db}
    {messages : List Message} {total : ℕ} :
    getMessagesSlice scan limit offset filters db = .ok (messages, total) ↔
      ((∀ u ∈ filters.applied.userId, fitsInt4 u = true) ∧ fitsInt4 limit = true ∧
        fitsInt4 offset = true) ∧
      messages = slice limit offset (orderBy newestFirst scan (filters.selected db)) ∧
      total = (filters.selected db).length := by
  simp only [getMessagesSlice, bind_eq_ok, selectWhere_ok data_queries, selectWhere_ok rfl,
    limitOffset_ok, pure, Except.pure, Except.ok.injEq, Prod.mk.injEq]
  refine ⟨?_, ?_⟩
  · rintro ⟨_, ⟨hu, rfl⟩, _, ⟨-, rfl⟩, _, ⟨⟨hl, ho⟩, rfl⟩, rfl, rfl⟩
    exact ⟨⟨hu, hl, ho⟩, rfl, rfl⟩
  · rintro ⟨⟨hu, hl, ho⟩, rfl, rfl⟩
    exact ⟨_, ⟨hu, rfl⟩, _, ⟨hu, rfl⟩, _, ⟨⟨hl, ho⟩, rfl⟩, rfl, rfl⟩

end MessageRepository

/-! ## Filters -/

/-- The rows that every supplied filter accepts. -/
def MessageFilters.accepted (filters : MessageFilters) (db : Db) : List Message :=
  db.messages.rows.filter filters.accepts

/-- A listing counts the rows that every supplied filter accepts, and is a slice of them. -/
structure Honours (filters : MessageFilters) (db : Db) (params : PaginationParams)
    (listing : List Message × ℕ) : Prop where
  total : listing.2 = (filters.accepted db).length
  accepts : ∀ m ∈ listing.1, filters.accepts m = true
  slice : ∃ rows, rows.Perm (filters.accepted db) ∧ rows.Pairwise MessageRepository.newestFirst ∧
    listing.1 = slice params.limit params.offset rows

namespace MessageFilters

variable {filters : MessageFilters} {db : Db}

/-- The filters but the one by user. -/
def others (filters : MessageFilters) : MessageFilters :=
  { filters with userId := none }

theorem applied_of_ne (h : filters.userId ≠ some 0) : filters.applied = filters := by
  have hfilter : filters.userId.filter truthyInt = filters.userId := by
    cases hu : filters.userId with
    | none => rfl
    | some u =>
      have hu0 : u ≠ 0 := fun h0 => h (by rw [hu, h0])
      exact if_pos (decide_eq_true hu0)
  rw [applied, hfilter]

theorem applied_of_zero (h : filters.userId = some 0) : filters.applied = filters.others := by
  rw [applied, others, h]
  rfl

/-- The user 0 that is not bound would fit. -/
theorem fits_applied : (∀ u ∈ filters.applied.userId, fitsInt4 u = true) ↔
    ∀ u ∈ filters.userId, fitsInt4 u = true := by
  by_cases h0 : filters.userId = some 0
  · rw [applied_of_zero h0, h0]
    simp [others, fitsInt4]
  · rw [applied_of_ne h0]

theorem accepted_of_zero (h : filters.userId = some 0) :
    filters.accepted db = (filters.selected db).filter fun m => m.userId = 0 := by
  rw [selected, applied_of_zero h, List.filter_filter]
  refine List.filter_congr fun m _ => ?_
  simp [accepts, others, h, Bool.and_assoc]

/-- The queries select what every filter accepts, when there is no filter by the user 0, or it
would leave nothing out. -/
theorem length_selected_iff : (filters.selected db).length = (filters.accepted db).length ↔
    (filters.userId = some 0 → ∀ m ∈ db.messages, filters.others.accepts m = true →
      m.userId = 0) := by
  by_cases h : filters.userId = some 0
  · rw [accepted_of_zero h, eq_comm, List.length_filter_eq_length_iff]
    simp [selected, applied_of_zero h, h, Table.mem_def]
  · rw [selected, applied_of_ne h]
    exact iff_of_true rfl fun h0 => absurd h0 h

theorem selected_eq_accepted (h : filters.userId = some 0 → ∀ m ∈ db.messages,
    filters.others.accepts m = true → m.userId = 0) :
    filters.selected db = filters.accepted db := by
  by_cases h0 : filters.userId = some 0
  · rw [accepted_of_zero h0, eq_comm, List.filter_eq_self]
    intro m hm
    rw [selected, applied_of_zero h0, List.mem_filter] at hm
    exact decide_eq_true (h h0 m hm.1 hm.2)
  · rw [selected, applied_of_ne h0]
    rfl

end MessageFilters

theorem fitsInt4_limit (params : PaginationParams) : fitsInt4 params.limit = true := by
  have hsize := params.size_le
  exact decide_eq_true ⟨by unfold PaginationParams.limit; omega,
    by unfold PaginationParams.limit; omega⟩

/-- A listing honours its filters exactly when its integers have 32 bits, and there is no filter
by the user 0, or all the rows that the other filters accept are of that user. -/
theorem filters_honoured_iff (scan : Scan Message) (params : PaginationParams)
    (filters : MessageFilters) (db : Db) :
    (∃ listing, MessageRepository.getMessagesSlice scan params.limit params.offset filters db =
        .ok listing ∧ Honours filters db params listing) ↔
      (∀ u ∈ filters.userId, fitsInt4 u = true) ∧ fitsInt4 params.offset = true ∧
        (filters.userId = some 0 → ∀ m ∈ db.messages, filters.others.accepts m = true →
          m.userId = 0) := by
  refine ⟨?_, ?_⟩
  · rintro ⟨⟨messages, total⟩, hok, hh⟩
    obtain ⟨⟨hu, -, ho⟩, -, htotal⟩ := MessageRepository.getMessagesSlice_ok.1 hok
    exact ⟨MessageFilters.fits_applied.1 hu, ho,
      MessageFilters.length_selected_iff.1 (htotal.symm.trans hh.total)⟩
  · rintro ⟨hu, ho, h0⟩
    have hsel := MessageFilters.selected_eq_accepted h0
    have hperm := orderBy_perm MessageRepository.newestFirst scan (filters.accepted db)
    refine ⟨_, MessageRepository.getMessagesSlice_ok.2
      ⟨⟨MessageFilters.fits_applied.2 hu, fitsInt4_limit params, ho⟩, rfl, rfl⟩, ?_⟩
    rw [hsel]
    refine ⟨rfl, fun m hm => ?_, _, hperm, List.pairwise_insertionSort _ _, rfl⟩
    have hmem := hperm.mem_iff.1 (List.mem_of_mem_drop (List.mem_of_mem_take hm))
    exact (List.mem_filter.1 hmem).2

/-- A message of the user 1. -/
def Message.listed : Message :=
  { id := 10, userId := 1, recipient := "09121234567", body := "hello", cost := 10,
    priority := .normal, idempotencyKey := 20, createdAt := 0, updatedAt := 0 }

/-- The listing for the user 0 has the messages of every user. -/
theorem user_zero_listed :
    ¬∀ (scan : Scan Message) (params : PaginationParams) (filters : MessageFilters) (db : Db)
        (messages : List Message) (total : ℕ),
      MessageRepository.getMessagesSlice scan params.limit params.offset filters db =
        .ok (messages, total) →
      (∀ m ∈ messages, filters.accepts m = true) ∧
        total = (db.messages.rows.filter filters.accepts).length := by
  intro h
  have hlisted := h .stored {} { userId := some 0 }
    { Db.empty with messages := ⟨[.listed], by decide⟩ } [.listed] 1
    (MessageRepository.getMessagesSlice_ok.2
      ⟨⟨by simp [MessageFilters.applied, truthyInt], by decide, by decide⟩,
        rfl, rfl⟩)
  exact absurd hlisted.2 (by decide)

end Abrio
