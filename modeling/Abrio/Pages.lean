import Abrio.Listing

/-!
# Pages

A reader who asks for the pages of `get_messages` or `get_users` one after another, of a table
that does not change. Each page is a query of its own, so the rows that compare equal may come in
another order every time. The pages are the matching rows exactly when no page ends within a
group of messages of one time, and for the users, who are listed in no order, when there is one
page (`pages_complete_iff`).
-/

open Relational Runs

namespace Abrio

/-- The page after `i` others of the same size. -/
def PaginationParams.nth (params : PaginationParams) (i : ℕ) : PaginationParams :=
  { params with page := i + 1, page_pos := Nat.le_add_left 1 i }

theorem PaginationParams.offset_nth (params : PaginationParams) (i : ℕ) :
    (params.nth i).offset = i * params.size := by
  rw [offset, nth, Nat.add_sub_cancel]

/-- The number of pages of `size` rows for all the rows. -/
def pageCount (total size : ℕ) : ℕ :=
  ⌈(total / size : ℚ)⌉₊

/-- Every page up to the `extra + 1` pages after the last is returned with the number of rows and
of pages, the pages up to the last together are the rows, each once, and the others are empty. -/
structure Complete {α : Type} (rows : List α) (size extra : ℕ)
    (page : ℕ → Except Exn (PaginatedResponse α)) (items : ℕ → List α) : Prop where
  returned : ∀ i ≤ pageCount rows.length size + extra,
    page i = .ok ⟨items i, rows.length, i + 1, size, pageCount rows.length size⟩
  perm : ((List.range (pageCount rows.length size)).flatMap items).Perm rows
  empty : ∀ i ≤ pageCount rows.length size + extra, pageCount rows.length size ≤ i → items i = []

/-! ## Pages of a listing -/

theorem le_pageCount {size : ℕ} (hsize : 1 ≤ size) (total : ℕ) :
    total ≤ pageCount total size * size := by
  have hceil := Nat.le_ceil (total / size : ℚ)
  rw [div_le_iff₀ (by exact_mod_cast hsize)] at hceil
  exact_mod_cast hceil

theorem make_eq {α : Type} (items : List α) (total : ℕ) (params : PaginationParams) :
    PaginatedResponse.make items total params =
      ⟨items, total, params.page, params.size, pageCount total params.size⟩ := by
  rcases Nat.eq_zero_or_pos total with rfl | h
  · simp [PaginatedResponse.make, pageCount]
  · rw [PaginatedResponse.make, if_pos h]
    rfl

theorem fitsInt4_of_le {m n : ℕ} (h : fitsInt4 n = true) (hle : m ≤ n) : fitsInt4 m = true := by
  obtain ⟨-, hlt⟩ := of_decide_eq_true h
  exact decide_eq_true ⟨by omega, by omega⟩

section Listing

variable {α : Type} {le : α → α → Prop} [DecidableRel le] [Std.Total le] [IsTrans α le]
  {params : PaginationParams} {l rows : List α} {extra : ℕ} {bound : Prop}
  {page : (ℕ → Scan α) → ℕ → Except Exn (PaginatedResponse α)}

/-- A listing whose pages are slices of the rows `l` is a listing of all of `rows` exactly when
its integers fit, the two have the same rows, and every page ends at a cut. -/
theorem complete_iff (hl : l.Nodup)
    (hpage : ∀ scans i r, page scans i = .ok r ↔
      (bound ∧ fitsInt4 ((i * params.size : ℕ) : ℤ) = true) ∧
        r = .make (slice params.size (i * params.size) (orderBy le (scans i) l)) l.length
          (params.nth i)) :
    (∀ scans, ∃ items, Complete rows params.size extra (page scans) items) ↔
      bound ∧ fitsInt4 (((pageCount rows.length params.size + extra) * params.size : ℕ) : ℤ) =
        true ∧ l.Perm rows ∧
        ∀ i, 1 ≤ i → i * params.size < l.length → Cut le l (i * params.size) := by
  have hsize := params.size_pos
  refine ⟨?_, ?_⟩
  · intro h
    obtain ⟨_, hstored⟩ := h fun _ => .stored
    obtain ⟨⟨hb, hfits⟩, hlast⟩ := (hpage _ _ _).1 (hstored.returned _ le_rfl)
    have hlength : rows.length = l.length := congrArg PaginatedResponse.total hlast
    have hpages : ∀ scans, (pages le scans params.size l
        (pageCount rows.length params.size)).Perm rows := by
      intro scans
      obtain ⟨items, hc⟩ := h scans
      have hitems : ∀ i < pageCount rows.length params.size,
          slice params.size (i * params.size) (orderBy le (scans i) l) = items i := fun i hi =>
        (congrArg PaginatedResponse.items
          ((hpage _ _ _).1 (hc.returned i (by omega))).2).symm
      rw [pages, List.flatMap_congr fun i hi => hitems i (List.mem_range.1 hi)]
      exact hc.perm
    have hperm : l.Perm rows := by
      have hconst := hpages fun _ => .stored
      rw [pages_const, List.take_of_length_le] at hconst
      · exact (orderBy_perm le .stored l).symm.trans hconst
      · rw [(orderBy_perm le .stored l).length_eq, hlength]
        exact le_pageCount hsize _
    exact ⟨hb, hfits, hperm, (pages_perm_iff hl hsize (hlength ▸ le_pageCount hsize _)).1
      fun scans => (hpages scans).trans hperm.symm⟩
  · rintro ⟨hb, hfits, hperm, hcut⟩ scans
    rw [hperm.length_eq.symm] at hfits
    refine ⟨fun i => slice params.size (i * params.size) (orderBy le (scans i) l), ?_, ?_, ?_⟩
    · intro i hi
      rw [← hperm.length_eq] at hi ⊢
      exact (hpage _ _ _).2
        ⟨⟨hb, fitsInt4_of_le hfits (Nat.mul_le_mul_right _ hi)⟩,
          (make_eq _ _ (params.nth i)).symm⟩
    · rw [← hperm.length_eq]
      exact (pages_perm hcut scans (le_pageCount hsize _)).trans hperm
    · intro i _ hi
      refine slice_eq_nil ?_
      rw [(orderBy_perm le (scans i) l).length_eq, hperm.length_eq]
      exact (le_pageCount hsize _).trans (Nat.mul_le_mul_right _ hi)

end Listing

theorem MessageUseCase.getMessagesSlice_ok {scan : Scan Message} {params : PaginationParams}
    {filters : MessageFilters} {db : Db} {r : PaginatedResponse Message} :
    MessageUseCase.getMessagesSlice scan params filters db = .ok r ↔
      ((∀ u ∈ filters.applied.userId, fitsInt4 u = true) ∧ fitsInt4 params.offset = true) ∧
        r = .make (slice params.limit params.offset
          (orderBy MessageRepository.newestFirst scan (filters.selected db)))
          (filters.selected db).length params := by
  simp only [getMessagesSlice, bind_eq_ok, pure, Except.pure, Except.ok.injEq, Prod.exists,
    MessageRepository.getMessagesSlice_ok, fitsInt4_limit, true_and]
  refine ⟨?_, ?_⟩
  · rintro ⟨_, _, ⟨hbound, rfl, rfl⟩, rfl⟩
    exact ⟨hbound, rfl⟩
  · rintro ⟨hbound, rfl⟩
    exact ⟨_, _, ⟨hbound, rfl, rfl⟩, rfl⟩

theorem UserUseCase.getUsersSlice_ok {scan : Scan User} {params : PaginationParams} {db : Db}
    {r : PaginatedResponse User} :
    UserUseCase.getUsersSlice scan params db = .ok r ↔ fitsInt4 params.offset = true ∧
      r = .make (slice params.limit params.offset (scan.visit db.users.rows))
        db.users.rows.length params := by
  simp only [getUsersSlice, UserRepository.getUsersSlice, bind_eq_ok, limitOffset_ok, pure,
    Except.pure, Except.ok.injEq, Prod.exists, Prod.mk.injEq, fitsInt4_limit, true_and]
  refine ⟨?_, ?_⟩
  · rintro ⟨_, _, ⟨_, ⟨hbound, rfl⟩, rfl, rfl⟩, rfl⟩
    exact ⟨hbound, rfl⟩
  · rintro ⟨hbound, rfl⟩
    exact ⟨_, _, ⟨_, ⟨hbound, rfl⟩, rfl, rfl⟩, rfl⟩

/-! ## Completeness -/

theorem nodup_selected (filters : MessageFilters) (db : Db) : (filters.selected db).Nodup :=
  (List.Nodup.of_map _ db.messages.nodup).filter _

/-- The messages that match are on the pages, each once, exactly when the integers have 32 bits,
the listing honours its filters, and every page ends at a cut. -/
theorem messages_complete_iff (params : PaginationParams) (filters : MessageFilters) (db : Db)
    (extra : ℕ) :
    (∀ scans : ℕ → Scan Message, ∃ items, Complete (filters.accepted db) params.size extra
        (fun i => MessageUseCase.getMessagesSlice (scans i) (params.nth i) filters db) items) ↔
      (∀ u ∈ filters.userId, fitsInt4 u = true) ∧
        fitsInt4 (((pageCount (filters.accepted db).length params.size + extra) * params.size :
          ℕ) : ℤ) = true ∧
        (filters.userId = some 0 → ∀ m ∈ db.messages, filters.others.accepts m = true →
          m.userId = 0) ∧
        ∀ i, 1 ≤ i → i * params.size < (filters.accepted db).length →
          Cut MessageRepository.newestFirst (filters.accepted db) (i * params.size) := by
  have hpage : ∀ (scans : ℕ → Scan Message) (i : ℕ) (r : PaginatedResponse Message),
      MessageUseCase.getMessagesSlice (scans i) (params.nth i) filters db = .ok r ↔ _ :=
    fun scans i r => MessageUseCase.getMessagesSlice_ok
  simp only [PaginationParams.offset_nth] at hpage
  rw [complete_iff (nodup_selected filters db) hpage, MessageFilters.fits_applied]
  refine and_congr_right fun _ => and_congr_right fun _ => ⟨?_, ?_⟩
  · rintro ⟨hperm, hcut⟩
    have h0 := MessageFilters.length_selected_iff.1 hperm.length_eq
    rw [MessageFilters.selected_eq_accepted h0] at hcut
    exact ⟨h0, hcut⟩
  · rintro ⟨h0, hcut⟩
    rw [MessageFilters.selected_eq_accepted h0]
    exact ⟨.refl _, hcut⟩

/-- In no order all the rows are one group. -/
theorem length_of_cut_true {α : Type} {l : List α} {k : ℕ} (h : Cut (fun _ _ => True) l k) :
    l.length = k := by
  obtain ⟨_, -, h⟩ := h
  simpa using h

/-- The users are on the pages, each once, exactly when the offsets have 32 bits and there is at
most one page. -/
theorem users_complete_iff (params : PaginationParams) (db : Db) (extra : ℕ) :
    (∀ scans : ℕ → Scan User, ∃ items, Complete db.users.rows params.size extra
        (fun i => UserUseCase.getUsersSlice (scans i) (params.nth i) db) items) ↔
      fitsInt4 (((pageCount db.users.rows.length params.size + extra) * params.size : ℕ) : ℤ) =
        true ∧ db.users.rows.length ≤ params.size := by
  have hpage : ∀ (scans : ℕ → Scan User) (i : ℕ) (r : PaginatedResponse User),
      UserUseCase.getUsersSlice (scans i) (params.nth i) db = .ok r ↔
        (True ∧ fitsInt4 ((i * params.size : ℕ) : ℤ) = true) ∧ _ := fun scans i r => by
    rw [UserUseCase.getUsersSlice_ok, true_and, PaginationParams.offset_nth, ← orderBy_true]
  have : Std.Total fun _ _ : User => True := ⟨fun _ _ => .inl trivial⟩
  have : IsTrans User fun _ _ => True := ⟨fun _ _ _ _ _ => trivial⟩
  rw [complete_iff (List.Nodup.of_map _ db.users.nodup) hpage, true_and]
  refine and_congr_right fun _ => ⟨?_, fun hle => ⟨.refl _, fun i hi hlt => ?_⟩⟩
  · rintro ⟨-, hcut⟩
    by_contra hlt
    have hfirst := length_of_cut_true (hcut 1 le_rfl (by omega))
    omega
  · have := Nat.mul_le_mul_right params.size hi
    omega

/-- The pages of the messages are complete exactly when the integers have 32 bits, the listing
honours its filters, and the messages up to the end of a page are those that are as new as some
message. The pages of the users are complete exactly when the offsets have 32 bits and there is
at most one page. -/
theorem pages_complete_iff (params : PaginationParams) (filters : MessageFilters) (db : Db)
    (extra : ℕ) :
    ((∀ scans : ℕ → Scan Message, ∃ items, Complete (filters.accepted db) params.size extra
        (fun i => MessageUseCase.getMessagesSlice (scans i) (params.nth i) filters db) items) ↔
      (∀ u ∈ filters.userId, fitsInt4 u = true) ∧
        fitsInt4 (((pageCount (filters.accepted db).length params.size + extra) * params.size :
          ℕ) : ℤ) = true ∧
        (filters.userId = some 0 → ∀ m ∈ db.messages, filters.others.accepts m = true →
          m.userId = 0) ∧
        ∀ i, 1 ≤ i → i * params.size < (filters.accepted db).length →
          ∃ m ∈ filters.accepted db,
            ((filters.accepted db).filter fun m' => m.createdAt ≤ m'.createdAt).length =
              i * params.size) ∧
    ((∀ scans : ℕ → Scan User, ∃ items, Complete db.users.rows params.size extra
        (fun i => UserUseCase.getUsersSlice (scans i) (params.nth i) db) items) ↔
      fitsInt4 (((pageCount db.users.rows.length params.size + extra) * params.size : ℕ) : ℤ) =
        true ∧ db.users.rows.length ≤ params.size) :=
  ⟨messages_complete_iff params filters db extra, users_complete_iff params db extra⟩

/-- A message of the same time as `Message.listed`. -/
def Message.listedNext : Message :=
  { Message.listed with id := 11, idempotencyKey := 21 }

/-- Two messages of one time, and two users, on pages of one. -/
def Db.twoOfEach : Db :=
  { Db.empty with
    users := ⟨[⟨1, "a"⟩, ⟨2, "b"⟩], by decide⟩
    messages := ⟨[.listed, .listedNext], by decide⟩ }

/-- The database can return the first of two messages of one time, or of two users, on both of
their pages. -/
theorem pages_incomplete :
    (¬∀ scans : ℕ → Scan Message, ∃ items,
      Complete (MessageFilters.accepted {} .twoOfEach) 1 0
        (fun i => MessageUseCase.getMessagesSlice (scans i)
          (PaginationParams.nth { size := 1 } i) {} .twoOfEach) items) ∧
    ¬∀ scans : ℕ → Scan User, ∃ items, Complete Db.twoOfEach.users.rows 1 0
        (fun i => UserUseCase.getUsersSlice (scans i)
          (PaginationParams.nth { size := 1 } i) .twoOfEach) items := by
  refine ⟨?_, ?_⟩
  · intro h
    obtain ⟨-, -, -, hcut⟩ := (messages_complete_iff { size := 1 } _ _ _).1 h
    obtain ⟨m, hm, hlength⟩ := hcut 1 le_rfl (by decide)
    rcases List.mem_cons.1 hm with rfl | hm
    · exact absurd hlength (by decide)
    · obtain rfl := List.mem_singleton.1 hm
      exact absurd hlength (by decide)
  · intro h
    exact absurd ((users_complete_iff { size := 1 } _ _).1 h).2 (by decide)

end Abrio
