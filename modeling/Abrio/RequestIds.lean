import Abrio.Library.Uuid

/-!
# Request ids

`RequestIdAndMetricsMiddleware` names every request : by the header the client sends, if that reads
as a UUID, else by a UUID it draws. The name is in the log lines of the request and in a header of
its response.

Whatever a client sends, the name is a UUID in its usual spelling, so that no header gets into a log
line as it is. Sent again it is kept ; each way of spelling a UUID gives its usual one ; and headers
that read as two UUIDs are never given one name (`request_ids`).
-/

open Python Python.Str Python.Uuid

namespace Abrio

/-- A UUID, as `uuid4` draws it. -/
abbrev DrawnUuid := Fin (2 ^ 128)

/-- `UUID(value.strip())`, of a header that is there. -/
def readRequestId (value : Option Str) : Option ℕ :=
  match value with
  | none => none
  | some value => if value = [] then none else parse? (stripWhere isSpace value)

/-- `normalize_request_id`, with the UUID that `uuid4` draws if it has to. -/
def normalizeRequestId (drawn : DrawnUuid) (value : Option Str) : Str :=
  match readRequestId value with
  | some n => format n
  | none => format drawn

/-- How a client may spell a UUID : any case, dashes anywhere, in braces or behind `urn:uuid:`. -/
inductive Spelling (n : ℕ) : Str → Prop
  | braces {l s r : Str} (left : ∀ c ∈ l, c = 0x7B ∨ c = 0x7D) (digits : Spells s n)
    (right : ∀ c ∈ r, c = 0x7B ∨ c = 0x7D) : Spelling n (l ++ s ++ r)
  | urn {s : Str} (digits : Spells s n) : Spelling n (ofString "urn:uuid:" ++ s)

theorem isSpace_of_spells {s : Str} {n : ℕ} (h : Spells s n) {c : ℕ} (hc : c ∈ s) :
    isSpace c = false := by
  rcases h.range hc with rfl | hc
  · decide
  · exact isSpace_of_hexDigit? hc

namespace Spelling

variable {s : Str} {n : ℕ}

theorem isSpace_eq_false (h : Spelling n s) {c : ℕ} (hc : c ∈ s) : isSpace c = false := by
  cases h with
  | braces left digits right =>
    have hbrace (h : c = 0x7B ∨ c = 0x7D) : isSpace c = false := by
      rcases h with rfl | rfl <;> decide
    rcases List.mem_append.1 hc with hc | hc
    · rcases List.mem_append.1 hc with hc | hc
      · exact hbrace (left c hc)
      · exact isSpace_of_spells digits hc
    · exact hbrace (right c hc)
  | urn digits =>
    have hurn : ∀ c ∈ ofString "urn:uuid:", isSpace c = false := by decide
    rcases List.mem_append.1 hc with hc | hc
    · exact hurn c hc
    · exact isSpace_of_spells digits hc

theorem ne_nil (h : Spelling n s) : s ≠ [] := by
  cases h with
  | braces left digits right => simp [digits.ne_nil]
  | urn digits => simp [digits.ne_nil]

theorem parse?_eq (h : Spelling n s) : parse? s = some (n % 16 ^ 32) := by
  cases h with
  | braces left digits right => exact digits.parse?_braces left right
  | urn digits => exact digits.parse?_urn

/-- A spelling is read, with white space around it or without. -/
theorem readRequestId (h : Spelling n s) (hn : n < 2 ^ 128) {l r : Str}
    (hl : ∀ c ∈ l, isSpace c = true) (hr : ∀ c ∈ r, isSpace c = true) :
    Abrio.readRequestId (some (l ++ s ++ r)) = some n := by
  have hne : l ++ s ++ r ≠ [] := by simp [h.ne_nil]
  rw [Abrio.readRequestId, if_neg hne, stripWhere_append hl (fun c hc => h.isSpace_eq_false hc)
    h.ne_nil hr, h.parse?_eq, Nat.mod_eq_of_lt (hn.trans_eq (by norm_num))]

theorem format (n : ℕ) : Spelling n (Uuid.format n) := by
  have h := braces (l := []) (r := []) (fun c hc => absurd hc List.not_mem_nil) (spells_format n)
    fun c hc => absurd hc List.not_mem_nil
  rwa [List.nil_append, List.append_nil] at h

end Spelling

theorem readRequestId_format {n : ℕ} (hn : n < 2 ^ 128) :
    readRequestId (some (format n)) = some n := by
  have h := (Spelling.format n).readRequestId hn (l := []) (r := [])
    (fun c hc => absurd hc List.not_mem_nil) fun c hc => absurd hc List.not_mem_nil
  rwa [List.nil_append, List.append_nil] at h

theorem lt_of_readRequestId {value : Option Str} {n : ℕ} (h : readRequestId value = some n) :
    n < 2 ^ 128 := by
  unfold readRequestId at h
  split at h
  · cases h
  · split_ifs at h
    exact lt_of_parse? h

theorem exists_normalizeRequestId (drawn : DrawnUuid) (value : Option Str) :
    ∃ n < 2 ^ 128, normalizeRequestId drawn value = format n := by
  unfold normalizeRequestId
  cases h : readRequestId value with
  | none => exact ⟨drawn, drawn.isLt, rfl⟩
  | some n => exact ⟨n, lt_of_readRequestId h, rfl⟩

/-- The names of requests, for any header. -/
theorem request_ids (drawn : DrawnUuid) (value : Option Str) :
    let id := normalizeRequestId drawn value
    (id.length = 36 ∧ ∃ n < 2 ^ 128, id = format n) ∧
      (∀ drawn', normalizeRequestId drawn' (some id) = id) ∧
      (∀ n < 2 ^ 128, ∀ s, Spelling n s → ∀ l r : Str, (∀ c ∈ l, isSpace c = true) →
        (∀ c ∈ r, isSpace c = true) → value = some (l ++ s ++ r) → id = format n) ∧
      ∀ drawn' value' n n', readRequestId value = some n → readRequestId value' = some n' →
        (id = normalizeRequestId drawn' value' ↔ n = n') := by
  intro id
  obtain ⟨n, hn, hid⟩ : ∃ n < 2 ^ 128, id = format n := exists_normalizeRequestId drawn value
  refine ⟨⟨by rw [hid, length_format], n, hn, hid⟩, fun drawn' => ?_, ?_, ?_⟩
  · rw [hid, normalizeRequestId, readRequestId_format hn]
  · rintro m hm s hs l r hl hr rfl
    show normalizeRequestId _ _ = _
    rw [normalizeRequestId, hs.readRequestId hm hl hr]
  · intro drawn' value' m m' hm hm'
    show normalizeRequestId _ _ = _ ↔ _
    rw [normalizeRequestId, normalizeRequestId, hm, hm']
    exact format_inj (lt_of_readRequestId hm) (lt_of_readRequestId hm')

end Abrio
