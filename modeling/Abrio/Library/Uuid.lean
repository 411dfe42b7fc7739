import Abrio.Library.Str
import Mathlib.Tactic.GCongr
import Mathlib.Tactic.Ring

/-!
# UUIDs and their spellings

`uuid.UUID` of a string. `format` is `str` : 32 lower case hexadecimal digits in five groups.
`parse?` is the constructor, which takes more : it drops `urn:` and `uuid:`, strips braces, drops
every dash, and gives what is left to `int(…, 16)` if it has 32 characters. So letters of either
case, dashes anywhere, underscores between digits, a sign or a prefix `0x`, and the digits of any
script are let through. Whatever is let through is a number of 128 bits (`lt_of_parse?`), and a
spelling by 32 hexadecimal digits stands for their number (`Spells.parse?`).
-/

namespace Python

namespace Str

/-! ## Whitespace and digits -/

/-- `str.isspace` of one character. -/
def isSpace (c : ℕ) : Bool :=
  (0x09 ≤ c && c ≤ 0x0D) || (0x1C ≤ c && c ≤ 0x20) || c = 0x85 || c = 0xA0 || c = 0x1680 ||
    (0x2000 ≤ c && c ≤ 0x200A) || c = 0x2028 || c = 0x2029 || c = 0x202F || c = 0x205F ||
    c = 0x3000

/-- The characters of `p` removed at both ends. -/
def stripWhere (p : ℕ → Bool) (s : Str) : Str :=
  (s.dropWhile p).rdropWhile p

/-- `s.replace(sub, "")`, passing over the next `skip` characters. -/
def removeFrom (sub : Str) : ℕ → Str → Str
  | _, [] => []
  | skip + 1, _ :: s => removeFrom sub skip s
  | 0, c :: s =>
    if sub.isPrefixOf (c :: s) then removeFrom sub (sub.length - 1) s else c :: removeFrom sub 0 s

/-- `s.replace(sub, "")` of a text `sub` that is not empty. -/
def remove (sub s : Str) : Str :=
  removeFrom sub 0 s

/-! ## `int` of base 16 -/

/-- Whitespace that `int` passes over : of ASCII fewer characters than `str.isspace` has. -/
def isIntSpace (c : ℕ) : Bool :=
  isSpace c && !(0x1C ≤ c && c ≤ 0x1F)

/-- A digit of base 16 : a decimal digit of any script, or a letter of ASCII. -/
def intDigit? (c : ℕ) : Option ℕ :=
  match hexDigit? c with
  | some d => some d
  | none => (zeroDigits.find? fun z => z ≤ c && c ≤ z + 9).map (c - ·)

/-- The digits with single underscores between them, `n` being the number so far and `under`
whether an underscore came last. -/
def scanDigits (n : ℕ) (under : Bool) : Str → Option ℕ
  | [] => if under then none else some n
  | c :: s =>
    if c = 0x5F then if under then none else scanDigits n true s
    else match intDigit? c with
      | some d => scanDigits (n * 16 + d) false s
      | none => none

/-- What is left after a sign. -/
def dropSign : Str → Str
  | 0x2B :: s => s
  | s => s

/-- What is left after `0x` or `0X`, which an underscore may follow. -/
def dropPrefix : Str → Str
  | 0x30 :: x :: s =>
    if x = 0x78 ∨ x = 0x58 then
      match s with
      | 0x5F :: s => s
      | s => s
    else 0x30 :: x :: s
  | s => s

/-- `int(s, 16)` of a text without a dash : there is a digit, and an underscore stands after
one. -/
def intHex? (s : Str) : Option ℕ :=
  match dropPrefix (dropSign (stripWhere isIntSpace s)) with
  | [] => none
  | c :: s => if c = 0x5F then none else scanDigits 0 false (c :: s)

end Str

namespace Uuid

open Str

/-! ## Spelling and reading -/

/-- A hexadecimal digit, in lower case. -/
def hexDigit (d : ℕ) : ℕ :=
  if d < 10 then 0x30 + d else 0x57 + d

/-- The last `k` hexadecimal digits of a number. -/
def hex : ℕ → ℕ → Str
  | 0, _ => []
  | k + 1, n => hex k (n / 16) ++ [hexDigit (n % 16)]

/-- `str(uuid)`. -/
def format (n : ℕ) : Str :=
  let h := hex 32 n
  h.take 8 ++ [0x2D] ++ (h.drop 8).take 4 ++ [0x2D] ++ (h.drop 12).take 4 ++ [0x2D] ++
    (h.drop 16).take 4 ++ [0x2D] ++ h.drop 20

/-- `UUID(s)`. -/
def parse? (s : Str) : Option ℕ :=
  let s := remove (ofString "uuid:") (remove (ofString "urn:") s)
  let s := (stripWhere (fun c => c = 0x7B || c = 0x7D) s).filter (· ≠ 0x2D)
  if s.length = 32 then intHex? s else none

/-! ## What is read is a number of 128 bits -/

theorem hexDigit?_lt {c d : ℕ} (h : hexDigit? c = some d) : d < 16 := by
  unfold hexDigit? isDigit at h
  split_ifs at h with h1 h2 h3
  · simp only [Bool.and_eq_true, decide_eq_true_eq] at h1
    injection h
    omega
  · simp only [Bool.and_eq_true, decide_eq_true_eq] at h2
    injection h
    omega
  · simp only [Bool.and_eq_true, decide_eq_true_eq] at h3
    injection h
    omega

theorem intDigit?_lt {c d : ℕ} (h : intDigit? c = some d) : d < 16 := by
  unfold intDigit? at h
  split at h
  · rename_i d' hd
    injection h with h
    exact h ▸ hexDigit?_lt hd
  · obtain ⟨z, hz, rfl⟩ := Option.map_eq_some_iff.1 h
    have hrange := List.find?_some hz
    simp only [Bool.and_eq_true, decide_eq_true_eq] at hrange
    omega

theorem scanDigits_lt {s : Str} : ∀ {n : ℕ} {under : Bool} {r : ℕ},
    scanDigits n under s = some r → r < (n + 1) * 16 ^ s.length := by
  induction s with
  | nil =>
    intro n under r h
    unfold scanDigits at h
    split_ifs at h
    injection h
    simp
    omega
  | cons c s ih =>
    intro n under r h
    rw [List.length_cons, pow_succ]
    unfold scanDigits at h
    split_ifs at h with hc hu
    · calc r < (n + 1) * 16 ^ s.length := ih h
        _ ≤ (n + 1) * (16 ^ s.length * 16) := by
          gcongr
          omega
    · split at h
      · rename_i d hd
        have hd := intDigit?_lt hd
        calc r < (n * 16 + d + 1) * 16 ^ s.length := ih h
          _ ≤ ((n + 1) * 16) * 16 ^ s.length := by
            gcongr
            omega
          _ = (n + 1) * (16 ^ s.length * 16) := by ring
      · cases h

theorem length_stripWhere_le (p : ℕ → Bool) (s : Str) : (stripWhere p s).length ≤ s.length := by
  refine (List.rdropWhile_prefix p _).length_le.trans ?_
  exact (List.dropWhile_suffix p).length_le

theorem length_dropSign_le (s : Str) : (dropSign s).length ≤ s.length := by
  unfold dropSign
  split <;> simp

theorem length_dropPrefix_le (s : Str) : (dropPrefix s).length ≤ s.length := by
  unfold dropPrefix
  split
  · split_ifs
    · split <;> simp <;> omega
    · rfl
  · rfl

theorem lt_of_parse? {s : Str} {n : ℕ} (h : parse? s = some n) : n < 2 ^ 128 := by
  unfold parse? at h
  simp only at h
  split_ifs at h with hlen
  generalize List.filter _ _ = s at h hlen
  unfold intHex? at h
  have hle : (dropPrefix (dropSign (stripWhere isIntSpace s))).length ≤ 32 :=
    (length_dropPrefix_le _).trans ((length_dropSign_le _).trans
      ((length_stripWhere_le _ s).trans hlen.le))
  generalize dropPrefix _ = s at h hle
  split at h
  · cases h
  · split_ifs at h
    have hlt := scanDigits_lt h
    calc n < (0 + 1) * 16 ^ _ := hlt
      _ ≤ 16 ^ 32 := by
        rw [zero_add, one_mul]
        exact Nat.pow_le_pow_right (by norm_num) hle
      _ = 2 ^ 128 := by norm_num

/-! ## Texts that nothing is dropped from -/

theorem stripWhere_eq_self {p : ℕ → Bool} {s : Str} (h : ∀ c ∈ s, p c = false) :
    stripWhere p s = s := by
  have hleft : s.dropWhile p = s := by
    refine List.dropWhile_eq_self_iff.2 fun hlen => ?_
    rw [h _ (List.getElem_mem _)]
    exact Bool.false_ne_true
  rw [stripWhere, hleft]
  refine List.rdropWhile_eq_self_iff.2 fun hne => ?_
  rw [h _ (List.getLast_mem hne)]
  exact Bool.false_ne_true

theorem stripWhere_append {p : ℕ → Bool} {l s r : Str} (hl : ∀ c ∈ l, p c = true)
    (hs : ∀ c ∈ s, p c = false) (hne : s ≠ []) (hr : ∀ c ∈ r, p c = true) :
    stripWhere p (l ++ s ++ r) = s := by
  have hleft : (l ++ s ++ r).dropWhile p = s ++ r := by
    rw [List.append_assoc, List.dropWhile_append_of_pos hl]
    cases s with
    | nil => exact absurd rfl hne
    | cons c s =>
      rw [List.cons_append, List.dropWhile_cons_of_neg]
      rw [hs c List.mem_cons_self]
      exact Bool.false_ne_true
  rw [stripWhere, hleft, List.rdropWhile, List.reverse_append,
    List.dropWhile_append_of_pos (fun c hc => hr c (List.mem_reverse.1 hc))]
  refine List.rdropWhile_eq_self_iff.2 fun hne => ?_
  rw [hs _ (List.getLast_mem hne)]
  exact Bool.false_ne_true

/-- Nothing is removed where a character of the removed text does not occur. -/
theorem remove_of_notMem {sub s : Str} {c : ℕ} (hc : c ∈ sub) (h : c ∉ s) : remove sub s = s := by
  unfold remove
  induction s with
  | nil => rfl
  | cons d s ih =>
    have hpre : sub.isPrefixOf (d :: s) = false := by
      refine Bool.eq_false_iff.2 fun hpre => h ?_
      exact (List.isPrefixOf_iff_prefix.1 hpre).subset hc
    rw [removeFrom, if_neg (by rw [hpre]; exact Bool.false_ne_true),
      ih fun hmem => h (List.mem_cons_of_mem d hmem)]

theorem removeFrom_length_append (sub pre s : Str) :
    removeFrom sub pre.length (pre ++ s) = removeFrom sub 0 s := by
  induction pre with
  | nil => rfl
  | cons c pre ih => exact ih

/-- The text itself is removed in front. -/
theorem remove_append {sub : Str} (hne : sub ≠ []) (s : Str) :
    remove sub (sub ++ s) = remove sub s := by
  cases sub with
  | nil => exact absurd rfl hne
  | cons c sub =>
    have hpre : (c :: sub).isPrefixOf (c :: (sub ++ s)) = true :=
      List.isPrefixOf_iff_prefix.2 ⟨s, rfl⟩
    rw [remove, List.cons_append, removeFrom, if_pos hpre]
    exact removeFrom_length_append _ sub s

/-! ## Spellings -/

/-- The last `k` digits of a number in base 16. -/
def digits : ℕ → ℕ → List ℕ
  | 0, _ => []
  | k + 1, n => digits k (n / 16) ++ [n % 16]

/-- A text of dashes and of the 32 digits of a number, in either case. -/
def Spells (s : Str) (n : ℕ) : Prop :=
  (s.filter (· ≠ 0x2D)).map hexDigit? = (digits 32 n).map some

theorem length_digits (k n : ℕ) : (digits k n).length = k := by
  induction k generalizing n with
  | zero => rfl
  | succ k ih => rw [digits, List.length_append, ih, List.length_singleton]

theorem hexDigit?_hexDigit {d : ℕ} (h : d < 16) : hexDigit? (hexDigit d) = some d := by
  have hall : ∀ d < 16, hexDigit? (hexDigit d) = some d := by decide
  exact hall d h

theorem hex_eq_map_digits (k n : ℕ) : hex k n = (digits k n).map hexDigit := by
  induction k generalizing n with
  | zero => rfl
  | succ k ih => rw [hex, digits, List.map_append, ih, List.map_singleton]

theorem lt_of_mem_digits {k n d : ℕ} (h : d ∈ digits k n) : d < 16 := by
  induction k generalizing n with
  | zero => exact absurd h List.not_mem_nil
  | succ k ih =>
    rcases List.mem_append.1 h with h | h
    · exact ih h
    · rw [List.mem_singleton.1 h]
      exact Nat.mod_lt n (by norm_num)

theorem foldl_digits (k n : ℕ) : (digits k n).foldl (fun m d => m * 16 + d) 0 = n % 16 ^ k := by
  induction k generalizing n with
  | zero => simp [digits, Nat.mod_one]
  | succ k ih =>
    rw [digits, List.foldl_append, ih, List.foldl_cons, List.foldl_nil, pow_succ',
      Nat.mod_mul]
    omega

/-! ## What a spelling reads as -/

theorem range_of_hexDigit? {c : ℕ} (h : (hexDigit? c).isSome = true) :
    0x30 ≤ c ∧ c ≤ 0x39 ∨ 0x41 ≤ c ∧ c ≤ 0x46 ∨ 0x61 ≤ c ∧ c ≤ 0x66 := by
  unfold hexDigit? isDigit at h
  split_ifs at h with h1 h2 h3
  · exact Or.inl (by simpa using h1)
  · exact Or.inr (Or.inl (by simpa using h2))
  · exact Or.inr (Or.inr (by simpa using h3))
  · cases h

theorem isSpace_of_hexDigit? {c : ℕ} (h : (hexDigit? c).isSome = true) : isSpace c = false := by
  have hc := range_of_hexDigit? h
  simp only [isSpace, Bool.or_eq_false_iff, Bool.and_eq_false_iff, decide_eq_false_iff_not]
  omega

theorem scanDigits_of_map {s : Str} {ds : List ℕ} (h : s.map hexDigit? = ds.map some) (n : ℕ) :
    scanDigits n false s = some (ds.foldl (fun m d => m * 16 + d) n) := by
  induction s generalizing ds n with
  | nil =>
    cases ds with
    | nil => rfl
    | cons d ds => cases h
  | cons c s ih =>
    cases ds with
    | nil => cases h
    | cons d ds =>
      rw [List.map_cons, List.map_cons] at h
      injection h with hd h
      have hc := range_of_hexDigit? (Option.isSome_of_eq_some hd)
      have hint : intDigit? c = some d := by rw [intDigit?, hd]
      rw [scanDigits, if_neg (by omega), hint, List.foldl_cons]
      exact ih h (n * 16 + d)

theorem intHex?_of_map {s : Str} {ds : List ℕ} (h : s.map hexDigit? = ds.map some)
    (hne : s ≠ []) : intHex? s = some (ds.foldl (fun m d => m * 16 + d) 0) := by
  have hdigit : ∀ c ∈ s, (hexDigit? c).isSome = true := by
    intro c hc
    have hmem : hexDigit? c ∈ ds.map some := h ▸ List.mem_map_of_mem hc
    obtain ⟨d, -, hd⟩ := List.mem_map.1 hmem
    exact Option.isSome_of_eq_some hd.symm
  have hstrip : stripWhere isIntSpace s = s := by
    refine stripWhere_eq_self fun c hc => ?_
    rw [isIntSpace, isSpace_of_hexDigit? (hdigit c hc), Bool.false_and]
  have hsign : dropSign s = s := by
    unfold dropSign
    split
    · exact absurd (range_of_hexDigit? (hdigit _ List.mem_cons_self)) (by decide)
    · rfl
  have hpre : dropPrefix s = s := by
    unfold dropPrefix
    split
    · rename_i x s
      have hx := range_of_hexDigit? (hdigit x (List.mem_cons_of_mem _ List.mem_cons_self))
      rw [if_neg (by omega)]
    · rfl
  have hscan := scanDigits_of_map h 0
  rw [intHex?, hstrip, hsign, hpre]
  cases s with
  | nil => exact absurd rfl hne
  | cons c s =>
    have hc := range_of_hexDigit? (hdigit c List.mem_cons_self)
    exact (if_neg (by omega)).trans hscan

namespace Spells

variable {s : Str} {n : ℕ}

theorem range (h : Spells s n) {c : ℕ} (hc : c ∈ s) :
    c = 0x2D ∨ (hexDigit? c).isSome = true := by
  by_cases hdash : c = 0x2D
  · exact Or.inl hdash
  · refine Or.inr ?_
    have hmem : hexDigit? c ∈ (digits 32 n).map some :=
      h ▸ List.mem_map_of_mem (List.mem_filter.2 ⟨hc, by simpa using hdash⟩)
    obtain ⟨d, -, hd⟩ := List.mem_map.1 hmem
    exact Option.isSome_of_eq_some hd.symm

theorem length (h : Spells s n) : (s.filter (· ≠ 0x2D)).length = 32 := by
  have hlen := congrArg List.length h
  rwa [List.length_map, List.length_map, length_digits] at hlen

theorem ne_nil (h : Spells s n) : s ≠ [] := by
  rintro rfl
  exact absurd h.length (by decide)

theorem intHex?_filter (h : Spells s n) : intHex? (s.filter (· ≠ 0x2D)) = some (n % 16 ^ 32) := by
  have hne : s.filter (· ≠ 0x2D) ≠ [] := by
    intro he
    have hlen := h.length
    rw [he] at hlen
    cases hlen
  rw [intHex?_of_map h hne, foldl_digits]

/-- A character that is no digit and no dash does not occur. -/
theorem notMem (h : Spells s n) {c : ℕ} (hdash : c ≠ 0x2D) (hc : hexDigit? c = none) : c ∉ s := by
  intro hmem
  rcases h.range hmem with h | h
  · exact hdash h
  · rw [hc] at h
    cases h

/-- The digits between texts of braces. -/
theorem core (h : Spells s n) {l r : Str} (hl : ∀ c ∈ l, c = 0x7B ∨ c = 0x7D)
    (hr : ∀ c ∈ r, c = 0x7B ∨ c = 0x7D) :
    stripWhere (fun c => c = 0x7B || c = 0x7D) (l ++ s ++ r) = s := by
  have hs : ∀ c ∈ s, (decide (c = 0x7B) || decide (c = 0x7D)) = false := by
    intro c hc
    have hopen : 0x7B ∉ s := h.notMem (by decide) (by decide)
    have hclose : 0x7D ∉ s := h.notMem (by decide) (by decide)
    simp only [Bool.or_eq_false_iff, decide_eq_false_iff_not]
    refine ⟨?_, ?_⟩
    · rintro rfl
      exact hopen hc
    · rintro rfl
      exact hclose hc
  refine stripWhere_append ?_ hs h.ne_nil ?_
  · exact fun c hc => by simpa using hl c hc
  · exact fun c hc => by simpa using hr c hc

/-- The number spelled is read, with braces around it or without. -/
theorem parse?_braces (h : Spells s n) {l r : Str} (hl : ∀ c ∈ l, c = 0x7B ∨ c = 0x7D)
    (hr : ∀ c ∈ r, c = 0x7B ∨ c = 0x7D) : parse? (l ++ s ++ r) = some (n % 16 ^ 32) := by
  have hu : 0x75 ∉ l ++ s ++ r := by
    intro hmem
    rcases List.mem_append.1 hmem with hmem | hmem
    · rcases List.mem_append.1 hmem with hmem | hmem
      · exact absurd (hl _ hmem) (by decide)
      · exact h.notMem (by decide) (by decide) hmem
    · exact absurd (hr _ hmem) (by decide)
  have hurn : remove (ofString "urn:") (l ++ s ++ r) = l ++ s ++ r :=
    remove_of_notMem (by decide) hu
  have huuid : remove (ofString "uuid:") (l ++ s ++ r) = l ++ s ++ r :=
    remove_of_notMem (by decide) hu
  simp only [parse?]
  rw [hurn, huuid, h.core hl hr, if_pos h.length, h.intHex?_filter]

theorem parse? (h : Spells s n) : parse? s = some (n % 16 ^ 32) := by
  have hread := h.parse?_braces (l := []) (r := []) (fun c hc => absurd hc List.not_mem_nil)
    fun c hc => absurd hc List.not_mem_nil
  rwa [List.nil_append, List.append_nil] at hread

/-- The number spelled is read behind `urn:uuid:`. -/
theorem parse?_urn (h : Spells s n) :
    Uuid.parse? (ofString "urn:uuid:" ++ s) = some (n % 16 ^ 32) := by
  have hr : 0x72 ∉ s := h.notMem (by decide) (by decide)
  have hu : 0x75 ∉ s := h.notMem (by decide) (by decide)
  have hr' : 0x72 ∉ ofString "uuid:" ++ s := by
    intro hmem
    rcases List.mem_append.1 hmem with hmem | hmem
    · exact absurd hmem (by decide)
    · exact hr hmem
  have hurn : remove (ofString "urn:") (ofString "urn:uuid:" ++ s) = ofString "uuid:" ++ s :=
    (remove_append (by decide) _).trans (remove_of_notMem (by decide) hr')
  have huuid : remove (ofString "uuid:") (ofString "uuid:" ++ s) = s :=
    (remove_append (by decide) _).trans (remove_of_notMem (by decide) hu)
  have hplain := h.parse?
  simp only [Uuid.parse?] at hplain ⊢
  rw [remove_of_notMem (by decide : 0x72 ∈ ofString "urn:") hr,
    remove_of_notMem (by decide : 0x75 ∈ ofString "uuid:") hu] at hplain
  rw [hurn, huuid, hplain]

end Spells

/-! ## What is spelled is read back -/

theorem le_hexDigit (d : ℕ) : 0x30 ≤ hexDigit d := by
  unfold hexDigit
  split_ifs <;> omega

theorem dash_notMem_hex (k n : ℕ) : 0x2D ∉ hex k n := by
  intro hmem
  rw [hex_eq_map_digits] at hmem
  obtain ⟨d, -, hd⟩ := List.mem_map.1 hmem
  have hle := le_hexDigit d
  omega

theorem length_hex (k n : ℕ) : (hex k n).length = k := by
  rw [hex_eq_map_digits, List.length_map, length_digits]

theorem filter_format (n : ℕ) : (format n).filter (· ≠ 0x2D) = hex 32 n := by
  have hkeep : ∀ t : Str, (∀ c ∈ t, c ∈ hex 32 n) → t.filter (· ≠ 0x2D) = t := by
    intro t ht
    refine List.filter_eq_self.2 fun c hc => ?_
    have hne : c ≠ 0x2D := fun he => dash_notMem_hex 32 n (he ▸ ht c hc)
    simpa using hne
  have hdash : [0x2D].filter (fun c : ℕ => decide (c ≠ 0x2D)) = [] := rfl
  simp only [format, List.filter_append, hdash, List.append_nil]
  rw [hkeep _ fun c hc => List.mem_of_mem_take hc,
    hkeep _ fun c hc => List.mem_of_mem_drop (List.mem_of_mem_take hc),
    hkeep _ fun c hc => List.mem_of_mem_drop (List.mem_of_mem_take hc),
    hkeep _ fun c hc => List.mem_of_mem_drop (List.mem_of_mem_take hc),
    hkeep _ fun c hc => List.mem_of_mem_drop hc]
  have hjoin : ∀ k : ℕ, ((hex 32 n).drop k).take 4 ++ (hex 32 n).drop (k + 4) =
      (hex 32 n).drop k := by
    intro k
    rw [← List.drop_drop, List.take_append_drop]
  rw [List.append_assoc, List.append_assoc, List.append_assoc, hjoin 16, hjoin 12, hjoin 8,
    List.take_append_drop]

theorem length_format (n : ℕ) : (format n).length = 36 := by
  simp only [format, List.length_append, List.length_take, List.length_drop, length_hex,
    List.length_singleton]
  rfl

/-- What is spelled is the number itself. -/
theorem spells_format (n : ℕ) : Spells (format n) n := by
  rw [Spells, filter_format, hex_eq_map_digits, List.map_map]
  exact List.map_congr_left fun d hd => hexDigit?_hexDigit (lt_of_mem_digits hd)

theorem parse?_format {n : ℕ} (h : n < 2 ^ 128) : parse? (format n) = some n := by
  rw [(spells_format n).parse?, Nat.mod_eq_of_lt (h.trans_eq (by norm_num))]

theorem format_inj {n n' : ℕ} (h : n < 2 ^ 128) (h' : n' < 2 ^ 128) :
    format n = format n' ↔ n = n' := by
  refine ⟨fun he => ?_, congrArg format⟩
  have hread := parse?_format h
  rw [he, parse?_format h'] at hread
  exact (Option.some.inj hread).symm

end Uuid

end Python
