import Abrio.Library.Str

/-!
# Decoding bytes

`bytes.decode` for the encodings that `json.loads` detects. UTF-8 is read byte by byte :
`utf8Chars` gives the characters and a mark for each malformed part, of which the strict
decoder allows none (`decodeUtf8`) and the replacing one makes a `U+FFFD` (`decodeReplace`).
With `surrogatepass` encoded surrogates are characters too, and nothing else changes
(`decodeUtf8_surrogatepass`).

`detectEncoding` looks at the first bytes. What it takes for another encoding than UTF-8 may
be valid UTF-8, but then the text has a `NUL` or begins with the byte order mark
(`of_detectEncoding_ne`).
-/

namespace Python

/-- A `bytes` object. -/
abbrev Bytes := List UInt8

/-! ## UTF-8 -/

/-- What is left of a character that has begun : the continuation bytes to come, the values of
the next one, and the bits so far. -/
structure Utf8State where
  tails : ℕ
  low : UInt8 := 0x80
  high : UInt8 := 0xBF
  code : ℕ

/-- A first byte of several. Overlong forms and what lies beyond `U+10FFFF` are malformed. -/
def utf8Lead (surrogatepass : Bool) (a : UInt8) : Option Utf8State :=
  if 0xC2 ≤ a ∧ a ≤ 0xDF then some { tails := 1, code := a.toNat % 32 }
  else if 0xE0 ≤ a ∧ a ≤ 0xEF then
    some
      { tails := 2
        low := if a = 0xE0 then 0xA0 else 0x80
        high := if a = 0xED ∧ surrogatepass = false then 0x9F else 0xBF
        code := a.toNat % 16 }
  else if 0xF0 ≤ a ∧ a ≤ 0xF4 then
    some
      { tails := 3
        low := if a = 0xF0 then 0x90 else 0x80
        high := if a = 0xF4 then 0x8F else 0xBF
        code := a.toNat % 8 }
  else none

/-- The characters, and `none` for a malformed part. -/
def utf8Chars (surrogatepass : Bool) : Option Utf8State → Bytes → List (Option ℕ)
  | none, [] => []
  | some _, [] => [none]
  | state, b :: rest =>
    match state.filter fun state => state.low ≤ b ∧ b ≤ state.high with
    | some state =>
      let code := state.code * 64 + b.toNat % 64
      if state.tails ≤ 1 then some code :: utf8Chars surrogatepass none rest
      else utf8Chars surrogatepass (some { tails := state.tails - 1, code }) rest
    | none =>
      -- a character that has begun ends here, malformed
      (state.toList.map fun _ => none) ++
        if b < 0x80 then some b.toNat :: utf8Chars surrogatepass none rest
        else match utf8Lead surrogatepass b with
          | some state => utf8Chars surrogatepass (some state) rest
          | none => none :: utf8Chars surrogatepass none rest

/-- `bytes.decode("utf-8")`, strict or with `surrogatepass`. -/
def decodeUtf8 (surrogatepass : Bool) (bytes : Bytes) : Option Str :=
  (utf8Chars surrogatepass none bytes).mapM id

/-- `bytes.decode("utf-8", "replace")`. -/
def decodeReplace (bytes : Bytes) : Str :=
  (utf8Chars false none bytes).map fun c => c.getD 0xFFFD

theorem mapM_id_some_cons (c : ℕ) (l : List (Option ℕ)) :
    (some c :: l).mapM id = (l.mapM id).map (c :: ·) := by
  rw [List.mapM_cons]
  cases l.mapM id <;> rfl

theorem decodeUtf8_cons_ascii (surrogatepass : Bool) {b : UInt8} (hb : b < 0x80) (rest : Bytes) :
    decodeUtf8 surrogatepass (b :: rest) =
      (decodeUtf8 surrogatepass rest).map (b.toNat :: ·) := by
  have h : utf8Chars surrogatepass none (b :: rest) =
      some b.toNat :: utf8Chars surrogatepass none rest := by
    simp [utf8Chars, hb]
  rw [decodeUtf8, h, mapM_id_some_cons, decodeUtf8]

/-- A state that allows at least the next bytes that another one allows. -/
def Utf8State.Le (state state' : Utf8State) : Prop :=
  state'.tails = state.tails ∧ state'.low = state.low ∧ state.high ≤ state'.high ∧
    state'.code = state.code

theorem Utf8State.Le.refl (state : Utf8State) : state.Le state :=
  ⟨rfl, rfl, UInt8.le_refl _, rfl⟩

theorem utf8Lead_le {b : UInt8} {state : Utf8State} (h : utf8Lead false b = some state) :
    ∃ state', utf8Lead true b = some state' ∧ state.Le state' := by
  unfold utf8Lead at h ⊢
  by_cases h₁ : 0xC2 ≤ b ∧ b ≤ 0xDF
  · rw [if_pos h₁] at h ⊢
    exact ⟨state, h, .refl state⟩
  rw [if_neg h₁] at h ⊢
  by_cases h₂ : 0xE0 ≤ b ∧ b ≤ 0xEF
  · rw [if_pos h₂] at h ⊢
    cases h
    refine ⟨_, rfl, rfl, rfl, ?_, rfl⟩
    dsimp only
    split_ifs <;> simp_all
  · rw [if_neg h₂] at h ⊢
    exact ⟨state, h, .refl state⟩

/-- What decodes strictly decodes to the same with `surrogatepass`. -/
theorem mapM_utf8Chars_surrogatepass {bytes : Bytes} :
    ∀ {state state' : Option Utf8State} {text : Str},
      Option.Rel Utf8State.Le state state' →
      (utf8Chars false state bytes).mapM id = some text →
      (utf8Chars true state' bytes).mapM id = some text := by
  induction bytes with
  | nil =>
    rintro _ _ text (_ | _) h <;> exact h
  | cons b rest ih =>
    have hbegin : ∀ {text}, (utf8Chars false none (b :: rest)).mapM id = some text →
        (utf8Chars true none (b :: rest)).mapM id = some text := by
      intro text h
      simp only [utf8Chars, Option.filter_none, Option.toList_none, List.map_nil,
        List.nil_append] at h ⊢
      by_cases hb : b < 0x80
      · rw [if_pos hb, mapM_id_some_cons, Option.map_eq_some_iff] at h ⊢
        obtain ⟨text', ht, rfl⟩ := h
        exact ⟨text', ih .none ht, rfl⟩
      · rw [if_neg hb] at h ⊢
        cases hl : utf8Lead false b with
        | none => simp [hl] at h
        | some state =>
          obtain ⟨state', hl', hle⟩ := utf8Lead_le hl
          rw [hl] at h
          rw [hl']
          exact ih (.some hle) h
    rintro _ _ text (⟨htails, hlow, hhigh, hcode⟩ | _) h
    · rename_i state state'
      by_cases hin : state.low ≤ b ∧ b ≤ state.high
      · have hin' : state'.low ≤ b ∧ b ≤ state'.high :=
          ⟨hlow ▸ hin.1, UInt8.le_trans hin.2 hhigh⟩
        simp only [utf8Chars, Option.filter_some, hin, hin', and_self, decide_true, if_true, htails,
          hcode] at h ⊢
        split_ifs at h ⊢ with ht
        · rw [mapM_id_some_cons, Option.map_eq_some_iff] at h ⊢
          obtain ⟨text', ht, rfl⟩ := h
          exact ⟨text', ih .none ht, rfl⟩
        · exact ih (.some (.refl _)) h
      · simp [utf8Chars, Option.filter_some, hin] at h
    · exact hbegin h

theorem decodeUtf8_surrogatepass {bytes : Bytes} {text : Str}
    (h : decodeUtf8 false bytes = some text) : decodeUtf8 true bytes = some text :=
  mapM_utf8Chars_surrogatepass .none h

/-! ## UTF-16 and UTF-32 -/

/-- The first half of a pair. -/
def isHighSurrogate (c : ℕ) : Bool :=
  0xD800 ≤ c && c ≤ 0xDBFF

/-- The second half of a pair. -/
def isLowSurrogate (c : ℕ) : Bool :=
  0xDC00 ≤ c && c ≤ 0xDFFF

/-- The character of two surrogates. -/
def joinSurrogates (high low : ℕ) : ℕ :=
  0x10000 + (high - 0xD800) * 0x400 + (low - 0xDC00)

/-- Joins the surrogates that make a pair, and keeps the others. -/
def joinUnits : Str → Str
  | [] => []
  | [unit] => [unit]
  | high :: low :: rest =>
    if isHighSurrogate high && isLowSurrogate low then joinSurrogates high low :: joinUnits rest
    else high :: joinUnits (low :: rest)

/-- The code units, two bytes each. -/
def utf16Units (bigEndian : Bool) : Bytes → Option Str
  | [] => some []
  | [_] => none
  | a :: b :: rest =>
    let unit := if bigEndian then a.toNat * 256 + b.toNat else b.toNat * 256 + a.toNat
    (utf16Units bigEndian rest).map (unit :: ·)

/-- The code units, four bytes each. -/
def utf32Units (bigEndian : Bool) : Bytes → Option Str
  | [] => some []
  | a :: b :: c :: d :: rest =>
    let unit :=
      if bigEndian then ((a.toNat * 256 + b.toNat) * 256 + c.toNat) * 256 + d.toNat
      else ((d.toNat * 256 + c.toNat) * 256 + b.toNat) * 256 + a.toNat
    if unit ≤ 0x10FFFF then (utf32Units bigEndian rest).map (unit :: ·) else none
  | _ => none

/-! ## The encoding of a JSON text -/

/-- The encodings a JSON text may have. -/
inductive Encoding
  | utf8
  | utf8Sig
  | utf16
  | utf16Be
  | utf16Le
  | utf32
  | utf32Be
  | utf32Le
  deriving DecidableEq

/-- `codecs.BOM_UTF8`. -/
def bomUtf8 : Bytes := [0xEF, 0xBB, 0xBF]

/-- `codecs.BOM_UTF16_BE`. -/
def bomUtf16Be : Bytes := [0xFE, 0xFF]

/-- `codecs.BOM_UTF16_LE`. -/
def bomUtf16Le : Bytes := [0xFF, 0xFE]

/-- `codecs.BOM_UTF32_BE`. -/
def bomUtf32Be : Bytes := [0x00, 0x00, 0xFE, 0xFF]

/-- `codecs.BOM_UTF32_LE`. -/
def bomUtf32Le : Bytes := [0xFF, 0xFE, 0x00, 0x00]

/-- `json.detect_encoding`. -/
def detectEncoding (bytes : Bytes) : Encoding :=
  if bomUtf32Be.isPrefixOf bytes || bomUtf32Le.isPrefixOf bytes then .utf32
  else if bomUtf16Be.isPrefixOf bytes || bomUtf16Le.isPrefixOf bytes then .utf16
  else if bomUtf8.isPrefixOf bytes then .utf8Sig
  else match bytes with
    | a :: b :: c :: d :: _ =>
      if a = 0 then (if b = 0 then .utf32Be else .utf16Be)
      else if b = 0 then (if c = 0 ∧ d = 0 then .utf32Le else .utf16Le)
      else .utf8
    | [a, b] => if a = 0 then .utf16Be else if b = 0 then .utf16Le else .utf8
    | _ => .utf8

/-- `bytes.decode(encoding, "surrogatepass")`. -/
def decodeSurrogatepass (bytes : Bytes) : Encoding → Option Str
  | .utf8 => decodeUtf8 true bytes
  | .utf8Sig => decodeUtf8 true (if bomUtf8.isPrefixOf bytes then bytes.drop 3 else bytes)
  | .utf16 => (utf16Units (bomUtf16Be.isPrefixOf bytes) (bytes.drop 2)).map joinUnits
  | .utf16Be => (utf16Units true bytes).map joinUnits
  | .utf16Le => (utf16Units false bytes).map joinUnits
  | .utf32 => utf32Units (bomUtf32Be.isPrefixOf bytes) (bytes.drop 4)
  | .utf32Be => utf32Units true bytes
  | .utf32Le => utf32Units false bytes

theorem decodeUtf8_cons_zero {surrogatepass : Bool} {rest : Bytes} {text : Str}
    (h : decodeUtf8 surrogatepass (0 :: rest) = some text) : 0 ∈ text := by
  rw [decodeUtf8_cons_ascii _ (by decide), Option.map_eq_some_iff] at h
  obtain ⟨text', -, rfl⟩ := h
  exact List.mem_cons_self

theorem utf8Lead_low {surrogatepass : Bool} {b : UInt8} {state : Utf8State}
    (h : utf8Lead surrogatepass b = some state) : state.low ≠ 0 := by
  unfold utf8Lead at h
  split_ifs at h
  all_goals
    cases h
    dsimp only
    try split_ifs
    all_goals decide

theorem decodeUtf8_cons_cons_zero {surrogatepass : Bool} {a : UInt8} {rest : Bytes} {text : Str}
    (h : decodeUtf8 surrogatepass (a :: 0 :: rest) = some text) : 0 ∈ text := by
  by_cases ha : a < 0x80
  · rw [decodeUtf8_cons_ascii _ ha, Option.map_eq_some_iff] at h
    obtain ⟨text', ht, rfl⟩ := h
    exact List.mem_cons_of_mem _ (decodeUtf8_cons_zero ht)
  -- the second byte continues no character
  exfalso
  cases hl : utf8Lead surrogatepass a with
  | none => simp [decodeUtf8, utf8Chars, ha, hl] at h
  | some state =>
    have hlow := utf8Lead_low hl
    simp [decodeUtf8, utf8Chars, ha, hl, Option.filter_some, hlow] at h

theorem decodeUtf8_bom_utf16 {surrogatepass : Bool} {a : UInt8} (ha : a = 0xFE ∨ a = 0xFF)
    (rest : Bytes) : decodeUtf8 surrogatepass (a :: rest) = none := by
  rcases ha with rfl | rfl <;> simp [decodeUtf8, utf8Chars, utf8Lead]

/-- What is valid UTF-8 and taken for something else has a `NUL` among its first two characters,
or begins with the byte order mark. -/
theorem of_detectEncoding_ne {bytes : Bytes} {text : Str}
    (h : decodeUtf8 false bytes = some text) (hne : detectEncoding bytes ≠ .utf8) :
    0 ∈ text ∨ text.head? = some 0xFEFF := by
  unfold detectEncoding at hne
  by_cases h₁ : (bomUtf32Be.isPrefixOf bytes || bomUtf32Le.isPrefixOf bytes) = true
  · rcases Bool.or_eq_true_iff.1 h₁ with hp | hp <;>
      obtain ⟨rest, rfl⟩ := List.isPrefixOf_iff_prefix.1 hp
    · exact Or.inl (decodeUtf8_cons_zero h)
    · simp [bomUtf32Le, decodeUtf8_bom_utf16] at h
  rw [if_neg h₁] at hne
  by_cases h₂ : (bomUtf16Be.isPrefixOf bytes || bomUtf16Le.isPrefixOf bytes) = true
  · rcases Bool.or_eq_true_iff.1 h₂ with hp | hp <;>
      obtain ⟨rest, rfl⟩ := List.isPrefixOf_iff_prefix.1 hp
    · simp [bomUtf16Be, decodeUtf8_bom_utf16] at h
    · simp [bomUtf16Le, decodeUtf8_bom_utf16] at h
  rw [if_neg h₂] at hne
  by_cases h₃ : bomUtf8.isPrefixOf bytes = true
  · obtain ⟨rest, rfl⟩ := List.isPrefixOf_iff_prefix.1 h₃
    have hbom : utf8Chars false none (bomUtf8 ++ rest) =
        some 0xFEFF :: utf8Chars false none rest := rfl
    rw [decodeUtf8, hbom, mapM_id_some_cons, Option.map_eq_some_iff] at h
    obtain ⟨text', -, rfl⟩ := h
    exact Or.inr rfl
  rw [if_neg h₃] at hne
  left
  split at hne
  · split_ifs at hne with ha hb hb
    · exact decodeUtf8_cons_zero (ha ▸ h)
    · exact decodeUtf8_cons_zero (ha ▸ h)
    · exact decodeUtf8_cons_cons_zero (hb ▸ h)
    · exact decodeUtf8_cons_cons_zero (hb ▸ h)
    · exact absurd rfl hne
  · split_ifs at hne with ha hb
    · exact decodeUtf8_cons_zero (ha ▸ h)
    · exact decodeUtf8_cons_cons_zero (hb ▸ h)
    · exact absurd rfl hne
  · exact absurd rfl hne

/-- A character that has begun goes on with a byte it allows. -/
theorem exists_of_mapM_utf8Chars {surrogatepass : Bool} {state : Utf8State} {bytes : Bytes}
    {text : Str} (h : (utf8Chars surrogatepass (some state) bytes).mapM id = some text) :
    ∃ b rest, bytes = b :: rest ∧ state.low ≤ b ∧ b ≤ state.high ∧
      (state.tails ≤ 1 → text.head? = some (state.code * 64 + b.toNat % 64)) ∧
      (1 < state.tails → (utf8Chars surrogatepass
        (some { tails := state.tails - 1, code := state.code * 64 + b.toNat % 64 })
          rest).mapM id = some text) := by
  cases bytes with
  | nil => cases h
  | cons b rest =>
    by_cases hin : state.low ≤ b ∧ b ≤ state.high
    · simp only [utf8Chars, Option.filter_some, hin, and_self, decide_true, if_true] at h
      refine ⟨b, rest, rfl, hin.1, hin.2, fun ht => ?_, fun ht => ?_⟩
      · rw [if_pos ht, mapM_id_some_cons, Option.map_eq_some_iff] at h
        obtain ⟨text', -, rfl⟩ := h
        rfl
      · rwa [if_neg (by omega)] at h
    · simp [utf8Chars, Option.filter_some, hin] at h

/-- What a first byte says about the character. -/
theorem utf8Lead_cases {surrogatepass : Bool} {a : UInt8} {state : Utf8State}
    (h : utf8Lead surrogatepass a = some state) :
    0x80 ≤ state.low.toNat ∧ state.high.toNat ≤ 0xBF ∧
      (state.tails = 1 ∧ state.code < 0x20 ∨
        state.tails = 2 ∧ 0xE0 ≤ a.toNat ∧ a.toNat ≤ 0xEF ∧ state.code = a.toNat % 16 ∨
        state.tails = 3 ∧ (0 < state.code ∨ 0x90 ≤ state.low.toNat)) := by
  unfold utf8Lead at h
  by_cases h₁ : 0xC2 ≤ a ∧ a ≤ 0xDF
  · rw [if_pos h₁] at h
    cases h
    exact ⟨Nat.le_refl 0x80, Nat.le_refl 0xBF, Or.inl ⟨rfl, Nat.mod_lt _ (by decide)⟩⟩
  rw [if_neg h₁] at h
  by_cases h₂ : 0xE0 ≤ a ∧ a ≤ 0xEF
  · rw [if_pos h₂] at h
    cases h
    refine ⟨?_, ?_, Or.inr (Or.inl ⟨rfl, h₂.1, h₂.2, rfl⟩)⟩
    · dsimp only
      split_ifs <;> decide
    · dsimp only
      split_ifs <;> decide
  rw [if_neg h₂] at h
  by_cases h₃ : 0xF0 ≤ a ∧ a ≤ 0xF4
  swap
  · rw [if_neg h₃] at h
    cases h
  rw [if_pos h₃] at h
  cases h
  refine ⟨?_, ?_, Or.inr (Or.inr ⟨rfl, ?_⟩)⟩
  · dsimp only
    split_ifs <;> decide
  · dsimp only
    split_ifs <;> decide
  · dsimp only
    by_cases ha : a = 0xF0
    · exact Or.inr (by rw [if_pos ha]; decide)
    · left
      have hlow : 0xF0 ≤ a.toNat := h₃.1
      have hhigh : a.toNat ≤ 0xF4 := h₃.2
      have hne : a.toNat ≠ 0xF0 := fun he => ha (UInt8.toNat_inj.1 he)
      omega

/-- Only the bytes of the byte order mark decode to it. -/
theorem bomUtf8_of_head {bytes : Bytes} {text : Str} (h : decodeUtf8 false bytes = some text)
    (hhead : text.head? = some 0xFEFF) : bomUtf8.isPrefixOf bytes = true := by
  cases bytes with
  | nil =>
    cases h
    cases hhead
  | cons a rest =>
    by_cases ha : a < 0x80
    · rw [decodeUtf8_cons_ascii _ ha, Option.map_eq_some_iff] at h
      obtain ⟨text', -, rfl⟩ := h
      have hlt : a.toNat < 0x80 := ha
      have := Option.some.inj hhead
      omega
    cases hl : utf8Lead false a with
    | none => simp [decodeUtf8, utf8Chars, ha, hl] at h
    | some state =>
      have h' : (utf8Chars false (some state) rest).mapM id = some text := by
        simpa [decodeUtf8, utf8Chars, ha, hl] using h
      obtain ⟨hlow, hhigh, hcases⟩ := utf8Lead_cases hl
      obtain ⟨b, rest, rfl, hb, hb', hlast, hnext⟩ := exists_of_mapM_utf8Chars h'
      have hb : state.low.toNat ≤ b.toNat := hb
      have hb' : b.toNat ≤ state.high.toNat := hb'
      -- of one, two and three continuation bytes only two make the mark
      rcases hcases with ⟨ht, hc⟩ | ⟨ht, ha, ha', hc⟩ | ⟨ht, hc⟩
      · have := Option.some.inj ((hlast (by omega)).symm.trans hhead)
        omega
      · obtain ⟨c, rest, rfl, hclow, hchigh, hlast, -⟩ :=
          exists_of_mapM_utf8Chars (hnext (by omega))
        have hclow : 0x80 ≤ c.toNat := hclow
        have hchigh : c.toNat ≤ 0xBF := hchigh
        have := Option.some.inj ((hlast (by dsimp only; omega)).symm.trans hhead)
        dsimp only at this
        obtain rfl : a = 0xEF := UInt8.toNat_inj.1 (by change a.toNat = 0xEF; omega)
        obtain rfl : b = 0xBB := UInt8.toNat_inj.1 (by change b.toNat = 0xBB; omega)
        obtain rfl : c = 0xBF := UInt8.toNat_inj.1 (by change c.toNat = 0xBF; omega)
        rfl
      · obtain ⟨c, rest, rfl, -, -, -, hnext⟩ := exists_of_mapM_utf8Chars (hnext (by omega))
        obtain ⟨d, rest, rfl, -, -, hlast, -⟩ :=
          exists_of_mapM_utf8Chars (hnext (by dsimp only; omega))
        have := Option.some.inj ((hlast (by dsimp only; omega)).symm.trans hhead)
        dsimp only at this
        omega

end Python
