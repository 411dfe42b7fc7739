import Abrio.Library.Codec
import Abrio.Library.Run

/-!
# JSON texts

`json.loads`, for texts and for bytes, with the limit on the digits of an integer and with one on
the nesting, which is what the interpreter has left of its stack. The few levels that raising
another error takes of it are left out. A number with a fraction or an exponent is kept as it is
spelled : its value is a `float`.

Whatever is accepted has no control character but white space (`legal_of_decode`), the scanner
never runs out of the fuel it starts with (`decode_ne_outOfFuel`), and more opening brackets than
the limit are too many, whatever follows them (`loads_brackets`).
-/

open Runs

namespace Python

/-- A JSON value. The entries of an object are in the order of the text. -/
inductive Json
  | null
  | bool (b : Bool)
  | int (n : ℤ)
  | float (literal : Str)
  | str (s : Str)
  | list (items : List Json)
  | dict (entries : List (Str × Json))

open Str

namespace Json

/-- `payload.get(key)` : of equal keys the last one counts. -/
def get? (key : Str) : List (Str × Json) → Option Json
  | [] => none
  | (key', value) :: entries => get? key entries <|> if key' = key then some value else none

/-- What `json.loads` raises. Fuel never runs out (`decode_ne_outOfFuel`). -/
inductive LoadsError
  | jsonDecodeError
  /-- An integer of too many digits, or bytes that do not decode. -/
  | valueError
  /-- Too many lists and objects in each other. It is raised before the innermost is read. -/
  | recursionError
  | outOfFuel
  deriving DecidableEq

/-! ## The scanner -/

/-- `WHITESPACE` has fewer characters than `str.isspace`. -/
def isWhitespace (c : ℕ) : Bool :=
  c = 0x20 || c = 0x09 || c = 0x0A || c = 0x0D

/-- The text from its first character that is no white space. -/
def skipWhitespace (text : Str) : Str :=
  text.dropWhile isWhitespace

/-- `_decode_uXXXX` of four digits. -/
def hex4? (a b c d : ℕ) : Option ℕ := do
  return (((← hexDigit? a) * 16 + (← hexDigit? b)) * 16 + (← hexDigit? c)) * 16 + (← hexDigit? d)

/-- The character of a backslash escape. -/
def escape? (c : ℕ) : Option ℕ :=
  if c = 0x22 ∨ c = 0x5C ∨ c = 0x2F then some c
  else if c = 0x62 then some 0x08
  else if c = 0x66 then some 0x0C
  else if c = 0x6E then some 0x0A
  else if c = 0x72 then some 0x0D
  else if c = 0x74 then some 0x09
  else none

/-- What an escape adds after an escaped high surrogate : the pair is one character. -/
def joinPending (pending : Option ℕ) (unit : ℕ) : Str × Option ℕ :=
  match pending with
  | some high =>
    if isLowSurrogate unit then ([joinSurrogates high unit], none)
    else if isHighSurrogate unit then ([high], some unit)
    else ([high, unit], none)
  | none => if isHighSurrogate unit then ([], some unit) else ([unit], none)

/-- `scanstring`, strict, after the opening quote. `pending` is an escaped high surrogate. -/
def scanString : Option ℕ → Str → Except LoadsError (Str × Str)
  | pending, 0x22 :: rest => .ok (pending.toList, rest)
  | pending, 0x5C :: 0x75 :: a :: b :: c :: d :: rest =>
    match hex4? a b c d with
    | some unit => do
      let (chars, pending) := joinPending pending unit
      let (s, rest) ← scanString pending rest
      return (chars ++ s, rest)
    | none => .error .jsonDecodeError
  | pending, 0x5C :: c :: rest =>
    match escape? c with
    | some c => do
      let (s, rest) ← scanString none rest
      return (pending.toList ++ c :: s, rest)
    | none => .error .jsonDecodeError
  | pending, c :: rest =>
    if c < 0x20 ∨ c = 0x5C then .error .jsonDecodeError
    else do
      let (s, rest) ← scanString none rest
      return (pending.toList ++ c :: s, rest)
  | _, [] => .error .jsonDecodeError

/-- The sign of a number, and the rest. -/
def scanSign : Str → Str × Str
  | 0x2D :: rest => ([0x2D], rest)
  | text => ([], text)

/-- The digits before the point : no leading zeros. -/
def scanInteger : Str → Option (Str × Str)
  | 0x30 :: rest => some ([0x30], rest)
  | text =>
    let digits := text.takeWhile isDigit
    if digits = [] then none else some (digits, text.dropWhile isDigit)

/-- A point with digits, or nothing. -/
def scanFraction : Str → Str × Str
  | 0x2E :: rest =>
    let digits := rest.takeWhile isDigit
    if digits = [] then ([], 0x2E :: rest) else (0x2E :: digits, rest.dropWhile isDigit)
  | text => ([], text)

/-- The sign of an exponent, and the rest. -/
def scanExponentSign : Str → Str × Str
  | 0x2B :: rest => ([0x2B], rest)
  | 0x2D :: rest => ([0x2D], rest)
  | text => ([], text)

/-- An `e` or `E` with a sign, maybe, and digits, or nothing. -/
def scanExponent : Str → Str × Str
  | [] => ([], [])
  | e :: rest =>
    let (sign, rest') := scanExponentSign rest
    let digits := rest'.takeWhile isDigit
    if (e = 0x65 ∨ e = 0x45) ∧ digits ≠ [] then
      (e :: sign ++ digits, rest'.dropWhile isDigit)
    else ([], e :: rest)

/-- `sys.int_info.default_max_str_digits`. -/
def intMaxStrDigits : ℕ :=
  4300

/-- `NUMBER_RE`, and what becomes of its match. -/
def scanNumber (text : Str) : Except LoadsError (Json × Str) :=
  let (sign, text) := scanSign text
  match scanInteger text with
  | none => .error .jsonDecodeError
  | some (digits, rest) =>
    let (fraction, rest) := scanFraction rest
    let (exponent, rest) := scanExponent rest
    if fraction = [] ∧ exponent = [] then
      if intMaxStrDigits < digits.length then .error .valueError
      else .ok (.int (if sign = [] then ofDigits digits else -ofDigits digits), rest)
    else .ok (.float (sign ++ digits ++ fraction ++ exponent), rest)

/-- The constants, with the names they have. -/
def constants : List (Str × Json) :=
  [(.ofString "null", .null), (.ofString "true", .bool true), (.ofString "false", .bool false),
    (.ofString "NaN", .float (.ofString "NaN")),
    (.ofString "Infinity", .float (.ofString "Infinity")),
    (.ofString "-Infinity", .float (.ofString "-Infinity"))]

/-- A constant or a number. -/
def scanScalar (text : Str) : Except LoadsError (Json × Str) :=
  match constants.find? fun constant => constant.1.isPrefixOf text with
  | some (name, value) => .ok (value, text.drop name.length)
  | none => scanNumber text

mutual

/-- `scan_once`. At most `limit` lists and objects may be open. -/
def scanOnce : ℕ → ℕ → Str → Except LoadsError (Json × Str)
  | 0, _, _ => .error .outOfFuel
  | fuel + 1, limit, text =>
    match text with
    | 0x22 :: rest => do
      let (s, rest) ← scanString none rest
      return (.str s, rest)
    | 0x7B :: rest =>
      if limit = 0 then .error .recursionError
      else
        match skipWhitespace rest with
        | 0x7D :: rest => .ok (.dict [], rest)
        | 0x22 :: rest => scanEntries fuel (limit - 1) [] rest
        | _ => .error .jsonDecodeError
    | 0x5B :: rest =>
      if limit = 0 then .error .recursionError
      else
        match skipWhitespace rest with
        | 0x5D :: rest => .ok (.list [], rest)
        | rest => scanItems fuel (limit - 1) [] rest
    | text => scanScalar text

/-- `JSONObject`, after the opening quote of a key. -/
def scanEntries : ℕ → ℕ → List (Str × Json) → Str → Except LoadsError (Json × Str)
  | 0, _, _, _ => .error .outOfFuel
  | fuel + 1, limit, entries, text => do
    let (key, text) ← scanString none text
    match skipWhitespace text with
    | 0x3A :: rest =>
      let (value, rest) ← scanOnce fuel limit (skipWhitespace rest)
      match skipWhitespace rest with
      | 0x7D :: rest => return (.dict (entries ++ [(key, value)]), rest)
      | 0x2C :: rest =>
        match skipWhitespace rest with
        | 0x22 :: rest => scanEntries fuel limit (entries ++ [(key, value)]) rest
        | _ => .error .jsonDecodeError
      | _ => .error .jsonDecodeError
    | _ => .error .jsonDecodeError

/-- `JSONArray`, before a value. -/
def scanItems : ℕ → ℕ → List Json → Str → Except LoadsError (Json × Str)
  | 0, _, _, _ => .error .outOfFuel
  | fuel + 1, limit, items, text => do
    let (value, rest) ← scanOnce fuel limit text
    match skipWhitespace rest with
    | 0x5D :: rest => return (.list (items ++ [value]), rest)
    | 0x2C :: rest => scanItems fuel limit (items ++ [value]) (skipWhitespace rest)
    | _ => .error .jsonDecodeError

end

/-- `JSONDecoder.decode`. -/
def decode (limit : ℕ) (text : Str) : Except LoadsError Json := do
  let (value, rest) ← scanOnce (2 * text.length + 1) limit (skipWhitespace text)
  if skipWhitespace rest = [] then return value else .error .jsonDecodeError

/-- `json.loads` of a text. -/
def loads (limit : ℕ) (text : Str) : Except LoadsError Json :=
  if text.head? = some 0xFEFF then .error .jsonDecodeError else decode limit text

/-- `json.loads` of bytes. -/
def loadsBytes (limit : ℕ) (bytes : Bytes) : Except LoadsError Json :=
  match decodeSurrogatepass bytes (detectEncoding bytes) with
  | some text => decode limit text
  | none => .error .valueError

/-! ## What the scanner consumes -/

/-- A character that may stand in a text : white space, or no control character. -/
def Legal (c : ℕ) : Prop :=
  isWhitespace c = true ∨ 0x20 ≤ c

/-- `rest` is `text` without some legal characters at its beginning. -/
def Skips (text rest : Str) : Prop :=
  ∃ pre, text = pre ++ rest ∧ ∀ c ∈ pre, Legal c

/-- `rest` is `text` without one legal character or more. -/
def Scans (text rest : Str) : Prop :=
  Skips text rest ∧ rest.length < text.length

namespace Skips

variable {text rest rest' : Str}

theorem refl (text : Str) : Skips text text :=
  ⟨[], rfl, by simp⟩

theorem trans (h : Skips text rest) (h' : Skips rest rest') : Skips text rest' := by
  obtain ⟨pre, rfl, hp⟩ := h
  obtain ⟨pre', rfl, hp'⟩ := h'
  exact ⟨pre ++ pre', (List.append_assoc ..).symm, fun c hc =>
    (List.mem_append.1 hc).elim (hp c) (hp' c)⟩

theorem length_le (h : Skips text rest) : rest.length ≤ text.length := by
  obtain ⟨pre, rfl, -⟩ := h
  simp

theorem skipWhitespace (text : Str) : Skips text (skipWhitespace text) :=
  ⟨text.takeWhile isWhitespace, (List.takeWhile_append_dropWhile ..).symm, fun _ hc =>
    Or.inl (List.mem_takeWhile_imp hc)⟩

theorem digits (text : Str) : Skips text (text.dropWhile isDigit) := by
  refine ⟨text.takeWhile isDigit, (List.takeWhile_append_dropWhile ..).symm, fun c hc => ?_⟩
  have hd := List.mem_takeWhile_imp hc
  simp only [isDigit, Bool.and_eq_true, decide_eq_true_eq] at hd
  right
  omega

end Skips

theorem Scans.of_cons {c : ℕ} {rest rest' : Str} (hc : Legal c) (h : Skips rest rest') :
    Scans (c :: rest) rest' := by
  have hle := h.length_le
  obtain ⟨pre, rfl, hp⟩ := h
  exact ⟨⟨c :: pre, rfl, by simpa [hc] using hp⟩, Nat.lt_succ_of_le hle⟩

theorem Scans.trans {text rest rest' : Str} (h : Scans text rest) (h' : Skips rest rest') :
    Scans text rest' :=
  ⟨h.1.trans h', lt_of_le_of_lt h'.length_le h.2⟩

theorem Skips.scans {text rest rest' : Str} (h : Skips text rest) (h' : Scans rest rest') :
    Scans text rest' :=
  ⟨h.trans h'.1, lt_of_lt_of_le h'.2 h.length_le⟩

theorem hexDigit?_legal {c n : ℕ} (h : hexDigit? c = some n) : Legal c := by
  unfold hexDigit? at h
  right
  split_ifs at h with h₁ h₂ h₃ <;> simp [isDigit] at * <;> omega

theorem hex4?_legal {a b c d n : ℕ} (h : hex4? a b c d = some n) :
    Legal a ∧ Legal b ∧ Legal c ∧ Legal d := by
  simp only [hex4?, Option.bind_eq_bind, Option.bind_eq_some_iff] at h
  obtain ⟨_, ha, _, hb, _, hc, _, hd, -⟩ := h
  exact ⟨hexDigit?_legal ha, hexDigit?_legal hb, hexDigit?_legal hc, hexDigit?_legal hd⟩

theorem escape?_legal {c n : ℕ} (h : escape? c = some n) : Legal c := by
  unfold escape? at h
  right
  split_ifs at h <;> omega

theorem scans_of_scanString {pending : Option ℕ} {text : Str} {r : Str × Str}
    (h : scanString pending text = .ok r) : Scans text r.2 := by
  have hchar : ∀ {c}, 0x20 ≤ c → Legal c := Or.inr
  fun_induction scanString pending text generalizing r with
  | case1 pending rest =>
    cases h
    exact .of_cons (hchar (by decide)) (.refl _)
  | case2 pending a b c d rest unit hu chars pending' hp ih =>
    obtain ⟨r', hr', h⟩ := bind_eq_ok.1 h
    cases h
    obtain ⟨ha, hb, hc, hd⟩ := hex4?_legal hu
    exact .of_cons (hchar (by decide)) (Scans.of_cons (hchar (by decide)) (Scans.of_cons ha
      (Scans.of_cons hb (Scans.of_cons hc (Scans.of_cons hd (ih hr').1).1).1).1).1).1
  | case3 => cases h
  | case4 pending c rest hne c' hc ih =>
    obtain ⟨r', hr', h⟩ := bind_eq_ok.1 h
    cases h
    exact .of_cons (hchar (by decide)) (Scans.of_cons (escape?_legal hc) (ih hr').1).1
  | case5 => cases h
  | case6 => cases h
  | case7 pending c rest hquote hu hesc hc ih =>
    obtain ⟨r', hr', h⟩ := bind_eq_ok.1 h
    cases h
    exact .of_cons (hchar (by omega)) (ih hr').1
  | case8 => cases h

theorem skips_scanSign (text : Str) : Skips text (scanSign text).2 := by
  unfold scanSign
  split
  · exact (Scans.of_cons (Or.inr (by decide)) (.refl _)).1
  · exact .refl _

theorem scans_of_scanInteger {text : Str} {r : Str × Str} (h : scanInteger text = some r) :
    Scans text r.2 := by
  unfold scanInteger at h
  split at h
  · cases h
    exact .of_cons (Or.inr (by decide)) (.refl _)
  · dsimp only at h
    split_ifs at h with hd
    cases h
    refine ⟨.digits _, ?_⟩
    have hsplit := congrArg List.length (List.takeWhile_append_dropWhile (p := isDigit) (l := text))
    have hpos := List.length_pos_of_ne_nil hd
    rw [List.length_append] at hsplit
    change (text.dropWhile isDigit).length < text.length
    omega

theorem skips_scanFraction (text : Str) : Skips text (scanFraction text).2 := by
  unfold scanFraction
  split
  · dsimp only
    split_ifs
    · exact .refl _
    · exact (Scans.of_cons (Or.inr (by decide)) (.digits _)).1
  · exact .refl _

theorem skips_scanExponentSign (text : Str) : Skips text (scanExponentSign text).2 := by
  unfold scanExponentSign
  split
  · exact (Scans.of_cons (Or.inr (by decide)) (.refl _)).1
  · exact (Scans.of_cons (Or.inr (by decide)) (.refl _)).1
  · exact .refl _

theorem skips_scanExponent (text : Str) : Skips text (scanExponent text).2 := by
  unfold scanExponent
  split
  · exact .refl _
  · dsimp only
    split_ifs with he
    · have hsign := skips_scanExponentSign (by assumption)
      exact (Scans.of_cons (Or.inr (by omega)) (hsign.trans (.digits _))).1
    · exact .refl _

theorem scans_of_scanNumber {text : Str} {r : Json × Str} (h : scanNumber text = .ok r) :
    Scans text r.2 := by
  unfold scanNumber at h
  dsimp only at h
  cases hi : scanInteger (scanSign text).2 with
  | none => simp [hi] at h
  | some digits =>
    have hscan := (skips_scanSign text).scans ((scans_of_scanInteger hi).trans
      ((skips_scanFraction digits.2).trans (skips_scanExponent _)))
    simp only [hi] at h
    split_ifs at h <;> cases h <;> exact hscan

theorem scans_of_scanScalar {text : Str} {r : Json × Str} (h : scanScalar text = .ok r) :
    Scans text r.2 := by
  unfold scanScalar at h
  split at h
  · rename_i name value hf
    cases h
    have hlegal : ∀ constant ∈ constants, constant.1 ≠ [] ∧ ∀ c ∈ constant.1, 0x20 ≤ c := by
      decide
    obtain ⟨hne, hchars⟩ := hlegal _ (List.mem_of_find?_eq_some hf)
    have hp := List.find?_some hf
    obtain ⟨rest, rfl⟩ := List.isPrefixOf_iff_prefix.1 hp
    have hpos := List.length_pos_of_ne_nil hne
    refine ⟨⟨name, by simp, fun c hc => Or.inr (hchars c hc)⟩, ?_⟩
    simpa using hpos
  · exact scans_of_scanNumber h

/-- White space and then a character. -/
theorem scans_of_skipWhitespace {text rest : Str} {c : ℕ} (hc : 0x20 ≤ c)
    (h : skipWhitespace text = c :: rest) : Scans text rest :=
  (Skips.skipWhitespace text).scans (h ▸ .of_cons (Or.inr hc) (.refl _))

/-- With this fuel the scanners consume what they read. -/
structure ScansWith (fuel : ℕ) : Prop where
  once : ∀ {limit : ℕ} {text : Str} {r : Json × Str}, scanOnce fuel limit text = .ok r →
    Scans text r.2
  entries : ∀ {limit : ℕ} {entries : List (Str × Json)} {text : Str} {r : Json × Str},
    scanEntries fuel limit entries text = .ok r → Scans text r.2
  items : ∀ {limit : ℕ} {items : List Json} {text : Str} {r : Json × Str},
    scanItems fuel limit items text = .ok r → Scans text r.2

namespace ScansWith

variable {fuel : ℕ} (ih : ScansWith fuel) {limit : ℕ} {text : Str} {r : Json × Str}

include ih

theorem once_succ (h : scanOnce (fuel + 1) limit text = .ok r) : Scans text r.2 := by
  have hchar : ∀ {c}, 0x20 ≤ c → Legal c := Or.inr
  unfold scanOnce at h
  split at h
  · obtain ⟨r', hr', h⟩ := bind_eq_ok.1 h
    cases h
    exact .of_cons (hchar (by decide)) (scans_of_scanString hr').1
  · split_ifs at h
    split at h
    · rename_i hs
      cases h
      exact .of_cons (hchar (by decide)) (scans_of_skipWhitespace (by decide) hs).1
    · rename_i hs
      exact .of_cons (hchar (by decide))
        ((scans_of_skipWhitespace (by decide) hs).trans (ih.entries h).1).1
    · cases h
  · split_ifs at h
    split at h
    · rename_i hs
      cases h
      exact .of_cons (hchar (by decide)) (scans_of_skipWhitespace (by decide) hs).1
    · exact .of_cons (hchar (by decide)) ((Skips.skipWhitespace _).trans (ih.items h).1)
  · exact scans_of_scanScalar h

theorem entries_succ {entries : List (Str × Json)}
    (h : scanEntries (fuel + 1) limit entries text = .ok r) : Scans text r.2 := by
  rw [scanEntries] at h
  obtain ⟨⟨key, text'⟩, hkey, h⟩ := bind_eq_ok.1 h
  have hk := scans_of_scanString hkey
  dsimp only at h
  split at h
  swap
  · cases h
  rename_i hs
  obtain ⟨⟨value, rest⟩, hvalue, h⟩ := bind_eq_ok.1 h
  have hv := hk.trans ((scans_of_skipWhitespace (by decide) hs).trans
    ((Skips.skipWhitespace _).trans (ih.once hvalue).1)).1
  dsimp only at h
  split at h
  · rename_i hs
    cases h
    exact hv.trans (scans_of_skipWhitespace (by decide) hs).1
  · rename_i hs
    split at h
    swap
    · cases h
    rename_i hs'
    have hnext := (scans_of_skipWhitespace (by decide) hs').trans (ih.entries h).1
    exact hv.trans ((scans_of_skipWhitespace (by decide) hs).trans hnext.1).1
  · cases h

theorem items_succ {items : List Json} (h : scanItems (fuel + 1) limit items text = .ok r) :
    Scans text r.2 := by
  rw [scanItems] at h
  obtain ⟨⟨value, rest⟩, hvalue, h⟩ := bind_eq_ok.1 h
  have hv := ih.once hvalue
  dsimp only at h
  split at h
  · rename_i hs
    cases h
    exact hv.trans (scans_of_skipWhitespace (by decide) hs).1
  · rename_i hs
    have hnext := (Skips.skipWhitespace _).trans (ih.items h).1
    exact hv.trans ((scans_of_skipWhitespace (by decide) hs).trans hnext).1
  · cases h

end ScansWith

theorem scansWith (fuel : ℕ) : ScansWith fuel := by
  induction fuel with
  | zero =>
    refine ⟨fun h => ?_, fun h => ?_, fun h => ?_⟩
    · simp [scanOnce] at h
    · simp [scanEntries] at h
    · simp [scanItems] at h
  | succ fuel ih => exact ⟨ih.once_succ, ih.entries_succ, ih.items_succ⟩

theorem scanString_ne_outOfFuel (pending : Option ℕ) (text : Str) :
    scanString pending text ≠ .error .outOfFuel := by
  intro h
  fun_induction scanString pending text with
  | case2 pending a b c d rest unit hu chars pending' hp ih =>
    rcases bind_eq_error.1 h with h | ⟨_, -, h⟩
    · exact ih h
    · cases h
  | case4 pending c rest hne c' hc ih =>
    rcases bind_eq_error.1 h with h | ⟨_, -, h⟩
    · exact ih h
    · cases h
  | case7 pending c rest hquote hu hesc hc ih =>
    rcases bind_eq_error.1 h with h | ⟨_, -, h⟩
    · exact ih h
    · cases h
  | _ => cases h

theorem scanScalar_ne_outOfFuel (text : Str) : scanScalar text ≠ .error .outOfFuel := by
  unfold scanScalar
  split
  · simp
  · unfold scanNumber
    dsimp only
    split
    · simp
    · split_ifs <;> simp

/-- This fuel is enough for texts of half its size. -/
structure SufficesWith (fuel : ℕ) : Prop where
  once : ∀ {limit : ℕ} {text : Str}, 2 * text.length < fuel →
    scanOnce fuel limit text ≠ .error .outOfFuel
  entries : ∀ {limit : ℕ} {entries : List (Str × Json)} {text : Str}, 2 * text.length < fuel →
    scanEntries fuel limit entries text ≠ .error .outOfFuel
  items : ∀ {limit : ℕ} {items : List Json} {text : Str}, 2 * text.length + 1 < fuel →
    scanItems fuel limit items text ≠ .error .outOfFuel

theorem length_lt_of_skipWhitespace {text rest : Str} {c : ℕ}
    (h : skipWhitespace text = c :: rest) : rest.length < text.length := by
  have hle := (Skips.skipWhitespace text).length_le
  rwa [h, List.length_cons] at hle

namespace SufficesWith

variable {fuel : ℕ} (ih : SufficesWith fuel) {limit : ℕ} {text : Str}

include ih

theorem once_succ (hf : 2 * text.length < fuel + 1) :
    scanOnce (fuel + 1) limit text ≠ .error .outOfFuel := by
  intro h
  unfold scanOnce at h
  split at h
  · rcases bind_eq_error.1 h with h | ⟨_, -, h⟩
    · exact scanString_ne_outOfFuel _ _ h
    · cases h
  · rw [List.length_cons] at hf
    split_ifs at h
    · cases h
    split at h
    · cases h
    · rename_i hs
      have hlt := length_lt_of_skipWhitespace hs
      exact ih.entries (by omega) h
    · cases h
  · rw [List.length_cons] at hf
    split_ifs at h
    · cases h
    split at h
    · cases h
    · rename_i rest _ _ _
      have hle := (Skips.skipWhitespace rest).length_le
      exact ih.items (by omega) h
  · exact scanScalar_ne_outOfFuel _ h

theorem entries_succ {entries : List (Str × Json)} (hf : 2 * text.length < fuel + 1) :
    scanEntries (fuel + 1) limit entries text ≠ .error .outOfFuel := by
  intro h
  rw [scanEntries] at h
  rcases bind_eq_error.1 h with h | ⟨⟨key, text'⟩, hkey, h⟩
  · exact scanString_ne_outOfFuel _ _ h
  have hk := (scans_of_scanString hkey).2
  dsimp only at h hk
  split at h
  swap
  · cases h
  rename_i rest hs
  have hrest := length_lt_of_skipWhitespace hs
  have hws := (Skips.skipWhitespace rest).length_le
  rcases bind_eq_error.1 h with h | ⟨⟨value, rest'⟩, hvalue, h⟩
  · exact ih.once (by omega) h
  have hv := ((scansWith _).once hvalue).2
  dsimp only at h hv
  split at h
  · cases h
  · rename_i hs
    have hlt := length_lt_of_skipWhitespace hs
    split at h
    swap
    · cases h
    rename_i hs'
    have hlt' := length_lt_of_skipWhitespace hs'
    exact ih.entries (by omega) h
  · cases h

theorem items_succ {items : List Json} (hf : 2 * text.length + 1 < fuel + 1) :
    scanItems (fuel + 1) limit items text ≠ .error .outOfFuel := by
  intro h
  rw [scanItems] at h
  rcases bind_eq_error.1 h with h | ⟨⟨value, rest⟩, hvalue, h⟩
  · exact ih.once (by omega) h
  have hv := ((scansWith _).once hvalue).2
  dsimp only at h hv
  split at h
  · cases h
  · rename_i rest' hs
    have hlt := length_lt_of_skipWhitespace hs
    have hle := (Skips.skipWhitespace rest').length_le
    exact ih.items (by omega) h
  · cases h

end SufficesWith

/-- Two units of fuel for each character, and one more, are enough. -/
theorem sufficesWith (fuel : ℕ) : SufficesWith fuel := by
  induction fuel with
  | zero => exact ⟨fun h => by omega, fun h => by omega, fun h => by omega⟩
  | succ fuel ih => exact ⟨ih.once_succ, ih.entries_succ, ih.items_succ⟩

section Decode

variable {limit : ℕ}

theorem decode_ne_outOfFuel (text : Str) : decode limit text ≠ .error .outOfFuel := by
  intro h
  have hws := (Skips.skipWhitespace text).length_le
  rcases bind_eq_error.1 h with h | ⟨⟨value, rest⟩, -, h⟩
  · exact (sufficesWith _).once (by omega) h
  · dsimp only at h
    split_ifs at h <;> cases h

/-- An accepted text has no control character but white space. -/
theorem legal_of_decode {text : Str} {value : Json} (h : decode limit text = .ok value) :
    ∀ c ∈ text, Legal c := by
  obtain ⟨⟨value', rest⟩, hscan, h⟩ := bind_eq_ok.1 h
  dsimp only at h
  split_ifs at h with hrest
  obtain ⟨pre, htext, hpre⟩ := (Skips.skipWhitespace text).trans
    (((scansWith _).once hscan).1.trans (.skipWhitespace rest))
  rw [htext, hrest, List.append_nil]
  exact hpre

theorem zero_not_mem_of_decode {text : Str} {value : Json} (h : decode limit text = .ok value) :
    0 ∉ text := by
  intro hc
  have := legal_of_decode h 0 hc
  simp [Legal, isWhitespace] at this

/-! ## Deep texts -/

/-- What goes wrong in the first item of a list goes wrong in the list. -/
theorem scanOnce_bracket {fuel : ℕ} {text : Str} {e : LoadsError}
    (h : scanOnce fuel limit (0x5B :: text) = .error e) :
    scanOnce (fuel + 2) (limit + 1) (0x5B :: 0x5B :: text) = .error e := by
  have hwhite : skipWhitespace (0x5B :: text) = 0x5B :: text := rfl
  rw [scanOnce]
  simp only [Nat.add_one_ne_zero, if_false, hwhite, Nat.add_sub_cancel]
  rw [scanItems, h]
  rfl

/-- The scanner gives up at the bracket that is one too many. -/
theorem scanOnce_brackets {fuel : ℕ} (hf : 2 * limit < fuel) (text : Str) :
    scanOnce fuel limit (List.replicate (limit + 1) 0x5B ++ text) = .error .recursionError := by
  induction limit generalizing fuel with
  | zero =>
    obtain ⟨fuel, rfl⟩ : ∃ fuel', fuel = fuel' + 1 := ⟨fuel - 1, by omega⟩
    rw [List.replicate_one, List.singleton_append, scanOnce]
    rfl
  | succ limit ih =>
    obtain ⟨fuel, rfl⟩ : ∃ fuel', fuel = fuel' + 2 := ⟨fuel - 2, by omega⟩
    rw [List.replicate_succ, List.replicate_succ, List.cons_append, List.cons_append]
    exact scanOnce_bracket (ih (by omega))

/-- More opening brackets than the limit are too many, whatever follows them. -/
theorem loads_brackets {n : ℕ} (hn : limit < n) (text : Str) :
    loads limit (List.replicate n 0x5B ++ text) = .error .recursionError := by
  obtain ⟨m, rfl⟩ : ∃ m, n = limit + 1 + m := ⟨n - (limit + 1), by omega⟩
  rw [List.replicate_add, List.append_assoc]
  generalize List.replicate m 0x5B ++ text = text
  have hhead : (List.replicate (limit + 1) 0x5B ++ text).head? = some 0x5B := rfl
  have hwhite : skipWhitespace (List.replicate (limit + 1) 0x5B ++ text) =
      List.replicate (limit + 1) 0x5B ++ text := rfl
  rw [loads, hhead, if_neg (by decide), decode, hwhite, scanOnce_brackets]
  · rfl
  · rw [List.length_append, List.length_replicate]
    omega

end Decode

end Json

end Python
