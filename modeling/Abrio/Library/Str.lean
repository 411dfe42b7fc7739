import Mathlib.Data.List.DropRight

/-!
# Strings as lists of code points

A string of Python is a list of code points, lone surrogates among them, so it is no `String`.
`isDecimal` is `str.isdecimal` : every character is a digit of some script. The strings that
are decimal have no surrogates, so they are told apart by the `String` they make
(`toString_inj`), and the numeral of a number is one of them (`isDecimal_numeral`).
-/

namespace Python

/-- A string, by its code points. -/
abbrev Str := List ℕ

namespace Str

/-- The code points of a string. -/
def ofString (s : String) : Str :=
  s.toList.map Char.toNat

/-- The characters of a string, where they are characters. -/
def toString (s : Str) : String :=
  String.ofList (s.map Char.ofNat)

/-- `s.startswith(pre)`. -/
def startsWith (s pre : Str) : Bool :=
  pre.isPrefixOf s

theorem startsWith_iff {s pre : Str} : s.startsWith pre = true ↔ pre <+: s :=
  List.isPrefixOf_iff_prefix

/-- `s.rstrip(c)`. -/
def rstrip (s : Str) (c : ℕ) : Str :=
  s.rdropWhile (· = c)

/-- `s.strip(c)`. -/
def strip (s : Str) (c : ℕ) : Str :=
  rstrip (s.dropWhile (· = c)) c

theorem rstrip_eq_self {s : Str} {c : ℕ} (h : s.getLast? ≠ some c) : rstrip s c = s := by
  refine List.rdropWhile_eq_self_iff.2 fun hne hlast => h ?_
  rw [List.getLast?_eq_some_getLast hne]
  simpa using hlast

/-! ## Digits -/

/-- A digit of ASCII. -/
def isDigit (c : ℕ) : Bool :=
  0x30 ≤ c && c ≤ 0x39

/-- The value of a digit of base 16, in ASCII. -/
def hexDigit? (c : ℕ) : Option ℕ :=
  if isDigit c then some (c - 0x30)
  else if 0x41 ≤ c && c ≤ 0x46 then some (c - 0x41 + 10)
  else if 0x61 ≤ c && c ≤ 0x66 then some (c - 0x61 + 10)
  else none

/-- The number of a run of digits. -/
def ofDigits (digits : Str) : ℕ :=
  digits.foldl (fun n c => n * 10 + (c - 0x30)) 0

/-! ## Decimal strings -/

/-- The digit zero of each script; the nine other digits follow it. -/
def zeroDigits : List ℕ :=
  [0x30, 0x660, 0x6F0, 0x7C0, 0x966, 0x9E6, 0xA66, 0xAE6, 0xB66, 0xBE6, 0xC66, 0xCE6, 0xD66, 0xDE6,
    0xE50, 0xED0, 0xF20, 0x1040, 0x1090, 0x17E0, 0x1810, 0x1946, 0x19D0, 0x1A80, 0x1A90, 0x1B50,
    0x1BB0, 0x1C40, 0x1C50, 0xA620, 0xA8D0, 0xA900, 0xA9D0, 0xA9F0, 0xAA50, 0xABF0, 0xFF10, 0x104A0,
    0x10D30, 0x11066, 0x110F0, 0x11136, 0x111D0, 0x112F0, 0x11450, 0x114D0, 0x11650, 0x116C0,
    0x11730, 0x118E0, 0x11950, 0x11C50, 0x11D50, 0x11DA0, 0x11F50, 0x16A60, 0x16AC0, 0x16B50,
    0x1D7CE, 0x1D7D8, 0x1D7E2, 0x1D7EC, 0x1D7F6, 0x1E140, 0x1E2F0, 0x1E4F0, 0x1E950, 0x1FBF0]

/-- General category `Nd`. -/
def isDecimalChar (c : ℕ) : Bool :=
  zeroDigits.any fun z => z ≤ c && c ≤ z + 9

/-- `s.isdecimal()`. -/
def isDecimal (s : Str) : Bool :=
  s ≠ [] && s.all isDecimalChar

/-- The numeral of a number, without leading zeros. -/
def numeral (n : ℕ) : Str :=
  ofString (ToString.toString n)

/-- A number of zeros. -/
def zeros (k : ℕ) : Str :=
  List.replicate k 0x30

theorem toString_ofString (s : String) : (ofString s).toString = s := by
  have h : Char.ofNat ∘ Char.toNat = id := funext Char.ofNat_toNat
  rw [toString, ofString, List.map_map, h, List.map_id, String.ofList_toList]

theorem toString_numeral (n : ℕ) : (numeral n).toString = ToString.toString n :=
  toString_ofString _

theorem numeral_eq (n : ℕ) : numeral n = (Nat.toDigits 10 n).map Char.toNat := by
  rw [numeral, ofString, show ToString.toString n = String.ofList (Nat.toDigits 10 n) from rfl,
    String.toList_ofList]

/-- A numeral spells its number, whatever the leading zeros. -/
theorem ofDigits_zeros_append (k n : ℕ) : ofDigits (zeros k ++ numeral n) = n := by
  have hzeros : (zeros k).foldl (fun n c => n * 10 + (c - 0x30)) 0 = 0 := by
    induction k with
    | zero => rfl
    | succ k ih => exact ih
  rw [ofDigits, List.foldl_append, hzeros, numeral_eq, List.foldl_map]
  have hdigits := Nat.ofDigitChars_ten_toDigits (n := n)
  rw [Nat.ofDigitChars_eq_foldl] at hdigits
  simp only [Nat.mul_comm] at hdigits ⊢
  exact hdigits

theorem isDecimal_numeral (n : ℕ) : (numeral n).isDecimal = true := by
  simp only [isDecimal, numeral_eq, Bool.and_eq_true, decide_eq_true_eq, ne_eq,
    List.map_eq_nil_iff, List.all_eq_true, List.mem_map]
  refine ⟨Nat.toDigits_ne_nil, ?_⟩
  rintro _ ⟨c, hc, rfl⟩
  have hd := Nat.isDigit_of_mem_toDigits (by decide) (by decide) hc
  simp only [Char.isDigit, ge_iff_le, Bool.and_eq_true, decide_eq_true_eq] at hd
  refine List.any_eq_true.2 ⟨0x30, by decide, ?_⟩
  have h₁ : '0'.toNat ≤ c.toNat := hd.1
  have h₂ : c.toNat ≤ '9'.toNat := hd.2
  simpa using ⟨h₁, h₂⟩

/-- A digit is a character. -/
theorem toNat_ofNat_of_isDecimalChar {c : ℕ} (h : isDecimalChar c = true) :
    (Char.ofNat c).toNat = c := by
  have hvalid : ∀ z ∈ zeroDigits, z + 9 < 0xD800 ∨ 0xDFFF < z ∧ z + 9 < 0x110000 := by
    decide
  obtain ⟨z, hz, hc⟩ := List.any_eq_true.1 h
  simp only [Bool.and_eq_true, decide_eq_true_eq] at hc
  have hv : c.isValidChar := by
    have := hvalid z hz
    unfold Nat.isValidChar
    omega
  rw [Char.ofNat, dif_pos hv]
  rfl

theorem ofString_toString {s : Str} (h : s.isDecimal = true) : ofString s.toString = s := by
  simp only [isDecimal, Bool.and_eq_true, List.all_eq_true] at h
  rw [ofString, toString, String.toList_ofList, List.map_map]
  conv_rhs => rw [← List.map_id s]
  exact List.map_congr_left fun c hc => toNat_ofNat_of_isDecimalChar (h.2 c hc)

theorem toString_inj {s s' : Str} (h : s.isDecimal = true) (h' : s'.isDecimal = true) :
    s.toString = s'.toString ↔ s = s' := by
  refine ⟨fun he => ?_, congrArg _⟩
  rw [← ofString_toString h, ← ofString_toString h', he]

end Str

end Python
