import Abrio.Library.Codec

/-!
# Query strings

`parse_qsl` of `urllib.parse`. A name or a value is unquoted after its `+` have become spaces,
and a pair without a value is left out, or kept with `keep_blank_values`.
-/

namespace Python

open Str

/-- The bytes of a text of ASCII characters, with its `%xx` escapes replaced. -/
def unquoteToBytes : Str → Bytes
  | 0x25 :: a :: b :: rest =>
    match hexDigit? a, hexDigit? b with
    | some x, some y => UInt8.ofNat (x * 16 + y) :: unquoteToBytes rest
    | _, _ => 0x25 :: unquoteToBytes (a :: b :: rest)
  | c :: rest => UInt8.ofNat c :: unquoteToBytes rest
  | [] => []

/-- The characters that stand for bytes by themselves. -/
def isAscii (c : ℕ) : Bool :=
  c < 0x80

/-- `unquote` : the runs of ASCII characters are unquoted one by one. -/
def unquote (s : Str) : Str :=
  (s.splitBy fun a b => isAscii a = isAscii b).flatMap fun part =>
    if part.all isAscii then decodeReplace (unquoteToBytes part) else part

/-- `unquote_plus`. -/
def unquotePlus (s : Str) : Str :=
  unquote (s.map fun c => if c = 0x2B then 0x20 else c)

/-- One `name=value`. -/
def parsePair (keepBlankValues : Bool) (nameValue : Str) : Option (Str × Str) :=
  let name := nameValue.takeWhile (· ≠ 0x3D)
  match nameValue.dropWhile (· ≠ 0x3D) with
  | _ :: value =>
    if value ≠ [] ∨ keepBlankValues = true then some (unquotePlus name, unquotePlus value) else none
  | [] => if keepBlankValues = true then some (unquotePlus name, []) else none

/-- `urllib.parse.parse_qsl`, with `&` for the separator. -/
def parseQsl (keepBlankValues : Bool) (qs : Str) : List (Str × Str) :=
  ((qs.splitOn 0x26).filter (· ≠ [])).filterMap (parsePair keepBlankValues)

/-- `bytes.decode("latin-1")`. -/
def decodeLatin1 (bytes : Bytes) : Str :=
  bytes.map UInt8.toNat

end Python
