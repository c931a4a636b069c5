import Graft.Text.Blank

/-!
# Reading whole numbers

A numeral is a run of decimal digits of any script, with single underscores allowed between
digits, after an optional sign and with blanks around it, the information separators U+001C to
U+001F excepted. `Text.toInt?` reads it. A numeral of more than `maxDigits` digits is refused,
whatever its value.
-/

namespace Graft

namespace Text

/-- The zeros of the scripts that have decimal digits; the other nine digits follow each. -/
def zeroDigits : List Nat := [
  0x30, 0x660, 0x6f0, 0x7c0, 0x966, 0x9e6, 0xa66, 0xae6, 0xb66, 0xbe6,
  0xc66, 0xce6, 0xd66, 0xde6, 0xe50, 0xed0, 0xf20, 0x1040, 0x1090, 0x17e0,
  0x1810, 0x1946, 0x19d0, 0x1a80, 0x1a90, 0x1b50, 0x1bb0, 0x1c40, 0x1c50, 0xa620,
  0xa8d0, 0xa900, 0xa9d0, 0xa9f0, 0xaa50, 0xabf0, 0xff10, 0x104a0, 0x10d30, 0x11066,
  0x110f0, 0x11136, 0x111d0, 0x112f0, 0x11450, 0x114d0, 0x11650, 0x116c0, 0x11730, 0x118e0,
  0x11950, 0x11c50, 0x11d50, 0x11da0, 0x16a60, 0x16ac0, 0x16b50, 0x1d7ce, 0x1d7d8, 0x1d7e2,
  0x1d7ec, 0x1d7f6, 0x1e140, 0x1e2f0, 0x1e950, 0x1fbf0]

/-- The value of a decimal digit of any script. -/
def digitValue? (c : CodePoint) : Option Nat :=
  (zeroDigits.find? fun z => z ≤ c.toNat && c.toNat < z + 10).map (c.toNat - ·)

/-- The most digits that a numeral may have. -/
def maxDigits : Nat := 4300

/-- The values of the digits, one underscore allowed between two of them. -/
def digitsOf? : Text → Option (List Nat)
  | [] => none
  | [c] => (digitValue? c).map ([·])
  | c :: .char '_' :: r => do
    let d ← digitValue? c
    let ds ← digitsOf? r
    return d :: ds
  | c :: r => do
    let d ← digitValue? c
    let ds ← digitsOf? r
    return d :: ds

/-- The number that decimal digits write, the first one counting most. -/
def valueOfDigits (ds : List Nat) : Nat :=
  ds.foldl (fun n d => 10 * n + d) 0

/-- The number that a run of digits writes. -/
def toNat? (t : Text) : Option Nat := do
  let ds ← digitsOf? t
  if ds.length ≤ maxDigits then return valueOfDigits ds else none

/-- Whether a character may stand around a numeral: a blank that is no information separator. -/
def isMargin (c : CodePoint) : Bool :=
  isBlank c && !(0x1c ≤ c.toNat && c.toNat ≤ 0x1f)

/-- The whole number that a text writes. -/
def toInt? (t : Text) : Option Int :=
  match dropRight isMargin (t.dropWhile isMargin) with
  | .char '-' :: r => (toNat? r).map fun n => -Int.ofNat n
  | .char '+' :: r => (toNat? r).map Int.ofNat
  | r => (toNat? r).map Int.ofNat

end Text

end Graft
