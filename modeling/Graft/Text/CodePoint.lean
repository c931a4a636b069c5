/-!
# Code points

What a text consists of: characters, and halves of surrogate pairs that stand alone. No encoding
writes such a half and no file holds one, but a JSON text can name one, and a name on the command
line that is not in UTF-8 is told with some.

A half is of no kind: it is neither a letter nor a digit nor a blank, and has no lower case. Code
points are told apart by their codes (`CodePoint.toNat_inj`).
-/

namespace Graft

/-- A character, or half of a surrogate pair that stands alone. -/
inductive CodePoint where
  /-- A character. -/
  | char (c : Char)
  /-- A half, by its distance from the first one. -/
  | lone (half : Fin 0x800)
  deriving DecidableEq, Repr

namespace CodePoint

/-- The code of the first half. -/
def firstHalf : Nat := 0xd800

/-- The code. -/
def toNat : CodePoint → Nat
  | char c => c.toNat
  | lone half => firstHalf + half

/-- The code point of a code. -/
def ofNat (n : Nat) : CodePoint :=
  if h : n - firstHalf < 0x800 ∧ firstHalf ≤ n then lone ⟨n - firstHalf, h.1⟩ else char (.ofNat n)

/-- Whether a code point is a character. -/
def isChar : CodePoint → Bool
  | char _ => true
  | lone _ => false

/-- The character that a code point is. -/
def char? : CodePoint → Option Char
  | char c => some c
  | lone _ => none

/-- Whether the character is a digit of the basic alphabet. -/
def isDigit (c : CodePoint) : Bool :=
  c.char?.any Char.isDigit

/-- Whether it is a letter of the basic alphabet. -/
def isAlpha (c : CodePoint) : Bool :=
  c.char?.any Char.isAlpha

/-- Whether it is one or the other. -/
def isAlphanum (c : CodePoint) : Bool :=
  c.char?.any Char.isAlphanum

/-- The lower-case letter of a letter of the basic alphabet. -/
def toLower : CodePoint → CodePoint
  | char c => char c.toLower
  | lone half => lone half

@[simp] theorem toNat_char (c : Char) : (char c).toNat = c.toNat := rfl

@[simp] theorem isAlpha_char (c : Char) : (char c).isAlpha = c.isAlpha := rfl

@[simp] theorem isAlphanum_char (c : Char) : (char c).isAlphanum = c.isAlphanum := rfl

theorem isAlphanum_of_isAlpha {c : CodePoint} (h : c.isAlpha = true) : c.isAlphanum = true := by
  cases c with
  | lone half => cases h
  | char c =>
    rw [isAlpha_char] at h
    rw [isAlphanum_char, Char.isAlphanum, h, Bool.true_or]

/-- A half has the code of no character. -/
theorem toNat_char_ne (c : Char) (half : Fin 0x800) : (char c).toNat ≠ (lone half).toNat := by
  have hvalid : c.toNat < 0xd800 ∨ 0xdfff < c.toNat ∧ c.toNat < 0x110000 := c.valid
  simp only [toNat, firstHalf]
  omega

/-- A code point is told by its code. -/
theorem toNat_inj {c d : CodePoint} : c.toNat = d.toNat ↔ c = d := by
  constructor
  · intro h
    cases c with
    | char c =>
      cases d with
      | char d => rw [Char.toNat_inj.1 h]
      | lone j => exact absurd h (toNat_char_ne c j)
    | lone i =>
      cases d with
      | char d => exact absurd h.symm (toNat_char_ne d i)
      | lone j => rw [Fin.ext (Nat.add_left_cancel h)]
  · rintro rfl
    rfl

theorem ofNat_toNat (c : CodePoint) : ofNat c.toNat = c := by
  cases c with
  | char c =>
    have hvalid : c.toNat < 0xd800 ∨ 0xdfff < c.toNat ∧ c.toNat < 0x110000 := c.valid
    rw [ofNat, dif_neg (by simp only [toNat, firstHalf]; omega), toNat_char, Char.ofNat_toNat]
  | lone half =>
    have hcode : (lone half).toNat - firstHalf = half := Nat.add_sub_cancel_left ..
    rw [ofNat, dif_pos ⟨hcode ▸ half.2, Nat.le_add_right ..⟩]
    exact congrArg lone (Fin.ext hcode)

end CodePoint

end Graft
