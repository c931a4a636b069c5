import Graft.Json.Reader
import Graft.Json.Writer
import Graft.Proofs.Text.Digits
import Graft.Text.Encoding
import Mathlib.Tactic.IntervalCases

/-!
# Strings and numbers as JSON

What `Json.writeString` writes `Json.readString` reads back, whatever stands behind the closing
quote. One character is at issue: written (`writeChar`), it is read back in front of anything
(`readString_writeChar`), and a string is one character after another.

A whole number is read back in front of a text that cannot be taken for more of it (`Stops`):

> `readScalar_ofInt`: a number of no more digits than a numeral may have is read back.
-/

namespace Graft

namespace Json

variable {t rest : Text} {c : CodePoint} {n : Nat}

/-! ## Strings -/

/-- Characters that are passed over are not looked at. -/
theorem readStringSkipping_append (p s : Text) :
    readStringSkipping p.length (p ++ s) = readString s := by
  induction p with
  | nil => rfl
  | cons c p ih => exact ih

/-- An escape is read as the character that it stands for. -/
theorem readString_escape {p : Text} (h : escape? (p ++ rest) = some (c, p.length)) :
    readString (.char '\\' :: p ++ rest) = (readString rest).map fun (t, s) => (c :: t, s) := by
  have hread : readString (.char '\\' :: (p ++ rest)) =
      (readStringSkipping p.length (p ++ rest)).map fun (t, s) => (c :: t, s) := by
    rw [readString, readStringSkipping]
    simp only [CodePoint.char.injEq, Char.reduceEq, if_false, if_true, h]
  rw [List.cons_append, hread, readStringSkipping_append]

/-- The number that four digits in a row write. -/
def codeOf? : Text → Option Nat
  | [a, b, c, d] => hexCode? a b c d
  | _ => none

/-- The four digits of a control write its code. -/
theorem codeOf?_hexadecimal : ∀ n < 0x20, codeOf? (Text.hexadecimal 4 n) = some n := by
  decide

/-- A code below those of the surrogates names its character, whatever comes behind. -/
theorem escape?_code {ds : Text} (h : codeOf? ds = some n) (hn : n < 0xd800) (rest : Text) :
    escape? (.char 'u' :: ds ++ rest) = some (.ofNat n, ds.length + 1) := by
  have hpair : ∀ low, pairOf? n low = none := by
    intro low
    have hlow : ¬ 0xd800 ≤ n := by omega
    simp [pairOf?, hlow]
  unfold codeOf? at h
  split at h
  · next a b c d =>
    simp only [List.cons_append, List.nil_append, escape?, h]
    split
    · next a' b' c' d' _ =>
      have hnone : (hexCode? a' b' c' d').bind (pairOf? n) = none := by
        simp [hpair]
      rw [hnone]
      rfl
    · rfl
  · cases h

/-- A character is read back. -/
theorem readString_writeChar (c : CodePoint) (rest : Text) :
    readString (writeChar c ++ rest) = (readString rest).map fun (t, s) => (c :: t, s) := by
  unfold writeChar
  -- the characters that have an escape of one letter
  iterate 5
    split
    · next h =>
      subst h
      exact readString_escape rfl
  iterate 2
    split
    · next h =>
      have hc : c = .ofNat c.toNat := (CodePoint.ofNat_toNat c).symm
      rw [h] at hc
      subst hc
      exact readString_escape rfl
  split
  · next h =>
    have hescape := escape?_code (codeOf?_hexadecimal _ h) (by omega) rest
    rw [CodePoint.ofNat_toNat] at hescape
    exact readString_escape hescape
  · next hquote hslash _ _ _ _ _ hcontrol =>
    rw [List.singleton_append, readString, readStringSkipping, if_neg hquote, if_neg hslash,
      if_neg hcontrol]
    rfl

/-- A string is read back up to its closing quote. -/
theorem readString_flatMap (t rest : Text) :
    readString (t.flatMap writeChar ++ .char '"' :: rest) = some (t, rest) := by
  induction t with
  | nil => rfl
  | cons c t ih =>
    rw [List.flatMap_cons, List.append_assoc, readString_writeChar, ih]
    rfl

theorem readQuoted_flatMap (t rest : Text) :
    readQuoted (t.flatMap writeChar ++ .char '"' :: rest) = .ok (t, rest) := by
  rw [readQuoted, readString_flatMap]

theorem writeString_append (t rest : Text) :
    writeString t ++ rest = .char '"' :: (t.flatMap writeChar ++ .char '"' :: rest) := by
  simp [writeString]

/-- What is written for a code point can be written in UTF-8 exactly if the code point can. -/
theorem writes_writeChar (c : CodePoint) :
    Encoding.utf8.writes (writeChar c) = Encoding.utf8.knows c := by
  cases c with
  | char c =>
    unfold writeChar
    repeat' split
    all_goals simp [Text.hexadecimal, Text.padLeft]
  | lone half =>
    have hcode : ∀ n < 0x20, (CodePoint.lone half).toNat ≠ n := by
      intro n hn
      simp only [CodePoint.toNat, CodePoint.firstHalf]
      omega
    have hhigh : ¬ (CodePoint.lone half).toNat < 0x20 := fun hlow => hcode _ hlow rfl
    simp [writeChar, hcode, hhigh]

/-- So it is with a string. -/
theorem writes_writeString (t : Text) :
    Encoding.utf8.writes (writeString t) = Encoding.utf8.writes t := by
  have hinner : Encoding.utf8.writes (t.flatMap writeChar) = Encoding.utf8.writes t := by
    induction t with
    | nil => rfl
    | cons c r ih =>
      rw [List.flatMap_cons, Encoding.writes_append, writes_writeChar, ih, Encoding.writes_cons]
  simp [writeString, hinner]

/-- So it is with entries between brackets. -/
theorem writes_enclose (level : Nat) (a b : Char) (entries : List Text) :
    Encoding.utf8.writes (enclose level (.char a) (.char b) entries) =
      entries.all Encoding.utf8.writes := by
  have hsep : Encoding.utf8.writes (.char ',' :: newLine (level + 1)) = true := by simp [newLine]
  unfold enclose
  split
  · next h => simp [List.isEmpty_iff.1 h]
  · rw [Encoding.writes_append, Encoding.writes_append, Encoding.writes_append,
      Encoding.writes_join hsep]
    simp [newLine]

/-! ## Words and numbers -/

/-- A text that cannot be taken for more of the number before it. -/
def Stops (t : Text) : Prop :=
  ∀ c r, t = c :: r → c.isDigit = false ∧ c ≠ .char '.' ∧ c ≠ .char 'e' ∧ c ≠ .char 'E'

theorem stops_cons (h : c = .char ',' ∨ c = .char '\n') : Stops (c :: rest) := by
  rintro d r hd
  cases hd
  rcases h with rfl | rfl <;> decide

theorem Stops.takeWhile (h : Stops rest) (ht : ∀ c ∈ t, c.isDigit = true) :
    (t ++ rest).takeWhile CodePoint.isDigit = t ∧
      (t ++ rest).dropWhile CodePoint.isDigit = rest := by
  have hnone : rest.takeWhile CodePoint.isDigit = [] ∧ rest.dropWhile CodePoint.isDigit = rest := by
    cases rest with
    | nil => exact ⟨rfl, rfl⟩
    | cons c r => simp [(h c r rfl).1]
  rw [List.takeWhile_append_of_pos ht, List.dropWhile_append_of_pos ht, hnone.1, hnone.2,
    List.append_nil]
  exact ⟨rfl, rfl⟩

theorem Stops.readFraction (h : Stops rest) : readFraction rest = ([], rest) := by
  unfold Json.readFraction
  split
  · next r => exact absurd rfl (h (.char '.') r rfl).2.1
  · rfl

theorem Stops.readExponent (h : Stops rest) : readExponent rest = (none, rest) := by
  unfold Json.readExponent
  split
  · next c r =>
    obtain ⟨-, -, he, hE⟩ := h c r rfl
    rw [if_neg (by simp [he, hE])]
  · rfl

/-- A number that is not zero has no zero in front. -/
theorem exists_ofNat_cons_ne (hn : 0 < n) : ∃ c r, Text.ofNat n = c :: r ∧ c ≠ .char '0' := by
  unfold Text.ofNat
  induction n using Nat.strongRecOn with
  | _ n ih =>
    rw [Nat.toDigits_eq_if (by decide : 1 < 10)]
    split
    · next hten =>
      have hdigit : ∀ n < 10, 0 < n → Text.digit n ≠ .char '0' := by decide
      exact ⟨_, _, rfl, hdigit n hten hn⟩
    · obtain ⟨c, r, h, hc⟩ := ih (n / 10) (by omega) (by omega)
      exact ⟨c, _, by rw [List.map_append, h]; rfl, hc⟩

theorem readWhole_ofNat (h : Stops rest) :
    readWhole (Text.ofNat n ++ rest) = some (Text.ofNat n, rest) := by
  rcases Nat.eq_zero_or_pos n with rfl | hn
  · rfl
  · obtain ⟨htake, hdrop⟩ := h.takeWhile fun _ => Text.isDigit_of_mem_ofNat (n := n)
    obtain ⟨c, r, hcons, hc⟩ := exists_ofNat_cons_ne hn
    have hne : (Text.ofNat n).isEmpty = false := by
      rw [hcons]
      rfl
    unfold readWhole
    split
    · next r' hr' =>
      rw [hcons] at hr'
      cases hr'
      exact absurd rfl hc
    · rw [htake, hdrop]
      simp [hne]

theorem decimalValue_ofNat (n : Nat) : decimalValue (Text.ofNat n) = n :=
  Text.valueOf_ofNat

theorem readNumber_ofNat {negative : Bool} (h : Stops rest)
    (hlength : (Text.ofNat n).length ≤ Text.maxDigits) :
    readNumber negative (Text.ofNat n ++ rest) = .ok (int (if negative then -n else n), rest) := by
  unfold readNumber
  rw [readWhole_ofNat h]
  dsimp only
  rw [h.readFraction]
  dsimp only
  rw [h.readExponent]
  simp only [List.isEmpty_nil, Option.isNone_none, Bool.and_self, if_true]
  rw [if_neg (by omega), decimalValue_ofNat]

/-- No word starts with a digit, nor with a minus sign and a digit. -/
theorem readWord_of_isDigit (h : c.isDigit = true) :
    readWord (c :: rest) = none ∧ readWord (.char '-' :: c :: rest) = none := by
  obtain ⟨n, hn, rfl⟩ := Text.exists_digit h
  interval_cases n <;> exact ⟨rfl, rfl⟩

/-- How many digits a number may have to be read back. -/
def IsShort (i : Int) : Prop :=
  (Text.ofNat i.natAbs).length ≤ Text.maxDigits

theorem exists_ofNat_cons (n : Nat) : ∃ c r, Text.ofNat n = c :: r ∧ c.isDigit = true := by
  cases h : Text.ofNat n with
  | nil => exact absurd (List.map_eq_nil_iff.1 h) Nat.toDigits_ne_nil
  | cons c r =>
    have hc : c ∈ Text.ofNat n := h ▸ List.mem_cons_self
    exact ⟨c, r, rfl, Text.isDigit_of_mem_ofNat hc⟩

/-- A number is read back. -/
theorem readScalar_ofInt {i : Int} (h : Stops rest) (hi : IsShort i) :
    readScalar (Text.ofInt i ++ rest) = .ok (int i, rest) := by
  unfold readScalar
  cases i with
  | ofNat n =>
    obtain ⟨c, r, hcons, hc⟩ := exists_ofNat_cons n
    have hread : readNumber false (Text.ofNat n ++ rest) = .ok (int n, rest) :=
      readNumber_ofNat h hi
    rw [hcons, List.cons_append] at hread
    rw [Text.ofInt, hcons, List.cons_append, (readWord_of_isDigit hc).1]
    dsimp only
    split
    · next hminus =>
      cases hminus
      exact absurd hc (by decide)
    · exact hread
  | negSucc n =>
    obtain ⟨c, r, hcons, hc⟩ := exists_ofNat_cons (n + 1)
    have hread : readNumber true (Text.ofNat (n + 1) ++ rest) = .ok (int (-↑(n + 1)), rest) :=
      readNumber_ofNat h hi
    rw [hcons, List.cons_append] at hread
    rw [Text.ofInt, hcons, List.cons_append, List.cons_append, (readWord_of_isDigit hc).2]
    exact hread

end Json

end Graft
