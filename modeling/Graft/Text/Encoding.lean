import Graft.Text.Quoted

/-!
# Encodings

An encoding writes texts as bytes, if it knows all their code points (`encode_eq_ok_iff`). UTF-8
knows every character, but no half of a surrogate pair; the other encodings know the characters
below a bound. What was written in UTF-8 is read back (`decode_bytes`), and what is read from UTF-8
can be written in it (`writes_of_decode`).
-/

namespace Graft

/-- A way to write texts as bytes. -/
inductive Encoding where
  /-- One to four bytes a character. -/
  | utf8
  /-- One byte for each of the first 128 characters. -/
  | ascii
  /-- One byte for each of the first 256 characters. -/
  | latin1
  deriving DecidableEq, Repr

/-- Code points that an encoding does not know. -/
structure Unencodable where
  /-- The encoding. -/
  encoding : Encoding
  /-- Where the first of them stands. -/
  index : Nat
  /-- The first of them, and those that follow without one between them that it knows. -/
  run : Text
  deriving DecidableEq, Repr

namespace Encoding

variable {encoding : Encoding} {t : Text} {content : ByteArray}

/-- The name of an encoding. -/
def name : Encoding → Text
  | utf8 => "utf-8".toText
  | ascii => "ascii".toText
  | latin1 => "latin-1".toText

/-- Whether an encoding knows a code point. -/
def knows : Encoding → CodePoint → Bool
  | utf8, c => c.isChar
  | ascii, c => c.toNat < 128
  | latin1, c => c.toNat < 256

/-- What is wrong with a code point that an encoding does not know. -/
def objection : Encoding → Text
  | utf8 => "surrogates not allowed".toText
  | ascii => "ordinal not in range(128)".toText
  | latin1 => "ordinal not in range(256)".toText

/-- Whether an encoding can write a text. -/
def writes (encoding : Encoding) (t : Text) : Bool :=
  t.all encoding.knows

/-- The bytes of a text, as far as it can be written. -/
def bytes : Encoding → Text → ByteArray
  | utf8, t => (String.ofList (t.filterMap CodePoint.char?)).toUTF8
  | _, t => ⟨(t.map fun c => UInt8.ofNat c.toNat).toArray⟩

/-- The bytes of a text, if it can be written. -/
def encode (encoding : Encoding) (t : Text) : Except Unencodable ByteArray :=
  match t.findIdx? (!encoding.knows ·) with
  | some i => .error ⟨encoding, i, (t.drop i).takeWhile (!encoding.knows ·)⟩
  | none => .ok (encoding.bytes t)

/-- The text that bytes write in UTF-8. -/
def decode (bytes : ByteArray) : Option Text :=
  (String.fromUTF8? bytes).map String.toText

/-- The refusal of bytes that write no text. -/
def undecodable : Text :=
  "'utf-8' codec can't decode the content".toText

theorem encode_of_writes (h : encoding.writes t = true) :
    encoding.encode t = .ok (encoding.bytes t) := by
  have hnone : t.findIdx? (!encoding.knows ·) = none := by
    rw [List.findIdx?_eq_none_iff]
    intro c hc
    rw [List.all_eq_true.1 h c hc]
    rfl
  rw [encode, hnone]

/-- What cannot be written is refused. -/
theorem exists_encode_eq_error (h : encoding.writes t = false) :
    ∃ e, encoding.encode t = .error e := by
  unfold encode
  cases hfind : t.findIdx? (!encoding.knows ·) with
  | some i => exact ⟨_, rfl⟩
  | none =>
    have hwrites : encoding.writes t = true := by
      rw [List.findIdx?_eq_none_iff] at hfind
      refine List.all_eq_true.2 fun c hc => ?_
      simpa using hfind c hc
    rw [hwrites] at h
    cases h

/-- **A text is encoded exactly if the encoding knows all that is in it.** -/
theorem encode_eq_ok_iff :
    encoding.encode t = .ok content ↔ encoding.writes t = true ∧ encoding.bytes t = content := by
  cases h : encoding.writes t with
  | true => simp [encode_of_writes h]
  | false =>
    obtain ⟨e, he⟩ := exists_encode_eq_error h
    simp [he]

@[simp]
theorem writes_nil (encoding : Encoding) : encoding.writes [] = true := rfl

@[simp]
theorem writes_append (encoding : Encoding) (t u : Text) :
    encoding.writes (t ++ u) = (encoding.writes t && encoding.writes u) :=
  List.all_append

@[simp]
theorem knows_char (c : Char) : utf8.knows (.char c) = true := rfl

@[simp]
theorem writes_cons (encoding : Encoding) (c : CodePoint) (t : Text) :
    encoding.writes (c :: t) = (encoding.knows c && encoding.writes t) :=
  List.all_cons

/-- Joined texts can be written if they can be written one by one. -/
theorem writes_join {sep : Text} (hsep : encoding.writes sep = true) (ts : List Text) :
    encoding.writes (Text.join sep ts) = ts.all encoding.writes := by
  fun_induction Text.join sep ts with
  | case1 => rfl
  | case2 t => simp
  | case3 t ts _ ih => simp [hsep, ih]

/-- UTF-8 writes what has no half of a surrogate pair in it. -/
theorem writes_utf8_iff : utf8.writes t = true ↔ ∀ half, .lone half ∉ t := by
  rw [writes, List.all_eq_true]
  constructor
  · intro h half hmem
    cases h _ hmem
  · intro h c hc
    cases c with
    | char c => rfl
    | lone half => exact absurd hc (h half)

theorem map_char_filterMap (h : utf8.writes t = true) :
    (t.filterMap CodePoint.char?).map .char = t := by
  induction t with
  | nil => rfl
  | cons c r ih =>
    obtain ⟨hc, hr⟩ := Bool.and_eq_true_iff.1 h
    cases c with
    | char c => exact congrArg (.char c :: ·) (ih hr)
    | lone half => cases hc

/-- What was written in UTF-8 is read back. -/
theorem decode_bytes (h : utf8.writes t = true) : decode (utf8.bytes t) = some t := by
  have hwhole : String.fromUTF8? (utf8.bytes t) =
      some (String.ofList (t.filterMap CodePoint.char?)) :=
    dif_pos (String.ofList (t.filterMap CodePoint.char?)).isValidUTF8
  rw [decode, hwhole, Option.map_some, String.toText_ofList, map_char_filterMap h]

@[simp]
theorem writes_map_char (cs : List Char) : utf8.writes (cs.map .char) = true := by
  rw [writes, List.all_map, List.all_eq_true]
  exact fun _ _ => rfl

/-- A string has characters only. -/
@[simp]
theorem writes_toText (s : String) : utf8.writes s.toText = true :=
  writes_map_char _

/-- So has a number. -/
@[simp]
theorem writes_ofInt (n : Int) : utf8.writes (Text.ofInt n) = true := by
  cases n with
  | ofNat n => exact writes_map_char _
  | negSucc n => exact writes_map_char ('-' :: _)

@[simp]
theorem writes_replicate (n : Nat) (c : Char) :
    utf8.writes (List.replicate n (.char c)) = true := by
  rw [← List.map_replicate]
  exact writes_map_char _

/-- What is read from UTF-8 can be written in it. -/
theorem writes_of_decode (h : decode content = some t) : utf8.writes t = true := by
  obtain ⟨s, -, rfl⟩ := Option.map_eq_some_iff.1 h
  exact writes_toText s

end Encoding

namespace Unencodable

/-- The code of a code point, in two, four or eight hexadecimal digits. -/
def escaped (c : CodePoint) : Text :=
  if c.toNat < 0x100 then "\\x".toText ++ Text.hexadecimal 2 c.toNat
  else if c.toNat < 0x10000 then "\\u".toText ++ Text.hexadecimal 4 c.toNat
  else "\\U".toText ++ Text.hexadecimal 8 c.toNat

/-- The refusal in words. -/
def message (e : Unencodable) : Text :=
  let codec := .char '\'' :: e.encoding.name ++ "' codec can't encode ".toText
  let place := match e.run with
    | [c] => "character '".toText ++ escaped c ++ "' in position ".toText ++ Text.ofNat e.index
    | run => "characters in position ".toText ++ Text.ofNat e.index ++ .char '-' ::
        Text.ofNat (e.index + run.length - 1)
  codec ++ place ++ ": ".toText ++ e.encoding.objection

end Unencodable

end Graft
