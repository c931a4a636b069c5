import Graft.Json.Basic
import Graft.Text.Numeral

/-!
# Reading JSON

`Json.read` reads a text that is one JSON value with white space around it and refuses everything
else: comments, trailing commas, numbers with leading zeros, raw control characters in strings, a
byte order mark. Three names beside the standard's are numbers too: `NaN`, `Infinity` and
`-Infinity`. A key that comes again in an object replaces the value of the first. A whole number of
more digits than a numeral may have is refused, and so are arrays and objects inside one another
beyond a depth. The first of these faults from the left is the one that is named.

A string may name a character outside the basic plane by a pair of surrogates; one that stands
alone is read as the code point that it is (`CodePoint.lone`).
-/

namespace Graft

/-- Why a text is not read as a JSON value. -/
inductive JsonError where
  /-- The text is no JSON. -/
  | malformed
  /-- There is a whole number of so many digits. -/
  | tooManyDigits (count : Nat)
  /-- Arrays and objects are nested too deeply. -/
  | tooDeep
  deriving DecidableEq, Repr

namespace Json

/-- How many arrays and objects may stand inside one another. -/
def maxDepth : Nat := 988

/-- White space between the tokens of JSON. -/
def isSpace (c : CodePoint) : Bool :=
  c == .char ' ' || c == .char '\t' || c == .char '\n' || c == .char '\r'

/-- The text behind the white space at its start. -/
def skipSpace (t : Text) : Text :=
  t.dropWhile isSpace

/-- The value of a hexadecimal digit. -/
def hexDigit? (c : CodePoint) : Option Nat :=
  if c.isDigit then some (c.toNat - 0x30)
  else if 0x61 ≤ c.toNat && c.toNat ≤ 0x66 then some (c.toNat - 0x61 + 10)
  else if 0x41 ≤ c.toNat && c.toNat ≤ 0x46 then some (c.toNat - 0x41 + 10)
  else none

/-- The number that four hexadecimal digits write. -/
def hexCode? (a b c d : CodePoint) : Option Nat := do
  let a ← hexDigit? a
  let b ← hexDigit? b
  let c ← hexDigit? c
  let d ← hexDigit? d
  return ((a * 16 + b) * 16 + c) * 16 + d

/-- The character of an escape of one letter. -/
def escaped? (c : CodePoint) : Option CodePoint :=
  if c = .char '"' || c = .char '\\' || c = .char '/' then some c
  else if c = .char 'b' then some (.ofNat 0x08)
  else if c = .char 'f' then some (.ofNat 0x0c)
  else if c = .char 'n' then some (.char '\n')
  else if c = .char 'r' then some (.char '\r')
  else if c = .char 't' then some (.char '\t')
  else none

/-- The character that a high and a low surrogate name together. -/
def pairOf? (high low : Nat) : Option CodePoint :=
  if 0xd800 ≤ high && high ≤ 0xdbff && 0xdc00 ≤ low && low ≤ 0xdfff then
    some (.ofNat (0x10000 + (high - 0xd800) * 0x400 + (low - 0xdc00)))
  else none

/-- The code point that the text after a backslash names, and how many characters that takes. -/
def escape? : Text → Option (CodePoint × Nat)
  | .char 'u' :: a :: b :: c :: d :: r =>
    match hexCode? a b c d with
    | none => none
    | some code =>
      match r with
      | .char '\\' :: .char 'u' :: a :: b :: c :: d :: _ =>
        match (hexCode? a b c d).bind (pairOf? code) with
        | some x => some (x, 11)
        | none => some (.ofNat code, 5)
      | _ => some (.ofNat code, 5)
  | c :: _ => (escaped? c).map (·, 1)
  | [] => none

/-- The code points of a string up to its closing quote, the first `skip` of the text passed over,
and the text behind the quote. -/
def readStringSkipping : Nat → Text → Option (Text × Text)
  | _, [] => none
  | skip + 1, _ :: r => readStringSkipping skip r
  | 0, c :: r =>
    if c = .char '"' then some ([], r)
    else if c = .char '\\' then
      match escape? r with
      | some (x, size) => (readStringSkipping size r).map fun (t, rest) => (x :: t, rest)
      | none => none
    else if c.toNat < 0x20 then none
    else (readStringSkipping 0 r).map fun (t, rest) => (c :: t, rest)

/-- The code points of a string up to its closing quote, and the text behind it. -/
def readString (t : Text) : Option (Text × Text) :=
  readStringSkipping 0 t

/-- The number that a run of digits writes in base ten. -/
def decimalValue (ds : Text) : Nat :=
  Text.valueOfDigits (ds.map fun c => c.toNat - 0x30)

/-- The fraction of a number, if a point and at least one digit come next, and the text behind. -/
def readFraction (t : Text) : Text × Text :=
  match t with
  | .char '.' :: r =>
    let ds := r.takeWhile CodePoint.isDigit
    if ds.isEmpty then ([], t) else (ds, r.dropWhile CodePoint.isDigit)
  | _ => ([], t)

/-- The exponent of a number, if a whole one comes next, and the text behind. -/
def readExponent (t : Text) : Option Int × Text :=
  match t with
  | c :: r =>
    if c = .char 'e' || c = .char 'E' then
      let (negative, s) := match r with
        | .char '-' :: s => (true, s)
        | .char '+' :: s => (false, s)
        | s => (false, s)
      let ds := s.takeWhile CodePoint.isDigit
      if ds.isEmpty then (none, t)
      else
        let n : Int := decimalValue ds
        (some (if negative then -n else n), s.dropWhile CodePoint.isDigit)
    else (none, t)
  | [] => (none, t)

/-- The whole part of a number, which has a leading zero only when it is zero, and the text
behind. -/
def readWhole : Text → Option (Text × Text)
  | .char '0' :: r => some ([.char '0'], r)
  | t =>
    let ds := t.takeWhile CodePoint.isDigit
    if ds.isEmpty then none else some (ds, t.dropWhile CodePoint.isDigit)

/-- A number without its sign, and the text behind it. -/
def readNumber (negative : Bool) (t : Text) : Except JsonError (Json × Text) :=
  match readWhole t with
  | none => .error .malformed
  | some (whole, r) =>
    let (fraction, r) := readFraction r
    let (exponent, r) := readExponent r
    if fraction.isEmpty && exponent.isNone then
      if Text.maxDigits < whole.length then .error (.tooManyDigits whole.length)
      else
        let n : Int := decimalValue whole
        .ok (int (if negative then -n else n), r)
    else
      .ok (float (.ofDecimal negative (decimalValue (whole ++ fraction))
        (exponent.getD 0 - fraction.length)), r)

/-- The text behind a word, if the text starts with it. -/
def afterWord? (word t : Text) : Option Text :=
  if word.isPrefixOf t then some (t.drop word.length) else none

/-- A constant named by a word, and the text behind it. -/
def readWord (t : Text) : Option (Json × Text) :=
  [("null".toText, null), ("true".toText, bool true), ("false".toText, bool false),
    ("NaN".toText, float .nan), ("Infinity".toText, float (.infinite false)),
    ("-Infinity".toText, float (.infinite true))].findSome? fun (word, v) =>
      (afterWord? word t).map (v, ·)

/-- A number or a constant, and the text behind it. -/
def readScalar (t : Text) : Except JsonError (Json × Text) :=
  match readWord t with
  | some found => .ok found
  | none =>
    match t with
    | .char '-' :: r => readNumber true r
    | _ => readNumber false t

/-- A string up to its closing quote, and the text behind it. -/
def readQuoted (t : Text) : Except JsonError (Text × Text) :=
  match readString t with
  | some found => .ok found
  | none => .error .malformed

mutual

/-- The value at the start of a text, and the text behind it. Of arrays and objects, `depth` may
still stand inside one another. -/
def readValue : Nat → Nat → Text → Except JsonError (Json × Text)
  | 0, _, _ => .error .malformed
  | fuel + 1, depth, t =>
    match t with
    | .char '"' :: r => (fun (s, rest) => (str s, rest)) <$> readQuoted r
    | .char '[' :: r =>
      match depth with
      | 0 => .error .tooDeep
      | depth + 1 =>
        match skipSpace r with
        | .char ']' :: rest => .ok (arr [], rest)
        | r => (fun (vs, rest) => (arr vs, rest)) <$> readItems fuel depth r
    | .char '\x7b' :: r =>
      match depth with
      | 0 => .error .tooDeep
      | depth + 1 =>
        match skipSpace r with
        | .char '\x7d' :: rest => .ok (obj [], rest)
        | r => (fun (fs, rest) => (obj (Table.ofEntries fs), rest)) <$> readFields fuel depth r
    | _ => readScalar t

/-- The items of an array up to its closing bracket, and the text behind it. -/
def readItems : Nat → Nat → Text → Except JsonError (List Json × Text)
  | 0, _, _ => .error .malformed
  | fuel + 1, depth, t => do
    let (v, r) ← readValue fuel depth t
    match skipSpace r with
    | .char ']' :: rest => return ([v], rest)
    | .char ',' :: r =>
      let (vs, rest) ← readItems fuel depth (skipSpace r)
      return (v :: vs, rest)
    | _ => .error .malformed

/-- The fields of an object up to its closing brace, and the text behind it. -/
def readFields : Nat → Nat → Text → Except JsonError (List (Text × Json) × Text)
  | 0, _, _ => .error .malformed
  | fuel + 1, depth, t =>
    match t with
    | .char '"' :: r => do
      let (key, r) ← readQuoted r
      match skipSpace r with
      | .char ':' :: r =>
        let (v, r) ← readValue fuel depth (skipSpace r)
        match skipSpace r with
        | .char '\x7d' :: rest => return ([(key, v)], rest)
        | .char ',' :: r =>
          let (fs, rest) ← readFields fuel depth (skipSpace r)
          return ((key, v) :: fs, rest)
        | _ => .error .malformed
      | _ => .error .malformed
    | _ => .error .malformed

end

/-- The value that a text writes. Every step into a value, an item or a field takes a character
within two calls, so twice the length bounds the number of steps. -/
def read (t : Text) : Except JsonError Json :=
  match readValue (2 * t.length + 2) maxDepth (skipSpace t) with
  | .error e => .error e
  | .ok (v, rest) => if (skipSpace rest).isEmpty then .ok v else .error .malformed

end Json

end Graft
