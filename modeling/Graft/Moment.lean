import Graft.Text.Numeral

/-!
# Moments

A moment is a date and a time of day in universal time, down to the microsecond. It has two forms in
writing: `Moment.stamp`, which names files, and `Moment.iso`, which is shown. Stamps are also read
back, more freely than they are written: a field may have fewer digits than usual, and where a text
can be cut into fields in several ways the first way in the order of the fields' alternatives is
taken. A stamp read must be that of a real date.
-/

namespace Graft

/-- A date and a time of day in universal time. -/
structure Moment where
  (year month day hour minute second microsecond : Nat)
  deriving DecidableEq, Repr

namespace Moment

/-- The parts of a moment from the longest to the shortest. -/
def parts (m : Moment) : List Nat :=
  [m.year, m.month, m.day, m.hour, m.minute, m.second, m.microsecond]

/-- A number with zeros before it to a width. -/
def padded (width n : Nat) : Text :=
  Text.padLeft width (.char '0') (Text.ofNat n)

/-- The moment as file names have it. -/
def stamp (m : Moment) : Text :=
  Text.ofNat m.year ++ padded 2 m.month ++ padded 2 m.day ++ .char 'T' :: padded 2 m.hour ++
    padded 2 m.minute ++ padded 2 m.second ++ padded 6 m.microsecond ++ [.char 'Z']

/-- The moment as it is shown; microseconds are left out if there are none. -/
def iso (m : Moment) : Text :=
  padded 4 m.year ++ .char '-' :: padded 2 m.month ++ .char '-' :: padded 2 m.day ++ .char 'T' ::
    padded 2 m.hour ++ .char ':' :: padded 2 m.minute ++ .char ':' :: padded 2 m.second ++
    (if m.microsecond = 0 then [] else .char '.' :: padded 6 m.microsecond) ++ "+00:00".toText

/-- Whether a year has a day more in February. -/
def isLeap (year : Nat) : Bool :=
  (year % 4 == 0 && year % 100 != 0) || year % 400 == 0

/-- The number of days of a month. -/
def daysIn (year month : Nat) : Nat :=
  if month = 2 then if isLeap year then 29 else 28
  else if [4, 6, 9, 11].elem month then 30
  else 31

/-- Whether the date is in the calendar and the time of day is on the clock. -/
def isReal (m : Moment) : Bool :=
  decide (1 ≤ m.year ∧ 1 ≤ m.month ∧ m.month ≤ 12 ∧ 1 ≤ m.day ∧ m.day ≤ daysIn m.year m.month ∧
    m.hour ≤ 23 ∧ m.minute ≤ 59 ∧ m.second ≤ 59 ∧ m.microsecond ≤ 999999)

/-- The ways to read a number off the start of a text, each with the rest of the text. -/
abbrev Field := Text → List (Nat × Text)

namespace Field

/-- One character: a decimal digit of any script. -/
def digit : Field
  | c :: r => ((Text.digitValue? c).map fun n => (n, r)).toList
  | [] => []

/-- One character: a digit of the basic alphabet between two bounds. -/
def between (low high : Nat) : Field
  | c :: r =>
    let n := c.toNat - '0'.toNat
    if c.isDigit ∧ low ≤ n ∧ n ≤ high then [(n, r)] else []
  | [] => []

/-- A field followed by another; their digits make one number. -/
def followedBy (first second : Field) : Field := fun t =>
  (first t).flatMap fun (n, r) => (second r).map fun (m, s) => (10 * n + m, s)

/-- The ways of several fields one after the other. -/
def oneOf (fields : List Field) : Field := fun t => fields.flatMap (· t)

/-- A letter in either case, worth nothing. -/
def letter (upper lower : CodePoint) : Field
  | c :: r => if c = upper ∨ c = lower then [(0, r)] else []
  | [] => []

/-- A blank and a digit from one on. -/
def blankDigit : Field
  | .char ' ' :: r => between 1 9 r
  | _ => []

/-- Four digits. -/
def year : Field := followedBy (followedBy (followedBy digit digit) digit) digit

/-- A number up to twelve. -/
def month : Field :=
  oneOf [followedBy (between 1 1) (between 0 2), followedBy (between 0 0) (between 1 9),
    between 1 9]

/-- A number up to thirty-one. -/
def day : Field :=
  oneOf [followedBy (between 3 3) (between 0 1), followedBy (between 1 2) digit,
    followedBy (between 0 0) (between 1 9), between 1 9, blankDigit]

/-- A number up to twenty-three. -/
def hour : Field :=
  oneOf [followedBy (between 2 2) (between 0 3), followedBy (between 0 1) digit, digit]

/-- A number up to fifty-nine. -/
def minute : Field :=
  oneOf [followedBy (between 0 5) digit, digit]

/-- A number up to sixty-one, as if a minute could have leap seconds. -/
def second : Field :=
  oneOf [followedBy (between 6 6) (between 0 1), followedBy (between 0 5) digit, digit]

/-- Exactly `n` digits after a point; the first digit counts `10 ^ (place - 1)`. -/
def fractionOf (place : Nat) : Nat → Field
  | 0, t => [(0, t)]
  | n + 1, t =>
    (between 0 9 t).flatMap fun (d, r) =>
      (fractionOf (place - 1) n r).map fun (m, s) => (d * 10 ^ (place - 1) + m, s)

/-- Microseconds: from six digits down to one after a point. -/
def fraction : Field :=
  oneOf [fractionOf 6 6, fractionOf 6 5, fractionOf 6 4, fractionOf 6 3, fractionOf 6 2,
    fractionOf 6 1]

/-- The ways to read several fields one after the other. -/
def sequence : List Field → Text → List (List Nat × Text)
  | [], t => [([], t)]
  | f :: fs, t =>
    (f t).flatMap fun (n, r) => (sequence fs r).map fun (ns, s) => (n :: ns, s)

end Field

/-- The fields of a stamp. -/
def stampFields : List Field :=
  [.year, .month, .day, .letter (.char 'T') (.char 't'), .hour, .minute, .second, .fraction,
    .letter (.char 'Z') (.char 'z')]

/-- The moment of a stamp. -/
def ofStamp? (t : Text) : Option Moment :=
  match (Field.sequence stampFields t).head? with
  | some ([year, month, day, _, hour, minute, second, microsecond, _], []) =>
    let m : Moment := ⟨year, month, day, hour, minute, second, microsecond⟩
    if m.isReal then some m else none
  | _ => none

/-- The moment that lies some microseconds after the beginning of 1970. -/
def ofEpoch (microseconds : Nat) : Moment :=
  let seconds := microseconds / 1000000
  -- 719468 days lie between the first of March of year 0 and the beginning of 1970.
  let days := seconds / 86400 + 719468
  let era := days / 146097
  let dayOfEra := days % 146097
  let yearOfEra := (dayOfEra - dayOfEra / 1460 + dayOfEra / 36524 - dayOfEra / 146096) / 365
  let dayOfYear := dayOfEra - (365 * yearOfEra + yearOfEra / 4 - yearOfEra / 100)
  let month := (5 * dayOfYear + 2) / 153
  let year := yearOfEra + 400 * era + (if month < 10 then 0 else 1)
  ⟨year, if month < 10 then month + 3 else month - 9, dayOfYear - (153 * month + 2) / 5 + 1,
    seconds / 3600 % 24, seconds / 60 % 60, seconds % 60, microseconds % 1000000⟩

end Moment

end Graft
