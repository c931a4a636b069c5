import Graft.Decimal.Binary
import Graft.Text.Basic

/-!
# The shortest decimal text of a number

A number is written with the fewest significant digits that read back as the same number, and of
those with the digits nearest to it. The reals that read back as `m · 2 ^ q` form an interval around
it, half a step wide on either side, narrower below a power of two, its ends included exactly when
`m` is even. A decimal grid with a point in the interval has one next to the number, so for each
count of digits only the two neighbours on the grid are tried.

How the digits are laid out is in `Layout`: from `10 ^ -4` up to, not including, `10 ^ 16` with a
point and at least one digit behind it, otherwise with an exponent of at least two digits.
-/

namespace Graft

namespace Binary

/-- Four times the number and the ends of its interval, over a common denominator:
`(low, value, high, denominator)`. -/
def interval (m : Nat) (q : Int) : Nat × Nat × Nat × Nat :=
  let below := if m = Nat.pow 2 52 && minExponent < q then 1 else 2
  let (unit, den) := match q with
    | .ofNat k => (Nat.pow 2 k, 1)
    | .negSucc k => (1, Nat.pow 2 (k + 1))
  ((4 * m - below) * unit, 4 * m * unit, (4 * m + 2) * unit, 4 * den)

/-- Whether the fraction `num / den` lies in the interval. -/
def inInterval (m : Nat) (q : Int) (num den : Nat) : Bool :=
  let (low, _, high, d) := interval m q
  if m % 2 = 0 then low * den ≤ num * d && num * d ≤ high * den
  else low * den < num * d && num * d < high * den

/-- The value `k · 10 ^ e` as a fraction. -/
def decimalFraction (k : Nat) : Int → Nat × Nat
  | .ofNat e => (k * Nat.pow 10 e, 1)
  | .negSucc e => (k, Nat.pow 10 (e + 1))

/-- The multiple of `10 ^ e` in the interval that is nearest to the number, if there is one; of two
equally near ones the even. -/
def nearestOnGrid? (m : Nat) (q e : Int) : Option Nat :=
  let (_, value, _, den) := interval m q
  let (num, den) := match e with
    | .ofNat k => (value, den * Nat.pow 10 k)
    | .negSucc k => (value * Nat.pow 10 (k + 1), den)
  let floor := num / den
  let nearest := roundDiv num den
  let other := if nearest = floor then floor + 1 else floor
  [nearest, other].find? fun k =>
    let (n, d) := decimalFraction k e
    inInterval m q n d

/-- Tries grids from `10 ^ e` down, at most `fuel` of them. -/
def shortestFrom (m : Nat) (q : Int) : Nat → Int → Option (Nat × Int)
  | 0, _ => none
  | fuel + 1, e =>
    match nearestOnGrid? m q e with
    | some (k + 1) => some (k + 1, e)
    | _ => shortestFrom m q fuel (e - 1)

/-- The digits `k` and the exponent `e` of the shortest `k · 10 ^ e` that reads back as
`m · 2 ^ q`, which is not zero. No such number has its first digit above `10 ^ 309`, and below
`10 ^ -345` no grid is needed. -/
def shortest (m : Nat) (q : Int) : Nat × Int :=
  (shortestFrom m q 655 309).getD (m, 0)

/-- How the digits of a number are laid out. -/
structure Layout where
  /-- The least power of ten of a first digit that is written with a point. -/
  minPositional : Int
  /-- The greatest power of ten of a first digit that is written with a point. -/
  maxPositional : Int
  /-- The least number of digits of an exponent. -/
  exponentDigits : Nat
  /-- The text of the value that is no number. -/
  nanText : Text
  /-- The text of infinity. -/
  infinityText : Text

/-- Lays out the digits `ds` of a number whose first digit counts powers of ten `first`. -/
def Layout.layOut (n : Layout) (ds : Text) (first : Int) : Text :=
  if n.minPositional ≤ first && first ≤ n.maxPositional then
    if first < 0 then "0.".toText ++ List.replicate (-first - 1).toNat (.char '0') ++ ds
    else
      let whole := first.toNat + 1
      let front := Text.padRight whole (.char '0') (ds.take whole)
      let back := ds.drop whole
      front ++ .char '.' :: (if back.isEmpty then [.char '0'] else back)
  else
    let mantissa := match ds with
      | [] => []
      | [d] => [d]
      | d :: r => d :: .char '.' :: r
    mantissa ++ .char 'e' :: (if first < 0 then .char '-' else .char '+') ::
      Text.padLeft n.exponentDigits (.char '0') (Text.ofNat first.natAbs)

/-- The text of a number. -/
def Layout.text (n : Layout) : Binary → Text
  | nan => n.nanText
  | infinite negative => (if negative then [.char '-'] else []) ++ n.infinityText
  | finite negative m q =>
    (if negative then [.char '-'] else []) ++
      if m = 0 then n.layOut [.char '0'] 0
      else
        let (k, e) := shortest m q
        let ds := Text.ofNat k
        n.layOut (ds.reverse.dropWhile (· == .char '0')).reverse (e + ds.length - 1)

end Binary

end Graft
