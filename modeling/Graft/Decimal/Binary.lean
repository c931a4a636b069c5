/-!
# Binary floating-point numbers

The numbers that a file may hold beside whole numbers are those of the 64-bit binary format:
`m · 2 ^ q` with a significand `m` below `2 ^ 53` and an exponent `q` of at least `-1074`, either
sign, two infinities, and one value that is no number. They are kept exactly, as `m` and `q`.

`Binary.ofDecimal` reads `n · 10 ^ e` to the nearest such number, a tie going to the even
significand; `Binary.wholePart` drops the fraction.
-/

namespace Graft

/-- A number of the 64-bit binary format. -/
inductive Binary where
  /-- The number `significand · 2 ^ exponent`, with its sign. -/
  | finite (negative : Bool) (significand : Nat) (exponent : Int)
  /-- An infinity, with its sign. -/
  | infinite (negative : Bool)
  /-- The value that is no number. -/
  | nan
  deriving DecidableEq, Repr

namespace Binary

/-- The quotient rounded to the nearest whole number, a tie going to the even one. -/
def roundDiv (num den : Nat) : Nat :=
  let q := num / den
  let r := num % den
  if 2 * r < den then q else if den < 2 * r then q + 1 else if q % 2 = 0 then q else q + 1

/-- The fraction `num / den` times `2 ^ (-q)`, as a fraction. -/
def scale (num den : Nat) (q : Int) : Nat × Nat :=
  match q with
  | .ofNat k => (num, den * Nat.pow 2 k)
  | .negSucc k => (num * Nat.pow 2 (k + 1), den)

/-- The least exponent. -/
def minExponent : Int := -1074

/-- The greatest exponent of a significand of 53 bits. -/
def maxExponent : Int := 971

/-- The exponent at which the quotient `num / den` has a significand of 53 bits, if the format
reaches that low. The bit lengths of both give it up to one. -/
def exponentOf (num den : Nat) : Int :=
  let guess : Int := (num.log2 : Int) - (den.log2 : Int) - 52
  let (n, d) := scale num den guess
  max minExponent (if n < d * Nat.pow 2 52 then guess - 1 else guess)

/-- The number nearest to `num / den`. -/
def ofFraction (negative : Bool) (num den : Nat) : Binary :=
  if num = 0 then finite negative 0 minExponent
  else
    let q := exponentOf num den
    let (n, d) := scale num den q
    let m := roundDiv n d
    let (m, q) := if m = Nat.pow 2 53 then (Nat.pow 2 52, q + 1) else (m, q)
    if maxExponent < q then infinite negative else finite negative m q

/-- The number nearest to `n · 10 ^ e`. Powers far outside the range of the format are not
computed: with so many digits before or behind the point the answer is an infinity or zero. -/
def ofDecimal (negative : Bool) (n : Nat) (e : Int) : Binary :=
  let digits : Int := (Nat.toDigits 10 n).length
  if n = 0 || e + digits < -400 then finite negative 0 minExponent
  else if 400 < e + digits then infinite negative
  else
    match e with
    | .ofNat k => ofFraction negative (n * Nat.pow 10 k) 1
    | .negSucc k => ofFraction negative n (Nat.pow 10 (k + 1))

/-- Whether the number is zero, of either sign. -/
def isZero : Binary → Bool
  | finite _ 0 _ => true
  | _ => false

/-- The whole part of `significand · 2 ^ exponent`. -/
def wholePart (significand : Nat) : Int → Nat
  | .ofNat k => significand * Nat.pow 2 k
  | .negSucc k => significand / Nat.pow 2 (k + 1)

end Binary

end Graft
