/-!
# Floating-point numbers of 64 bits

A finite number is `significand · 2 ^ exponent` with a sign; the significand has
at most 53 bits and the exponent is at least -1074 and at most 971. All
arithmetic here is exact arithmetic on natural numbers:

* `Double.ofDecimal` rounds a decimal number to the nearest double, a tie to the
  even significand;
* `Double.shortest` is the decimal number with the fewest digits that rounds
  back – the coarsest decimal grid that has a point in the interval of numbers
  that round to the double, and on that grid the nearest point.
-/

namespace ImpFront

/-- **A floating-point number.** -/
inductive Double
  | finite (negative : Bool) (significand : Nat) (exponent : Int)
  | infinite (negative : Bool)
  | nan
  deriving DecidableEq

namespace Double

/-- The exponent of the smallest numbers. -/
def minExponent : Int := -1074

/-- The exponent of the largest numbers. -/
def maxExponent : Int := 971

/-- Zero, with a sign. -/
def zero (negative : Bool) : Double := .finite negative 0 minExponent

/-- Whether the number is finite. -/
def isFinite : Double → Bool
  | .finite .. => true
  | _ => false

/-! ## Rounding -/

/-- A power of two, or one if the exponent is negative. -/
def twoTo (exponent : Int) : Nat := Nat.pow 2 exponent.toNat

/-- A power of ten, or one if the exponent is negative. -/
def tenTo (exponent : Int) : Nat := Nat.pow 10 exponent.toNat

/-- A quotient rounded to the nearest natural number, a tie to the even one. -/
def roundHalfEven (n d : Nat) : Nat :=
  let k := n / d
  let r := n % d
  if 2 * r < d ∨ (2 * r = d ∧ k % 2 = 0) then k else k + 1

/-- The exponent of the leading bit of a positive quotient. -/
def leadingBit (n d : Nat) : Int :=
  let t : Int := (n.log2 : Int) - d.log2
  if d * twoTo t ≤ n * twoTo (-t) then t else t - 1

/-- The double nearest to a positive quotient, with a sign. -/
def ofRatio (negative : Bool) (n d : Nat) : Double :=
  let q := max (leadingBit n d - 52) minExponent
  let m := roundHalfEven (n * twoTo (-q)) (d * twoTo q)
  let (m, q) := if m = twoTo 53 then (twoTo 52, q + 1) else (m, q)
  if maxExponent < q then .infinite negative else .finite negative m q

/-- **The double nearest to `digits · 10 ^ exponent`**, with a sign. Numbers that
are out of range by far are recognised by their size alone. -/
def ofDecimal (negative : Bool) (digits : Nat) (exponent : Int) : Double :=
  let size : Int := (Nat.toDigits 10 digits).length + exponent
  if digits = 0 ∨ size < -323 then zero negative
  else if 310 < size then .infinite negative
  else ofRatio negative (digits * tenTo exponent) (tenTo (-exponent))

/-! ## Shortest decimals -/

/-- Whether `k · 10 ^ e` rounds to `m · 2 ^ q`: whether it lies no further away
than half the distance to the next double on that side. The distance below a
power of two is half of that above it, and a number in the middle rounds to the
even significand. -/
def roundsTo (m : Nat) (q : Int) (k : Nat) (e : Int) : Bool :=
  let low := if m = twoTo 52 ∧ minExponent < q then 4 * m - 1 else 4 * m - 2
  let high := 4 * m + 2
  let quarter := q - 2
  let scale := twoTo quarter * tenTo (-e)
  let x := k * tenTo e * twoTo (-quarter)
  if m % 2 = 0 then low * scale ≤ x && x ≤ high * scale
  else low * scale < x && x < high * scale

/-- The decimal number that rounds to `m · 2 ^ q` on the coarsest grid, at the
exponent `e` or at one of the next `depth` below it; `none` if these grids have
none. Of two numbers that are equally near, the larger one is taken. -/
def shortestFrom (m : Nat) (q : Int) : (depth : Nat) → (e : Int) → Option (Nat × Int)
  | 0, _ => none
  | depth + 1, e =>
    let n := m * twoTo q * tenTo (-e)
    let d := twoTo (-q) * tenTo e
    let below := n / d
    let above := below + 1
    match roundsTo m q below e, roundsTo m q above e with
    | true, true => some (if 2 * (n % d) < d then below else above, e)
    | true, false => some (below, e)
    | false, true => some (above, e)
    | false, false => shortestFrom m q depth (e - 1)

/-- **The shortest decimal** `(digits, exponent)` of a positive double. The grid
at -1074 has a point for every double, so one is always found. -/
def shortest (m : Nat) (q : Int) : Nat × Int :=
  (shortestFrom m q (310 + 1074) 309).getD (0, 0)

/-! ## Texts -/

/-- `digits · 10 ^ exponent` without an exponent. -/
def positional (digits : Nat) (exponent : Int) : List Char :=
  let ds := Nat.toDigits 10 digits
  let places := (-exponent).toNat
  if places = 0 then ds ++ List.replicate exponent.toNat '0'
  else
    let ds := List.replicate (places + 1 - ds.length) '0' ++ ds
    ds.take (ds.length - places) ++ '.' :: ds.drop (ds.length - places)

/-- The text of a number, without its sign. -/
def magnitudeText : Double → List Char
  | .finite _ 0 _ => ['0']
  | .finite _ m q =>
    let (digits, exponent) := shortest m q
    positional digits exponent
  | .infinite _ => ['i', 'n', 'f']
  | .nan => ['N', 'a', 'N']

/-- Whether a sign is written. -/
def isNegative : Double → Bool
  | .finite negative _ _ => negative
  | .infinite negative => negative
  | .nan => false

/-- **The text of a number**: the fewest digits that read back, never with an
exponent, and with a point only where there are places behind it. -/
def text (x : Double) : String :=
  String.ofList ((if x.isNegative then ['-'] else []) ++ x.magnitudeText)

/-- The text of a number, with a point in every finite one. -/
def textWithPoint (x : Double) : String :=
  if x.isFinite ∧ '.' ∉ x.text.toList then x.text ++ ".0" else x.text

/-! ## Whole numbers -/

/-- The largest natural number of 64 bits. -/
def maxUnsigned : Nat := twoTo 64 - 1

/-- **The nearest natural number of 64 bits**; a half goes up, and what lies
outside becomes the nearer end. -/
def toUnsigned : Double → Nat
  | .finite true _ _ => 0
  | .finite false m q =>
    min maxUnsigned ((2 * m * twoTo q + twoTo (-q)) / (2 * twoTo (-q)))
  | .infinite negative => if negative then 0 else maxUnsigned
  | .nan => 0

end Double

end ImpFront
