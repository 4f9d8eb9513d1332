import ImpFront.Toml.Basic

/-!
# TOML numbers

Digits may be grouped by underscores between them. Decimal integers have no
leading zeros and must fit 64 bits; integers in base 16, 8 and 2 carry a mark
and no sign.
-/

namespace ImpFront.Toml

/-- One digit or more, with underscores between them. -/
def groupedDigits (isDigit : Char → Bool) : Reader (List Char)
  | [] => none
  | c :: rest =>
    if !isDigit c then none
    else match rest with
      | '_' :: rest' => (groupedDigits isDigit rest').map fun (ds, rest'') => (c :: ds, rest'')
      | d :: rest' =>
        if isDigit d then
          (groupedDigits isDigit (d :: rest')).map fun (ds, rest'') => (c :: ds, rest'')
        else some ([c], d :: rest')
      | [] => some ([c], [])

/-- The digits of a decimal integer, without its sign: a single zero, or digits
that do not start with one. -/
def wholeDigits : Reader (List Char)
  | '0' :: rest => some (['0'], rest)
  | cs => groupedDigits Char.isDigit cs

/-- A sign, if there is one; the value says whether it is a minus. -/
def sign : List Char → Bool × List Char
  | '-' :: rest => (true, rest)
  | '+' :: rest => (false, rest)
  | cs => (false, cs)

/-- An integer that fits 64 bits. -/
def int64? (n : Int) : Option Int :=
  if Decimal.fitsInt64 n then some n else none

/-- An integer in another base, behind its mark. -/
def basedInt (base : Nat) : Reader Value := fun cs => do
  let digitValue (c : Char) : Nat :=
    if c.isDigit then c.toNat - '0'.toNat
    else if 'a' ≤ c ∧ c ≤ 'f' then c.toNat - 'a'.toNat + 10
    else if 'A' ≤ c ∧ c ≤ 'F' then c.toNat - 'A'.toNat + 10
    else 16
  let (ds, rest) ← groupedDigits (fun c => digitValue c < base) cs
  let n ← int64? (ds.foldl (fun n c => base * n + digitValue c) 0 : Nat)
  return (.int n, rest)

/-- An exponent behind its mark. -/
def exponent : Reader Int := fun cs => do
  let (negative, cs) := sign cs
  let (ds, rest) ← groupedDigits Char.isDigit cs
  let n : Int := Decimal.value ds
  return (if negative then -n else n, rest)

/-- Whether a text starts with the mark of an exponent. -/
def startsExponent : List Char → Bool
  | c :: _ => c = 'e' || c = 'E'
  | [] => false

/-- A floating-point number that is not too large; one that is too small is
allowed, on either side of zero. -/
def float? (negative : Bool) (digits : List Char) (exponent : Int) : Option Value :=
  let x := Double.ofDecimal negative (Decimal.value digits) exponent
  if x = .infinite false then none else some (.float x)

/-- **A number**, other than the words for infinity and for what is no number. -/
def number : Reader Value
  | '0' :: 'x' :: rest => basedInt 16 rest
  | '0' :: 'o' :: rest => basedInt 8 rest
  | '0' :: 'b' :: rest => basedInt 2 rest
  | cs => do
    let (negative, cs) := sign cs
    let (whole, rest) ← wholeDigits cs
    match rest with
    | '.' :: rest => do
      let (fraction, rest) ← groupedDigits Char.isDigit rest
      let (e, rest) ← if startsExponent rest then exponent rest.tail else some (0, rest)
      return (← float? negative (whole ++ fraction) (e - fraction.length), rest)
    | _ =>
      if startsExponent rest then do
        let (e, rest) ← exponent rest.tail
        return (← float? negative whole e, rest)
      else do
        let n : Int := Decimal.value whole
        return (.int (← int64? (if negative then -n else n)), rest)

/-- The words for infinity and for what is no number, with or without a sign. -/
def specialFloat : Reader Value := fun cs =>
  let (negative, rest) := sign cs
  match rest with
  | 'i' :: 'n' :: 'f' :: rest => some (.float (.infinite negative), rest)
  | 'n' :: 'a' :: 'n' :: rest => some (.float .nan, rest)
  | _ => none

end ImpFront.Toml
