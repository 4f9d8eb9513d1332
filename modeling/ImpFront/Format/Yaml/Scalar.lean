import ImpFront.Number.Decimal
import ImpFront.Number.Double

/-!
# YAML scalars

A text is written plain where a reader takes it for that very text. Otherwise it
stands in single quotes: when it would be read as null, as a truth value or as a
number, and when its characters mean something to YAML where they stand. A text
with a character that cannot be printed, or with a line break, stands in double
quotes and has such characters escaped.
-/

namespace ImpFront.Yaml

/-! ## Texts that are read as something else -/

/-- Read as null. -/
def isNull (s : List Char) : Bool :=
  s ∈ ["".toList, "~".toList, "null".toList, "Null".toList, "NULL".toList]

/-- Read as a truth value. -/
def isBool (s : List Char) : Bool :=
  s ∈ ["true".toList, "True".toList, "TRUE".toList,
    "false".toList, "False".toList, "FALSE".toList]

/-- The value of a digit in a base of at most sixteen; letters in both cases. -/
def digitValue? (base : Nat) (c : Char) : Option Nat :=
  let n :=
    if c.isDigit then c.toNat - '0'.toNat
    else if 'a' ≤ c ∧ c ≤ 'f' then c.toNat - 'a'.toNat + 10
    else if 'A' ≤ c ∧ c ≤ 'F' then c.toNat - 'A'.toNat + 10
    else base
  if n < base then some n else none

/-- The value of one or more digits in a base. -/
def valueInBase? (base : Nat) (digits : List Char) : Option Nat :=
  if digits.isEmpty then none
  else digits.foldlM (fun n c => (digitValue? base c).map (base * n + ·)) 0

/-- Whether a text is an integer in a base, up to a bound. -/
def fitsInBase (base bound : Nat) (digits : List Char) : Bool :=
  (valueInBase? base digits).any (· ≤ bound)

/-- A hexadecimal, octal or binary integer of at most 128 bits, with or without
a sign. -/
def isBasedInt : List Char → Bool
  | '-' :: '0' :: mark :: digits => based (Nat.pow 2 127) mark digits
  | '+' :: '0' :: mark :: digits => based (Nat.pow 2 128 - 1) mark digits
  | '0' :: mark :: digits => based (Nat.pow 2 128 - 1) mark digits
  | _ => false
where
  /-- The digits after a mark for the base. -/
  based (bound : Nat) (mark : Char) (digits : List Char) : Bool :=
    match mark with
    | 'x' => fitsInBase 16 bound digits
    | 'o' => fitsInBase 8 bound digits
    | 'b' => fitsInBase 2 bound digits
    | _ => false

/-- The value of an exponent with its mark, or none at all. -/
def exponent? : List Char → Option Int
  | [] => some 0
  | c :: text => if c = 'e' ∨ c = 'E' then Decimal.readInt? text else none

/-- A decimal number without a sign: digits with a point among them or at either
end, perhaps an exponent, and not beyond the doubles. -/
def isUnsignedDecimal (s : List Char) : Bool :=
  let whole := s.takeWhile Char.isDigit
  let rest := s.dropWhile Char.isDigit
  let (fraction, rest) : List Char × List Char :=
    match rest with
    | '.' :: more => (more.takeWhile Char.isDigit, more.dropWhile Char.isDigit)
    | _ => ([], rest)
  match exponent? rest with
  | some e =>
    !(whole ++ fraction).isEmpty
      && (Double.ofDecimal false (Decimal.value (whole ++ fraction))
        (e - fraction.length)).isFinite
  | none => false

/-- One of the words for infinity and for what is no number. -/
def isSpecialFloat (s : List Char) : Bool :=
  let unsigned := match s with
    | '+' :: rest => rest
    | '-' :: rest => rest
    | _ => s
  unsigned ∈ [".inf".toList, ".Inf".toList, ".INF".toList]
    || s ∈ [".nan".toList, ".NaN".toList, ".NAN".toList]

/-- Digits behind a leading zero, which readers do not agree on. -/
def isZeroLed : List Char → Bool
  | '0' :: c :: rest => (c :: rest).all Char.isDigit
  | _ => false

/-- Read as a number, by some reader at least. -/
def isNumber (s : List Char) : Bool :=
  let unsigned := match s with
    | '+' :: rest => rest
    | '-' :: rest => rest
    | _ => s
  isBasedInt s || isZeroLed unsigned || isUnsignedDecimal unsigned || isSpecialFloat s

/-! ## Texts that cannot stand plain -/

/-- Characters that mean something at the beginning of a scalar. -/
def indicators : List Char := "#,[]\x7b\x7d&*!|>'\"%@`".toList

/-- Blank, or nothing at all. -/
def isBlankEnd : List Char → Bool
  | [] => true
  | c :: _ => c = ' '

/-- Whether no character behind the first one means something: a colon before a
blank, a number sign after one. -/
def isPlainInside (previous : Char) : List Char → Bool
  | [] => previous ≠ ' '
  | c :: rest =>
    !(c = ':' && isBlankEnd rest) && !(c = '#' && previous = ' ') && isPlainInside c rest

/-- **Whether a printable text may stand plain.** -/
def isPlain : List Char → Bool
  | [] => false
  | c :: rest =>
    c ≠ ' ' && c ∉ indicators
      && !((c = '?' || c = ':' || c = '-') && isBlankEnd rest)
      && !("---".toList.isPrefixOf (c :: rest)) && !("...".toList.isPrefixOf (c :: rest))
      && isPlainInside c rest

/-! ## Characters that cannot be printed -/

/-- Characters that stand for themselves, but for line breaks. -/
def isPrintable (c : Char) : Bool :=
  let n := c.toNat
  (0x20 ≤ n && n ≤ 0x7e) || (0xa0 ≤ n && n ≤ 0xd7ff && n ≠ 0x2028 && n ≠ 0x2029)
    || (0xe000 ≤ n && n ≤ 0xfffd && n ≠ 0xfeff) || 0x10000 ≤ n

/-- A number in upper-case hexadecimal digits, of a fixed length. -/
def hexDigits : (length : Nat) → Nat → List Char
  | 0, _ => []
  | length + 1, n => hexDigits length (n / 16) ++ [(Nat.digitChar (n % 16)).toUpper]

/-- How a character stands in double quotes. -/
def escape (c : Char) : List Char :=
  if c = '"' then ['\\', '"']
  else if c = '\\' then ['\\', '\\']
  else if isPrintable c then [c]
  else match c.toNat with
    | 0x00 => ['\\', '0']
    | 0x07 => ['\\', 'a']
    | 0x08 => ['\\', 'b']
    | 0x09 => ['\\', 't']
    | 0x0a => ['\\', 'n']
    | 0x0b => ['\\', 'v']
    | 0x0c => ['\\', 'f']
    | 0x0d => ['\\', 'r']
    | 0x1b => ['\\', 'e']
    | 0x85 => ['\\', 'N']
    | 0x2028 => ['\\', 'L']
    | 0x2029 => ['\\', 'P']
    | n =>
      if n ≤ 0xff then '\\' :: 'x' :: hexDigits 2 n
      else if n ≤ 0xffff then '\\' :: 'u' :: hexDigits 4 n
      else '\\' :: 'U' :: hexDigits 8 n

/-! ## The three ways of writing -/

/-- A text in single quotes, with its own quotes doubled. -/
def singleQuoted (s : List Char) : List Char :=
  '\'' :: s.flatMap (fun c => if c = '\'' then ['\'', '\''] else [c]) ++ ['\'']

/-- A text in double quotes. -/
def doubleQuoted (s : List Char) : List Char :=
  '"' :: s.flatMap escape ++ ['"']

/-- **A text as a scalar.** -/
def scalar (s : List Char) : List Char :=
  if !s.all isPrintable then doubleQuoted s
  else if isNull s || isBool s || isNumber s || !isPlain s then singleQuoted s
  else s

end ImpFront.Yaml
