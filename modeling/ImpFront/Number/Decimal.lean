/-!
# Decimal numbers in texts

Numbers are written with the ten ASCII digits, most significant first. Leading
zeros are allowed, separators are not, and a sign stands in front where one is
allowed at all.
-/

namespace ImpFront.Decimal

/-- The value of a digit. -/
def digitValue (c : Char) : Nat := c.toNat - '0'.toNat

/-- The value of a run of digits. -/
def value (digits : List Char) : Nat :=
  digits.foldl (fun n c => 10 * n + digitValue c) 0

/-- **Reads a natural number**: one digit or more, and nothing else. -/
def readNat? (text : List Char) : Option Nat :=
  if text ≠ [] ∧ text.all Char.isDigit then some (value text) else none

/-- **Reads an integer**: digits, with at most one sign in front. -/
def readInt? : List Char → Option Int
  | '+' :: text => (readNat? text).map Int.ofNat
  | '-' :: text => (readNat? text).map fun n => -(n : Int)
  | text => (readNat? text).map Int.ofNat

/-- The 32-bit integer of a value, if it is in range. -/
def int32? (n : Int) : Option Int32 :=
  if -2147483648 ≤ n ∧ n ≤ 2147483647 then some (Int32.ofInt n) else none

/-- Whether an integer fits 64 bits. -/
def fitsInt64 (n : Int) : Bool := -9223372036854775808 ≤ n && n ≤ 9223372036854775807

/-- Reads an integer that fits 32 bits. -/
def readInt32? (text : List Char) : Option Int32 := (readInt? text).bind int32?

end ImpFront.Decimal
