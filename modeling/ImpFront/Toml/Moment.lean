import ImpFront.Number.Decimal
import ImpFront.Toml.Basic

/-!
# TOML dates and times

A date or a time is known by its first characters: four digits and a dash, or two
digits and a colon. A date may have a time behind it, and only then an offset.

Moments are written as values of their own or in texts, in the same way; a text has
to be one from end to end.
-/

namespace ImpFront.Toml

/-- Two digits, of a value between two bounds. -/
def twoDigits (low high : Nat) : Reader Nat
  | a :: b :: rest =>
    let n := Decimal.value [a, b]
    if a.isDigit && b.isDigit && low ≤ n && n ≤ high then some (n, rest) else none
  | _ => none

/-- The number of days of a month. -/
def daysInMonth (year month : Nat) : Nat :=
  if month = 2 then
    if year % 4 = 0 ∧ (year % 100 ≠ 0 ∨ year % 400 = 0) then 29 else 28
  else if month = 4 ∨ month = 6 ∨ month = 9 ∨ month = 11 then 30
  else 31

/-- Whether a text starts like a date. -/
def startsDate : List Char → Bool
  | a :: b :: c :: d :: '-' :: _ => [a, b, c, d].all Char.isDigit
  | _ => false

/-- Whether a text starts like a time. -/
def startsTime : List Char → Bool
  | a :: b :: ':' :: _ => a.isDigit && b.isDigit && Decimal.value [a, b] ≤ 23
  | _ => false

/-- A date. -/
def date : Reader Date := fun cs => do
  let year := Decimal.value (cs.take 4)
  let rest ← expectChar '-' (cs.drop 4)
  let (month, rest) ← twoDigits 1 12 rest
  let rest ← expectChar '-' rest
  let (day, rest) ← twoDigits 1 31 rest
  if day ≤ daysInMonth year month then return (⟨year, month, day⟩, rest) else none

/-- The nanoseconds of a fraction; what is smaller is cut off. -/
def nanoseconds (fraction : List Char) : Nat :=
  Decimal.value ((fraction ++ List.replicate 9 '0').take 9)

/-- A time. -/
def time : Reader Time := fun cs => do
  let (hour, rest) ← twoDigits 0 23 cs
  let rest ← expectChar ':' rest
  let (minute, rest) ← twoDigits 0 59 rest
  let rest ← expectChar ':' rest
  let (second, rest) ← twoDigits 0 60 rest
  let (fraction, rest) : List Char × List Char := match rest with
    | '.' :: d :: rest' =>
      if d.isDigit then (d :: rest'.takeWhile Char.isDigit, rest'.dropWhile Char.isDigit)
      else ([], rest)
    | _ => ([], rest)
  return (⟨hour, minute, second, nanoseconds fraction⟩, rest)

/-- An offset, if there is one; it is less than a day. -/
def offset : Reader (Option Offset) := fun cs =>
  match cs with
  | 'Z' :: rest | 'z' :: rest => some (some .universal, rest)
  | mark :: rest =>
    if mark = '+' ∨ mark = '-' then do
      let (hours, rest) ← twoDigits 0 23 rest
      let rest ← expectChar ':' rest
      let (minutes, rest) ← twoDigits 0 59 rest
      let n : Int := hours * 60 + minutes
      return (some (.minutes (if mark = '-' then -n else n)), rest)
    else some (none, mark :: rest)
  | [] => some (none, [])

/-- **A date, a time, or both**, of a text that starts like one. -/
def moment : Reader Moment := fun cs =>
  if startsDate cs then do
    let (day, rest) ← date cs
    match rest with
    | mark :: more =>
      if (mark = 'T' ∨ mark = 't' ∨ mark = ' ') ∧ startsTime more then do
        let (hours, rest) ← time more
        let (shift, rest) ← offset rest
        return (⟨some day, some hours, shift⟩, rest)
      else return (⟨some day, none, none⟩, rest)
    | [] => return (⟨some day, none, none⟩, [])
  else do
    let (hours, rest) ← time cs
    return (⟨none, some hours, none⟩, rest)

/-- **The moment that a text is**, if it is one from end to end. -/
def Moment.ofText? (s : String) : Option Moment := do
  let (m, rest) ← moment s.toList
  if rest.isEmpty then some m else none

end ImpFront.Toml
