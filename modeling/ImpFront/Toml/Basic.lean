import ImpFront.Number.Decimal
import ImpFront.Number.Double

/-!
# TOML values

What a TOML document holds: texts, integers of 64 bits, floating-point numbers,
truth values, dates and times, arrays and tables. A table lists its entries in
the order in which they were written; no name occurs twice.
-/

namespace ImpFront.Toml

/-- A day of the calendar. -/
structure Date where
  year : Nat
  month : Nat
  day : Nat

/-- A time of the day. -/
structure Time where
  hour : Nat
  minute : Nat
  second : Nat
  nanosecond : Nat

/-- The distance of a local time from universal time. -/
inductive Offset
  /-- Universal time itself. -/
  | universal
  /-- So many minutes ahead, or behind. -/
  | minutes (ahead : Int)

/-- **A date, a time of the day, or both**, perhaps with an offset. -/
structure Moment where
  date : Option Date
  time : Option Time
  offset : Option Offset

mutual

/-- **A TOML value.** -/
inductive Value
  | text (s : String)
  | int (n : Int)
  | float (x : Double)
  | bool (b : Bool)
  | moment (m : Moment)
  | array (items : List Value)
  | table (entries : List Entry)

/-- **A named value** of a table. -/
structure Entry where
  /-- The name. -/
  key : String
  /-- The value. -/
  value : Value

end

/-! ## The text of dates and times -/

/-- A number in at least `width` digits. -/
def padded (width n : Nat) : List Char :=
  let ds := Nat.toDigits 10 n
  List.replicate (width - ds.length) '0' ++ ds

/-- A date, as year, month and day. -/
def Date.text (d : Date) : List Char :=
  padded 4 d.year ++ '-' :: padded 2 d.month ++ '-' :: padded 2 d.day

/-- A time; a fraction of a second is written without the zeros at its end. -/
def Time.text (t : Time) : List Char :=
  padded 2 t.hour ++ ':' :: padded 2 t.minute ++ ':' :: padded 2 t.second ++
    if t.nanosecond = 0 then []
    else '.' :: ((padded 9 t.nanosecond).reverse.dropWhile (· = '0')).reverse

/-- An offset, as hours and minutes. -/
def Offset.text : Offset → List Char
  | .universal => ['Z']
  | .minutes ahead =>
    let n := ahead.natAbs
    (if ahead < 0 then '-' else '+') :: padded 2 (n / 60) ++ ':' :: padded 2 (n % 60)

/-- **A moment in its standard form.** -/
def Moment.text (m : Moment) : String :=
  let date := m.date.elim [] Date.text
  let time := m.time.elim [] Time.text
  let mark := if m.date.isSome && m.time.isSome then ['T'] else []
  String.ofList (date ++ mark ++ time ++ m.offset.elim [] Offset.text)

/-! ## Readers -/

/-- **Reads a value off the front of a text.** A text that does not start with
such a value makes the document invalid. -/
abbrev Reader (α : Type) : Type := List Char → Option (α × List Char)

/-- A given character. -/
def expectChar (c : Char) : List Char → Option (List Char)
  | d :: rest => if d = c then some rest else none
  | [] => none

/-- Blanks within a line. -/
def isBlank (c : Char) : Bool := c = ' ' || c = '\t'

/-- Characters that may stand in comments and, but for quotes and backslashes,
in texts on one line. -/
def isInline (c : Char) : Bool := c = '\t' || (' ' ≤ c && c ≠ '\x7f')

/-- The text behind the blanks at its front. -/
def skipBlanks (cs : List Char) : List Char := cs.dropWhile isBlank

/-- The text behind the line break at its front. -/
def lineBreak? : List Char → Option (List Char)
  | '\n' :: rest => some rest
  | '\r' :: '\n' :: rest => some rest
  | _ => none

/-- The text behind the rest of a line, which may hold blanks and a comment
only. -/
def lineEnd? (cs : List Char) : Option (List Char) :=
  let rest := match skipBlanks cs with
    | '#' :: comment => comment.dropWhile isInline
    | rest => rest
  if rest.isEmpty then some [] else lineBreak? rest

/-- The text behind the blanks, line breaks and comments at its front; a comment
has to end with its line. -/
def skipLayout? (inComment : Bool) : List Char → Option (List Char)
  | [] => if inComment then none else some []
  | '\n' :: rest => skipLayout? false rest
  | '\r' :: '\n' :: rest => skipLayout? false rest
  | c :: rest =>
    if inComment then if isInline c then skipLayout? true rest else none
    else if isBlank c then skipLayout? false rest
    else if c = '#' then skipLayout? true rest
    else some (c :: rest)

end ImpFront.Toml
