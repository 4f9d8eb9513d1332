import ImpFront.Number.Decimal
import ImpFront.Settings.Value

/-!
# Paths to settings

`building.local_initializers` leads from the table of all settings to one value:
a name, and then further steps, each to a name behind a dot or to an index in
brackets. Names are made of ASCII letters, digits, underscores, dashes and
spaces; spaces and tabs may stand around an index.

`Value.setAt` puts a value at the end of a path. It always gets there: whatever
stands in the way becomes a table or a list.
-/

namespace ImpFront.Settings

/-- **One step** from a value to a value in it. -/
inductive KeyStep
  | child (name : String)
  | index (i : Int)
  deriving DecidableEq

/-- **A path to a setting**; its names are in lower case. -/
structure KeyPath where
  /-- The name in the table of all settings. -/
  name : String
  /-- The steps from there. -/
  steps : List KeyStep
  deriving DecidableEq

/-- **Why a text is no path.** -/
inductive KeyFault
  /-- It does not start with a name. -/
  | noName
  /-- Something else than a step stands behind a part of it. -/
  | noStep
  /-- A bracket is not followed by an index. -/
  | noIndex
  /-- An index does not fit 64 bits. -/
  | indexOutOfRange
  deriving DecidableEq

/-- The message of the fault: what the reader of paths missed. -/
def KeyFault.message : KeyFault → String
  | .noName => "IsA"
  | .noStep => "Char"
  | .noIndex => "Digit"
  | .indexOutOfRange => "Map on Result"

namespace KeyPath

/-- Characters of names. -/
def isNameChar (c : Char) : Bool := c.isAlphanum || c = '_' || c = '-' || c = ' '

/-- Characters that may stand around an index. -/
def isSpace (c : Char) : Bool := c = ' ' || c = '\t'

/-- A name at the front of a text, in lower case, and the text behind it. -/
def name? (cs : List Char) : Option (String × List Char) :=
  let name := cs.takeWhile isNameChar
  if name.isEmpty then none
  else some (Unicode.lowerCase (String.ofList name), cs.dropWhile isNameChar)

/-- The text behind a minus at its front, and whether there is one. -/
def minus : List Char → Bool × List Char
  | '-' :: cs => (true, cs)
  | cs => (false, cs)

/-- The integer of a sign and some digits. -/
def signed (negative : Bool) (digits : List Char) : Int :=
  if negative then -(Decimal.value digits : Int) else Decimal.value digits

/-- An index and the bracket that closes it, behind the one that opens it. -/
def index (cs : List Char) : Except KeyFault (Int × List Char) :=
  let (negative, cs) := minus (cs.dropWhile isSpace)
  let digits := cs.takeWhile Char.isDigit
  let n := signed negative digits
  if digits.isEmpty then .error .noIndex
  else if !Decimal.fitsInt64 n then .error .indexOutOfRange
  else match (cs.dropWhile Char.isDigit).dropWhile isSpace with
    | ']' :: rest => .ok (n, rest)
    | _ => .error .noStep

/-- A name takes nothing but characters off the front. -/
theorem length_le_of_name? {cs rest : List Char} {name : String}
    (h : name? cs = some (name, rest)) : rest.length ≤ cs.length := by
  unfold name? at h
  dsimp only at h
  split at h
  · cases h
  · cases h
    exact (List.dropWhile_suffix _).length_le

/-- Looking for a minus adds nothing. -/
theorem length_minus_le (cs : List Char) : (minus cs).2.length ≤ cs.length := by
  unfold minus
  split <;> simp

/-- An index takes characters off the front, at least its closing bracket. -/
theorem length_lt_of_index {cs rest : List Char} {i : Int}
    (h : index cs = .ok (i, rest)) : rest.length < cs.length := by
  have hspace := (List.dropWhile_suffix isSpace (l := cs)).length_le
  have hminus := length_minus_le (cs.dropWhile isSpace)
  unfold index at h
  generalize minus (cs.dropWhile isSpace) = read at h hminus
  obtain ⟨negative, ds⟩ := read
  have hdigits := (List.dropWhile_suffix Char.isDigit (l := ds)).length_le
  have hend := (List.dropWhile_suffix isSpace (l := ds.dropWhile Char.isDigit)).length_le
  simp only at h hminus
  split at h
  · cases h
  · split at h
    · cases h
    · split at h
      · rename_i tail htail
        cases h
        rw [htail] at hend
        simp only [List.length_cons] at hend
        omega
      · cases h

/-- The steps behind a name, up to the end of the text. -/
def readSteps (cs : List Char) : Except KeyFault (List KeyStep) :=
  match cs with
  | [] => .ok []
  | '.' :: cs =>
    match h : name? cs with
    | none => .error .noStep
    | some (name, rest) =>
      have := length_le_of_name? h
      (readSteps rest).map (.child name :: ·)
  | '[' :: cs =>
    match h : index cs with
    | .error e => .error e
    | .ok (i, rest) =>
      have := length_lt_of_index h
      (readSteps rest).map (.index i :: ·)
  | _ => .error .noStep
termination_by cs.length

/-- **Reads a path.** -/
def read (text : String) : Except KeyFault KeyPath := do
  match name? text.toList with
  | none => .error .noName
  | some (name, rest) => return ⟨name, ← readSteps rest⟩

end KeyPath

namespace Value

/-- Puts a value at the end of some steps. The last name is `put`, so that tables
merge there; a last index replaces the item. -/
def setAtSteps (target : Value) : List KeyStep → Value → Value
  | [], v => v
  | [.child name], v => target.put name v
  | .child name :: steps, v =>
    target.set name (setAtSteps ((target.find? name).getD nil) steps v)
  | .index i :: steps, v =>
    target.setItem i (setAtSteps ((target.item? i).getD nil) steps v)

/-- **Puts a value at the end of a path.** -/
def setAt (target : Value) (path : KeyPath) (v : Value) : Value :=
  target.setAtSteps (.child path.name :: path.steps) v

/-- **Puts a value under the text of a key**: at the end of the path that the
text spells, or else under the whole text as a name. -/
def setUnder (target : Value) (key : String) (v : Value) : Value :=
  match KeyPath.read key with
  | .ok path => target.setAt path v
  | .error _ => target.put key v

end Value

end ImpFront.Settings
