import ImpFront.Toml.Moment

/-!
# Tables that stand for moments

A table whose first name is `momentMark` is another way to write a moment: the
mark has to name a text that is a moment, and the names behind it do not count,
whatever they stand for. A mark that is not the first name is a name like any
other.

`Value.read` puts the moments in the place of such tables, at any depth. It
refuses a value in which a mark comes first and names no moment.
-/

namespace ImpFront.Toml

/-- The first name of a table that stands for a moment. -/
def momentMark : String := "$__toml_private_datetime"

mutual

/-- **A value without tables that stand for moments.** -/
def Value.read : Value → Option Value
  | .array items => do return .array (← readItems items)
  | .table entries => readTable entries
  | v => some v

/-- The items of an array. -/
def readItems : List Value → Option (List Value)
  | [] => some []
  | v :: vs => do return (← v.read) :: (← readItems vs)

/-- **What a table stands for**, by its first name. -/
def readTable : List Entry → Option Value
  | [] => some (.table [])
  | ⟨key, v⟩ :: es =>
    if key = momentMark then
      match v with
      | .text s => (Moment.ofText? s).map .moment
      | _ => none
    else do return .table (⟨key, ← v.read⟩ :: (← readEntries es))

/-- The entries of a table. -/
def readEntries : List Entry → Option (List Entry)
  | [] => some []
  | ⟨key, v⟩ :: es => do return ⟨key, ← v.read⟩ :: (← readEntries es)

end

end ImpFront.Toml
