import ImpFront.Text.Unicode.LowerCase
import ImpFront.Toml.Basic

/-!
# Values of settings

Settings come from several places and end up in one table. A `Value` remembers
the file that it came from, if it came from one, so that a message about it can
say where to look.

Names of settings are in lower case. `Value.put` is how a later value meets an
earlier one: tables are merged name by name, and any other value replaces what
was there.
-/

namespace ImpFront.Settings

mutual

/-- **A value and where it came from.** -/
structure Value where
  /-- The file that the value came from. -/
  origin : Option String
  /-- The value itself. -/
  content : Content

/-- What a value may be. -/
inductive Content
  | nil
  | bool (b : Bool)
  | int (n : Int)
  | float (x : Double)
  | text (s : String)
  | list (items : List Value)
  | table (entries : List Entry)

/-- A named value of a table. -/
structure Entry where
  /-- The name. -/
  key : String
  /-- The value. -/
  value : Value

end

namespace Value

/-- No value, from nowhere. -/
def nil : Value := ⟨none, .nil⟩

/-- An empty table, from nowhere. -/
def emptyTable : Value := ⟨none, .table []⟩

/-- A text, from nowhere. -/
def ofText (s : String) : Value := ⟨none, .text s⟩

/-- An integer, from nowhere. -/
def ofInt (n : Int) : Value := ⟨none, .int n⟩

/-- A table, from nowhere. -/
def ofEntries (entries : List Entry) : Value := ⟨none, .table entries⟩

/-! ## From TOML -/

mutual
/-- **The value of a TOML document** that came from a file. A moment is its
text. -/
def ofToml (origin : Option String) : Toml.Value → Value
  | .text s => ⟨origin, .text s⟩
  | .int n => ⟨origin, .int n⟩
  | .float x => ⟨origin, .float x⟩
  | .bool b => ⟨origin, .bool b⟩
  | .moment m => ⟨origin, .text m.text⟩
  | .array items => ⟨origin, .list (listOfToml origin items)⟩
  | .table entries => ⟨origin, .table (entriesOfToml origin entries)⟩

/-- The values of a TOML array. -/
def listOfToml (origin : Option String) : List Toml.Value → List Value
  | [] => []
  | v :: vs => ofToml origin v :: listOfToml origin vs

/-- The entries of a TOML table. -/
def entriesOfToml (origin : Option String) : List Toml.Entry → List Entry
  | [] => []
  | ⟨key, v⟩ :: es => ⟨key, ofToml origin v⟩ :: entriesOfToml origin es
end

/-! ## Tables -/

/-- The value itself if it is a table, else an empty one. -/
def asTable : Value → Value
  | ⟨origin, .table entries⟩ => ⟨origin, .table entries⟩
  | _ => emptyTable

/-- The entries of a table; other values have none. -/
def entries : Value → List Entry
  | ⟨_, .table es⟩ => es
  | _ => []

/-- **The value of a name** in a table. -/
def find? (target : Value) (key : String) : Option Value :=
  (target.entries.find? (·.key = key)).map Entry.value

/-- Entries with another value for a name, or with a first one at the end. -/
def setEntry (key : String) (v : Value) : List Entry → List Entry
  | [] => [⟨key, v⟩]
  | e :: es => if e.key = key then ⟨key, v⟩ :: es else e :: setEntry key v es

/-- Gives a name of a table another value; a target that is no table becomes one
first. -/
def set (target : Value) (key : String) (v : Value) : Value :=
  ⟨target.asTable.origin, .table (setEntry key v target.entries)⟩

mutual
/-- **Puts a value under a name.** The entries of a table are put into what is
there already, one by one; any other value replaces what is there. -/
def put (target : Value) (name : String) : Value → Value
  | ⟨_, .table es⟩ =>
    let key := Unicode.lowerCase name
    target.set key (putAll ((target.find? key).getD emptyTable) es)
  | v => target.set (Unicode.lowerCase name) v

/-- Puts entries into a table, one after the other. -/
def putAll (target : Value) : List Entry → Value
  | [] => target
  | ⟨name, v⟩ :: es => putAll (put target name v) es
end

/-! ## Lists -/

/-- The value itself if it is a list, else an empty one. -/
def asList : Value → Value
  | ⟨origin, .list items⟩ => ⟨origin, .list items⟩
  | _ => ⟨none, .list []⟩

/-- The items of a list; other values have none. -/
def items : Value → List Value
  | ⟨_, .list vs⟩ => vs
  | _ => []

/-- The position that an index means in a list; a negative one counts from the
end. -/
def position (i : Int) (length : Nat) : Nat :=
  if 0 ≤ i then i.toNat else length - i.natAbs

/-- The item at an index. -/
def item? (target : Value) (i : Int) : Option Value :=
  target.items[position i target.items.length]?

/-- Gives an index of a list another value. A list that is too short grows, and
a target that is no list becomes one first. -/
def setItem (target : Value) (i : Int) (v : Value) : Value :=
  let vs := target.items
  let k := position i vs.length
  ⟨target.asList.origin, .list ((vs ++ List.replicate (k + 1 - vs.length) nil).set k v)⟩

end Value

end ImpFront.Settings
