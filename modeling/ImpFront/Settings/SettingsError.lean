import ImpFront.Number.Decimal
import ImpFront.Settings.Value
import ImpFront.Text.Quoted

/-!
# Why settings cannot be loaded

A file may be missing or invalid, and a value may be unfit for what it sets. A
value that fits no text and no integer is reported with its key and with the file
that it came from.
-/

namespace ImpFront

namespace Settings

/-- **The sections of the settings.** -/
inductive SectionName
  | building
  | formats
  deriving DecidableEq

namespace SectionName

/-- The name of the record that a section is read as. -/
def record : SectionName → String
  | .building => "BuildingConfig"
  | .formats => "FormatsConfig"

/-- How many fields a section has. -/
def size : SectionName → Nat
  | .building => 1
  | .formats => 2

end SectionName

/-- What a value is, in a message. -/
def Content.describe : Content → String
  | .nil => "unit value"
  | .bool b => "boolean `" ++ (if b then "true" else "false") ++ "`"
  | .int n => "integer `" ++ toString n ++ "`"
  | .float x => "floating point `" ++ x.textWithPoint ++ "`"
  | .text s => "string " ++ Quoted.quote s
  | .list _ => "sequence"
  | .table _ => "map"

/-- What an integer is that no natural number of 64 bits equals, in a message: it
is taken for one of the narrowest type. -/
def describeMisfit (n : Int) : String :=
  let type :=
    if Decimal.fitsInt64 n then "64-bit integer"
    else if n ≤ 170141183460469231731687303715884105727 then "128-bit integer"
    else "128-bit unsigned integer"
  type ++ " `" ++ toString n ++ "`"

/-- Where a value stands: its key, and the file that it came from. -/
structure Place where
  /-- The key of the value. -/
  key : String
  /-- The file that the value came from. -/
  origin : Option String
  deriving DecidableEq

/-- The words about a place at the end of a message. -/
def Place.words (p : Place) : String :=
  " for key `" ++ p.key ++ "`" ++ p.origin.elim "" (" in " ++ ·)

end Settings

open Settings

/-- **Why settings cannot be loaded.** -/
inductive SettingsError
  /-- A file that has to be there is not. -/
  | fileNotFound (path : String)
  /-- A file is no TOML document. -/
  | invalidFile
  /-- A value is no text. -/
  | notText (found : Content) (place : Place)
  /-- A value is no integer. -/
  | notInteger (found : Content) (place : Place)
  /-- An integer is below zero. -/
  | negative (n : Int) (place : Place)
  /-- An integer needs more than 64 bits. -/
  | tooLarge (n : Int) (place : Place)
  /-- A section is a single value. -/
  | notSection (found : Content) (name : SectionName)
  /-- A section is a list without enough items. -/
  | tooShort (length : Nat) (name : SectionName)
  /-- A section lacks a field. -/
  | missingField (field : String)
  /-- No policy for local initializers has this name. -/
  | unknownPolicy (name : String)
  /-- A value cannot name a policy for local initializers. -/
  | notPolicy

namespace SettingsError

/-- The message of the error; an invalid file has none. -/
def message : SettingsError → String
  | .fileNotFound path => "configuration file \"" ++ path ++ "\" not found"
  | .invalidFile => ""
  | .notText found place =>
    "invalid type: " ++ found.describe ++ ", expected a string" ++ place.words
  | .notInteger found place =>
    "invalid type: " ++ found.describe ++ ", expected an integer" ++ place.words
  | .negative n place | .tooLarge n place =>
    "invalid type: " ++ describeMisfit n ++ ", expected an unsigned 64 bit or less integer" ++
      place.words
  | .notSection found name =>
    "invalid type: " ++ found.describe ++ ", expected struct " ++ name.record
  | .tooShort length name =>
    "invalid length " ++ toString length ++ ", expected struct " ++ name.record ++ " with " ++
      toString name.size ++ (if name.size = 1 then " element" else " elements")
  | .missingField field => "missing field `" ++ field ++ "`"
  | .unknownPolicy name =>
    "enum InitializerPolicy does not have variant constructor " ++ name
  | .notPolicy =>
    "value of enum InitializerPolicy should be represented by either string or table " ++
      "with exactly one key"

end SettingsError

end ImpFront
