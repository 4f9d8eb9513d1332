import ImpFront.Format.Drawing
import ImpFront.Format.Json
import ImpFront.Format.Yaml.Writer

/-!
# Output formats

A `Formatter` turns programs into texts. A `FormatRegistry` knows formatters by
name; registering a second one under a name replaces the first. It also has a
default name, which need not be the name of any formatter in it.
-/

namespace ImpFront

/-- **Why a program could not be written.** -/
inductive FormatError
  /-- No formatter has this name. -/
  | formatNotFound (name : String)
  /-- The formatter failed. -/
  | serialization (reason : String)
  deriving DecidableEq

/-- The message of the error. -/
def FormatError.message : FormatError → String
  | .formatNotFound name => "format '" ++ name ++ "' not found"
  | .serialization reason => "serialization error: " ++ reason

/-- **A way of writing programs.** -/
structure Formatter where
  /-- The name that it is known by. -/
  name : String
  /-- What it writes, in a few words. -/
  description : String
  /-- Writes a program. -/
  serialize : Program → Except FormatError String

namespace Formatter

/-- Draws the outline of a program, with labels of at most `width` characters. -/
def drawing (width : Nat) : Formatter where
  name := "treeviz"
  description := "One line per node tree view"
  serialize p := .ok (Drawing.draw width p.outline)

/-- Writes a program as JSON. -/
def json : Formatter where
  name := "json"
  description := "Pretty-printed JSON"
  serialize p := .ok (Json.write 0 p.toDocument)

/-- Writes a program as YAML. -/
def yaml : Formatter where
  name := "yaml"
  description := "YAML document"
  serialize p := .ok (Yaml.write p.toDocument)

end Formatter

/-- **Formatters by name**, and the name of the default one. -/
structure FormatRegistry where
  /-- The formatters. -/
  formatters : List Formatter
  /-- The name of the default format. -/
  defaultFormat : String
  /-- No two formatters have the same name. -/
  distinct : (formatters.map Formatter.name).Nodup

namespace FormatRegistry

/-- No formatters; the default format is that of drawings. -/
def empty : FormatRegistry where
  formatters := []
  defaultFormat := "treeviz"
  distinct := .nil

/-- **Adds a formatter**, in place of one with the same name. -/
def register (r : FormatRegistry) (f : Formatter) : FormatRegistry where
  formatters := f :: r.formatters.filter (·.name ≠ f.name)
  defaultFormat := r.defaultFormat
  distinct := by
    rw [List.map_cons, List.nodup_cons]
    refine ⟨?_, r.distinct.sublist (List.filter_sublist.map _)⟩
    simp

/-- The formatter of a name. -/
def get? (r : FormatRegistry) (name : String) : Option Formatter :=
  r.formatters.find? (·.name = name)

/-- Whether there is a formatter of a name. -/
def has (r : FormatRegistry) (name : String) : Bool := (r.get? name).isSome

/-- The names of all formatters, in ascending order. -/
def list (r : FormatRegistry) : List String := (r.formatters.map Formatter.name).mergeSort

/-- **Writes a program** in the format of a name. -/
def serialize (r : FormatRegistry) (name : String) (p : Program) :
    Except FormatError String :=
  match r.get? name with
  | some f => f.serialize p
  | none => .error (.formatNotFound name)

/-- Writes a program in the default format. -/
def serializeDefault (r : FormatRegistry) (p : Program) : Except FormatError String :=
  r.serialize r.defaultFormat p

/-- The formatters of this library. -/
def standard : FormatRegistry :=
  empty.register (.drawing Drawing.defaultWidth) |>.register .json |>.register .yaml

/-- The formatters of this library, with a label width for drawings and a
default format. -/
def configured (defaultFormat : String) (width : Nat) : FormatRegistry :=
  { standard.register (.drawing width) with defaultFormat }

end FormatRegistry

end ImpFront
