import ImpFront.Build.Statement
import ImpFront.Number.Decimal
import ImpFront.Settings.SettingsError

/-!
# Settings

Three settings govern the front end: what becomes of the initializers of local
variables, the format that programs are written in, and the width of labels in
drawings. They are read from the table that all sources of settings were put
into. Other names in that table mean nothing.

The two sections of the table may also be lists, which are read by position.
-/

namespace ImpFront

/-- **The settings of the front end.** -/
structure Settings where
  /-- What becomes of the initializers of local variables. -/
  localInitializers : LocalInitializers
  /-- The name of the format that programs are written in. -/
  defaultFormat : String
  /-- How long a label in a drawing may be. -/
  labelWidth : Nat

namespace Settings

/-! ## Single values -/

/-- **A value as a text**: truth values and numbers are written out. -/
def Value.toText (key : String) (v : Value) : Except SettingsError String :=
  match v.content with
  | .text s => .ok s
  | .bool b => .ok (if b then "true" else "false")
  | .int n => .ok (toString n)
  | .float x => .ok x.text
  | found => .error (.notText found ⟨key, v.origin⟩)

/-- A natural number of 64 bits in decimal digits, perhaps with a plus. -/
def readUnsigned? (text : List Char) : Option Nat :=
  let digits := match text with
    | '+' :: digits => digits
    | digits => digits
  (Decimal.readNat? digits).bind fun n => if n ≤ Double.maxUnsigned then some n else none

/-- **The number that a text means**: words for yes and no mean one and zero, in
any case of letters. -/
def unsignedOfText? (s : String) : Option Nat :=
  let word := Unicode.lowerCase s
  if word = "true" ∨ word = "on" ∨ word = "yes" then some 1
  else if word = "false" ∨ word = "off" ∨ word = "no" then some 0
  else readUnsigned? s.toList

/-- **A value as a natural number of 64 bits**: truth values are one and zero, and
fractions are rounded. An integer out of range is an error, where a fraction becomes
the nearer end. -/
def Value.toUnsigned (key : String) (v : Value) : Except SettingsError Nat :=
  match v.content with
  | .bool b => .ok (if b then 1 else 0)
  | .int n =>
    if n < 0 then .error (.negative n ⟨key, v.origin⟩)
    else if n ≤ Double.maxUnsigned then .ok n.toNat
    else .error (.tooLarge n ⟨key, v.origin⟩)
  | .float x => .ok x.toUnsigned
  | .text s =>
    match unsignedOfText? s with
    | some n => .ok n
    | none => .error (.notInteger (.text s) ⟨key, v.origin⟩)
  | found => .error (.notInteger found ⟨key, v.origin⟩)

/-- The policy of a name, in any case of letters. -/
def policyOfName (name : String) : Except SettingsError LocalInitializers :=
  let word := Unicode.lowerCase name
  if word = "keep" then .ok .keep
  else if word = "discard" then .ok .discard
  else .error (.unknownPolicy name)

/-- **A value as a policy**: its name, or a table whose only name is that. -/
def Value.toPolicy (v : Value) : Except SettingsError LocalInitializers :=
  match v.content with
  | .text name => policyOfName name
  | .table [e] => policyOfName e.key
  | _ => .error .notPolicy

/-! ## Sections -/

/-- A field of a section that is a table. -/
def field (entries : Value) (key : String) : Except SettingsError Value :=
  match entries.find? key with
  | some v => .ok v
  | none => .error (.missingField key)

/-- The policy in the section about building. -/
def readBuilding (v : Value) : Except SettingsError LocalInitializers :=
  match v.content with
  | .table _ => do (← field v "local_initializers").toPolicy
  | .list (policy :: _) => policy.toPolicy
  | .list [] => .error (.tooShort 0 .building)
  | found => .error (.notSection found .building)

/-- The default format and the label width in the section about formats. What is
there is read before anything is missed. -/
def readFormats (v : Value) : Except SettingsError (String × Nat) :=
  match v.content with
  | .table _ => do
    let name ← (v.find? "default").mapM (Value.toText "formats.default")
    let width ←
      (v.find? "treeviz_label_width").mapM (Value.toUnsigned "formats.treeviz_label_width")
    match name, width with
    | some name, some width => return (name, width)
    | none, _ => throw (.missingField "default")
    | _, none => throw (.missingField "treeviz_label_width")
  | .list (name :: width :: _) => do
    return (← name.toText "formats[0]", ← width.toUnsigned "formats[1]")
  | .list [name] => do
    let _ ← name.toText "formats[0]"
    throw (.tooShort 1 .formats)
  | .list [] => .error (.tooShort 0 .formats)
  | found => .error (.notSection found .formats)

/-- **Reads the settings** from the table of all sources. -/
def ofValue (root : Value) : Except SettingsError Settings := do
  let localInitializers ← readBuilding (← field root "building")
  let (defaultFormat, labelWidth) ← readFormats (← field root "formats")
  return { localInitializers, defaultFormat, labelWidth }

/-- **The table of settings before any source**: initializers are kept, programs
are drawn, and labels have at most thirty characters. -/
def defaults : Value := .ofEntries [
  ⟨"building", .ofEntries [⟨"local_initializers", .ofText "keep"⟩]⟩,
  ⟨"formats", .ofEntries [⟨"default", .ofText "treeviz"⟩, ⟨"treeviz_label_width", .ofInt 30⟩]⟩]

end Settings

end ImpFront
