import ImpFront.Settings.Basic
import ImpFront.Settings.KeyPath
import ImpFront.Toml.Parser

/-!
# Loading settings

A `Loader` collects files and overrides. Files are put on top of the defaults in
the order in which they were added, and overrides on top of all files, wherever
they stood among them. A second override of a path takes the place of the first.

The files are those of a `Folder`; they are not looked for before the settings
are built.
-/

namespace ImpFront.Settings

/-! ## Files -/

/-- **A folder of files**: their paths and texts. -/
structure Folder where
  /-- The files; no two have the same path. -/
  files : List (String × String)

namespace Folder

/-- The parts of a path, without empty ones and dots. -/
def parts (path : List Char) : List (List Char) :=
  (path.splitOn '/').filter fun part => part ≠ [] ∧ part ≠ ['.']

/-- The part of a path that leads to the folder above. -/
def above : List Char := ['.', '.']

/-- Whether a path can only mean a folder, by its end. -/
def endsAsFolder (path : List Char) : Bool :=
  match path.reverse with
  | '/' :: _ => true
  | '.' :: '/' :: _ => true
  | _ => false

/-- The text of the file with these names. -/
def text? (folder : Folder) (names : List (List Char)) : Option String :=
  (folder.files.find? fun f => parts f.1.toList = names).map Prod.snd

/-- Whether these names lead to a folder with a file somewhere in it. -/
def hasFolder (folder : Folder) (names : List (List Char)) : Bool :=
  folder.files.any fun f =>
    let file := parts f.1.toList
    names.length < file.length && names.isPrefixOf file

/-- **The names that the parts of a path lead to**, from the folder with the
names `here`. The way back leads out of folders that are there only, and not out
of the outermost one. -/
def reach? (folder : Folder) (here : List (List Char)) :
    List (List Char) → Option (List (List Char))
  | [] => some here
  | part :: rest =>
    if part = above then
      if here ≠ [] ∧ folder.hasFolder here then folder.reach? here.dropLast rest else none
    else folder.reach? (here ++ [part]) rest

/-- **Finds the file that a path means**, with the path in its shortest spelling:
the file of the path itself, or else the one with the ending of TOML files behind
the last name. A path that starts at the root leads out of the folder, and one
that ends on the way back means no file. -/
def find? (folder : Folder) (path : String) : Option (String × String) := do
  let ps := parts path.toList
  let name ← ps.getLast?
  if path.toList.head? = some '/' ∨ name = above then none
  else
    let named (name : List Char) : Option (String × String) := do
      let here ← folder.reach? [] ps.dropLast
      let text ← folder.text? (here ++ [name])
      return (String.ofList (['/'].intercalate (ps.dropLast ++ [name])), text)
    let exact := if endsAsFolder path.toList then none else named name
    exact <|> named (name ++ ".toml".toList)

end Folder

/-! ## Sources -/

/-- **A file to load.** -/
structure Source where
  /-- Its path, as it was given. -/
  path : String
  /-- Whether it has to be there. -/
  required : Bool

/-- Puts the entries of a document on top of a table of settings. A name that
spells a path leads along it. -/
def putDocument (origin : String) (root : Value) (entries : List Toml.Entry) : Value :=
  entries.foldl (fun root e => root.setUnder e.key (.ofToml (some origin) e.value)) root

/-- **Puts a file on top of a table of settings.** -/
def Source.addTo (folder : Folder) (root : Value) (source : Source) :
    Except SettingsError Value :=
  match folder.find? source.path with
  | none => if source.required then .error (.fileNotFound source.path) else .ok root
  | some (origin, text) =>
    match Toml.parse text.toList with
    | none => .error .invalidFile
    | some entries => .ok (putDocument origin root entries)

/-! ## Loaders -/

/-- **What settings are loaded from.** -/
structure Loader where
  /-- The files, from bottom to top. -/
  sources : List Source
  /-- The overrides, in the order in which their paths were first used; no two
  have the same path. -/
  overrides : List (KeyPath × Value)

namespace Loader

/-- A loader of the defaults alone. -/
def new : Loader := ⟨[], []⟩

/-- Adds a file on top, which has to be there. -/
def withFile (l : Loader) (path : String) : Loader :=
  { l with sources := l.sources ++ [⟨path, true⟩] }

/-- Adds a file on top, which need not be there. -/
def withOptionalFile (l : Loader) (path : String) : Loader :=
  { l with sources := l.sources ++ [⟨path, false⟩] }

/-- Overrides with another value for a path, or with a first one at the end. -/
def setOverrideAt (path : KeyPath) (v : Value) : List (KeyPath × Value) → List (KeyPath × Value)
  | [] => [(path, v)]
  | o :: os => if o.1 = path then (path, v) :: os else o :: setOverrideAt path v os

/-- **Overrides the setting of a key**, unless the key is no path. -/
def setOverride (l : Loader) (key : String) (v : Value) : Except KeyFault Loader := do
  return { l with overrides := setOverrideAt (← KeyPath.read key) v l.overrides }

/-- **The table of all settings**: the defaults, the files on top of them, and
the overrides on top of these. -/
def table (l : Loader) (folder : Folder) : Except SettingsError Value := do
  let root ← l.sources.foldlM (Source.addTo folder) defaults
  return l.overrides.foldl (fun root o => root.setAt o.1 o.2) root

/-- **Builds the settings.** -/
def build (l : Loader) (folder : Folder) : Except SettingsError Settings := do
  ofValue (← l.table folder)

end Loader

end ImpFront.Settings
