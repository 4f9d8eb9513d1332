import ImpFront.Toml.MarkedTable
import ImpFront.Toml.Number
import ImpFront.Toml.Section
import ImpFront.Toml.Text

/-!
# Reading TOML

`Toml.parse` reads a whole document: lines that are empty, give a name a value,
or start a section. A document with any fault in it is refused as a whole. Tables
that stand for moments are known when the document is complete, since sections
may get more names until then.

Arrays and inline tables nest less than `maxDepth` deep, which is what the
recursion of the reader runs on.
-/

namespace ImpFront.Toml

/-- How deep values nest, and how many parts a name with dots has, at most. -/
def maxDepth : Nat := 80

/-- **A name with dots**: its containers and its last part. -/
def dottedKey (cs : List Char) : Option ((List String × String) × List Char) := do
  let (key, rest) ← simpleKey (skipBlanks cs)
  match skipBlanks rest with
  | '.' :: rest =>
    if rest.length < cs.length then
      let ((containers, last), rest) ← dottedKey rest
      return ((key :: containers, last), rest)
    else none
  | rest => return (([], key), rest)
termination_by cs.length

/-- A name with dots that is not too long. -/
def boundedKey : Reader (List String × String) := fun cs => do
  let (key, rest) ← dottedKey cs
  if key.1.length + 1 < maxDepth then return (key, rest) else none

/-- A name, an equals sign and a value. -/
def keyValue (value : Reader Value) : Reader ((List String × String) × Value) := fun cs => do
  let (key, rest) ← boundedKey cs
  let rest ← expectChar '=' rest
  let (v, rest) ← value (skipBlanks rest)
  return ((key, v), rest)

/-- The rest of an array: values with commas between them, and perhaps one after
them, on any number of lines. -/
def arrayItems (value : Reader Value) (cs : List Char) : Option (List Value × List Char) := do
  match ← skipLayout? false cs with
  | ']' :: rest => return ([], rest)
  | start => do
    let (v, rest) ← value start
    match ← skipLayout? false rest with
    | ']' :: rest => return ([v], rest)
    | ',' :: rest =>
      if rest.length < cs.length then
        let (vs, rest) ← arrayItems value rest
        return (v :: vs, rest)
      else none
    | _ => none
termination_by cs.length

/-- The rest of an inline table that is not empty: names and values with commas
between them, on one line. -/
def inlineMembers (value : Reader Value) (s : Section) (cs : List Char) :
    Option (Section × List Char) := do
  let (((containers, key), v), rest) ← keyValue value cs
  let s ← s.addValue false containers key v
  match skipBlanks rest with
  | '}' :: rest => return (s, rest)
  | ',' :: rest =>
    if rest.length < cs.length then inlineMembers value s rest else none
  | _ => none
termination_by cs.length

/-- An inline table, behind its opening brace. -/
def inlineTable (value : Reader Value) : Reader Value := fun cs =>
  match skipBlanks cs with
  | '}' :: rest => some (.table [], rest)
  | _ => do
    let (s, rest) ← inlineMembers value (.empty false false) cs
    return (.table s.toEntries, rest)

/-- **A value that starts with a digit or a sign.** -/
def numberOrMoment : Reader Value := fun cs =>
  if startsDate cs || startsTime cs then
    (moment cs).map fun (m, rest) => (.moment m, rest)
  else
    match (sign cs).2 with
    | 'i' :: _ | 'n' :: _ => specialFloat cs
    | _ => number cs

/-- **A value** that holds less than `depth` values inside one another. -/
def valueAt : (depth : Nat) → List Char → Option (Value × List Char)
  | _, [] => none
  | depth, c :: cs =>
    match c, depth with
    | '[', depth + 1 => do
      let (items, rest) ← arrayItems (valueAt depth) cs
      return (.array items, rest)
    | '{', depth + 1 => inlineTable (valueAt depth) cs
    | _, _ =>
      if c = '"' ∨ c = '\'' then do
        let (s, rest) ← quotedText (c :: cs)
        return (.text s, rest)
      else if c.isDigit ∨ c = '+' ∨ c = '-' then numberOrMoment (c :: cs)
      else match c :: cs with
        | 't' :: 'r' :: 'u' :: 'e' :: rest => some (.bool true, rest)
        | 'f' :: 'a' :: 'l' :: 's' :: 'e' :: rest => some (.bool false, rest)
        | _ => specialFloat (c :: cs)

/-- A value on a line of its own. -/
def value : Reader Value := valueAt (maxDepth - 1)

/-! ## Documents -/

/-- **A document read so far**: all sections, and the path of the one that new
names go to. -/
structure Draft where
  /-- The section of the whole document. -/
  root : Section
  /-- The path of the section that was started last. -/
  path : List String

/-- A header, behind its opening bracket or brackets. -/
def header (draft : Draft) (cs : List Char) : Option (Draft × List Char) := do
  match cs with
  | '[' :: cs => do
    let ((containers, key), rest) ← boundedKey cs
    let rest ← expectChar ']' (← expectChar ']' rest)
    return (⟨← draft.root.openElement containers key, containers ++ [key]⟩, ← lineEnd? rest)
  | _ => do
    let ((containers, key), rest) ← boundedKey cs
    let rest ← expectChar ']' rest
    return (⟨← draft.root.openTable containers key, containers ++ [key]⟩, ← lineEnd? rest)

/-- A line that gives a name a value. -/
def assignment (draft : Draft) (cs : List Char) : Option (Draft × List Char) := do
  let (((containers, key), v), rest) ← keyValue value cs
  let root ← draft.root.modifyAt (Section.addValue false containers key v) draft.path
  return (⟨root, draft.path⟩, ← lineEnd? rest)

/-- One line of a document. -/
def line (draft : Draft) (cs : List Char) : Option (Draft × List Char) :=
  match skipBlanks cs with
  | '[' :: rest => header draft rest
  | '#' :: rest => (lineEnd? ('#' :: rest)).map (draft, ·)
  | start =>
    match lineBreak? start with
    | some rest => some (draft, rest)
    | none => if start.isEmpty then some (draft, []) else assignment draft start

/-- All lines of a document. -/
def lines (draft : Draft) (cs : List Char) : Option Draft :=
  if cs.isEmpty then some draft
  else do
    let (draft, rest) ← line draft cs
    if rest.length < cs.length then lines draft rest else none
termination_by cs.length

/-- A text without the mark that some editors put in front of it. -/
def withoutMark : List Char → List Char
  | '\ufeff' :: cs => cs
  | cs => cs

/-- **The entries of a document**, if it is valid. A document that stands for a
moment as a whole is not. -/
def parse (source : List Char) : Option (List Entry) := do
  let draft ← lines ⟨.empty false false, []⟩ (withoutMark source)
  match ← readTable draft.root.toEntries with
  | .table entries => return entries
  | _ => none

end ImpFront.Toml
