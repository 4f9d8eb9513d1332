import ImpFront.Toml.Basic

/-!
# TOML texts

Texts come in double or in single quotes, on one line or, with the quotes three
times, on several. Double quotes allow escapes; a backslash at the end of a line
joins it to the next text. Line breaks within a text are single line feeds, and
one right behind the opening quotes is not part of the text. Up to two quotes
may stand right in front of the closing ones.
-/

namespace ImpFront.Toml

/-- The character of a code point, unless it is half of a surrogate pair or too
large. -/
def charOfCode? (n : Nat) : Option Char :=
  if h : n.isValidChar then some (Char.ofNatAux n h) else none

/-- The value of a hexadecimal digit, in either case. -/
def hexValue? (c : Char) : Option Nat :=
  if c.isDigit then some (c.toNat - '0'.toNat)
  else if 'a' ≤ c ∧ c ≤ 'f' then some (c.toNat - 'a'.toNat + 10)
  else if 'A' ≤ c ∧ c ≤ 'F' then some (c.toNat - 'A'.toNat + 10)
  else none

/-- The character whose code point is given by exactly `count` digits. -/
def codePoint (count : Nat) : Reader Char := fun cs =>
  let digits := cs.take count
  if digits.length < count then none
  else do
    let n ← digits.foldlM (fun n c => (hexValue? c).map (16 * n + ·)) 0
    return (← charOfCode? n, cs.drop count)

/-- What a backslash and the text behind it stand for. -/
def escaped : Reader Char
  | 'b' :: rest => some ('\x08', rest)
  | 't' :: rest => some ('\t', rest)
  | 'n' :: rest => some ('\n', rest)
  | 'f' :: rest => some ('\x0c', rest)
  | 'r' :: rest => some ('\r', rest)
  | '"' :: rest => some ('"', rest)
  | '\\' :: rest => some ('\\', rest)
  | 'u' :: rest => codePoint 4 rest
  | 'U' :: rest => codePoint 8 rest
  | _ => none

/-- The text behind all blanks and line breaks at its front. -/
def skipBlankLines : List Char → List Char
  | [] => []
  | '\r' :: '\n' :: rest => skipBlankLines rest
  | c :: rest => if isBlank c || c = '\n' then skipBlankLines rest else c :: rest

/-- The text behind a backslash at the end of a line: behind the line break and
all blanks and line breaks after it. -/
def joinedLine? (cs : List Char) : Option (List Char) :=
  (lineBreak? (skipBlanks cs)).map skipBlankLines

/-- **The rest of a text in double quotes**, up to and with the closing ones. -/
def doubleQuoted (cs : List Char) : Option (List Char × List Char) :=
  match cs with
  | [] => none
  | '"' :: rest => some ([], rest)
  | '\\' :: rest => do
    let (c, rest') ← escaped rest
    if rest'.length ≤ rest.length then
      let (s, rest'') ← doubleQuoted rest'
      return (c :: s, rest'')
    else none
  | c :: rest =>
    if isInline c then (doubleQuoted rest).map fun (s, rest') => (c :: s, rest') else none
termination_by cs.length

/-- **The rest of a text in three double quotes**, up to and with the closing
ones. -/
def tripleDoubleQuoted (cs : List Char) : Option (List Char × List Char) :=
  match cs with
  | [] => none
  | '"' :: '"' :: '"' :: '"' :: '"' :: rest => some (['"', '"'], rest)
  | '"' :: '"' :: '"' :: '"' :: rest => some (['"'], rest)
  | '"' :: '"' :: '"' :: rest => some ([], rest)
  | '\r' :: '\n' :: rest => (tripleDoubleQuoted rest).map fun (s, rest') => ('\n' :: s, rest')
  | '\\' :: rest =>
    match joinedLine? rest with
    | some rest' =>
      if rest'.length ≤ rest.length then tripleDoubleQuoted rest' else none
    | none => do
      let (c, rest') ← escaped rest
      if rest'.length ≤ rest.length then
        let (s, rest'') ← tripleDoubleQuoted rest'
        return (c :: s, rest'')
      else none
  | c :: rest =>
    if isInline c || c = '\n' then
      (tripleDoubleQuoted rest).map fun (s, rest') => (c :: s, rest')
    else none
termination_by cs.length

/-- The rest of a text in single quotes. -/
def singleQuoted : Reader (List Char)
  | [] => none
  | '\'' :: rest => some ([], rest)
  | c :: rest =>
    if isInline c then (singleQuoted rest).map fun (s, rest') => (c :: s, rest') else none

/-- The rest of a text in three single quotes. -/
def tripleSingleQuoted : Reader (List Char)
  | [] => none
  | '\'' :: '\'' :: '\'' :: '\'' :: '\'' :: rest => some (['\'', '\''], rest)
  | '\'' :: '\'' :: '\'' :: '\'' :: rest => some (['\''], rest)
  | '\'' :: '\'' :: '\'' :: rest => some ([], rest)
  | '\r' :: '\n' :: rest => (tripleSingleQuoted rest).map fun (s, rest') => ('\n' :: s, rest')
  | c :: rest =>
    if isInline c || c = '\n' then
      (tripleSingleQuoted rest).map fun (s, rest') => (c :: s, rest')
    else none

/-- A text without the line break at its front. -/
def withoutBreak (cs : List Char) : List Char := (lineBreak? cs).getD cs

/-- **A text**, in any kind of quotes. -/
def quotedText : Reader String := fun cs =>
  let content := match cs with
    | '"' :: '"' :: '"' :: rest => tripleDoubleQuoted (withoutBreak rest)
    | '"' :: rest => doubleQuoted rest
    | '\'' :: '\'' :: '\'' :: rest => tripleSingleQuoted (withoutBreak rest)
    | '\'' :: rest => singleQuoted rest
    | _ => none
  content.map fun (s, rest) => (String.ofList s, rest)

/-- Characters that names without quotes are made of. -/
def isBareKeyChar (c : Char) : Bool := c.isAlphanum || c = '_' || c = '-'

/-- **A name**, in quotes on one line or without any. -/
def simpleKey : Reader String := fun cs =>
  match cs with
  | '"' :: rest => (doubleQuoted rest).map fun (s, rest) => (String.ofList s, rest)
  | '\'' :: rest => (singleQuoted rest).map fun (s, rest) => (String.ofList s, rest)
  | _ =>
    let name := cs.takeWhile isBareKeyChar
    if name.isEmpty then none else some (String.ofList name, cs.dropWhile isBareKeyChar)

end ImpFront.Toml
