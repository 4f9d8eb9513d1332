import ImpFront.Format.Document

/-!
# JSON

Documents as JSON texts, one member to a line, each level indented by two
spaces. Empty lists and records take no lines. In a string only quotes,
backslashes and control characters are escaped, in the short form where there is
one.
-/

namespace ImpFront.Json

/-- A hexadecimal digit, in lower case. -/
def hexDigit (n : Nat) : Char := Nat.digitChar n

/-- How a character stands in a string. -/
def escape (c : Char) : List Char :=
  if c = '"' then ['\\', '"']
  else if c = '\\' then ['\\', '\\']
  else if c = '\x08' then ['\\', 'b']
  else if c = '\t' then ['\\', 't']
  else if c = '\n' then ['\\', 'n']
  else if c = '\x0c' then ['\\', 'f']
  else if c = '\r' then ['\\', 'r']
  else if c.toNat < 32 then
    ['\\', 'u', '0', '0', hexDigit (c.toNat / 16), hexDigit (c.toNat % 16)]
  else [c]

/-- **A text as a string**, in quotes. -/
def quote (s : String) : String :=
  "\"" ++ String.ofList (s.toList.flatMap escape) ++ "\""

/-- A new line at a level. -/
def newLine (level : Nat) : String :=
  String.ofList ('\n' :: List.replicate (2 * level) ' ')

/-- Parts between brackets, one to a line. -/
def enclose (opening closing : String) (level : Nat) : List String → String
  | [] => opening ++ closing
  | parts =>
    opening ++ newLine (level + 1) ++ ("," ++ newLine (level + 1)).intercalate parts
      ++ newLine level ++ closing

mutual
/-- **A document as a JSON text**, at a level. -/
def write (level : Nat) : Document → String
  | .text s => quote s
  | .int n => toString n
  | .bool b => if b then "true" else "false"
  | .list items => enclose "[" "]" level (writeItems (level + 1) items)
  | .record fields => enclose "\x7b" "\x7d" level (writeFields (level + 1) fields)

/-- The members of a list. -/
def writeItems (level : Nat) : List Document → List String
  | [] => []
  | d :: ds => write level d :: writeItems level ds

/-- The parts of a record. -/
def writeFields (level : Nat) : List Field → List String
  | [] => []
  | ⟨key, value⟩ :: fs => (quote key ++ ": " ++ write level value) :: writeFields level fs
end

end ImpFront.Json
