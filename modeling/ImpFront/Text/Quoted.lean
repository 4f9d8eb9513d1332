import ImpFront.Text.Unicode.Escaped

/-!
# Quoted texts

Messages show a text in quotes so that a reader sees every character of it:
quotes, backslashes and the usual controls have short escapes, and a character
without a visible form is written by its code point.
-/

namespace ImpFront.Quoted

/-- A code point in lower-case hexadecimal digits between braces. -/
def codePoint (c : Char) : List Char :=
  '\\' :: 'u' :: '{' :: Nat.toDigits 16 c.toNat ++ ['}']

/-- How a character stands in quotes. -/
def escape (c : Char) : List Char :=
  if c = '\x00' then ['\\', '0']
  else if c = '\t' then ['\\', 't']
  else if c = '\r' then ['\\', 'r']
  else if c = '\n' then ['\\', 'n']
  else if c = '"' then ['\\', '"']
  else if c = '\\' then ['\\', '\\']
  else if Unicode.isInvisible c then codePoint c
  else [c]

/-- **A text in quotes.** -/
def quote (s : String) : String :=
  "\"" ++ String.ofList (s.toList.flatMap escape) ++ "\""

end ImpFront.Quoted
