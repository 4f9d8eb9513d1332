import ImpFront.Format.Json
import ImpFront.Number.Decimal
import ImpFront.Toml.Text

/-!
# The grammar of JSON

Which texts are JSON, and which documents they stand for: the grammar of the standard,
said as relations. Each of them relates a text with what its front stands for and the text
behind it, so the grammar is read from left to right. Blanks are allowed around each token.

The grammar knows more than programs need. `null`, and numbers with a fraction or an
exponent, are JSON, but there is no document that they stand for; nor is there one for a
list or a record with such a part in it. So a value stands for an `Option Document`.

Two choices are left to those who read JSON. Half of a surrogate pair without the other
half stands for no character, and is no JSON here. Of a record, all parts are kept, also
those of the same name.
-/

namespace ImpFront.Json

open Toml (hexValue? charOfCode?)

/-! ## Blanks -/

/-- Characters that may stand around tokens. -/
def isSpace (c : Char) : Bool := c = ' ' || c = '\t' || c = '\n' || c = '\r'

/-- The text behind all blanks at its front. -/
def skip (cs : List Char) : List Char := cs.dropWhile isSpace

/-! ## Strings -/

/-- The character of a short form, by the letter behind the backslash. -/
def shortForm? : Char → Option Char
  | '"' => some '"'
  | '\\' => some '\\'
  | '/' => some '/'
  | 'b' => some '\x08'
  | 'f' => some '\x0c'
  | 'n' => some '\n'
  | 'r' => some '\r'
  | 't' => some '\t'
  | _ => none

/-- The code unit that four hexadecimal digits stand for. -/
def codeUnit? (digits : List Char) : Option Nat :=
  if digits.length = 4 then digits.foldlM (fun n c => (hexValue? c).map (16 * n + ·)) 0 else none

/-- The character of a code, behind a backslash and a `u`: the code itself, or the two
halves of a surrogate pair. -/
def coded? (cs : List Char) : Option (Char × List Char) := do
  let n ← codeUnit? (cs.take 4)
  match charOfCode? n, cs.drop 4 with
  | some c, rest => some (c, rest)
  | none, '\\' :: 'u' :: cs' =>
    let m ← codeUnit? (cs'.take 4)
    if 0xD800 ≤ n ∧ n < 0xDC00 ∧ 0xDC00 ≤ m ∧ m < 0xE000 then
      let c ← charOfCode? (0x10000 + 0x400 * (n - 0xD800) + (m - 0xDC00))
      some (c, cs'.drop 4)
    else none
  | none, _ => none

/-- **A character in a string.** Quotes, backslashes and control characters do not stand
for themselves. -/
def letter? : List Char → Option (Char × List Char)
  | '\\' :: 'u' :: cs => coded? cs
  | '\\' :: form :: cs => (shortForm? form).map (·, cs)
  | c :: cs => if 32 ≤ c.toNat ∧ c ≠ '"' ∧ c ≠ '\\' then some (c, cs) else none
  | [] => none

/-- **The characters of a string**, behind the opening quote. -/
inductive Chars : List Char → List Char → List Char → Prop
  /-- The closing quote. -/
  | done {rest : List Char} : Chars ('"' :: rest) [] rest
  /-- Another character. -/
  | more {cs cs' s rest : List Char} {c : Char} (hc : letter? cs = some (c, cs'))
      (h : Chars cs' s rest) : Chars cs (c :: s) rest

/-! ## Numbers -/

/-- **Digits without a needless zero** in front. -/
structure Natural (digits : List Char) (n : Nat) : Prop where
  /-- There are digits, and this is their value. -/
  reads : Decimal.readNat? digits = some n
  /-- A zero in front is the only digit. -/
  zero : digits.head? = some '0' → digits = ['0']

/-- **A whole number.** It has no plus in front. -/
inductive Whole : List Char → Int → Prop
  | natural {digits : List Char} {n : Nat} (h : Natural digits n) : Whole digits n
  | negative {digits : List Char} {n : Nat} (h : Natural digits n) : Whole ('-' :: digits) (-n)

/-- An exponent. -/
inductive Exponent : List Char → Prop
  | mk {e : Char} {sign digits : List Char} {n : Nat} (he : e = 'e' ∨ e = 'E')
      (hsign : sign = [] ∨ sign = ['+'] ∨ sign = ['-'])
      (hdigits : Decimal.readNat? digits = some n) : Exponent (e :: sign ++ digits)

/-- **A number**, and the integer that it is if it is written as one. -/
inductive Number : List Char → Option Int → Prop
  | whole {text : List Char} {n : Int} (h : Whole text n) : Number text (some n)
  | fraction {text digits : List Char} {n : Int} {m : Nat} (h : Whole text n)
      (hdigits : Decimal.readNat? digits = some m) : Number (text ++ '.' :: digits) none
  | exponent {text exponent : List Char} {n : Int} (h : Whole text n)
      (hexponent : Exponent exponent) : Number (text ++ exponent) none
  | both {text digits exponent : List Char} {n : Int} {m : Nat} (h : Whole text n)
      (hdigits : Decimal.readNat? digits = some m) (hexponent : Exponent exponent) :
      Number (text ++ '.' :: digits ++ exponent) none

/-- Characters that numbers are made of. A number goes on as long as there are any. -/
def isNumberPart (c : Char) : Bool :=
  c.isDigit || c = '-' || c = '+' || c = '.' || c = 'e' || c = 'E'

/-! ## Values -/

/-- The words, and what they stand for. -/
def words : List (String × Option Document) :=
  [("null", none), ("true", some (.bool true)), ("false", some (.bool false))]

section Parts

variable {α : Type}

/-- **Parts with commas between them**, and a closing bracket. There is at least one. -/
inductive Parts (Part : List Char → Option α → List Char → Prop) (closing : Char) :
    List Char → Option (List α) → List Char → Prop
  | last {cs cs' rest : List Char} {a : Option α} (h : Part cs a cs')
      (hclosing : skip cs' = closing :: rest) : Parts Part closing cs (a.map ([·])) rest
  | more {cs cs' cs'' rest : List Char} {a : Option α} {as : Option (List α)}
      (h : Part cs a cs') (hcomma : skip cs' = ',' :: cs'')
      (hmore : Parts Part closing (skip cs'') as rest) :
      Parts Part closing cs (a.bind fun a => as.map (a :: ·)) rest

/-- **What an opening bracket is followed by**: nothing or some parts, and the closing
bracket. -/
inductive Bracketed (Part : List Char → Option α → List Char → Prop) (closing : Char) :
    List Char → Option (List α) → List Char → Prop
  | empty {rest : List Char} : Bracketed Part closing (closing :: rest) (some []) rest
  | parts {cs rest : List Char} {as : Option (List α)} (h : Parts Part closing cs as rest) :
      Bracketed Part closing cs as rest

end Parts

/-- **A part of a record**: its name, a colon, and what it is. -/
inductive Member (Value : List Char → Option Document → List Char → Prop) :
    List Char → Option Field → List Char → Prop
  | mk {cs cs' cs'' key rest : List Char} {v : Option Document} (hkey : Chars cs key cs')
      (hcolon : skip cs' = ':' :: cs'') (hv : Value (skip cs'') v rest) :
      Member Value ('"' :: cs) (v.map (⟨String.ofList key, ·⟩)) rest

/-- **A value**, without blanks in front. -/
inductive Value : List Char → Option Document → List Char → Prop
  | word {word : String} {v : Option Document} {rest : List Char} (h : (word, v) ∈ words) :
      Value (word.toList ++ rest) v rest
  | text {cs s rest : List Char} (h : Chars cs s rest) :
      Value ('"' :: cs) (some (.text (.ofList s))) rest
  | number {cs : List Char} {n : Option Int} (h : Number (cs.takeWhile isNumberPart) n) :
      Value cs (n.map .int) (cs.dropWhile isNumberPart)
  | list {cs rest : List Char} {items : Option (List Document)}
      (h : Bracketed Value ']' (skip cs) items rest) : Value ('[' :: cs) (items.map .list) rest
  | record {cs rest : List Char} {fields : Option (List Field)}
      (h : Bracketed (Member Value) '\x7d' (skip cs) fields rest) :
      Value ('\x7b' :: cs) (fields.map .record) rest

/-- **What a JSON text stands for.** It is one value, with blanks around it. -/
def Denotes (text : String) (v : Option Document) : Prop :=
  ∃ rest, Value (skip text.toList) v rest ∧ skip rest = []

end ImpFront.Json
