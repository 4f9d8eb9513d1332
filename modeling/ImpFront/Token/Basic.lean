/-!
# Tokens

The vocabulary of the language: eleven keywords, the punctuation and operator
symbols, integer literals and identifiers. A keyword or a symbol has one
spelling; a literal or an identifier is a class of spellings, so the token does
not say which of them stood in the source.
-/

namespace ImpFront

/-- **The reserved words.** -/
inductive Keyword
  | int | bool | void
  | ifWord | elseWord | whileWord
  | returnWord | breakWord | continueWord
  | trueWord | falseWord
  deriving DecidableEq

namespace Keyword

/-- All reserved words. -/
def all : List Keyword :=
  [.int, .bool, .void, .ifWord, .elseWord, .whileWord, .returnWord, .breakWord,
    .continueWord, .trueWord, .falseWord]

/-- How the word is written. -/
def spelling : Keyword → String
  | .int => "int"
  | .bool => "bool"
  | .void => "void"
  | .ifWord => "if"
  | .elseWord => "else"
  | .whileWord => "while"
  | .returnWord => "return"
  | .breakWord => "break"
  | .continueWord => "continue"
  | .trueWord => "true"
  | .falseWord => "false"

/-- The reserved word with a given spelling, if there is one. -/
def ofSpelling? (word : List Char) : Option Keyword :=
  all.find? fun k => k.spelling.toList == word

/-- Every reserved word is listed. -/
theorem mem_all (k : Keyword) : k ∈ all := by
  cases k <;> decide

/-- A spelling determines its word. -/
@[simp] theorem ofSpelling?_spelling (k : Keyword) :
    ofSpelling? k.spelling.toList = some k := by
  cases k <;> decide +kernel

/-- What is found has the spelling that was looked for. -/
theorem spelling_of_ofSpelling? {word : List Char} {k : Keyword}
    (h : ofSpelling? word = some k) : k.spelling.toList = word := by
  simpa using List.find?_some h

end Keyword

/-- **Punctuation and operators.** -/
inductive Symbol
  | openParen | closeParen | openBrace | closeBrace | comma | semicolon | assign
  | plus | minus | star | slash | percent
  | less | lessEqual | greater | greaterEqual | equalEqual | notEqual
  | andAnd | orOr | bang
  deriving DecidableEq

namespace Symbol

/-- All symbols. -/
def all : List Symbol :=
  [.openParen, .closeParen, .openBrace, .closeBrace, .comma, .semicolon, .assign,
    .plus, .minus, .star, .slash, .percent, .less, .lessEqual, .greater,
    .greaterEqual, .equalEqual, .notEqual, .andAnd, .orOr, .bang]

/-- How the symbol is written. -/
def spelling : Symbol → String
  | .openParen => "("
  | .closeParen => ")"
  | .openBrace => "\x7b"
  | .closeBrace => "\x7d"
  | .comma => ","
  | .semicolon => ";"
  | .assign => "="
  | .plus => "+"
  | .minus => "-"
  | .star => "*"
  | .slash => "/"
  | .percent => "%"
  | .less => "<"
  | .lessEqual => "<="
  | .greater => ">"
  | .greaterEqual => ">="
  | .equalEqual => "=="
  | .notEqual => "!="
  | .andAnd => "&&"
  | .orOr => "||"
  | .bang => "!"

/-- Every symbol is listed. -/
theorem mem_all (s : Symbol) : s ∈ all := by
  cases s <;> decide

end Symbol

/-- **The tokens**, as the grammar sees them. -/
inductive Token
  | keyword (k : Keyword)
  | symbol (s : Symbol)
  | intLiteral
  | ident
  deriving DecidableEq

/-- How a token is named in messages. -/
def Token.describe : Token → String
  | .keyword k => k.spelling
  | .symbol s => s.spelling
  | .intLiteral => "integer literal"
  | .ident => "identifier"

end ImpFront
