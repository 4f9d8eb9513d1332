import ImpFront.Grammar.Rule
import ImpFront.Text.Ascending

/-!
# Syntax errors

A source is refused either for stretches of text that are no tokens, with one
error for each of them, or for a token that does not fit. The message then names
the token that was found and everything that was expected in its place.
-/

namespace ImpFront

/-- How an expectation reads in a message. -/
def Expectation.display : Expectation → String
  | .token t => "`" ++ t.describe ++ "`"
  | .endOfInput => "end of input"

/-- **What is wrong** with the syntax of a source. -/
inductive SyntaxFault
  /-- A block comment is never closed. -/
  | unclosedComment
  /-- No token starts like this. -/
  | unknownInput (text : String)
  /-- What was found – nothing, at the end of the input – and what was expected,
  in the order of the texts and without repetitions. -/
  | unexpected (found : Option Token) (expected : List Expectation)
  deriving DecidableEq

/-- The message of a fault. -/
def SyntaxFault.message : SyntaxFault → String
  | .unclosedComment => "unterminated block comment"
  | .unknownInput text => "unrecognized input `" ++ text ++ "`"
  | .unexpected found expected =>
    let subject := "unexpected " ++ (found.elim Expectation.endOfInput .token).display
    match expected with
    | [] => subject
    | _ => subject ++ ", expected " ++ ", ".intercalate (expected.map Expectation.display)

/-- **A syntax error**, with its place. -/
structure SyntaxError where
  /-- Where the error was noticed. -/
  span : Span
  /-- What is wrong. -/
  fault : SyntaxFault
  deriving DecidableEq

namespace SyntaxError

/-- The message of the error. -/
def message (e : SyntaxError) : String := e.fault.message

/-- The message with the place in bytes. -/
def display (e : SyntaxError) : String :=
  e.message ++ " at " ++ toString e.span.start ++ ".." ++ toString e.span.stop

/-- A lexical error is a syntax error. -/
def ofLexError (e : LexError) : SyntaxError :=
  ⟨e.span, match e.fault with
    | .unclosedComment => .unclosedComment
    | .unknownCharacter => .unknownInput e.text⟩

/-- The error that a failed rule amounts to, in a source of `size` bytes. -/
def ofFailure (size : Nat) (e : Failure) : SyntaxError :=
  let expected := ascendingBy Expectation.display e.expected
  match e.rest with
  | [] => ⟨.emptyAt size, .unexpected none expected⟩
  | ⟨t, span⟩ :: _ => ⟨span, .unexpected (some t) expected⟩

end SyntaxError

end ImpFront
