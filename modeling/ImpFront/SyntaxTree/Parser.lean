import ImpFront.Grammar.Program
import ImpFront.SyntaxTree.SyntaxError

/-!
# From text to syntax trees

A source is read as a whole: it is cut into tokens, a rule of the grammar has to
match all of them, and the texts of the nodes are cut from the source. Three
rules can be asked for: a program, a single statement, a single expression.
-/

namespace ImpFront

/-- **What a source is to be read as.** -/
inductive StartSymbol
  | program | statement | expression
  deriving DecidableEq

/-- The rule of a start symbol, for a source of `size` bytes. -/
def StartSymbol.rule (size : Nat) : StartSymbol → Rule TreeShape
  | .program => Grammar.program size
  | .statement => Grammar.statement
  | .expression => Grammar.expression

/-- Applies a rule that has to use up all tokens. -/
def Rule.readAll {α : Type} (p : Rule α) (ts : List Lexeme) : Except Failure α :=
  let whole : Rule α := do
    let a ← p
    endOfInput
    return a
  match whole ts with
  | .ok a _ _ => .ok a
  | .fail e => .error e

/-- The shape of a source that has been cut into tokens. -/
def StartSymbol.readShape (start : StartSymbol) (size : Nat) (ts : List Lexeme) :
    Except SyntaxError TreeShape :=
  ((start.rule size).readAll ts).mapError (SyntaxError.ofFailure size)

/-- **The syntax tree of a source**, or all its syntax errors. -/
def SyntaxTree.parse (start : StartSymbol) (source : String) :
    Except (List SyntaxError) SyntaxTree :=
  match tokenize source with
  | .error errors => .error (errors.map SyntaxError.ofLexError)
  | .ok ts =>
    match start.readShape (byteLength source.toList) ts with
    | .error e => .error [e]
    | .ok shape => .ok (SyntaxTree.ofShape source.toList shape)

end ImpFront
