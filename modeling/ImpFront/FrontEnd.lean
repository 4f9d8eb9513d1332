import ImpFront.Ast.Equality
import ImpFront.Build.Program
import ImpFront.Source.Position
import ImpFront.SyntaxTree.Parser

/-!
# From text to programs

The whole way: a source is parsed and its tree is given a meaning. Either step
can refuse it, and `FrontEndError.render` says why in the way of a compiler, one
line per error with its line and column in front.
-/

namespace ImpFront

/-- **Why a source is no program.** -/
inductive FrontEndError
  /-- The source cannot be parsed. -/
  | syntactic (errors : List SyntaxError)
  /-- The tree has no meaning. -/
  | building (e : BuildError)
  deriving DecidableEq

namespace FrontEndError

/-- The message in one line. -/
def message : FrontEndError → String
  | .syntactic errors => toString errors.length ++ " syntax error(s)"
  | .building e => e.message

/-- **One line per error**, with its place in the source in front. -/
def render (source : String) (e : FrontEndError) : String :=
  let table := LineTable.ofText source.toList
  let place (s : Span) : String := (table.position s.start).display
  match e with
  | .syntactic errors =>
    "\n".intercalate (errors.map fun e => place e.span ++ ": syntax error: " ++ e.message)
  | .building e => place e.span ++ ": " ++ e.message

end FrontEndError

/-- Parses a source and gives its tree a meaning. -/
def readSource {α : Type} (start : StartSymbol) (build : SyntaxTree → Except BuildError α)
    (source : String) : Except FrontEndError α := do
  let tree ← (SyntaxTree.parse start source).mapError .syntactic
  (build tree).mapError .building

/-- **The program of a source.** -/
def Program.parse (policy : LocalInitializers) (source : String) :
    Except FrontEndError Program :=
  readSource .program (Program.ofTree policy) source

/-- **The statement of a source.** -/
def Statement.parse (source : String) : Except FrontEndError Statement :=
  readSource .statement (Statement.ofTree .keep) source

/-- **The expression of a source.** -/
def Expression.parse (source : String) : Except FrontEndError Expression :=
  readSource .expression Expression.ofTree source

end ImpFront
