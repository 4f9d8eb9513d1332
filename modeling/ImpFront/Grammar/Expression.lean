import ImpFront.Grammar.Rule
import ImpFront.SyntaxTree.Basic

/-!
# The grammar of expressions

An expression is a chain of atoms and binary operators. The operators come in
six levels, from the tightest to the loosest; all of them group to the left.
Atoms are literals, names, calls, and expressions in parentheses.

Expressions contain expressions, so the rule is built up by nesting depth:
`expressionAt n` reads those that nest less than `n` deep, and since every
nesting costs a token, `expression` need not look deeper than there are tokens.
-/

namespace ImpFront

/-- A node that reaches from one span to another. -/
def TreeShape.spanning (kind : NodeKind) (first last : Span) (children : List TreeShape) :
    TreeShape :=
  ⟨kind, first.join last, children⟩

/-- A node around a non-empty list of nodes. -/
def TreeShape.listing (kind : NodeKind) (first : TreeShape) (others : List TreeShape) :
    TreeShape :=
  .spanning kind first.span (others.getLastD first).span (first :: others)

/-- The node of a binary operation. -/
def TreeShape.binary (left operator right : TreeShape) : TreeShape :=
  .spanning .binaryExpr left.span right.span [left, operator, right]

namespace Grammar

open Rule

/-- A token that becomes a leaf. -/
def leaf (kind : NodeKind) (t : Token) : Rule TreeShape := do
  let span ← token t
  return ⟨kind, span, []⟩

/-- An identifier. -/
def ident : Rule TreeShape := leaf .ident .ident

/-- An operator out of several. -/
def operatorLeaf (symbols : List Symbol) : Rule TreeShape := do
  let span ← operator symbols
  return ⟨.operator, span, []⟩

/-- Something in parentheses; the value carries the place of both. -/
def parenthesized {α : Type} (p : Rule α) : Rule (Span × α × Span) := do
  let opening ← symbol .openParen
  let inner ← p
  let closing ← symbol .closeParen
  return (opening, inner, closing)

/-- `arg_list ::= expr (',' expr)*` -/
def argList (expr : Rule TreeShape) : Rule TreeShape := do
  let (first, others) ← separatedBy expr (symbol .comma)
  return .listing .argList first others

/-- `call ::= IDENT '(' arg_list? ')'` -/
def call (expr : Rule TreeShape) : Rule TreeShape := do
  let name ← ident
  let (_, args, closing) ← parenthesized (optional (argList expr))
  return .spanning .callExpr name.span closing (name :: args.toList)

/-- `location ::= IDENT` -/
def location : Rule TreeShape := do
  let name ← ident
  return ⟨.locationExpr, name.span, [name]⟩

/-- `group ::= '(' expr ')'` -/
def group (expr : Rule TreeShape) : Rule TreeShape := do
  let (opening, inner, closing) ← parenthesized expr
  return .spanning .parenExpr opening closing [inner]

/-- `bool ::= 'true' | 'false'` -/
def boolLiteral : Rule TreeShape :=
  leaf .boolLiteral (.keyword .trueWord) <|> leaf .boolLiteral (.keyword .falseWord)

/-- `atom ::= INT | bool | call | location | group` -/
def atom (expr : Rule TreeShape) : Rule TreeShape :=
  leaf .intLiteral .intLiteral <|> boolLiteral <|> call expr <|> location <|> group expr

/-- **One level of operators**: operands of the next tighter level, grouped to
the left. -/
def binaryLevel (operand : Rule TreeShape) (symbols : List Symbol) : Rule TreeShape := do
  let first ← operand
  let others ← many (do
    let operator ← operatorLeaf symbols
    let right ← operand
    return (operator, right))
  return others.foldl (fun left (operator, right) => .binary left operator right) first

/-- **The operator levels**, tightest first. -/
def operatorLevels : List (List Symbol) :=
  [[.star, .slash, .percent], [.plus, .minus],
    [.less, .lessEqual, .greater, .greaterEqual], [.equalEqual, .notEqual],
    [.andAnd], [.orOr]]

/-- Expressions whose parentheses and arguments hold what `expr` reads. -/
def expressionWith (expr : Rule TreeShape) : Rule TreeShape :=
  operatorLevels.foldl binaryLevel (atom expr)

/-- Expressions that nest less than `depth` deep. -/
def expressionAt : Nat → List Lexeme → Outcome TreeShape
  | 0, ts => .fail ⟨ts, []⟩
  | depth + 1, ts => expressionWith (expressionAt depth) ts

/-- **An expression.** -/
def expression : Rule TreeShape := fun ts => expressionAt (ts.length + 1) ts

end Grammar

end ImpFront
