import ImpFront.Grammar.Expression

/-!
# The grammar of statements

Declarations of variables, the six statements, and blocks. A block holds
variables and statements in any order, and `if` and `while` hold blocks, so
blocks are built up by nesting depth in the way of expressions.
-/

namespace ImpFront.Grammar

open Rule

/-- `type ::= 'int' | 'bool' | 'void'` -/
def typeName : Rule TreeShape := do
  let word ← leaf .intKeyword (.keyword .int) <|> leaf .boolKeyword (.keyword .bool)
    <|> leaf .voidKeyword (.keyword .void)
  return ⟨.type, word.span, [word]⟩

/-- What stands after the name of a variable to give it a value:
`'=' expr`. -/
def initializer : Rule TreeShape := do
  let _ ← symbol .assign
  expression

/-- `var_decl ::= type IDENT ('=' expr)? ';'` -/
def varDecl : Rule TreeShape := do
  let type ← typeName
  let name ← ident
  let value ← optional initializer
  let closing ← symbol .semicolon
  return .spanning .varDecl type.span closing (type :: name :: value.toList)

/-- `assign ::= IDENT '=' expr ';'` -/
def assignStmt : Rule TreeShape := do
  let target ← ident
  let _ ← symbol .assign
  let value ← expression
  let closing ← symbol .semicolon
  return .spanning .assignStmt target.span closing [target, value]

/-- `condition ::= '(' expr ')'`, which leaves no node of its own. -/
def condition : Rule TreeShape := do
  let (_, inner, _) ← parenthesized expression
  return inner

/-- `else_if ::= 'else' 'if' condition block` -/
def elseIfClause (block : Rule TreeShape) : Rule TreeShape := do
  let opening ← keyword .elseWord
  let _ ← keyword .ifWord
  let cond ← condition
  let body ← block
  return .spanning .elseIfClause opening body.span [cond, body]

/-- `else ::= 'else' block` -/
def elseClause (block : Rule TreeShape) : Rule TreeShape := do
  let opening ← keyword .elseWord
  let body ← block
  return .spanning .elseClause opening body.span [body]

/-- `if ::= 'if' condition block else_if* else?` -/
def ifStmt (block : Rule TreeShape) : Rule TreeShape := do
  let opening ← keyword .ifWord
  let cond ← condition
  let body ← block
  let elseIfs ← many (elseIfClause block)
  let last ← optional (elseClause block)
  let clauses := elseIfs ++ last.toList
  return .spanning .ifStmt opening (clauses.getLastD body).span (cond :: body :: clauses)

/-- `while ::= 'while' condition block` -/
def whileStmt (block : Rule TreeShape) : Rule TreeShape := do
  let opening ← keyword .whileWord
  let cond ← condition
  let body ← block
  return .spanning .whileStmt opening body.span [cond, body]

/-- `return ::= 'return' expr? ';'` -/
def returnStmt : Rule TreeShape := do
  let opening ← keyword .returnWord
  let value ← optional expression
  let closing ← symbol .semicolon
  return .spanning .returnStmt opening closing value.toList

/-- A statement that is one word. -/
def jumpStmt (kind : NodeKind) (word : Keyword) : Rule TreeShape := do
  let opening ← keyword word
  let closing ← symbol .semicolon
  return .spanning kind opening closing []

/-- `statement ::= assign | if | while | return | break | continue` -/
def statementWith (block : Rule TreeShape) : Rule TreeShape :=
  assignStmt <|> ifStmt block <|> whileStmt block <|> returnStmt
    <|> jumpStmt .breakStmt .breakWord <|> jumpStmt .continueStmt .continueWord

/-- `block ::= '{' (var_decl | statement)* '}'` -/
def blockWith (block : Rule TreeShape) : Rule TreeShape := do
  let opening ← symbol .openBrace
  let items ← many (varDecl <|> statementWith block)
  let closing ← symbol .closeBrace
  return .spanning .block opening closing items

/-- Blocks that nest less than `depth` deep. -/
def blockAt : Nat → List Lexeme → Outcome TreeShape
  | 0, ts => .fail ⟨ts, []⟩
  | depth + 1, ts => blockWith (blockAt depth) ts

/-- **A block.** -/
def block : Rule TreeShape := fun ts => blockAt (ts.length + 1) ts

/-- **A statement**, as it may stand in a block. -/
def statement : Rule TreeShape := statementWith block

end ImpFront.Grammar
