/-!
# Kinds of syntax tree nodes

A node stands for a rule of the grammar or for a token that carries meaning: an
identifier, a literal, an operator or a type keyword. Punctuation and the other
keywords leave no node.
-/

namespace ImpFront

/-- **What a node of the syntax tree stands for.** -/
inductive NodeKind
  | program | varDecl | funcDecl | paramList | param | type | block
  | assignStmt | ifStmt | elseIfClause | elseClause | whileStmt
  | returnStmt | breakStmt | continueStmt
  | binaryExpr | callExpr | argList | parenExpr
  | intLiteral | boolLiteral | locationExpr
  | operator | ident | intKeyword | boolKeyword | voidKeyword
  deriving DecidableEq

namespace NodeKind

/-- The name of the rule, as the grammar and the messages write it. -/
def ruleName : NodeKind → String
  | .program => "program"
  | .varDecl => "var_decl"
  | .funcDecl => "func_decl"
  | .paramList => "param_list"
  | .param => "param"
  | .type => "type"
  | .block => "block"
  | .assignStmt => "assign"
  | .ifStmt => "if"
  | .elseIfClause => "else_if"
  | .elseClause => "else"
  | .whileStmt => "while"
  | .returnStmt => "return"
  | .breakStmt => "break"
  | .continueStmt => "continue"
  | .binaryExpr => "binary_expr"
  | .callExpr => "call_expr"
  | .argList => "arg_list"
  | .parenExpr => "paren_expr"
  | .intLiteral => "int_literal"
  | .boolLiteral => "bool_literal"
  | .locationExpr => "location"
  | .operator => "operator"
  | .ident => "ident"
  | .intKeyword => "int_kw"
  | .boolKeyword => "bool_kw"
  | .voidKeyword => "void_kw"

/-- Whether the node is an expression. -/
def isExpression : NodeKind → Bool
  | .binaryExpr | .callExpr | .parenExpr | .intLiteral | .boolLiteral | .locationExpr => true
  | _ => false

/-- Whether the node is a statement. -/
def isStatement : NodeKind → Bool
  | .assignStmt | .ifStmt | .whileStmt | .returnStmt | .breakStmt | .continueStmt => true
  | _ => false

end NodeKind

end ImpFront
