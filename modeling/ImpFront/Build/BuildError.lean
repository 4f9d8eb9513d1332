import ImpFront.SyntaxTree.Basic

/-!
# Why a tree means nothing

A syntax tree is refused for the first thing in it that has no meaning: an
operator or a literal that the abstract syntax cannot hold, a node of the wrong
kind, or a child that is not there. Trees that come from a source can fail only
in the first way; the others are for trees put together by hand.
-/

namespace ImpFront

/-- The two kinds of literals. -/
inductive LiteralKind
  | int | bool
  deriving DecidableEq

/-- How a kind of literal reads in a message. -/
def LiteralKind.display : LiteralKind → String
  | .int => "integer"
  | .bool => "boolean"

/-- **What a node should have been.** -/
inductive NodeRole
  | program | declaration | variableDeclaration | functionDeclaration | parameter
  | block | declarationOrStatement | statement | expression | operator
  deriving DecidableEq

/-- How a role reads in a message. -/
def NodeRole.display : NodeRole → String
  | .program => "program"
  | .declaration => "declaration"
  | .variableDeclaration => "variable declaration"
  | .functionDeclaration => "function declaration"
  | .parameter => "parameter"
  | .block => "block"
  | .declarationOrStatement => "declaration or statement"
  | .statement => "statement"
  | .expression => "expression"
  | .operator => "operator"

/-- **Which child of a node is missing.** -/
inductive ChildRole
  | type | returnType | typeKeyword | name | calleeName
  | assignmentTarget | assignedValue | condition | body | block
  | innerExpression | leftOperand | operator | rightOperand
  deriving DecidableEq

/-- How a child's role reads in a message. -/
def ChildRole.display : ChildRole → String
  | .type => "type"
  | .returnType => "return type"
  | .typeKeyword => "type keyword"
  | .name => "name"
  | .calleeName => "callee name"
  | .assignmentTarget => "assignment target"
  | .assignedValue => "assigned value"
  | .condition => "condition"
  | .body => "body"
  | .block => "block"
  | .innerExpression => "inner expression"
  | .leftOperand => "left operand"
  | .operator => "operator"
  | .rightOperand => "right operand"

/-- **What is wrong** with a node. -/
inductive BuildFault
  /-- The node names no type. -/
  | unrecognizedType (text : String)
  /-- The operator has no meaning. -/
  | unsupportedOperator (operator : String)
  /-- The literal has no value. -/
  | malformedLiteral (kind : LiteralKind) (text : String)
  /-- The node is of another kind than it should be. -/
  | unexpectedNode (expected : NodeRole) (found : NodeKind) (text : String)
  /-- The node lacks a child. -/
  | missingChild (parent : NodeKind) (child : ChildRole)
  deriving DecidableEq

/-- The message of a fault. -/
def BuildFault.message : BuildFault → String
  | .unrecognizedType text => "unrecognized type `" ++ text ++ "`"
  | .unsupportedOperator operator => "unsupported operator `" ++ operator ++ "`"
  | .malformedLiteral kind text =>
    "malformed " ++ kind.display ++ " literal `" ++ text ++ "`"
  | .unexpectedNode expected found text =>
    "expected " ++ expected.display ++ ", found " ++ found.ruleName ++ " `" ++ text ++ "`"
  | .missingChild parent child => parent.ruleName ++ " is missing its " ++ child.display

/-- **The first thing in a tree that has no meaning**, with the place of its
node. -/
structure BuildError where
  /-- Where the node stands. -/
  span : Span
  /-- What is wrong with it. -/
  fault : BuildFault
  deriving DecidableEq

/-- The message of the error. -/
def BuildError.message (e : BuildError) : String := e.fault.message

namespace SyntaxTree

/-! ## Taking nodes apart -/

/-- The error that a node is not what it should be. -/
def unexpected (t : SyntaxTree) (role : NodeRole) : BuildError :=
  ⟨t.span, .unexpectedNode role t.kind t.text⟩

/-- The error that a node lacks a child. -/
def missing (t : SyntaxTree) (role : ChildRole) : BuildError :=
  ⟨t.span, .missingChild t.kind role⟩

/-- Insists on the kind of a node. -/
def expectKind (t : SyntaxTree) (kind : NodeKind) (role : NodeRole) :
    Except BuildError Unit :=
  if t.kind = kind then .ok () else .error (t.unexpected role)

/-- A child of a node. -/
abbrev Child (t : SyntaxTree) : Type := { c : SyntaxTree // c ∈ t.children }

/-- The first child of a kind, which has to be there. -/
def requireChild (t : SyntaxTree) (kind : NodeKind) (role : ChildRole) :
    Except BuildError t.Child :=
  match h : t.child? kind with
  | some c => .ok ⟨c, mem_of_child? h⟩
  | none => .error (t.missing role)

/-- The first child that is an expression, which has to be there. -/
def requireExpression (t : SyntaxTree) (role : ChildRole) : Except BuildError t.Child :=
  match h : t.expressionChild? with
  | some c => .ok ⟨c, mem_of_expressionChild? h⟩
  | none => .error (t.missing role)

/-- The child at a position, which has to be there. -/
def requireNth (t : SyntaxTree) (index : Nat) (role : ChildRole) :
    Except BuildError t.Child :=
  match h : t.children[index]? with
  | some c => .ok ⟨c, List.mem_of_getElem? h⟩
  | none => .error (t.missing role)

end SyntaxTree

end ImpFront
