import ImpFront.Ast.Basic
import ImpFront.Build.BuildError
import ImpFront.Number.Decimal

/-!
# The meaning of expression trees

`Expression.ofTree` reads an expression off a syntax tree, from left to right,
and stops at the first node without a meaning. Parentheses leave no trace. Of a
node's children only those that the reading needs are looked at; the texts of
inner nodes are never looked at.
-/

namespace ImpFront

/-- **The operator of an operator leaf.** -/
def Operator.ofTree (t : SyntaxTree) : Except BuildError Operator := do
  t.expectKind .operator .operator
  match Operator.ofSpelling? t.text with
  | some op => return op
  | none => throw ⟨t.span, .unsupportedOperator t.text⟩

/-- The value of an integer literal. -/
def intOfTree (t : SyntaxTree) : Except BuildError Int32 :=
  match Decimal.readInt32? t.text.toList with
  | some n => .ok n
  | none => .error ⟨t.span, .malformedLiteral .int t.text⟩

/-- The value of a boolean literal. -/
def boolOfTree (t : SyntaxTree) : Except BuildError Bool :=
  if t.text = "true" then .ok true
  else if t.text = "false" then .ok false
  else .error ⟨t.span, .malformedLiteral .bool t.text⟩

namespace Expression

mutual
/-- **The expression of a tree.** -/
def ofTree (t : SyntaxTree) : Except BuildError Expression :=
  match t.kind with
  | .binaryExpr => do
    let left ← t.requireNth 0 .leftOperand
    let left ← ofTree left.1
    let op ← t.requireNth 1 .operator
    let op ← Operator.ofTree op.1
    let right ← t.requireNth 2 .rightOperand
    let right ← ofTree right.1
    return .binary left op right
  | .callExpr => do
    let name ← t.requireChild .ident .calleeName
    match _h : t.child? .argList with
    | some list => return .call name.1.text (← ofTrees list.children)
    | none => return .call name.1.text []
  | .intLiteral => return .intConstant (← intOfTree t)
  | .boolLiteral => return .boolConstant (← boolOfTree t)
  | .parenExpr => do
    let inner ← t.requireExpression .innerExpression
    ofTree inner.1
  | .locationExpr => do
    let name ← t.requireChild .ident .name
    return .location name.1.text
  | .ident => return .location t.text
  | _ => throw (t.unexpected .expression)
termination_by sizeOf t
decreasing_by
  · exact SyntaxTree.sizeOf_lt_of_mem left.2
  · exact SyntaxTree.sizeOf_lt_of_mem right.2
  · have := SyntaxTree.sizeOf_lt_of_mem (SyntaxTree.mem_of_child? _h)
    have := list.sizeOf_children_lt
    omega
  · exact SyntaxTree.sizeOf_lt_of_mem inner.2

/-- The expressions of several trees. -/
def ofTrees : List SyntaxTree → Except BuildError (List Expression)
  | [] => return []
  | t :: ts => return (← ofTree t) :: (← ofTrees ts)
termination_by ts => sizeOf ts
end

end Expression

end ImpFront
