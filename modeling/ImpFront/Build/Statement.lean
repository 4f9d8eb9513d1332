import ImpFront.Build.Expression

/-!
# The meaning of statement trees

Variables, statements and blocks. A block sorts its children into locals and
statements, each in the order of the source. A chain of `else if` clauses means
nested conditionals, each alone in the `else` block of the one before.

Local variables may be asked to lose their initializers, in which case these are
not even looked at.
-/

namespace ImpFront

/-- **What becomes of the initializers of local variables.** -/
inductive LocalInitializers
  | keep | discard
  deriving DecidableEq

/-- **The type that a tree names**: either the node of a type or the keyword in
it. -/
def TypeName.ofTree (t : SyntaxTree) : Except BuildError TypeName := do
  let word ← match t.kind, t.children with
    | .type, [] => throw (t.missing .typeKeyword)
    | .type, word :: _ => pure word
    | _, _ => pure t
  match word.kind with
  | .intKeyword => return .int
  | .boolKeyword => return .bool
  | .voidKeyword => return .void
  | _ => throw ⟨word.span, .unrecognizedType word.text⟩

namespace Variable

/-- The variable that a type and a name declare, which are children of the
tree. -/
def headOfTree (t : SyntaxTree) : Except BuildError Variable := do
  let type ← TypeName.ofTree (← t.requireChild .type .type).1
  let name ← t.requireChild .ident .name
  return { name := name.1.text, type }

/-- **The variable of a declaration**, with its initializer or without. -/
def ofTree (keepInitializer : Bool) (t : SyntaxTree) : Except BuildError Variable := do
  t.expectKind .varDecl .variableDeclaration
  let head ← headOfTree t
  match t.expressionChild? with
  | some e =>
    if keepInitializer then return { head with initializer := some (← Expression.ofTree e) }
    else return head
  | none => return head

end Variable

namespace Block

/-- A block with one more local in front. -/
def addLocal (v : Variable) (b : Block) : Block := ⟨v :: b.locals, b.statements⟩

/-- A block with one more statement in front. -/
def addStatement (s : Statement) (b : Block) : Block := ⟨b.locals, s :: b.statements⟩

end Block

/-- A conditional with clauses after it: each clause stands alone in the `else`
block of the conditional before. -/
def Statement.ifChain (cond : Expression) (body : Block) (clauses : List (Expression × Block))
    (last : Block) : Statement :=
  .ifElse cond body
    (clauses.foldr (fun (cond, body) rest => ⟨[], [.ifElse cond body rest]⟩) last)

mutual
/-- **The statement of a tree.** -/
def Statement.ofTree (policy : LocalInitializers) (t : SyntaxTree) :
    Except BuildError Statement :=
  match t.kind with
  | .assignStmt => do
    let target ← t.requireChild .ident .assignmentTarget
    let value ← Expression.ofTree (← t.requireExpression .assignedValue).1
    return .assignment target.1.text value
  | .ifStmt => do
    let (cond, body) ← Statement.branchOfTree policy .block t
    let clauses ← Statement.clausesOfTrees policy t.children
    match _h : t.child? .elseClause with
    | none => return .ifChain cond body clauses .empty
    | some clause => do
      let last ← clause.requireChild .block .block
      return .ifChain cond body clauses (← Block.ofTree policy last.1)
  | .whileStmt => do
    let (cond, body) ← Statement.branchOfTree policy .body t
    return .whileLoop cond body
  | .returnStmt =>
    match t.expressionChild? with
    | some value => return .returnValue (← Expression.ofTree value)
    | none => return .returnVoid
  | .breakStmt => return .breakLoop
  | .continueStmt => return .continueLoop
  | _ => throw (t.unexpected .statement)
termination_by 2 * sizeOf t + 1
decreasing_by
  · omega
  · have := t.sizeOf_children_lt
    omega
  · have := SyntaxTree.sizeOf_lt_of_mem (SyntaxTree.mem_of_child? _h)
    have := SyntaxTree.sizeOf_lt_of_mem last.2
    omega
  · omega

/-- A condition and the block that it governs; `role` is what the block is
called. -/
def Statement.branchOfTree (policy : LocalInitializers) (role : ChildRole) (t : SyntaxTree) :
    Except BuildError (Expression × Block) := do
  let cond ← Expression.ofTree (← t.requireExpression .condition).1
  let body ← t.requireChild .block role
  return (cond, ← Block.ofTree policy body.1)
termination_by 2 * sizeOf t
decreasing_by
  have := SyntaxTree.sizeOf_lt_of_mem body.2
  omega

/-- The `else if` clauses among several trees. -/
def Statement.clausesOfTrees (policy : LocalInitializers) :
    List SyntaxTree → Except BuildError (List (Expression × Block))
  | [] => return []
  | t :: ts =>
    if t.kind = .elseIfClause then
      return (← Statement.branchOfTree policy .block t)
        :: (← Statement.clausesOfTrees policy ts)
    else Statement.clausesOfTrees policy ts
termination_by ts => 2 * sizeOf ts
decreasing_by
  all_goals
    have := SyntaxTree.sizeOf_lt_cons t ts
    have := SyntaxTree.sizeOf_rest_lt_cons t ts
    omega

/-- **The block of a tree.** -/
def Block.ofTree (policy : LocalInitializers) (t : SyntaxTree) : Except BuildError Block := do
  t.expectKind .block .block
  Block.ofTrees policy t.children
termination_by 2 * sizeOf t
decreasing_by
  have := t.sizeOf_children_lt
  omega

/-- The block that several trees make up. -/
def Block.ofTrees (policy : LocalInitializers) : List SyntaxTree → Except BuildError Block
  | [] => return .empty
  | t :: ts =>
    if t.kind = .varDecl then
      return .addLocal (← Variable.ofTree (policy = .keep) t) (← Block.ofTrees policy ts)
    else if t.kind.isStatement then
      return .addStatement (← Statement.ofTree policy t) (← Block.ofTrees policy ts)
    else throw (t.unexpected .declarationOrStatement)
termination_by ts => 2 * sizeOf ts
decreasing_by
  all_goals
    have := SyntaxTree.sizeOf_lt_cons t ts
    have := SyntaxTree.sizeOf_rest_lt_cons t ts
    omega
end

end ImpFront
