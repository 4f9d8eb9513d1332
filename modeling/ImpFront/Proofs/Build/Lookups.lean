import ImpFront.Proofs.Build.Equations

/-!
# The builders on any tree

A tree that is put together by hand may lack a child, have it twice, or have it
where nobody would look. `Proofs.Build.Equations` says nothing of such trees. The
equations of this module hold of every tree: they are the builders, step by step,
with lookups that either find a child or fail (`need`, `needExpression`,
`needNth`). The builders themselves carry a proof that what is found is a child,
since that is why they end; here it is left out.
-/

namespace ImpFront

namespace SyntaxTree

/-- **Induction along a tree**, from the children to the node. -/
theorem induction {motive : SyntaxTree → Prop}
    (node : ∀ t : SyntaxTree, (∀ c ∈ t.children, motive c) → motive t) (t : SyntaxTree) :
    motive t :=
  node t fun c _ => induction node c
termination_by sizeOf t
decreasing_by exact sizeOf_lt_of_mem ‹_›

/-! ## Lookups that may fail -/

/-- The first child of a kind, or the error that there is none. -/
def need (t : SyntaxTree) (kind : NodeKind) (role : ChildRole) : Except BuildError SyntaxTree :=
  (t.child? kind).elim (.error (t.missing role)) .ok

/-- The first child that is an expression, or the error that there is none. -/
def needExpression (t : SyntaxTree) (role : ChildRole) : Except BuildError SyntaxTree :=
  t.expressionChild?.elim (.error (t.missing role)) .ok

/-- The child at a position, or the error that there is none. -/
def needNth (t : SyntaxTree) (index : Nat) (role : ChildRole) : Except BuildError SyntaxTree :=
  (t.children[index]?).elim (.error (t.missing role)) .ok

/-- The children of the first child of a kind, if there is one. -/
def childrenIn (t : SyntaxTree) (kind : NodeKind) : List SyntaxTree :=
  (t.child? kind).elim [] children

variable {α : Type} {t : SyntaxTree} {kind : NodeKind} {index : Nat} {role : ChildRole}

theorem need_bind (f : SyntaxTree → Except BuildError α) :
    t.need kind role >>= f = t.requireChild kind role >>= fun c => f c.1 := by
  unfold requireChild need
  split <;> rename_i h
  · simp only [h]; rfl
  · simp only [h]; rfl

theorem needExpression_bind (f : SyntaxTree → Except BuildError α) :
    t.needExpression role >>= f = t.requireExpression role >>= fun c => f c.1 := by
  unfold requireExpression needExpression
  split <;> rename_i h
  · simp only [h]; rfl
  · simp only [h]; rfl

theorem needNth_bind (f : SyntaxTree → Except BuildError α) :
    t.needNth index role >>= f = t.requireNth index role >>= fun c => f c.1 := by
  unfold requireNth needNth
  split <;> rename_i h
  · simp only [h]; rfl
  · simp only [h]; rfl

/-- What is found is there. -/
theorem eq_of_need {c : SyntaxTree} (h : t.need kind role = .ok c) : t.child? kind = some c := by
  unfold need at h
  cases hchild : t.child? kind with
  | none => simp [hchild] at h
  | some c' => simpa [hchild] using h

theorem eq_of_needExpression {c : SyntaxTree} (h : t.needExpression role = .ok c) :
    t.expressionChild? = some c := by
  unfold needExpression at h
  cases hchild : t.expressionChild? with
  | none => simp [hchild] at h
  | some c' => simpa [hchild] using h

end SyntaxTree

open SyntaxTree

variable {policy : LocalInitializers}

/-! ## Expressions -/

theorem Expression.ofTree_eq (t : SyntaxTree) :
    Expression.ofTree t = match t.kind with
      | .binaryExpr => do
        let left ← Expression.ofTree (← t.needNth 0 .leftOperand)
        let op ← Operator.ofTree (← t.needNth 1 .operator)
        let right ← Expression.ofTree (← t.needNth 2 .rightOperand)
        return .binary left op right
      | .callExpr => do
        let name ← t.need .ident .calleeName
        let args ← Expression.ofTrees (t.childrenIn .argList)
        return .call name.text args
      | .intLiteral => return .intConstant (← intOfTree t)
      | .boolLiteral => return .boolConstant (← boolOfTree t)
      | .parenExpr => do Expression.ofTree (← t.needExpression .innerExpression)
      | .locationExpr => do
        let name ← t.need .ident .name
        return .location name.text
      | .ident => .ok (.location t.text)
      | _ => .error (t.unexpected .expression) := by
  simp only [need_bind, needExpression_bind, needNth_bind]
  rw [Expression.ofTree]
  cases t.kind
  case callExpr =>
    refine bind_congr fun name => ?_
    unfold childrenIn
    split <;> rename_i h
    · rw [h]
      rfl
    · rw [h, Option.elim, Expression.ofTrees_nil]
      rfl
  all_goals rfl

/-! ## Code -/

theorem Statement.branchOfTree_eq (role : ChildRole) (t : SyntaxTree) :
    Statement.branchOfTree policy role t = (do
      let cond ← Expression.ofTree (← t.needExpression .condition)
      let body ← Block.ofTree policy (← t.need .block role)
      return (cond, body)) := by
  simp only [need_bind, needExpression_bind]
  rw [Statement.branchOfTree]

/-- The block that an `else` clause holds. -/
def Block.ofElseTree (policy : LocalInitializers) (t : SyntaxTree) : Except BuildError Block := do
  Block.ofTree policy (← t.need .block .block)

theorem Statement.ofTree_eq (t : SyntaxTree) :
    Statement.ofTree policy t = match t.kind with
      | .assignStmt => do
        let target ← t.need .ident .assignmentTarget
        let value ← Expression.ofTree (← t.needExpression .assignedValue)
        return .assignment target.text value
      | .ifStmt => do
        let branch ← Statement.branchOfTree policy .block t
        let clauses ← Statement.clausesOfTrees policy t.children
        let last ← (t.child? .elseClause).elim (.ok .empty) (Block.ofElseTree policy)
        return .ifChain branch.1 branch.2 clauses last
      | .whileStmt => do
        let branch ← Statement.branchOfTree policy .body t
        return .whileLoop branch.1 branch.2
      | .returnStmt =>
        t.expressionChild?.elim (.ok .returnVoid)
          fun value => do return .returnValue (← Expression.ofTree value)
      | .breakStmt => .ok .breakLoop
      | .continueStmt => .ok .continueLoop
      | _ => .error (t.unexpected .statement) := by
  unfold Block.ofElseTree
  simp only [need_bind, needExpression_bind]
  rw [Statement.ofTree]
  cases t.kind
  case ifStmt =>
    refine bind_congr fun branch => bind_congr fun clauses => ?_
    split <;> rename_i h
    · rw [h]
      rfl
    · rw [h, Option.elim, bind_assoc]
  case returnStmt =>
    dsimp only
    cases t.expressionChild? <;> rfl
  all_goals rfl

theorem Block.ofTree_eq (t : SyntaxTree) :
    Block.ofTree policy t = (do
      t.expectKind .block .block
      Block.ofTrees policy t.children) := by
  rw [Block.ofTree]

theorem Block.ofTrees_cons (t : SyntaxTree) (ts : List SyntaxTree) :
    Block.ofTrees policy (t :: ts) =
      if t.kind = .varDecl then do
        let v ← Variable.ofTree (policy = .keep) t
        let b ← Block.ofTrees policy ts
        return b.addLocal v
      else if t.kind.isStatement then do
        let s ← Statement.ofTree policy t
        let b ← Block.ofTrees policy ts
        return b.addStatement s
      else .error (t.unexpected .declarationOrStatement) := by
  rw [Block.ofTrees]
  rfl

/-! ## Declarations -/

/-- The type of a keyword. -/
def TypeName.ofWord (word : SyntaxTree) : Except BuildError TypeName :=
  match word.kind with
  | .intKeyword => .ok .int
  | .boolKeyword => .ok .bool
  | .voidKeyword => .ok .void
  | _ => .error ⟨word.span, .unrecognizedType word.text⟩

theorem TypeName.ofTree_eq (t : SyntaxTree) :
    TypeName.ofTree t = (do
      let word ← if t.kind = .type then t.needNth 0 .typeKeyword else .ok t
      TypeName.ofWord word) := by
  obtain ⟨kind, span, text, children⟩ := t
  unfold TypeName.ofTree
  by_cases hkind : kind = .type
  · subst hkind
    cases children <;> rfl
  · rw [if_neg hkind]
    split
    · contradiction
    · contradiction
    · rfl

theorem Variable.headOfTree_eq (t : SyntaxTree) :
    Variable.headOfTree t = (do
      let type ← TypeName.ofTree (← t.need .type .type)
      let name ← t.need .ident .name
      return { name := name.text, type }) := by
  simp only [need_bind]
  rfl

/-- The initializer of a variable, if it has one. -/
def Variable.initializerOfTree (t : SyntaxTree) : Except BuildError (Option Expression) :=
  t.expressionChild?.elim (.ok none) fun e => do return some (← Expression.ofTree e)

theorem Variable.ofTree_eq (keep : Bool) (t : SyntaxTree) :
    Variable.ofTree keep t = (do
      t.expectKind .varDecl .variableDeclaration
      let type ← TypeName.ofTree (← t.need .type .type)
      let name ← t.need .ident .name
      let initializer ← if keep then Variable.initializerOfTree t else .ok none
      return ⟨name.text, type, initializer⟩) := by
  unfold Variable.ofTree Variable.initializerOfTree
  simp only [Variable.headOfTree_eq, bind_assoc, pure_bind]
  refine bind_congr fun _ => bind_congr fun word => bind_congr fun type => bind_congr fun name => ?_
  cases t.expressionChild? with
  | none => cases keep <;> rfl
  | some e =>
    cases keep with
    | false => rfl
    | true => simp only [if_true, Option.elim, bind_assoc, pure_bind]

theorem Function.ofTree_eq (t : SyntaxTree) :
    Function.ofTree policy t = (do
      t.expectKind .funcDecl .functionDeclaration
      let returnType ← TypeName.ofTree (← t.need .type .returnType)
      let name ← t.need .ident .name
      let params ← (t.childrenIn .paramList).mapM Variable.ofParamTree
      let body ← Block.ofTree policy (← t.need .block .body)
      return { returnType, name := name.text, params, body }) := by
  simp only [need_bind]
  rfl

end ImpFront
