import ImpFront.Ast.Equality
import ImpFront.Proofs.Build.ElseIf

/-!
# What parents make of an expression

Which nodes are expressions is decided twice: by the builder of expressions, which refuses
all others, and by the lookups of parents, which pass over all others. Where the two
disagreed, a node that has a meaning would be refused by its parent, or – where the parent
can do without an expression – be dropped. They agree on every node but one: a bare
identifier. As an operand or an argument it is read as a location; among the children of
other nodes it can only be a name, since an assignment, say, would otherwise take its own
target for the value.

So every parent takes every expression that is not a bare identifier
(`usedAs_of_ofTree`), and that exception cannot be left out (`not_forall_usedAs`).
-/

namespace ImpFront

open SyntaxTree

/-- **Every parent takes the node for the expression**, and nothing but its other children
can make it fail. -/
structure SyntaxTree.UsedAs (n : SyntaxTree) (e : Expression) : Prop where
  /-- Parentheses around it leave no trace. -/
  group : ∀ span text, Expression.ofTree ⟨.parenExpr, span, text, [n]⟩ = .ok e
  /-- It is what is returned. -/
  returned : ∀ policy span text,
    Statement.ofTree policy ⟨.returnStmt, span, text, [n]⟩ = .ok (.returnValue e)
  /-- It is what is assigned to the name in front of it. -/
  assigned : ∀ policy span text (target : SyntaxTree), target.kind = .ident →
    Statement.ofTree policy ⟨.assignStmt, span, text, [target, n]⟩
      = .ok (.assignment target.text e)
  /-- It is the condition of a loop. -/
  loop : ∀ policy span text (body : SyntaxTree) others, body.kind = .block →
    Statement.ofTree policy ⟨.whileStmt, span, text, n :: body :: others⟩ = (do
      let body ← Block.ofTree policy body
      return .whileLoop e body)
  /-- It is the condition of a conditional, whatever clauses follow. -/
  conditional : ∀ policy span text (body : SyntaxTree) others, body.kind = .block →
    Statement.ofTree policy ⟨.ifStmt, span, text, n :: body :: others⟩ = (do
      let body ← Block.ofTree policy body
      let clauses ← Statement.clausesOfTrees policy others
      let last ← Block.ofElse policy (others.find? (·.kind = .elseClause))
      return .ifChain e body clauses last)
  /-- It is what a variable starts with. -/
  initializer : ∀ span text (type name : SyntaxTree), type.kind = .type → name.kind = .ident →
    Variable.ofTree true ⟨.varDecl, span, text, [type, name, n]⟩ = (do
      let type ← TypeName.ofTree type
      return { name := name.text, type, initializer := some e })

variable {n : SyntaxTree} {e : Expression}

/-- **Both decisions agree** but for bare identifiers. -/
theorem isExpression_of_ofTree (hn : n.kind ≠ .ident) (h : Expression.ofTree n = .ok e) :
    n.kind.isExpression = true := by
  rw [Expression.ofTree_eq] at h
  cases hkind : n.kind with
  | ident => exact absurd hkind hn
  | binaryExpr | callExpr | parenExpr | intLiteral | boolLiteral | locationExpr => rfl
  | _ =>
    rw [hkind] at h
    cases h

/-- A conditional with its condition and its block in front. -/
theorem Statement.ofTree_ifStmt_cons {policy : LocalInitializers} {span : Span} {text : String}
    {cond body : SyntaxTree} (hcond : cond.kind.isExpression = true) (hbody : body.kind = .block)
    (others : List SyntaxTree) :
    Statement.ofTree policy ⟨.ifStmt, span, text, cond :: body :: others⟩ = (do
      let cond ← Expression.ofTree cond
      let body ← Block.ofTree policy body
      let clauses ← Statement.clausesOfTrees policy others
      let last ← Block.ofElse policy (others.find? (·.kind = .elseClause))
      return .ifChain cond body clauses last) := by
  -- Neither the condition nor the block is taken for a clause.
  have hcondKind : cond.kind ≠ .elseIfClause ∧ cond.kind ≠ .elseClause := by
    constructor <;> rintro h <;> simp [h, NodeKind.isExpression] at hcond
  have hlast : child? ⟨.ifStmt, span, text, cond :: body :: others⟩ .elseClause
      = others.find? (·.kind = .elseClause) := by
    rw [child?_cons_of_ne hcondKind.2, child?_cons_of_ne (by simp [hbody])]
    rfl
  rw [Statement.ofTree_eq]
  dsimp only
  rw [branchOfTree_cons .ifStmt .block hcond hbody, clausesOfTrees_cons_of_ne hcondKind.1,
    clausesOfTrees_cons_of_ne (by simp [hbody]), hlast]
  simp only [bind_assoc, pure_bind]
  rfl

/-- **Every parent takes every expression**, unless it is a bare identifier: none refuses it,
and none drops it. -/
theorem usedAs_of_ofTree (hn : n.kind ≠ .ident) (h : Expression.ofTree n = .ok e) :
    n.UsedAs e := by
  have hkind := isExpression_of_ofTree hn h
  constructor
  case group =>
    intro span text
    rw [Expression.ofTree_group hkind, h]
  case returned =>
    intro policy span text
    rw [Statement.ofTree_returnValue hkind, h]
    rfl
  case assigned =>
    intro policy span text target htarget
    rw [Statement.ofTree_assign htarget hkind, h]
    rfl
  case loop =>
    intro policy span text body others hbody
    rw [Statement.ofTree_eq]
    dsimp only
    rw [Statement.branchOfTree_cons .whileStmt .body hkind hbody, h]
    simp only [ok_bind, bind_assoc, pure_bind]
  case conditional =>
    intro policy span text body others hbody
    rw [Statement.ofTree_ifStmt_cons hkind hbody, h, ok_bind]
  case initializer =>
    intro span text type name htype hname
    rw [Variable.ofTree_initialized true htype hname hkind, h]
    rfl

/-- A difference of a bare identifier and a number. -/
theorem usedAs_of_ofTree_difference :
    let n : SyntaxTree := ⟨.binaryExpr, ⟨0, 3⟩, "a-1",
      [leaf .ident ⟨0, 1⟩ "a", leaf .operator ⟨1, 2⟩ "-", leaf .intLiteral ⟨2, 3⟩ "1"]⟩
    let e : Expression := .binary (.location "a") .sub (.intConstant 1)
    n.kind ≠ .ident ∧ Expression.ofTree n = .ok e ∧ n.UsedAs e := by
  intro n e
  have hkind : n.kind ≠ .ident := nofun
  have h : Expression.ofTree n = .ok e := by decide +kernel
  exact ⟨hkind, h, usedAs_of_ofTree hkind h⟩

/-- **A bare identifier is not taken by every parent**: behind the target of an assignment, it
is not the value. -/
theorem not_forall_usedAs :
    ¬ ∀ (n : SyntaxTree) (e : Expression), Expression.ofTree n = .ok e → n.UsedAs e := by
  intro h
  have hident : Expression.ofTree (leaf .ident ⟨2, 3⟩ "y") = .ok (.location "y") := by
    rw [Expression.ofTree_eq]
    rfl
  have hassigned := (h _ _ hident).assigned .keep ⟨0, 4⟩ "x=y;" (leaf .ident ⟨0, 1⟩ "x") rfl
  have hrefused : Statement.ofTree .keep ⟨.assignStmt, ⟨0, 4⟩, "x=y;",
      [leaf .ident ⟨0, 1⟩ "x", leaf .ident ⟨2, 3⟩ "y"]⟩
        = .error ⟨⟨0, 4⟩, .missingChild .assignStmt .assignedValue⟩ := by
    rw [Statement.ofTree_eq]
    rfl
  rw [hrefused] at hassigned
  cases hassigned

end ImpFront
