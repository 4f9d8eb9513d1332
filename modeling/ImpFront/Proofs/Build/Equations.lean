import ImpFront.Build.Program
import ImpFront.Proofs.Outcome
import Mathlib.Data.List.Basic
import Mathlib.Tactic.Common

/-!
# One equation per kind of node

The builders look their children up, by kind or by position, and recurse into
what they find. On a node that has the children a source would give it every
lookup succeeds, and what is left of the builder is a few steps in the order of
the source. This module states these steps, one equation for each kind of node;
later proofs use the equations and never unfold a builder.
-/

namespace ImpFront

namespace SyntaxTree

/-! ## Lookups that succeed -/

theorem requireChild_eq_ok {t c : SyntaxTree} {kind : NodeKind} (h : t.child? kind = some c)
    (role : ChildRole) : t.requireChild kind role = .ok ⟨c, mem_of_child? h⟩ := by
  unfold requireChild
  split
  · rename_i c' h'
    obtain rfl : c' = c := Option.some.inj (h'.symm.trans h)
    rfl
  · rename_i h'
    simp [h] at h'

theorem requireExpression_eq_ok {t c : SyntaxTree} (h : t.expressionChild? = some c)
    (role : ChildRole) : t.requireExpression role = .ok ⟨c, mem_of_expressionChild? h⟩ := by
  unfold requireExpression
  split
  · rename_i c' h'
    obtain rfl : c' = c := Option.some.inj (h'.symm.trans h)
    rfl
  · rename_i h'
    simp [h] at h'

variable {kind k : NodeKind} {span : Span} {text : String} {c : SyntaxTree}
  {cs : List SyntaxTree}

/-- A first child of the kind is found at once. -/
theorem child?_cons_of_eq (h : c.kind = k) :
    (⟨kind, span, text, c :: cs⟩ : SyntaxTree).child? k = some c :=
  List.find?_cons_of_pos (by simpa using h)

/-- A first child of another kind is passed over. -/
theorem child?_cons_of_ne (h : c.kind ≠ k) :
    (⟨kind, span, text, c :: cs⟩ : SyntaxTree).child? k
      = (⟨kind, span, text, cs⟩ : SyntaxTree).child? k :=
  List.find?_cons_of_neg (by simpa using h)

theorem expressionChild?_cons_of_pos (h : c.kind.isExpression = true) :
    (⟨kind, span, text, c :: cs⟩ : SyntaxTree).expressionChild? = some c :=
  List.find?_cons_of_pos h

theorem expressionChild?_cons_of_neg (h : c.kind.isExpression = false) :
    (⟨kind, span, text, c :: cs⟩ : SyntaxTree).expressionChild?
      = (⟨kind, span, text, cs⟩ : SyntaxTree).expressionChild? :=
  List.find?_cons_of_neg (by simpa using h)

end SyntaxTree

open SyntaxTree

variable {span : Span} {text : String}

/-! ## Expressions -/

namespace Expression

theorem ofTree_binary (left operator right : SyntaxTree) :
    ofTree ⟨.binaryExpr, span, text, [left, operator, right]⟩ = (do
      let left ← ofTree left
      let op ← Operator.ofTree operator
      let right ← ofTree right
      return .binary left op right) := by
  rw [ofTree]
  rfl

theorem ofTree_call {name : SyntaxTree} (hname : name.kind = .ident) (listSpan : Span)
    (listText : String) (args : List SyntaxTree) :
    ofTree ⟨.callExpr, span, text, [name, ⟨.argList, listSpan, listText, args⟩]⟩ = (do
      let args ← ofTrees args
      return .call name.text args) := by
  have hlist : child? ⟨.callExpr, span, text, [name, ⟨.argList, listSpan, listText, args⟩]⟩ .argList
      = some ⟨.argList, listSpan, listText, args⟩ := by
    rw [child?_cons_of_ne (by simp [hname]), child?_cons_of_eq rfl]
  rw [ofTree]
  simp only [requireChild_eq_ok (child?_cons_of_eq hname), ok_bind]
  split
  · rename_i list h
    obtain rfl : _ = list := Option.some.inj (hlist.symm.trans h)
    rfl
  · rename_i h
    simp [hlist] at h

theorem ofTree_callEmpty {name : SyntaxTree} (hname : name.kind = .ident) :
    ofTree ⟨.callExpr, span, text, [name]⟩ = .ok (.call name.text []) := by
  have hlist : child? ⟨.callExpr, span, text, [name]⟩ .argList = none := by
    rw [child?_cons_of_ne (by simp [hname])]
    rfl
  rw [ofTree]
  simp only [requireChild_eq_ok (child?_cons_of_eq hname), ok_bind]
  split
  · rename_i list h
    simp [hlist] at h
  · rfl

theorem ofTree_location {name : SyntaxTree} (hname : name.kind = .ident) :
    ofTree ⟨.locationExpr, span, text, [name]⟩ = .ok (.location name.text) := by
  rw [ofTree]
  simp only [requireChild_eq_ok (child?_cons_of_eq hname)]
  rfl

theorem ofTree_group {inner : SyntaxTree} (hinner : inner.kind.isExpression = true) :
    ofTree ⟨.parenExpr, span, text, [inner]⟩ = ofTree inner := by
  rw [ofTree]
  simp only [requireExpression_eq_ok (expressionChild?_cons_of_pos hinner)]
  rfl

end Expression

/-! ### Leaves -/

theorem Operator.ofTree_of_some {t : SyntaxTree} {op : Operator} (hkind : t.kind = .operator)
    (h : ofSpelling? t.text = some op) : ofTree t = .ok op := by
  unfold ofTree expectKind
  rw [if_pos hkind, h]
  rfl

theorem Operator.ofTree_of_none {t : SyntaxTree} (hkind : t.kind = .operator)
    (h : ofSpelling? t.text = none) :
    ofTree t = .error ⟨t.span, .unsupportedOperator t.text⟩ := by
  unfold ofTree expectKind
  rw [if_pos hkind, h]
  rfl

theorem intOfTree_of_some {t : SyntaxTree} {n : Int32}
    (h : Decimal.readInt32? t.text.toList = some n) : intOfTree t = .ok n := by
  unfold intOfTree
  rw [h]

theorem intOfTree_of_none {t : SyntaxTree} (h : Decimal.readInt32? t.text.toList = none) :
    intOfTree t = .error ⟨t.span, .malformedLiteral .int t.text⟩ := by
  unfold intOfTree
  rw [h]

namespace Expression

theorem ofTree_intLiteral :
    ofTree (leaf .intLiteral span text) = (do
      let n ← intOfTree (leaf .intLiteral span text)
      return .intConstant n) := by
  rw [ofTree]
  rfl

theorem ofTree_boolLiteral :
    ofTree (leaf .boolLiteral span text) = (do
      let b ← boolOfTree (leaf .boolLiteral span text)
      return .boolConstant b) := by
  rw [ofTree]
  rfl

theorem ofTrees_nil : ofTrees [] = .ok [] := by
  rw [ofTrees]
  rfl

theorem ofTrees_cons (t : SyntaxTree) (ts : List SyntaxTree) :
    ofTrees (t :: ts) = (do
      let e ← ofTree t
      let es ← ofTrees ts
      return e :: es) := by
  rw [ofTrees]

end Expression

/-! ## Variables -/

/-- The kind of the leaf that names a type. -/
def TypeName.keywordKind : TypeName → NodeKind
  | .int => .intKeyword
  | .bool => .boolKeyword
  | .void => .voidKeyword

theorem TypeName.ofTree_type {word : SyntaxTree} {type : TypeName}
    (hword : word.kind = type.keywordKind) : ofTree ⟨.type, span, text, [word]⟩ = .ok type := by
  obtain ⟨kind, wordSpan, wordText, children⟩ := word
  obtain rfl : kind = type.keywordKind := hword
  cases type <;> rfl

namespace Variable

variable {type name value : SyntaxTree}

theorem headOfTree_cons (kind : NodeKind) (htype : type.kind = .type)
    (hname : name.kind = .ident) (others : List SyntaxTree) :
    headOfTree ⟨kind, span, text, type :: name :: others⟩ = (do
      let type ← TypeName.ofTree type
      return { name := name.text, type }) := by
  have hfound : child? ⟨kind, span, text, type :: name :: others⟩ .ident = some name := by
    rw [child?_cons_of_ne (by simp [htype]), child?_cons_of_eq hname]
  unfold headOfTree
  simp only [requireChild_eq_ok (child?_cons_of_eq htype), requireChild_eq_ok hfound]
  rfl

theorem ofTree_plain (keep : Bool) (htype : type.kind = .type) (hname : name.kind = .ident) :
    ofTree keep ⟨.varDecl, span, text, [type, name]⟩ = (do
      let type ← TypeName.ofTree type
      return { name := name.text, type }) := by
  have hnone : expressionChild? ⟨.varDecl, span, text, [type, name]⟩ = none := by
    rw [expressionChild?_cons_of_neg (by rw [htype]; rfl),
      expressionChild?_cons_of_neg (by rw [hname]; rfl)]
    rfl
  unfold ofTree
  simp only [hnone, headOfTree_cons .varDecl htype hname]
  cases TypeName.ofTree type <;> rfl

theorem ofTree_initialized (keep : Bool) (htype : type.kind = .type)
    (hname : name.kind = .ident) (hvalue : value.kind.isExpression = true) :
    ofTree keep ⟨.varDecl, span, text, [type, name, value]⟩ = (do
      let type ← TypeName.ofTree type
      if keep then
        let e ← Expression.ofTree value
        return { name := name.text, type, initializer := some e }
      else return { name := name.text, type }) := by
  have hsome : expressionChild? ⟨.varDecl, span, text, [type, name, value]⟩ = some value := by
    rw [expressionChild?_cons_of_neg (by rw [htype]; rfl),
      expressionChild?_cons_of_neg (by rw [hname]; rfl), expressionChild?_cons_of_pos hvalue]
  unfold ofTree
  simp only [hsome, headOfTree_cons .varDecl htype hname]
  cases TypeName.ofTree type <;> rfl

theorem ofParamTree_param (htype : type.kind = .type) (hname : name.kind = .ident) :
    ofParamTree ⟨.param, span, text, [type, name]⟩ = (do
      let type ← TypeName.ofTree type
      return { name := name.text, type }) :=
  headOfTree_cons .param htype hname []

end Variable

/-! ## Statements -/

variable {policy : LocalInitializers}

namespace Statement

variable {cond body name value : SyntaxTree}

theorem ofTree_assign (hname : name.kind = .ident) (hvalue : value.kind.isExpression = true) :
    ofTree policy ⟨.assignStmt, span, text, [name, value]⟩ = (do
      let value ← Expression.ofTree value
      return .assignment name.text value) := by
  have hsome : expressionChild? ⟨.assignStmt, span, text, [name, value]⟩ = some value := by
    rw [expressionChild?_cons_of_neg (by rw [hname]; rfl), expressionChild?_cons_of_pos hvalue]
  rw [ofTree]
  simp only [requireChild_eq_ok (child?_cons_of_eq hname), requireExpression_eq_ok hsome]
  rfl

theorem branchOfTree_cons (kind : NodeKind) (role : ChildRole)
    (hcond : cond.kind.isExpression = true) (hbody : body.kind = .block)
    (others : List SyntaxTree) :
    branchOfTree policy role ⟨kind, span, text, cond :: body :: others⟩ = (do
      let cond ← Expression.ofTree cond
      let body ← Block.ofTree policy body
      return (cond, body)) := by
  have hne : cond.kind ≠ .block := by
    rintro h
    simp [h, NodeKind.isExpression] at hcond
  have hfound : child? ⟨kind, span, text, cond :: body :: others⟩ .block = some body := by
    rw [child?_cons_of_ne hne, child?_cons_of_eq hbody]
  rw [branchOfTree]
  simp only [requireExpression_eq_ok (expressionChild?_cons_of_pos hcond),
    requireChild_eq_ok hfound]
  rfl

theorem ofTree_while (hcond : cond.kind.isExpression = true) (hbody : body.kind = .block) :
    ofTree policy ⟨.whileStmt, span, text, [cond, body]⟩ = (do
      let cond ← Expression.ofTree cond
      let body ← Block.ofTree policy body
      return .whileLoop cond body) := by
  rw [ofTree]
  simp only [branchOfTree_cons .whileStmt .body hcond hbody, bind_assoc, pure_bind]

theorem ofTree_returnVoid :
    ofTree policy ⟨.returnStmt, span, text, []⟩ = .ok .returnVoid := by
  rw [ofTree]
  rfl

theorem ofTree_returnValue (hvalue : value.kind.isExpression = true) :
    ofTree policy ⟨.returnStmt, span, text, [value]⟩ = (do
      let value ← Expression.ofTree value
      return .returnValue value) := by
  rw [ofTree]
  simp only [expressionChild?_cons_of_pos hvalue]

theorem ofTree_break : ofTree policy ⟨.breakStmt, span, text, []⟩ = .ok .breakLoop := by
  rw [ofTree]
  rfl

theorem ofTree_continue : ofTree policy ⟨.continueStmt, span, text, []⟩ = .ok .continueLoop := by
  rw [ofTree]
  rfl

/-! ### Conditionals -/

theorem clausesOfTrees_nil : clausesOfTrees policy [] = .ok [] := by
  rw [clausesOfTrees]
  rfl

theorem clausesOfTrees_cons_of_eq {t : SyntaxTree} (h : t.kind = .elseIfClause)
    (ts : List SyntaxTree) :
    clausesOfTrees policy (t :: ts) = (do
      let clause ← branchOfTree policy .block t
      let clauses ← clausesOfTrees policy ts
      return clause :: clauses) := by
  rw [clausesOfTrees, if_pos h]

theorem clausesOfTrees_cons_of_ne {t : SyntaxTree} (h : t.kind ≠ .elseIfClause)
    (ts : List SyntaxTree) : clausesOfTrees policy (t :: ts) = clausesOfTrees policy ts := by
  rw [clausesOfTrees, if_neg h]

/-- The clauses among several trees are all that matters. -/
theorem clausesOfTrees_filter (ts : List SyntaxTree) :
    clausesOfTrees policy (ts.filter (·.kind = .elseIfClause)) = clausesOfTrees policy ts := by
  induction ts with
  | nil => rfl
  | cons t ts ih =>
    by_cases h : t.kind = .elseIfClause
    · rw [List.filter_cons_of_pos (by simpa using h), clausesOfTrees_cons_of_eq h,
        clausesOfTrees_cons_of_eq h, ih]
    · rw [List.filter_cons_of_neg (by simpa using h), clausesOfTrees_cons_of_ne h, ih]

variable {clauses : List SyntaxTree}

/-- A conditional whose clauses are all `else if`. -/
theorem ofTree_if (hcond : cond.kind.isExpression = true) (hbody : body.kind = .block)
    (hclauses : ∀ c ∈ clauses, c.kind = .elseIfClause) :
    ofTree policy ⟨.ifStmt, span, text, cond :: body :: clauses⟩ = (do
      let cond ← Expression.ofTree cond
      let body ← Block.ofTree policy body
      let clauses ← clausesOfTrees policy clauses
      return .ifChain cond body clauses .empty) := by
  -- The clauses are looked for among all children, the condition and the block included.
  have hcondKind : cond.kind ≠ .elseIfClause ∧ cond.kind ≠ .elseClause := by
    constructor <;> rintro h <;> simp [h, NodeKind.isExpression] at hcond
  have hbodyKind : body.kind ≠ .elseIfClause := by simp [hbody]
  have hnone : child? ⟨.ifStmt, span, text, cond :: body :: clauses⟩ .elseClause = none := by
    rw [child?_cons_of_ne hcondKind.2, child?_cons_of_ne (by simp [hbody])]
    refine List.find?_eq_none.mpr fun c hc => ?_
    simp [hclauses c hc]
  rw [ofTree]
  simp only [branchOfTree_cons .ifStmt .block hcond hbody, bind_assoc, pure_bind,
    clausesOfTrees_cons_of_ne hcondKind.1, clausesOfTrees_cons_of_ne hbodyKind]
  refine bind_congr fun cond => bind_congr fun body => bind_congr fun clauses => ?_
  split
  · rfl
  · rename_i h
    simp [hnone] at h

/-- A conditional with a last `else`. -/
theorem ofTree_ifElse (hcond : cond.kind.isExpression = true) (hbody : body.kind = .block)
    (hclauses : ∀ c ∈ clauses, c.kind = .elseIfClause) (lastSpan : Span) (lastText : String)
    {last : SyntaxTree} (hlast : last.kind = .block) :
    ofTree policy ⟨.ifStmt, span, text,
        cond :: body :: (clauses ++ [⟨.elseClause, lastSpan, lastText, [last]⟩])⟩ = (do
      let cond ← Expression.ofTree cond
      let body ← Block.ofTree policy body
      let clauses ← clausesOfTrees policy clauses
      let last ← Block.ofTree policy last
      return .ifChain cond body clauses last) := by
  have hcondKind : cond.kind ≠ .elseIfClause ∧ cond.kind ≠ .elseClause := by
    constructor <;> rintro h <;> simp [h, NodeKind.isExpression] at hcond
  have hbodyKind : body.kind ≠ .elseIfClause := by simp [hbody]
  have hsome : child? ⟨.ifStmt, span, text,
      cond :: body :: (clauses ++ [⟨.elseClause, lastSpan, lastText, [last]⟩])⟩ .elseClause
        = some ⟨.elseClause, lastSpan, lastText, [last]⟩ := by
    rw [child?_cons_of_ne hcondKind.2, child?_cons_of_ne (by simp [hbody])]
    have hfind : clauses.find? (fun c => decide (c.kind = .elseClause)) = none :=
      List.find?_eq_none.mpr fun c hc => by simp [hclauses c hc]
    show (clauses ++ [_]).find? _ = _
    rw [List.find?_append, hfind]
    rfl
  -- The last clause is found by its own kind and is none of the others.
  have hfilter : clausesOfTrees policy
      (clauses ++ [⟨.elseClause, lastSpan, lastText, [last]⟩]) = clausesOfTrees policy clauses := by
    rw [← clausesOfTrees_filter, List.filter_append,
      List.filter_eq_self.mpr fun c hc => by simpa using hclauses c hc]
    simp
  rw [ofTree]
  simp only [branchOfTree_cons .ifStmt .block hcond hbody, bind_assoc, pure_bind,
    clausesOfTrees_cons_of_ne hcondKind.1, clausesOfTrees_cons_of_ne hbodyKind, hfilter]
  refine bind_congr fun cond => bind_congr fun body => bind_congr fun clauses => ?_
  split
  · rename_i h
    simp [hsome] at h
  · rename_i clause h
    obtain rfl : _ = clause := Option.some.inj (hsome.symm.trans h)
    rw [requireChild_eq_ok (child?_cons_of_eq hlast)]
    rfl

end Statement

namespace Block

theorem ofTree_block (items : List SyntaxTree) :
    ofTree policy ⟨.block, span, text, items⟩ = ofTrees policy items := by
  rw [ofTree]
  rfl

theorem ofTrees_nil : ofTrees policy [] = .ok .empty := by
  rw [ofTrees]
  rfl

theorem ofTrees_cons_variable {t : SyntaxTree} (h : t.kind = .varDecl) (ts : List SyntaxTree) :
    ofTrees policy (t :: ts) = (do
      let v ← Variable.ofTree (policy = .keep) t
      let b ← ofTrees policy ts
      return b.addLocal v) := by
  rw [ofTrees, if_pos h]

theorem ofTrees_cons_statement {t : SyntaxTree} (h : t.kind.isStatement = true)
    (ts : List SyntaxTree) :
    ofTrees policy (t :: ts) = (do
      let s ← Statement.ofTree policy t
      let b ← ofTrees policy ts
      return b.addStatement s) := by
  have hne : t.kind ≠ .varDecl := by
    intro hk
    simp [hk, NodeKind.isStatement] at h
  rw [ofTrees, if_neg hne, if_pos h]

end Block

/-! ## Functions and programs -/

/-- The parameters that an optional list holds. -/
def paramTrees (list : Option SyntaxTree) : List SyntaxTree := list.elim [] SyntaxTree.children

theorem Function.ofTree_funcDecl {type name body : SyntaxTree} {params : Option SyntaxTree}
    (htype : type.kind = .type) (hname : name.kind = .ident)
    (hparams : ∀ l ∈ params, l.kind = .paramList) (hbody : body.kind = .block) :
    ofTree policy ⟨.funcDecl, span, text, type :: name :: (params.toList ++ [body])⟩ = (do
      let returnType ← TypeName.ofTree type
      let params ← (paramTrees params).mapM Variable.ofParamTree
      let body ← Block.ofTree policy body
      return { returnType, name := name.text, params, body }) := by
  have hfoundName : child? ⟨.funcDecl, span, text, type :: name :: (params.toList ++ [body])⟩ .ident
      = some name := by
    rw [child?_cons_of_ne (by simp [htype]), child?_cons_of_eq hname]
  have hfoundParams : child? ⟨.funcDecl, span, text, type :: name :: (params.toList ++ [body])⟩
      .paramList = params := by
    rw [child?_cons_of_ne (by simp [htype]), child?_cons_of_ne (by simp [hname])]
    cases params with
    | none =>
      show child? ⟨_, _, _, [body]⟩ _ = none
      rw [child?_cons_of_ne (by simp [hbody])]
      rfl
    | some l => exact child?_cons_of_eq (hparams l rfl)
  have hfoundBody : child? ⟨.funcDecl, span, text, type :: name :: (params.toList ++ [body])⟩ .block
      = some body := by
    rw [child?_cons_of_ne (by simp [htype]), child?_cons_of_ne (by simp [hname])]
    cases params with
    | none => exact child?_cons_of_eq hbody
    | some l =>
      show child? ⟨_, _, _, l :: [body]⟩ _ = _
      rw [child?_cons_of_ne (by simp [hparams l rfl]), child?_cons_of_eq hbody]
  unfold ofTree
  simp only [requireChild_eq_ok (child?_cons_of_eq htype), requireChild_eq_ok hfoundName,
    requireChild_eq_ok hfoundBody, hfoundParams]
  rfl

namespace Program

theorem ofTree_program (declarations : List SyntaxTree) :
    ofTree policy ⟨.program, span, text, declarations⟩ = ofTrees policy declarations := rfl

theorem ofTrees_nil : ofTrees policy [] = .ok ⟨[], []⟩ := rfl

theorem ofTrees_cons_variable {t : SyntaxTree} (h : t.kind = .varDecl) (ts : List SyntaxTree) :
    ofTrees policy (t :: ts) = (do
      let v ← Variable.ofTree true t
      let p ← ofTrees policy ts
      return p.addVariable v) := by
  rw [ofTrees, h]

theorem ofTrees_cons_function {t : SyntaxTree} (h : t.kind = .funcDecl) (ts : List SyntaxTree) :
    ofTrees policy (t :: ts) = (do
      let f ← Function.ofTree policy t
      let p ← ofTrees policy ts
      return p.addFunction f) := by
  rw [ofTrees, h]

end Program

end ImpFront
