import ImpFront.Proofs.Build.Equations
import ImpFront.Proofs.Grammar.Nodes
import ImpFront.Proofs.Grammar.Relocation

/-!
# What the builders look at

A syntax tree says more than its meaning needs. Inner nodes have places and
texts, blanks and comments included, that no builder looks at, and groups only
hold a tree together. `SyntaxTree.core` leaves all this out: what remains are
the kinds, and the leaves that stand for tokens, with their texts and – moved,
if one likes – their places.

On a tree that comes from a source, building the core is building the tree,
only that an error stands where its leaf was moved to (`Program.ofTree_core`,
`Statement.ofTree_core`, `Expression.ofTree_core`). So trees with one core have
one meaning, and this is how different sources are compared.
-/

namespace ImpFront

open SyntaxTree Relocatable

/-! ## The core of a tree -/

namespace SyntaxTree

/-- A node of a core: a group is what is in it, and only a token keeps its place
and its text. -/
def coreNode (kind : NodeKind) (span : Span) (text : String) (children : List SyntaxTree) :
    SyntaxTree :=
  match kind, children with
  | .parenExpr, [inner] => inner
  | kind, children =>
    if kind.isToken then ⟨kind, span, text, children⟩ else ⟨kind, .emptyAt 0, "", children⟩

mutual
/-- **The core of a tree**, with its leaves moved. -/
def core (m : Relocation) : SyntaxTree → SyntaxTree
  | ⟨kind, span, text, children⟩ => coreNode kind (relocate m span) text (coreAll m children)

/-- The cores of several trees. -/
def coreAll (m : Relocation) : List SyntaxTree → List SyntaxTree
  | [] => []
  | t :: ts => t.core m :: coreAll m ts
end

variable {m : Relocation} {kind : NodeKind} {span : Span} {text : String}
  {children : List SyntaxTree}

theorem core_mk : core m ⟨kind, span, text, children⟩
    = coreNode kind (relocate m span) text (children.map (core m)) := by
  have hall : coreAll m children = children.map (core m) := by
    induction children with
    | nil => rw [coreAll, List.map_nil]
    | cons t ts ih => rw [coreAll, List.map_cons, ih]
  rw [core, hall]

@[simp] theorem core_group (inner : SyntaxTree) :
    core m ⟨.parenExpr, span, text, [inner]⟩ = inner.core m := core_mk

theorem core_node (kind : NodeKind) (hkind : kind ≠ .parenExpr) (htoken : kind.isToken = false) :
    core m ⟨kind, span, text, children⟩ = ⟨kind, .emptyAt 0, "", children.map (core m)⟩ := by
  rw [core_mk]
  unfold coreNode
  split
  · exact absurd rfl hkind
  · rw [if_neg (by simp [htoken])]

theorem core_leaf (htoken : kind.isToken = true) :
    core m (leaf kind span text) = leaf kind (relocate m span) text := by
  rw [leaf, core_mk]
  unfold coreNode
  split
  · simp [NodeKind.isToken] at htoken
  · rw [if_pos htoken]
    rfl

theorem kind_core {t : SyntaxTree} (h : t.kind ≠ .parenExpr) : (t.core m).kind = t.kind := by
  obtain ⟨kind, span, text, children⟩ := t
  rw [core_mk]
  unfold coreNode
  split
  · exact absurd rfl h
  · split <;> rfl

theorem isExpression_core {t : SyntaxTree} (h : IsExpression t) :
    (t.core m).kind.isExpression = true := by
  induction h with
  | group span text _ ih =>
    rw [core_group]
    exact ih
  | intLiteral h => rw [kind_core (by simp [h.kind_eq]), h.kind_eq]; rfl
  | boolLiteral h => rw [kind_core (by simp [h.kind_eq]), h.kind_eq]; rfl
  | location => rw [kind_core (by simp)]; rfl
  | callEmpty => rw [kind_core (by simp)]; rfl
  | call => rw [kind_core (by simp)]; rfl
  | binary => rw [kind_core (by simp)]; rfl

end SyntaxTree

/-! ## Errors that move -/

instance : Relocatable BuildError := ⟨fun m e => ⟨relocate m e.span, e.fault⟩⟩

variable {m : Relocation} {policy : LocalInitializers}

/-! ## Expressions -/

theorem Operator.ofTree_core {l : Ebnf.Level} {t : SyntaxTree}
    (h : IsLeaf .operator (l.operators.map .symbol) t) :
    Operator.ofTree (t.core m) = (Operator.ofTree t).mapError (relocate m) := by
  obtain ⟨span, text, -, -⟩ := h
  rw [core_leaf rfl]
  cases hop : Operator.ofSpelling? text with
  | some op =>
    rw [Operator.ofTree_of_some (t := leaf .operator span text) rfl hop]
    exact Operator.ofTree_of_some rfl hop
  | none =>
    rw [Operator.ofTree_of_none (t := leaf .operator span text) rfl hop]
    exact Operator.ofTree_of_none rfl hop

theorem intOfTree_core (span : Span) (text : String) :
    intOfTree (leaf .intLiteral (relocate m span) text)
      = (intOfTree (leaf .intLiteral span text)).mapError (relocate m) := by
  unfold intOfTree leaf
  dsimp only
  cases Decimal.readInt32? text.toList <;> rfl

theorem boolOfTree_core (span : Span) (text : String) :
    boolOfTree (leaf .boolLiteral (relocate m span) text)
      = (boolOfTree (leaf .boolLiteral span text)).mapError (relocate m) := by
  unfold boolOfTree leaf
  dsimp only
  split
  · rfl
  split <;> rfl

/-- A name keeps its kind and its text. -/
theorem SyntaxTree.IsLeaf.core_name {name : SyntaxTree} (h : IsName name) :
    (name.core m).kind = .ident ∧ (name.core m).text = name.text := by
  obtain ⟨span, text, -, -⟩ := h
  rw [core_leaf rfl]
  exact ⟨rfl, rfl⟩

theorem Expression.ofTrees_core {ts : List SyntaxTree}
    (h : ∀ t ∈ ts, ofTree (t.core m) = (ofTree t).mapError (relocate m)) :
    ofTrees (ts.map (SyntaxTree.core m)) = (ofTrees ts).mapError (relocate m) := by
  induction ts with
  | nil =>
    rw [List.map_nil, ofTrees_nil]
    rfl
  | cons t ts ih =>
    obtain ⟨ht, hts⟩ := List.forall_mem_cons.mp h
    rw [List.map_cons, ofTrees_cons, ofTrees_cons, ht, ih hts]
    simp only [mapError_bind, mapError_pure]

/-- **The core of an expression means the same.** -/
theorem Expression.ofTree_core {t : SyntaxTree} (h : IsExpression t) :
    ofTree (t.core m) = (ofTree t).mapError (relocate m) := by
  induction h with
  | intLiteral h =>
    obtain ⟨span, text, -, -⟩ := h
    rw [core_leaf rfl, ofTree_intLiteral, ofTree_intLiteral, intOfTree_core]
    simp only [mapError_bind, mapError_pure]
  | boolLiteral h =>
    obtain ⟨span, text, -, -⟩ := h
    rw [core_leaf rfl, ofTree_boolLiteral, ofTree_boolLiteral, boolOfTree_core]
    simp only [mapError_bind, mapError_pure]
  | location span text hname =>
    obtain ⟨hkind, htext⟩ := hname.core_name (m := m)
    rw [core_node .locationExpr nofun rfl, ofTree_location hname.kind_eq]
    show ofTree ⟨.locationExpr, _, _, [_]⟩ = _
    rw [ofTree_location hkind, htext]
    rfl
  | callEmpty span text hname =>
    obtain ⟨hkind, htext⟩ := hname.core_name (m := m)
    rw [core_node .callExpr nofun rfl, ofTree_callEmpty hname.kind_eq]
    show ofTree ⟨.callExpr, _, _, [_]⟩ = _
    rw [ofTree_callEmpty hkind, htext]
    rfl
  | call span text listSpan listText hname _ ih =>
    obtain ⟨hkind, htext⟩ := hname.core_name (m := m)
    rw [core_node .callExpr nofun rfl, ofTree_call hname.kind_eq, List.map_cons, List.map_cons,
      core_node .argList nofun rfl, List.map_nil, ofTree_call hkind, ofTrees_core ih, htext]
    simp only [mapError_bind, mapError_pure]
  | group span text hinner ih =>
    rw [core_group, ofTree_group hinner.isExpression_kind, ih]
  | binary span text l _ hop _ ihleft ihright =>
    rw [core_node .binaryExpr nofun rfl, ofTree_binary]
    show ofTree ⟨.binaryExpr, _, _, [_, _, _]⟩ = _
    rw [ofTree_binary, ihleft, ihright, Operator.ofTree_core hop]
    simp only [mapError_bind, mapError_pure]

/-! ## Variables -/

theorem SyntaxTree.IsType.kind_core {t : SyntaxTree} (h : IsType t) :
    (t.core m).kind = .type := by
  rw [SyntaxTree.kind_core (by simp [h.kind_eq]), h.kind_eq]

/-- A type is told by the kind of its word. -/
theorem TypeName.ofTree_core {t : SyntaxTree} (h : IsType t) :
    TypeName.ofTree (t.core m) = (TypeName.ofTree t).mapError (relocate m) := by
  have hword (type : TypeName) {tokens : List Token} {word : SyntaxTree} (span : Span)
      (text : String) (hword : IsLeaf type.keywordKind tokens word) :
      TypeName.ofTree (core m ⟨.type, span, text, [word]⟩)
        = (TypeName.ofTree ⟨.type, span, text, [word]⟩).mapError (relocate m) := by
    have hkind : (word.core m).kind = type.keywordKind := by
      rw [SyntaxTree.kind_core (by rw [hword.kind_eq]; cases type <;> decide), hword.kind_eq]
    rw [core_node .type nofun rfl, ofTree_type hword.kind_eq]
    exact ofTree_type hkind
  cases h with
  | int span text h => exact hword .int span text h
  | bool span text h => exact hword .bool span text h
  | void span text h => exact hword .void span text h

/-- **The core of a variable means the same**, whether its initializer is kept
or not. -/
theorem Variable.ofTree_core (keep : Bool) {t : SyntaxTree} (h : IsVariable t) :
    ofTree keep (t.core m) = (ofTree keep t).mapError (relocate m) := by
  cases h with
  | plain span text htype hname =>
    obtain ⟨hkind, htext⟩ := hname.core_name (m := m)
    rw [core_node .varDecl nofun rfl, ofTree_plain keep htype.kind_eq hname.kind_eq]
    show ofTree keep ⟨.varDecl, _, _, [_, _]⟩ = _
    rw [ofTree_plain keep htype.kind_core hkind, TypeName.ofTree_core htype, htext]
    simp only [mapError_bind, mapError_pure]
  | initialized span text htype hname hvalue =>
    obtain ⟨hkind, htext⟩ := hname.core_name (m := m)
    rw [core_node .varDecl nofun rfl,
      ofTree_initialized keep htype.kind_eq hname.kind_eq hvalue.isExpression_kind]
    show ofTree keep ⟨.varDecl, _, _, [_, _, _]⟩ = _
    rw [ofTree_initialized keep htype.kind_core hkind (isExpression_core hvalue),
      TypeName.ofTree_core htype, htext, Expression.ofTree_core hvalue]
    cases keep <;> simp only [mapError_bind, mapError_pure, if_true, if_false, reduceCtorEq]

theorem Variable.ofParamTree_core {t : SyntaxTree} (h : IsParam t) :
    ofParamTree (t.core m) = (ofParamTree t).mapError (relocate m) := by
  obtain ⟨span, text, htype, hname⟩ := h
  obtain ⟨hkind, htext⟩ := hname.core_name (m := m)
  rw [core_node .param nofun rfl, ofParamTree_param htype.kind_eq hname.kind_eq]
  show ofParamTree ⟨.param, _, _, [_, _]⟩ = _
  rw [ofParamTree_param htype.kind_core hkind, TypeName.ofTree_core htype, htext]
  simp only [mapError_bind, mapError_pure]

/-! ## Code -/

theorem SyntaxTree.IsCode.kind_core_block {t : SyntaxTree} (h : IsCode .block t) :
    (t.core m).kind = .block := by
  rw [SyntaxTree.kind_core (by simp [h.kind_block]), h.kind_block]

theorem SyntaxTree.IsCode.kind_core_elseIf {t : SyntaxTree} (h : IsCode .elseIf t) :
    (t.core m).kind = .elseIfClause := by
  rw [SyntaxTree.kind_core (by simp [h.kind_elseIf]), h.kind_elseIf]

theorem SyntaxTree.IsCode.isStatement_core {t : SyntaxTree} (h : IsCode .statement t) :
    (t.core m).kind.isStatement = true := by
  have hkind := h.isStatement_kind
  rw [SyntaxTree.kind_core ?_]
  · exact hkind
  · intro hparen
    simp [hparen, NodeKind.isStatement] at hkind

/-- What is to be shown of a tree of each role: its core means the same. -/
def SyntaxTree.CodeRole.CoreAgrees (m : Relocation) (policy : LocalInitializers) :
    CodeRole → SyntaxTree → Prop
  | .statement, t =>
    Statement.ofTree policy (t.core m) = (Statement.ofTree policy t).mapError (relocate m)
  | .elseIf, t => Statement.branchOfTree policy .block (t.core m)
      = (Statement.branchOfTree policy .block t).mapError (relocate m)
  | .elseClause, t => ∃ span text body, t = ⟨.elseClause, span, text, [body]⟩
      ∧ IsCode .block body
      ∧ Block.ofTree policy (body.core m) = (Block.ofTree policy body).mapError (relocate m)
  | .block, t => Block.ofTree policy (t.core m) = (Block.ofTree policy t).mapError (relocate m)
  | .item, t => ∀ {ts ts'}, Block.ofTrees policy ts' = (Block.ofTrees policy ts).mapError (relocate m) →
      Block.ofTrees policy (t.core m :: ts') = (Block.ofTrees policy (t :: ts)).mapError (relocate m)

theorem clausesOfTrees_core {ts : List SyntaxTree} (hts : ∀ t ∈ ts, IsCode .elseIf t)
    (h : ∀ t ∈ ts, CodeRole.elseIf.CoreAgrees m policy t) :
    Statement.clausesOfTrees policy (ts.map (core m))
      = (Statement.clausesOfTrees policy ts).mapError (relocate m) := by
  induction ts with
  | nil =>
    rw [List.map_nil, Statement.clausesOfTrees_nil]
    rfl
  | cons t ts ih =>
    obtain ⟨ht, hts⟩ := List.forall_mem_cons.mp hts
    obtain ⟨hagrees, h⟩ := List.forall_mem_cons.mp h
    have hbranch : Statement.branchOfTree policy .block (t.core m) = _ := hagrees
    rw [List.map_cons, Statement.clausesOfTrees_cons_of_eq ht.kind_core_elseIf,
      Statement.clausesOfTrees_cons_of_eq ht.kind_elseIf, hbranch, ih hts h]
    simp only [mapError_bind, mapError_pure]

theorem blockOfTrees_core {items : List SyntaxTree}
    (h : ∀ i ∈ items, CodeRole.item.CoreAgrees m policy i) :
    Block.ofTrees policy (items.map (core m))
      = (Block.ofTrees policy items).mapError (relocate m) := by
  induction items with
  | nil =>
    rw [List.map_nil, Block.ofTrees_nil]
    rfl
  | cons i items ih =>
    obtain ⟨hi, hitems⟩ := List.forall_mem_cons.mp h
    exact hi (ih hitems)

/-- **The core of a conditional means the same**, with the clauses and without. -/
theorem coreAgrees_ifStmt (span : Span) (text : String) {cond body : SyntaxTree}
    {clauses : List SyntaxTree} (last : Option SyntaxTree) (hcond : IsExpression cond)
    (hbody : IsCode .block body) (hclauses : ∀ c ∈ clauses, IsCode .elseIf c)
    (ihbody : CodeRole.block.CoreAgrees m policy body)
    (ihclauses : ∀ c ∈ clauses, CodeRole.elseIf.CoreAgrees m policy c)
    (ihlast : ∀ c ∈ last, CodeRole.elseClause.CoreAgrees m policy c) :
    CodeRole.statement.CoreAgrees m policy
      ⟨.ifStmt, span, text, cond :: body :: (clauses ++ last.toList)⟩ := by
  have hbodyAgrees : Block.ofTree policy (body.core m) = _ := ihbody
  have hkinds : ∀ c ∈ clauses, c.kind = .elseIfClause := fun c hc => (hclauses c hc).kind_elseIf
  have hcoreKinds : ∀ c ∈ clauses.map (core m), c.kind = .elseIfClause := by
    intro c hc
    obtain ⟨d, hd, rfl⟩ := List.mem_map.mp hc
    exact (hclauses d hd).kind_core_elseIf
  show Statement.ofTree policy _ = _
  rw [core_node .ifStmt nofun rfl, List.map_cons, List.map_cons, List.map_append]
  cases last with
  | none =>
    rw [Option.toList_none, List.map_nil, List.append_nil, List.append_nil,
      Statement.ofTree_if (isExpression_core hcond) hbody.kind_core_block hcoreKinds,
      Statement.ofTree_if hcond.isExpression_kind hbody.kind_block hkinds,
      Expression.ofTree_core hcond, hbodyAgrees, clausesOfTrees_core hclauses ihclauses]
    simp only [mapError_bind, mapError_pure]
  | some clause =>
    obtain ⟨lastSpan, lastText, last, rfl, hlast, hlastAgrees⟩ := ihlast clause rfl
    rw [Option.toList_some, List.map_singleton, core_node .elseClause nofun rfl,
      List.map_singleton,
      Statement.ofTree_ifElse (isExpression_core hcond) hbody.kind_core_block hcoreKinds _ _
        hlast.kind_core_block,
      Statement.ofTree_ifElse hcond.isExpression_kind hbody.kind_block hkinds lastSpan lastText
        hlast.kind_block,
      Expression.ofTree_core hcond, hbodyAgrees, clausesOfTrees_core hclauses ihclauses,
      hlastAgrees]
    simp only [mapError_bind, mapError_pure]

/-- **The core of code means the same.** -/
theorem coreAgrees_code {role : CodeRole} {t : SyntaxTree} (h : IsCode role t) :
    role.CoreAgrees m policy t := by
  induction h with
  | assign span text hname hvalue =>
    obtain ⟨hkind, htext⟩ := hname.core_name (m := m)
    show Statement.ofTree policy _ = _
    rw [core_node .assignStmt nofun rfl,
      Statement.ofTree_assign hname.kind_eq hvalue.isExpression_kind]
    show Statement.ofTree policy ⟨.assignStmt, _, _, [_, _]⟩ = _
    rw [Statement.ofTree_assign hkind (isExpression_core hvalue), htext,
      Expression.ofTree_core hvalue]
    simp only [mapError_bind, mapError_pure]
  | ifStmt span text last hcond hbody hclauses _ ihbody ihclauses ihlast =>
    exact coreAgrees_ifStmt span text last hcond hbody hclauses ihbody ihclauses ihlast
  | @whileStmt span text cond body hcond hbody ih =>
    have hbodyAgrees : Block.ofTree policy (body.core m) = _ := ih
    show Statement.ofTree policy _ = _
    rw [core_node .whileStmt nofun rfl,
      Statement.ofTree_while hcond.isExpression_kind hbody.kind_block]
    show Statement.ofTree policy ⟨.whileStmt, _, _, [_, _]⟩ = _
    rw [Statement.ofTree_while (isExpression_core hcond) hbody.kind_core_block,
      Expression.ofTree_core hcond, hbodyAgrees]
    simp only [mapError_bind, mapError_pure]
  | returnVoid span text =>
    show Statement.ofTree policy _ = _
    rw [core_node .returnStmt nofun rfl, List.map_nil, Statement.ofTree_returnVoid,
      Statement.ofTree_returnVoid]
    rfl
  | returnValue span text hvalue =>
    show Statement.ofTree policy _ = _
    rw [core_node .returnStmt nofun rfl, List.map_singleton,
      Statement.ofTree_returnValue (isExpression_core hvalue),
      Statement.ofTree_returnValue hvalue.isExpression_kind, Expression.ofTree_core hvalue]
    simp only [mapError_bind, mapError_pure]
  | breakStmt span text =>
    show Statement.ofTree policy _ = _
    rw [core_node .breakStmt nofun rfl, List.map_nil, Statement.ofTree_break,
      Statement.ofTree_break]
    rfl
  | continueStmt span text =>
    show Statement.ofTree policy _ = _
    rw [core_node .continueStmt nofun rfl, List.map_nil, Statement.ofTree_continue,
      Statement.ofTree_continue]
    rfl
  | @elseIf span text cond body hcond hbody ih =>
    have hbodyAgrees : Block.ofTree policy (body.core m) = _ := ih
    show Statement.branchOfTree policy _ _ = _
    rw [core_node .elseIfClause nofun rfl, List.map_cons, List.map_cons,
      Statement.branchOfTree_cons _ _ (isExpression_core hcond) hbody.kind_core_block,
      Statement.branchOfTree_cons _ _ hcond.isExpression_kind hbody.kind_block,
      Expression.ofTree_core hcond, hbodyAgrees]
    simp only [mapError_bind, mapError_pure]
  | elseClause span text hbody ih => exact ⟨span, text, _, rfl, hbody, ih⟩
  | block span text _ ih =>
    show Block.ofTree policy _ = _
    rw [core_node .block nofun rfl, Block.ofTree_block, Block.ofTree_block]
    exact blockOfTrees_core ih
  | variableItem h =>
    intro ts ts' hmore
    have hkind : (core m _).kind = .varDecl :=
      (SyntaxTree.kind_core (by simp [h.kind_eq])).trans h.kind_eq
    rw [Block.ofTrees_cons_variable hkind, Block.ofTrees_cons_variable h.kind_eq,
      Variable.ofTree_core _ h, hmore]
    simp only [mapError_bind, mapError_pure]
  | @statementItem t h ih =>
    intro ts ts' hmore
    have hagrees : Statement.ofTree policy (t.core m) = _ := ih
    rw [Block.ofTrees_cons_statement h.isStatement_core,
      Block.ofTrees_cons_statement h.isStatement_kind, hagrees, hmore]
    simp only [mapError_bind, mapError_pure]

/-- **The core of a statement means the same.** -/
theorem Statement.ofTree_core {t : SyntaxTree} (h : IsCode .statement t) :
    ofTree policy (t.core m) = (ofTree policy t).mapError (relocate m) := coreAgrees_code h

/-! ## Functions and programs -/

theorem mapM_ofParamTree_core {ts : List SyntaxTree} (h : ∀ t ∈ ts, IsParam t) :
    (ts.map (core m)).mapM Variable.ofParamTree
      = (ts.mapM Variable.ofParamTree).mapError (relocate m) := by
  induction ts with
  | nil => rfl
  | cons t ts ih =>
    obtain ⟨ht, hts⟩ := List.forall_mem_cons.mp h
    rw [List.map_cons, List.mapM_cons, List.mapM_cons, Variable.ofParamTree_core ht, ih hts]
    simp only [mapError_bind, mapError_pure]

theorem Function.ofTree_core {t : SyntaxTree} (h : IsFunction t) :
    ofTree policy (t.core m) = (ofTree policy t).mapError (relocate m) := by
  cases h with
  | @intro span text type name body params htype hname hparams hbody =>
    obtain ⟨hkind, htext⟩ := hname.core_name (m := m)
    have hbodyAgrees : Block.ofTree policy (body.core m) = _ := coreAgrees_code hbody
    have hcoreParams : ∀ l ∈ params.map (core m), l.kind = .paramList := by
      intro l hl
      obtain ⟨l', hl', rfl⟩ := Option.map_eq_some_iff.mp hl
      rw [SyntaxTree.kind_core (by simp [(hparams l' hl').kind_eq]), (hparams l' hl').kind_eq]
    have hlist : (paramTrees (params.map (core m))).mapM Variable.ofParamTree
        = ((paramTrees params).mapM Variable.ofParamTree).mapError (relocate m) := by
      cases params with
      | none => rfl
      | some l =>
        obtain ⟨span, text, hts⟩ := hparams l rfl
        rw [Option.map_some, core_node .paramList nofun rfl]
        exact mapM_ofParamTree_core hts
    have hchildren : (type :: name :: (params.toList ++ [body])).map (core m)
        = type.core m :: name.core m :: ((params.map (core m)).toList ++ [body.core m]) := by
      cases params <;> rfl
    rw [core_node .funcDecl nofun rfl, hchildren,
      ofTree_funcDecl htype.kind_core hkind hcoreParams hbody.kind_core_block,
      ofTree_funcDecl htype.kind_eq hname.kind_eq (fun l hl => (hparams l hl).kind_eq)
        hbody.kind_block, TypeName.ofTree_core htype, hlist, hbodyAgrees, htext]
    simp only [mapError_bind, mapError_pure]

theorem Program.ofTrees_core {ts : List SyntaxTree} (h : ∀ t ∈ ts, IsDeclaration t) :
    ofTrees policy (ts.map (core m)) = (ofTrees policy ts).mapError (relocate m) := by
  induction ts with
  | nil => rfl
  | cons t ts ih =>
    obtain ⟨ht, hts⟩ := List.forall_mem_cons.mp h
    rw [List.map_cons]
    rcases ht with ht | ht
    · have hkind : (t.core m).kind = .varDecl :=
        (SyntaxTree.kind_core (by simp [ht.kind_eq])).trans ht.kind_eq
      rw [ofTrees_cons_variable hkind, ofTrees_cons_variable ht.kind_eq,
        Variable.ofTree_core true ht, ih hts]
      simp only [mapError_bind, mapError_pure]
    · have hkind : (t.core m).kind = .funcDecl :=
        (SyntaxTree.kind_core (by simp [ht.kind_eq])).trans ht.kind_eq
      rw [ofTrees_cons_function hkind, ofTrees_cons_function ht.kind_eq,
        Function.ofTree_core ht, ih hts]
      simp only [mapError_bind, mapError_pure]

/-- **The core of a program means the same.** -/
theorem Program.ofTree_core {t : SyntaxTree} (h : IsListOf .program IsDeclaration t) :
    ofTree policy (t.core m) = (ofTree policy t).mapError (relocate m) := by
  obtain ⟨span, text, hts⟩ := h
  rw [core_node .program nofun rfl, ofTree_program, ofTree_program]
  exact ofTrees_core hts

end ImpFront
