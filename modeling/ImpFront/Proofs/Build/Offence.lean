import ImpFront.Proofs.Build.Equations
import ImpFront.Proofs.Number.Decimal
import ImpFront.Proofs.SyntaxTree.Leaves

/-!
# The first offence

A source that parses can be refused for two reasons only: an operator that the
abstract syntax does not know, or an integer that is too large. This module
says which of several such offences is reported – the leftmost one – and that
nothing else can go wrong.

The argument is compositional. A building step is `DecidedBy` a list of leaves
if it fails with the error of the first leaf that has one, and succeeds if none
has. Two steps after each other are decided by the leaves of the first and then
those of the second, so it remains to see, kind of node by kind of node, that
the builder goes through the children in the order in which they stand. For a
conditional that is not obvious: its condition, its block, its `else if` clauses
and its `else` are picked out of one list of children by kind.
-/

namespace ImpFront

open SyntaxTree

/-- **The error of a leaf that has no meaning**: an operator other than `+`, `-`
and `*`, or an integer with a value above the largest one. -/
def SyntaxTree.offence? (l : SyntaxTree) : Option BuildError :=
  match l.kind with
  | .operator =>
    if l.text = "+" ∨ l.text = "-" ∨ l.text = "*" then none
    else some ⟨l.span, .unsupportedOperator l.text⟩
  | .intLiteral =>
    if Decimal.value l.text.toList ≤ 2147483647 then none
    else some ⟨l.span, .malformedLiteral .int l.text⟩
  | _ => none

/-- **The leaves decide the result**: it is the error of the first leaf that has
one, and a value if none has. -/
def DecidedBy {α : Type} (r : Except BuildError α) (leaves : List SyntaxTree) : Prop :=
  match leaves.findSome? offence? with
  | none => ∃ a, r = .ok a
  | some e => r = .error e

section DecidedBy

variable {α β : Type} {r : Except BuildError α} {leaves others : List SyntaxTree}

theorem decidedBy_ok (a : α) : DecidedBy (.ok a) [] := ⟨a, rfl⟩

theorem decidedBy_value (h : leaves.findSome? offence? = none) (hr : ∃ a, r = .ok a) :
    DecidedBy r leaves := by
  unfold DecidedBy
  rwa [h]

theorem decidedBy_error {e : BuildError} (h : leaves.findSome? offence? = some e)
    (hr : r = .error e) : DecidedBy r leaves := by
  unfold DecidedBy
  rwa [h]

/-- One step after another is decided by the leaves of both, in this order. -/
theorem DecidedBy.bind {f : α → Except BuildError β} (hr : DecidedBy r leaves)
    (hf : ∀ a, DecidedBy (f a) others) : DecidedBy (r >>= f) (leaves ++ others) := by
  unfold DecidedBy at hr ⊢
  rw [List.findSome?_append]
  cases hfirst : leaves.findSome? offence? with
  | none =>
    rw [hfirst] at hr
    obtain ⟨a, rfl⟩ := hr
    exact hf a
  | some e =>
    rw [hfirst] at hr
    rw [hr]
    rfl

/-- What is made of a value afterwards does not matter. -/
theorem DecidedBy.map (hr : DecidedBy r leaves) (f : α → β) :
    DecidedBy (do let a ← r; return f a) leaves := by
  have h := hr.bind (f := fun a => .ok (f a)) fun a => decidedBy_ok (f a)
  rwa [List.append_nil] at h

end DecidedBy

/-! ## Leaves -/

theorem offence?_operator (span : Span) (text : String) :
    (leaf .operator span text).offence?
      = if text = "+" ∨ text = "-" ∨ text = "*" then none
        else some ⟨span, .unsupportedOperator text⟩ := rfl

theorem offence?_intLiteral (span : Span) (text : String) :
    (leaf .intLiteral span text).offence?
      = if Decimal.value text.toList ≤ 2147483647 then none
        else some ⟨span, .malformedLiteral .int text⟩ := rfl

theorem checkedLeaves_name {name : SyntaxTree} (h : IsName name) : name.checkedLeaves = [] := by
  obtain ⟨span, text, -, -⟩ := h
  rfl

theorem decidedBy_operator {tokens : List Token} {t : SyntaxTree}
    (h : IsLeaf .operator tokens t) : DecidedBy (Operator.ofTree t) t.checkedLeaves := by
  obtain ⟨span, text, -, -⟩ := h
  show DecidedBy (Operator.ofTree (leaf .operator span text)) [leaf .operator span text]
  by_cases hop : text = "+" ∨ text = "-" ∨ text = "*"
  · refine decidedBy_value ?_ ?_
    · rw [List.findSome?_singleton, offence?_operator, if_pos hop]
    · obtain rfl | rfl | rfl := hop
      · exact ⟨.add, rfl⟩
      · exact ⟨.sub, rfl⟩
      · exact ⟨.mul, rfl⟩
  · have hnone : Operator.ofSpelling? text = none := by
      unfold Operator.ofSpelling?
      split <;> simp_all
    refine decidedBy_error ?_ (Operator.ofTree_of_none rfl hnone)
    rw [List.findSome?_singleton, offence?_operator, if_neg hop]
    rfl

theorem decidedBy_int {t : SyntaxTree} (h : IsLeaf .intLiteral [.intLiteral] t) :
    DecidedBy (intOfTree t) t.checkedLeaves := by
  obtain ⟨span, text, hmem, hspells⟩ := h
  obtain rfl := List.mem_singleton.mp hmem
  obtain ⟨hne, hdigits⟩ := hspells
  have hread := Decimal.readInt32?_of_digits hne hdigits
  show DecidedBy (intOfTree (leaf .intLiteral span text)) [leaf .intLiteral span text]
  by_cases hsmall : Decimal.value text.toList ≤ 2147483647
  · rw [if_pos hsmall] at hread
    refine decidedBy_value ?_ ⟨_, intOfTree_of_some hread⟩
    rw [List.findSome?_singleton, offence?_intLiteral, if_pos hsmall]
  · rw [if_neg hsmall] at hread
    refine decidedBy_error ?_ (intOfTree_of_none hread)
    rw [List.findSome?_singleton, offence?_intLiteral, if_neg hsmall]
    rfl

theorem boolOfTree_eq_ok {t : SyntaxTree}
    (h : IsLeaf .boolLiteral [.keyword .trueWord, .keyword .falseWord] t) :
    ∃ b, boolOfTree t = .ok b := by
  obtain ⟨span, text, hmem, hspells⟩ := h
  obtain rfl | rfl := by simpa using hmem
  · obtain rfl : text = "true" := String.toList_inj.mp hspells
    exact ⟨true, rfl⟩
  · obtain rfl : text = "false" := String.toList_inj.mp hspells
    exact ⟨false, rfl⟩

/-! ## Expressions -/

theorem decidedBy_expressions {ts : List SyntaxTree}
    (h : ∀ t ∈ ts, DecidedBy (Expression.ofTree t) t.checkedLeaves) :
    DecidedBy (Expression.ofTrees ts) (ts.flatMap checkedLeaves) := by
  induction ts with
  | nil =>
    rw [Expression.ofTrees_nil]
    exact decidedBy_ok []
  | cons t ts ih =>
    rw [Expression.ofTrees_cons, List.flatMap_cons]
    refine (h t List.mem_cons_self).bind fun e => ?_
    exact (ih fun t ht => h t (List.mem_cons_of_mem _ ht)).map _

/-- **An expression is decided by its operators and integers**, from left to
right. -/
theorem decidedBy_expression {t : SyntaxTree} (h : IsExpression t) :
    DecidedBy (Expression.ofTree t) t.checkedLeaves := by
  induction h with
  | intLiteral h =>
    obtain ⟨span, text, hmem, hspells⟩ := h
    rw [Expression.ofTree_intLiteral]
    exact (decidedBy_int ⟨span, text, hmem, hspells⟩).map _
  | boolLiteral h =>
    obtain ⟨b, hb⟩ := boolOfTree_eq_ok h
    obtain ⟨span, text, -, -⟩ := h
    rw [Expression.ofTree_boolLiteral, hb]
    exact decidedBy_ok _
  | location span text hname =>
    rw [Expression.ofTree_location hname.kind_eq, checkedLeaves_node (by decide),
      List.flatMap_singleton, checkedLeaves_name hname]
    exact decidedBy_ok _
  | callEmpty span text hname =>
    rw [Expression.ofTree_callEmpty hname.kind_eq, checkedLeaves_node (by decide),
      List.flatMap_singleton, checkedLeaves_name hname]
    exact decidedBy_ok _
  | call span text listSpan listText hname _ ih =>
    rw [Expression.ofTree_call hname.kind_eq, checkedLeaves_node (by decide),
      List.flatMap_cons, checkedLeaves_name hname, List.nil_append, List.flatMap_singleton,
      checkedLeaves_node (by decide)]
    exact (decidedBy_expressions ih).map _
  | group span text hinner ih =>
    rw [Expression.ofTree_group hinner.isExpression_kind,
      checkedLeaves_node (by decide), List.flatMap_singleton]
    exact ih
  | binary span text l _ hoperator _ ihleft ihright =>
    rw [Expression.ofTree_binary, checkedLeaves_node (by decide), List.flatMap_cons,
      List.flatMap_cons, List.flatMap_singleton]
    refine ihleft.bind fun left => ?_
    refine (decidedBy_operator hoperator).bind fun op => ?_
    exact ihright.map _

/-! ## The leaves that a policy sees -/

variable {policy : LocalInitializers}

/-- The leaves that a policy sees in a tree. -/
def seenLeaves (policy : LocalInitializers) (t : SyntaxTree) : List SyntaxTree :=
  (policy.view t).checkedLeaves

/-- The leaves that a policy sees in an item of a block. -/
def seenItemLeaves : LocalInitializers → SyntaxTree → List SyntaxTree
  | .keep, t => t.checkedLeaves
  | .discard, t => t.itemWithoutInitializer.checkedLeaves

theorem seenLeaves_expression {t : SyntaxTree} (h : IsExpression t) :
    seenLeaves policy t = t.checkedLeaves := by
  cases policy with
  | keep => rfl
  | discard =>
    show t.withoutLocalInitializers.checkedLeaves = _
    rw [h.withoutLocalInitializers_eq]

theorem seenLeaves_name {t : SyntaxTree} (h : IsName t) : seenLeaves policy t = [] := by
  obtain ⟨span, text, -, -⟩ := h
  cases policy <;> rfl

theorem seenLeaves_type (policy : LocalInitializers) {t : SyntaxTree} (h : IsType t) :
    seenLeaves policy t = [] := by
  cases h with
  | int span text h =>
    obtain ⟨_, _, -, -⟩ := h
    cases policy <;> rfl
  | bool span text h =>
    obtain ⟨_, _, -, -⟩ := h
    cases policy <;> rfl
  | void span text h =>
    obtain ⟨_, _, -, -⟩ := h
    cases policy <;> rfl

theorem seenLeaves_node {kind : NodeKind} (hkind : kind ∉ [.block, .operator, .intLiteral])
    (span : Span) (text : String) (cs : List SyntaxTree) :
    seenLeaves policy ⟨kind, span, text, cs⟩ = cs.flatMap (seenLeaves policy) := by
  obtain ⟨hblock, hchecked⟩ := List.ne_and_not_mem_of_not_mem_cons hkind
  cases policy with
  | keep => exact checkedLeaves_node hchecked span text cs
  | discard =>
    show checkedLeaves (withoutLocalInitializers _) = _
    rw [withoutLocalInitializers_node hblock, checkedLeaves_node hchecked, List.flatMap_map]
    rfl

theorem seenLeaves_block (span : Span) (text : String) (items : List SyntaxTree) :
    seenLeaves policy ⟨.block, span, text, items⟩ = items.flatMap (seenItemLeaves policy) := by
  cases policy with
  | keep => exact checkedLeaves_node (by decide) span text items
  | discard =>
    show checkedLeaves (withoutLocalInitializers _) = _
    rw [withoutLocalInitializers_block, checkedLeaves_node (by decide),
      List.flatMap_map]
    rfl

/-- A statement in a block is seen like any other. -/
theorem seenItemLeaves_statement {t : SyntaxTree} (h : t.kind ≠ .varDecl) :
    seenItemLeaves policy t = seenLeaves policy t := by
  cases policy with
  | keep => rfl
  | discard =>
    show (itemWithoutInitializer t).checkedLeaves = _
    rw [itemWithoutInitializer, if_neg h]
    rfl

/-! ## Variables -/

/-- A type always has a meaning. -/
theorem typeName_ofTree_eq_ok {t : SyntaxTree} (h : IsType t) :
    ∃ type, TypeName.ofTree t = .ok type := by
  cases h with
  | int span text h => exact ⟨.int, TypeName.ofTree_type h.kind_eq⟩
  | bool span text h => exact ⟨.bool, TypeName.ofTree_type h.kind_eq⟩
  | void span text h => exact ⟨.void, TypeName.ofTree_type h.kind_eq⟩

/-- **A variable that keeps its initializer** is decided by the leaves of it. -/
theorem decidedBy_variable {t : SyntaxTree} (h : IsVariable t) :
    DecidedBy (Variable.ofTree true t) (seenLeaves policy t) := by
  cases h with
  | plain span text htype hname =>
    obtain ⟨type, hok⟩ := typeName_ofTree_eq_ok htype
    rw [Variable.ofTree_plain true htype.kind_eq hname.kind_eq, hok,
      seenLeaves_node (by decide), List.flatMap_cons,
      List.flatMap_singleton, seenLeaves_type policy htype, seenLeaves_name hname]
    exact decidedBy_ok _
  | initialized span text htype hname hvalue =>
    obtain ⟨type, hok⟩ := typeName_ofTree_eq_ok htype
    rw [Variable.ofTree_initialized true htype.kind_eq hname.kind_eq hvalue.isExpression_kind, hok,
      seenLeaves_node (by decide), List.flatMap_cons, List.flatMap_cons,
      List.flatMap_singleton, seenLeaves_type policy htype, seenLeaves_name hname,
      seenLeaves_expression hvalue]
    exact (decidedBy_expression hvalue).map _

/-- **A local variable** is decided by what the policy sees of it: without its
initializer, by nothing at all. -/
theorem decidedBy_local {t : SyntaxTree} (h : IsVariable t) :
    DecidedBy (Variable.ofTree (policy = .keep) t) (seenItemLeaves policy t) := by
  cases policy with
  | keep =>
    show DecidedBy (Variable.ofTree true t) (seenLeaves .keep t)
    exact decidedBy_variable h
  | discard =>
    -- What is left are a type and a name, and neither has a leaf that counts.
    have hnone : seenItemLeaves .discard t = [] := by
      obtain ⟨span, text, type, name, htype, hname, heq⟩ := h.itemWithoutInitializer_eq
      have htypeLeaves : type.checkedLeaves = [] := by
        rw [← seenLeaves_type .keep htype]
        rfl
      show (itemWithoutInitializer t).checkedLeaves = []
      rw [heq, checkedLeaves_node (by decide), List.flatMap_cons,
        List.flatMap_singleton, checkedLeaves_name hname, htypeLeaves, List.append_nil]
    rw [hnone]
    show DecidedBy (Variable.ofTree false t) []
    cases h with
    | plain span text htype hname =>
      obtain ⟨type, hok⟩ := typeName_ofTree_eq_ok htype
      rw [Variable.ofTree_plain false htype.kind_eq hname.kind_eq, hok]
      exact decidedBy_ok _
    | initialized span text htype hname hvalue =>
      obtain ⟨type, hok⟩ := typeName_ofTree_eq_ok htype
      rw [Variable.ofTree_initialized false htype.kind_eq hname.kind_eq hvalue.isExpression_kind,
        hok]
      exact decidedBy_ok _

/-! ## Code -/

theorem decidedBy_clauses {ts : List SyntaxTree} (hkind : ∀ t ∈ ts, t.kind = .elseIfClause)
    (h : ∀ t ∈ ts, DecidedBy (Statement.branchOfTree policy .block t) (seenLeaves policy t)) :
    DecidedBy (Statement.clausesOfTrees policy ts) (ts.flatMap (seenLeaves policy)) := by
  induction ts with
  | nil =>
    rw [Statement.clausesOfTrees_nil]
    exact decidedBy_ok []
  | cons t ts ih =>
    rw [Statement.clausesOfTrees_cons_of_eq (hkind t List.mem_cons_self), List.flatMap_cons]
    refine (h t List.mem_cons_self).bind fun clause => ?_
    exact (ih (fun t ht => hkind t (List.mem_cons_of_mem _ ht))
      fun t ht => h t (List.mem_cons_of_mem _ ht)).map _

/-- What is to be shown of a tree of each role: the builder that takes it is
decided by the leaves that the policy sees in it. -/
def SyntaxTree.CodeRole.Decided (policy : LocalInitializers) : CodeRole → SyntaxTree → Prop
  | .statement, t => DecidedBy (Statement.ofTree policy t) (seenLeaves policy t)
  | .elseIf, t => DecidedBy (Statement.branchOfTree policy .block t) (seenLeaves policy t)
  | .elseClause, t => ∃ span text body, t = ⟨.elseClause, span, text, [body]⟩
      ∧ body.kind = .block ∧ DecidedBy (Block.ofTree policy body) (seenLeaves policy body)
  | .block, t => DecidedBy (Block.ofTree policy t) (seenLeaves policy t)
  | .item, t => ∀ {ts more}, DecidedBy (Block.ofTrees policy ts) more →
      DecidedBy (Block.ofTrees policy (t :: ts)) (seenItemLeaves policy t ++ more)

theorem decidedBy_items {items : List SyntaxTree}
    (h : ∀ i ∈ items, CodeRole.item.Decided policy i) :
    DecidedBy (Block.ofTrees policy items) (items.flatMap (seenItemLeaves policy)) := by
  induction items with
  | nil =>
    rw [Block.ofTrees_nil]
    exact decidedBy_ok _
  | cons i items ih =>
    rw [List.flatMap_cons]
    exact h i List.mem_cons_self (ih fun i hi => h i (List.mem_cons_of_mem _ hi))

/-- **A conditional is decided by its leaves**, as its parts are. -/
theorem decided_ifStmt (span : Span) (text : String) {cond body : SyntaxTree}
    {clauses : List SyntaxTree} (last : Option SyntaxTree) (hcond : IsExpression cond)
    (hbody : IsCode .block body) (hclauses : ∀ c ∈ clauses, IsCode .elseIf c)
    (ihbody : CodeRole.block.Decided policy body)
    (ihclauses : ∀ c ∈ clauses, CodeRole.elseIf.Decided policy c)
    (ihlast : ∀ c ∈ last, CodeRole.elseClause.Decided policy c) :
    CodeRole.statement.Decided policy
      ⟨.ifStmt, span, text, cond :: body :: (clauses ++ last.toList)⟩ := by
  -- The builder looks for the clauses by kind; that is the order in which they stand.
  have hkinds := fun c hc => (hclauses c hc).kind_elseIf
  show DecidedBy _ _
  rw [seenLeaves_node (by decide), List.flatMap_cons, List.flatMap_cons,
    List.flatMap_append, seenLeaves_expression hcond]
  cases last with
  | none =>
    rw [Option.toList_none, List.append_nil,
      Statement.ofTree_if hcond.isExpression_kind hbody.kind_block hkinds]
    refine (decidedBy_expression hcond).bind fun cond => ?_
    refine DecidedBy.bind ihbody fun body => ?_
    rw [List.flatMap_nil, List.append_nil]
    exact (decidedBy_clauses hkinds ihclauses).map _
  | some clause =>
    obtain ⟨lastSpan, lastText, last, rfl, hkind, hlast⟩ := ihlast clause rfl
    rw [Option.toList_some, Statement.ofTree_ifElse hcond.isExpression_kind hbody.kind_block
      hkinds lastSpan lastText hkind]
    refine (decidedBy_expression hcond).bind fun cond => ?_
    refine DecidedBy.bind ihbody fun body => ?_
    refine (decidedBy_clauses hkinds ihclauses).bind fun clauses => ?_
    rw [List.flatMap_singleton, seenLeaves_node (by decide),
      List.flatMap_singleton]
    exact hlast.map _

/-- **Code is decided by its leaves.** -/
theorem decided_code {role : CodeRole} {t : SyntaxTree} (h : IsCode role t) :
    role.Decided policy t := by
  induction h with
  | assign span text hname hvalue =>
    show DecidedBy _ _
    rw [Statement.ofTree_assign hname.kind_eq hvalue.isExpression_kind,
      seenLeaves_node (by decide), List.flatMap_cons,
      List.flatMap_singleton, seenLeaves_name hname, seenLeaves_expression hvalue]
    exact (decidedBy_expression hvalue).map _
  | ifStmt span text last hcond hbody hclauses _ ihbody ihclauses ihlast =>
    exact decided_ifStmt span text last hcond hbody hclauses ihbody ihclauses ihlast
  | whileStmt span text hcond hbody ih =>
    show DecidedBy _ _
    rw [Statement.ofTree_while hcond.isExpression_kind hbody.kind_block,
      seenLeaves_node (by decide), List.flatMap_cons,
      List.flatMap_singleton, seenLeaves_expression hcond]
    refine (decidedBy_expression hcond).bind fun cond => ?_
    exact DecidedBy.map ih _
  | returnVoid span text =>
    show DecidedBy _ _
    rw [Statement.ofTree_returnVoid, seenLeaves_node (by decide)]
    exact decidedBy_ok _
  | returnValue span text hvalue =>
    show DecidedBy _ _
    rw [Statement.ofTree_returnValue hvalue.isExpression_kind,
      seenLeaves_node (by decide), List.flatMap_singleton,
      seenLeaves_expression hvalue]
    exact (decidedBy_expression hvalue).map _
  | breakStmt span text =>
    show DecidedBy _ _
    rw [Statement.ofTree_break, seenLeaves_node (by decide)]
    exact decidedBy_ok _
  | continueStmt span text =>
    show DecidedBy _ _
    rw [Statement.ofTree_continue, seenLeaves_node (by decide)]
    exact decidedBy_ok _
  | elseIf span text hcond hbody ih =>
    show DecidedBy _ _
    rw [Statement.branchOfTree_cons .elseIfClause .block hcond.isExpression_kind hbody.kind_block,
      seenLeaves_node (by decide), List.flatMap_cons,
      List.flatMap_singleton, seenLeaves_expression hcond]
    refine (decidedBy_expression hcond).bind fun cond => ?_
    exact DecidedBy.map ih _
  | elseClause span text hbody ih => exact ⟨span, text, _, rfl, hbody.kind_block, ih⟩
  | block span text _ ih =>
    show DecidedBy _ _
    rw [Block.ofTree_block, seenLeaves_block]
    exact decidedBy_items ih
  | variableItem h =>
    intro ts more hmore
    rw [Block.ofTrees_cons_variable h.kind_eq]
    refine (decidedBy_local h).bind fun v => ?_
    exact hmore.map _
  | @statementItem t h ih =>
    intro ts more hmore
    have hkind : t.kind ≠ .varDecl := by
      intro hk
      simpa [hk, NodeKind.isStatement] using h.isStatement_kind
    rw [Block.ofTrees_cons_statement h.isStatement_kind, seenItemLeaves_statement hkind]
    refine DecidedBy.bind ih fun s => ?_
    exact hmore.map _

/-! ## Functions and programs -/

theorem mapM_ofParamTree_eq_ok {ts : List SyntaxTree} (h : ∀ t ∈ ts, IsParam t) :
    ∃ params, ts.mapM Variable.ofParamTree = .ok params := by
  induction ts with
  | nil => exact ⟨[], rfl⟩
  | cons t ts ih =>
    obtain ⟨params, hparams⟩ := ih fun t ht => h t (List.mem_cons_of_mem _ ht)
    obtain ⟨span, text, htype, hname⟩ := h t List.mem_cons_self
    obtain ⟨type, hok⟩ := typeName_ofTree_eq_ok htype
    rw [List.mapM_cons, Variable.ofParamTree_param htype.kind_eq hname.kind_eq, hok, hparams]
    exact ⟨_, rfl⟩

theorem seenLeaves_paramList {t : SyntaxTree} (h : IsListOf .paramList IsParam t) :
    seenLeaves policy t = [] := by
  obtain ⟨span, text, hts⟩ := h
  rw [seenLeaves_node (by decide), List.flatMap_eq_nil_iff]
  intro t ht
  obtain ⟨span, text, htype, hname⟩ := hts t ht
  rw [seenLeaves_node (by decide), List.flatMap_cons,
    List.flatMap_singleton, seenLeaves_type policy htype, seenLeaves_name hname]
  rfl

/-- **A function is decided by the leaves of its body**; what stands before the
body always has a meaning. -/
theorem decidedBy_function {t : SyntaxTree} (h : IsFunction t) :
    DecidedBy (Function.ofTree policy t) (seenLeaves policy t) := by
  cases h with
  | @intro span text type name body params htype hname hparams hbody =>
    obtain ⟨returnType, hok⟩ := typeName_ofTree_eq_ok htype
    -- Parameters cannot offend, whether there is a list of them or not.
    have hhead : (params.toList.flatMap (seenLeaves policy)) = []
        ∧ ∃ ps, (paramTrees params).mapM Variable.ofParamTree = .ok ps := by
      cases params with
      | none => exact ⟨rfl, [], rfl⟩
      | some l =>
        have hlist := hparams l rfl
        rw [Option.toList_some, List.flatMap_singleton]
        refine ⟨seenLeaves_paramList hlist, ?_⟩
        obtain ⟨span, text, hts⟩ := hlist
        exact mapM_ofParamTree_eq_ok hts
    obtain ⟨hleaves, ps, hps⟩ := hhead
    rw [Function.ofTree_funcDecl htype.kind_eq hname.kind_eq (fun l hl => (hparams l hl).kind_eq)
      hbody.kind_block, hok, hps, seenLeaves_node (by decide),
      List.flatMap_cons, List.flatMap_cons, List.flatMap_append, List.flatMap_singleton,
      seenLeaves_type policy htype, seenLeaves_name hname, hleaves]
    exact DecidedBy.map (decided_code hbody) _

/-- **A program is decided by the leaves that the policy sees in it.** -/
theorem decidedBy_program {t : SyntaxTree} (h : IsListOf .program IsDeclaration t) :
    DecidedBy (Program.ofTree policy t) (seenLeaves policy t) := by
  obtain ⟨span, text, hts⟩ := h
  rw [Program.ofTree_program, seenLeaves_node (by decide)]
  clear span text
  rename_i ts
  induction ts with
  | nil => exact decidedBy_ok _
  | cons t ts ih =>
    have hmore := ih fun t ht => hts t (List.mem_cons_of_mem _ ht)
    rw [List.flatMap_cons]
    rcases hts t List.mem_cons_self with ht | ht
    · rw [Program.ofTrees_cons_variable ht.kind_eq]
      refine (decidedBy_variable ht).bind fun v => ?_
      exact hmore.map _
    · rw [Program.ofTrees_cons_function ht.kind_eq]
      refine (decidedBy_function ht).bind fun f => ?_
      exact hmore.map _

/-- **The first offence is what is reported, and nothing else ever is.** If the
source parses, the leaves that the builder looks at are cut from the source in
its order, and they alone decide the result: the error of the first leaf that
has one, and a value if there is none. -/
theorem SyntaxTree.build_decidedBy_leaves (source : String) (policy : LocalInitializers)
    (tree : SyntaxTree) :
    (SyntaxTree.parse .program source = .ok tree →
        DecidedBy (Program.ofTree policy tree) (policy.view tree).checkedLeaves
          ∧ CutFrom source (policy.view tree).checkedLeaves)
      ∧ (SyntaxTree.parse .statement source = .ok tree →
        DecidedBy (Statement.ofTree policy tree) (policy.view tree).checkedLeaves
          ∧ CutFrom source (policy.view tree).checkedLeaves)
      ∧ (SyntaxTree.parse .expression source = .ok tree →
        DecidedBy (Expression.ofTree tree) tree.checkedLeaves
          ∧ CutFrom source tree.checkedLeaves) := by
  refine ⟨fun h => ?_, fun h => ?_, fun h => ?_⟩
  · exact ⟨decidedBy_program (isTree_of_parse h), cutFrom_of_parse policy h⟩
  · exact ⟨decided_code (isTree_of_parse h), cutFrom_of_parse policy h⟩
  · exact ⟨decidedBy_expression (isTree_of_parse h), cutFrom_of_parse .keep h⟩

/-- An offence in a local initializer does not count if the initializer is
discarded; the first that counts is reported. -/
theorem SyntaxTree.build_reports_first_offence :
    (∃ tree, SyntaxTree.parse .program "void f(){int a=1/2;return 3%4;}" = .ok tree
        ∧ Program.ofTree .discard tree = .error ⟨⟨27, 28⟩, .unsupportedOperator "%"⟩)
      ∧ (∃ tree, SyntaxTree.parse .statement "a=2147483648<1;" = .ok tree
        ∧ Statement.ofTree .keep tree
            = .error ⟨⟨2, 12⟩, .malformedLiteral .int "2147483648"⟩)
      ∧ ∃ tree, SyntaxTree.parse .expression "f(2147483647)" = .ok tree
        ∧ ∃ e, Expression.ofTree tree = .ok e := by
  refine ⟨?_, ?_, ?_⟩
  · have hfirst : ((SyntaxTree.parse .program "void f(){int a=1/2;return 3%4;}").toOption.map
        fun t => (LocalInitializers.discard.view t).checkedLeaves.findSome? offence?)
          = some (some ⟨⟨27, 28⟩, .unsupportedOperator "%"⟩) := by decide +kernel
    obtain ⟨tree, hparse, hfirst⟩ := exists_of_toOption_map hfirst
    have hdecided := ((build_decidedBy_leaves _ .discard tree).1 hparse).1
    rw [DecidedBy, hfirst] at hdecided
    exact ⟨tree, hparse, hdecided⟩
  · have hfirst : ((SyntaxTree.parse .statement "a=2147483648<1;").toOption.map
        fun t => (LocalInitializers.keep.view t).checkedLeaves.findSome? offence?)
          = some (some ⟨⟨2, 12⟩, .malformedLiteral .int "2147483648"⟩) := by decide +kernel
    obtain ⟨tree, hparse, hfirst⟩ := exists_of_toOption_map hfirst
    have hdecided := ((build_decidedBy_leaves _ .keep tree).2.1 hparse).1
    rw [DecidedBy, hfirst] at hdecided
    exact ⟨tree, hparse, hdecided⟩
  · have hfirst : ((SyntaxTree.parse .expression "f(2147483647)").toOption.map
        fun t => t.checkedLeaves.findSome? offence?) = some none := by decide +kernel
    obtain ⟨tree, hparse, hfirst⟩ := exists_of_toOption_map hfirst
    have hdecided := ((build_decidedBy_leaves _ .keep tree).2.2 hparse).1
    rw [DecidedBy, hfirst] at hdecided
    exact ⟨tree, hparse, hdecided⟩

end ImpFront
