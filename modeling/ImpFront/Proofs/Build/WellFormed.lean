import ImpFront.Proofs.Ast.WellFormed
import ImpFront.Proofs.Build.Equations
import ImpFront.Proofs.Number.Decimal
import ImpFront.Proofs.SyntaxTree.Leaves

/-!
# Whatever is read is well-formed

The lexer lets no other names through than words that are not reserved, and no
integers with a sign; the grammar gives no initializers to parameters. So a
program that comes from a source is well-formed, whatever becomes of the
initializers of its locals (`Program.wellFormed_of_parse`).

The argument goes through the building steps in the manner of a postcondition:
`Ensures r p` says that a value of `r`, if there is one, has the property `p`.
-/

namespace ImpFront

open SyntaxTree

/-- **Every value that the result can have has the property.** -/
def Ensures {α : Type} (r : Except BuildError α) (p : α → Prop) : Prop := ∀ a, r = .ok a → p a

section Ensures

variable {α β : Type} {r : Except BuildError α} {p : α → Prop} {q : β → Prop}

theorem ensures_ok {a : α} (h : p a) : Ensures (.ok a) p := by
  rintro b ⟨⟩
  exact h

theorem ensures_error (e : BuildError) : Ensures (.error e) p := by
  rintro b ⟨⟩

theorem ensures_true (r : Except BuildError α) : Ensures r fun _ => True := fun _ _ => trivial

/-- One step after another: the second may rely on what the first ensures. -/
theorem Ensures.bind {f : α → Except BuildError β} (hr : Ensures r p)
    (hf : ∀ a, p a → Ensures (f a) q) : Ensures (r >>= f) q := by
  intro b hb
  cases r with
  | error e => exact absurd hb (by rintro ⟨⟩)
  | ok a => exact hf a (hr a rfl) b hb

theorem Ensures.map (hr : Ensures r p) {f : α → β} (hf : ∀ a, p a → q (f a)) :
    Ensures (do let a ← r; return f a) q :=
  hr.bind fun a ha => ensures_ok (hf a ha)

end Ensures

/-! ## Leaves -/

/-- The text of a name is an identifier. -/
theorem SyntaxTree.IsLeaf.isIdentifier {name : SyntaxTree} (h : IsName name) :
    IsIdentifier name.text := by
  obtain ⟨span, text, hmem, hspells⟩ := h
  obtain rfl := List.mem_singleton.mp hmem
  exact spells_ident_iff.mp hspells

theorem ensures_int {t : SyntaxTree} (h : IsLeaf .intLiteral [.intLiteral] t) :
    Ensures (intOfTree t) fun n => 0 ≤ n.toInt := by
  obtain ⟨span, text, hmem, hspells⟩ := h
  obtain rfl := List.mem_singleton.mp hmem
  obtain ⟨hne, hdigits⟩ := hspells
  have hread := Decimal.readInt32?_of_digits hne hdigits
  by_cases hsmall : Decimal.value text.toList ≤ 2147483647
  · rw [if_pos hsmall] at hread
    rw [intOfTree_of_some (t := leaf .intLiteral span text) hread]
    refine ensures_ok ?_
    rw [Int32.toInt_ofInt_of_le (by omega) (by omega)]
    exact Int.natCast_nonneg _
  · rw [if_neg hsmall] at hread
    rw [intOfTree_of_none (t := leaf .intLiteral span text) hread]
    exact ensures_error _

/-! ## Expressions -/

theorem ensures_expressions {ts : List SyntaxTree}
    (h : ∀ t ∈ ts, Ensures (Expression.ofTree t) Expression.WellFormed) :
    Ensures (Expression.ofTrees ts) fun es => ∀ e ∈ es, e.WellFormed := by
  induction ts with
  | nil =>
    rw [Expression.ofTrees_nil]
    exact ensures_ok (by simp)
  | cons t ts ih =>
    rw [Expression.ofTrees_cons]
    refine (h t List.mem_cons_self).bind fun e he => ?_
    refine (ih fun t ht => h t (List.mem_cons_of_mem _ ht)).map fun es hes => ?_
    exact List.forall_mem_cons.mpr ⟨he, hes⟩

/-- **The expression of a tree is well-formed.** -/
theorem ensures_expression {t : SyntaxTree} (h : IsExpression t) :
    Ensures (Expression.ofTree t) Expression.WellFormed := by
  induction h with
  | intLiteral h =>
    obtain ⟨span, text, hmem, hspells⟩ := h
    rw [Expression.ofTree_intLiteral]
    exact (ensures_int ⟨span, text, hmem, hspells⟩).map fun n hn => .intConstant hn
  | boolLiteral h =>
    obtain ⟨span, text, -, -⟩ := h
    rw [Expression.ofTree_boolLiteral]
    exact (ensures_true _).map fun b _ => .boolConstant b
  | location span text hname =>
    rw [Expression.ofTree_location hname.kind_eq]
    exact ensures_ok (.location hname.isIdentifier)
  | callEmpty span text hname =>
    rw [Expression.ofTree_callEmpty hname.kind_eq]
    exact ensures_ok (.call hname.isIdentifier (by simp))
  | call span text listSpan listText hname _ ih =>
    rw [Expression.ofTree_call hname.kind_eq]
    exact (ensures_expressions ih).map fun es hes => .call hname.isIdentifier hes
  | group span text hinner ih =>
    rw [Expression.ofTree_group hinner.isExpression_kind]
    exact ih
  | binary span text l _ _ _ ihleft ihright =>
    rw [Expression.ofTree_binary]
    refine ihleft.bind fun left hleft => ?_
    -- Every operator will do.
    refine (ensures_true _).bind fun op _ => ?_
    exact ihright.map fun right hright => .binary op hleft hright

/-! ## Variables -/

/-- **The variable of a declaration is well-formed**, whether its initializer is
kept or not. -/
theorem ensures_variable (keep : Bool) {t : SyntaxTree} (h : IsVariable t) :
    Ensures (Variable.ofTree keep t) Variable.WellFormed := by
  cases h with
  | plain span text htype hname =>
    rw [Variable.ofTree_plain keep htype.kind_eq hname.kind_eq]
    exact (ensures_true _).map fun type _ => ⟨hname.isIdentifier, by simp⟩
  | initialized span text htype hname hvalue =>
    rw [Variable.ofTree_initialized keep htype.kind_eq hname.kind_eq hvalue.isExpression_kind]
    refine (ensures_true _).bind fun type _ => ?_
    cases keep with
    | true =>
      refine (ensures_expression hvalue).map fun e he => ⟨hname.isIdentifier, ?_⟩
      rintro e ⟨⟩
      exact he
    | false => exact ensures_ok ⟨hname.isIdentifier, by simp⟩

/-- A parameter has a name and no initializer. -/
theorem ensures_param {t : SyntaxTree} (h : IsParam t) :
    Ensures (Variable.ofParamTree t) fun v => IsIdentifier v.name ∧ v.initializer = none := by
  obtain ⟨span, text, htype, hname⟩ := h
  rw [Variable.ofParamTree_param htype.kind_eq hname.kind_eq]
  exact (ensures_true _).map fun type _ => ⟨hname.isIdentifier, rfl⟩

theorem ensures_params {ts : List SyntaxTree} (h : ∀ t ∈ ts, IsParam t) :
    Ensures (ts.mapM Variable.ofParamTree)
      fun vs => ∀ v ∈ vs, IsIdentifier v.name ∧ v.initializer = none := by
  induction ts with
  | nil => exact ensures_ok (by simp)
  | cons t ts ih =>
    rw [List.mapM_cons]
    refine (ensures_param (h t List.mem_cons_self)).bind fun v hv => ?_
    refine (ih fun t ht => h t (List.mem_cons_of_mem _ ht)).map fun vs hvs => ?_
    exact List.forall_mem_cons.mpr ⟨hv, hvs⟩

/-! ## Code -/

variable {policy : LocalInitializers}

/-- A chain of clauses is well-formed if all its parts are. -/
theorem Statement.wellFormed_ifChain {cond : Expression} {body last : Block}
    {clauses : List (Expression × Block)} (hcond : cond.WellFormed) (hbody : body.WellFormed)
    (hclauses : ∀ c ∈ clauses, c.1.WellFormed ∧ c.2.WellFormed) (hlast : last.WellFormed) :
    (ifChain cond body clauses last).WellFormed := by
  rw [ifChain, Statement.WellFormed]
  refine ⟨hcond, hbody, ?_⟩
  clear hcond hbody
  -- By induction from the last clause: the rest of the chain is the `else` of this one.
  induction clauses with
  | nil => exact hlast
  | cons c cs ih =>
    have hrest := ih fun c hc => hclauses c (List.mem_cons_of_mem _ hc)
    rw [List.foldr_cons, Block.WellFormed, AllWellFormed, Statement.WellFormed, AllWellFormed]
    obtain ⟨hcond, hbody⟩ := hclauses c List.mem_cons_self
    exact ⟨by simp, ⟨hcond, hbody, hrest⟩, trivial⟩

theorem Block.wellFormed_empty : Block.empty.WellFormed := by
  rw [Block.empty, Block.WellFormed, Statement.AllWellFormed]
  exact ⟨by simp, trivial⟩

theorem Block.WellFormed.addLocal {b : Block} (h : b.WellFormed) {v : Variable}
    (hv : v.WellFormed) : (b.addLocal v).WellFormed := by
  obtain ⟨locals, statements⟩ := b
  rw [Block.WellFormed] at h
  rw [Block.addLocal, Block.WellFormed]
  exact ⟨List.forall_mem_cons.mpr ⟨hv, h.1⟩, h.2⟩

theorem Block.WellFormed.addStatement {b : Block} (h : b.WellFormed) {s : Statement}
    (hs : s.WellFormed) : (b.addStatement s).WellFormed := by
  obtain ⟨locals, statements⟩ := b
  rw [Block.WellFormed] at h
  rw [Block.addStatement, Block.WellFormed, Statement.AllWellFormed]
  exact ⟨h.1, hs, h.2⟩

theorem ensures_clauses {ts : List SyntaxTree} (hkind : ∀ t ∈ ts, t.kind = .elseIfClause)
    (h : ∀ t ∈ ts, Ensures (Statement.branchOfTree policy .block t)
      fun c => c.1.WellFormed ∧ c.2.WellFormed) :
    Ensures (Statement.clausesOfTrees policy ts)
      fun cs => ∀ c ∈ cs, c.1.WellFormed ∧ c.2.WellFormed := by
  induction ts with
  | nil =>
    rw [Statement.clausesOfTrees_nil]
    exact ensures_ok (by simp)
  | cons t ts ih =>
    rw [Statement.clausesOfTrees_cons_of_eq (hkind t List.mem_cons_self)]
    refine (h t List.mem_cons_self).bind fun c hc => ?_
    refine (ih (fun t ht => hkind t (List.mem_cons_of_mem _ ht))
      fun t ht => h t (List.mem_cons_of_mem _ ht)).map fun cs hcs => ?_
    exact List.forall_mem_cons.mpr ⟨hc, hcs⟩

/-- What is to be shown of a tree of each role: what the builder makes of it is
well-formed. -/
def SyntaxTree.CodeRole.Sound (policy : LocalInitializers) : CodeRole → SyntaxTree → Prop
  | .statement, t => Ensures (Statement.ofTree policy t) Statement.WellFormed
  | .elseIf, t => Ensures (Statement.branchOfTree policy .block t)
      fun c => c.1.WellFormed ∧ c.2.WellFormed
  | .elseClause, t => ∃ span text body, t = ⟨.elseClause, span, text, [body]⟩
      ∧ body.kind = .block ∧ Ensures (Block.ofTree policy body) Block.WellFormed
  | .block, t => Ensures (Block.ofTree policy t) Block.WellFormed
  | .item, t => ∀ {ts}, Ensures (Block.ofTrees policy ts) Block.WellFormed →
      Ensures (Block.ofTrees policy (t :: ts)) Block.WellFormed

theorem ensures_items {items : List SyntaxTree} (h : ∀ i ∈ items, CodeRole.item.Sound policy i) :
    Ensures (Block.ofTrees policy items) Block.WellFormed := by
  induction items with
  | nil =>
    rw [Block.ofTrees_nil]
    exact ensures_ok Block.wellFormed_empty
  | cons i items ih => exact h i List.mem_cons_self (ih fun i hi => h i (List.mem_cons_of_mem _ hi))

/-- **What the builder makes of a conditional is well-formed**, if its parts are. -/
theorem sound_ifStmt (span : Span) (text : String) {cond body : SyntaxTree}
    {clauses : List SyntaxTree} (last : Option SyntaxTree) (hcond : IsExpression cond)
    (hbody : IsCode .block body) (hclauses : ∀ c ∈ clauses, IsCode .elseIf c)
    (ihbody : CodeRole.block.Sound policy body)
    (ihclauses : ∀ c ∈ clauses, CodeRole.elseIf.Sound policy c)
    (ihlast : ∀ c ∈ last, CodeRole.elseClause.Sound policy c) :
    CodeRole.statement.Sound policy
      ⟨.ifStmt, span, text, cond :: body :: (clauses ++ last.toList)⟩ := by
  have hkinds := fun c hc => (hclauses c hc).kind_elseIf
  show Ensures _ _
  cases last with
  | none =>
    rw [Option.toList_none, List.append_nil,
      Statement.ofTree_if hcond.isExpression_kind hbody.kind_block hkinds]
    refine (ensures_expression hcond).bind fun cond hcond => ?_
    refine Ensures.bind ihbody fun body hbody => ?_
    refine (ensures_clauses hkinds ihclauses).map fun clauses hclauses => ?_
    exact Statement.wellFormed_ifChain hcond hbody hclauses Block.wellFormed_empty
  | some clause =>
    obtain ⟨lastSpan, lastText, last, rfl, hkind, hlast⟩ := ihlast clause rfl
    rw [Option.toList_some, Statement.ofTree_ifElse hcond.isExpression_kind hbody.kind_block
      hkinds lastSpan lastText hkind]
    refine (ensures_expression hcond).bind fun cond hcond => ?_
    refine Ensures.bind ihbody fun body hbody => ?_
    refine (ensures_clauses hkinds ihclauses).bind fun clauses hclauses => ?_
    exact hlast.map fun last hlast => Statement.wellFormed_ifChain hcond hbody hclauses hlast

/-- **What the builder makes of code is well-formed.** -/
theorem sound_code {role : CodeRole} {t : SyntaxTree} (h : IsCode role t) :
    role.Sound policy t := by
  induction h with
  | assign span text hname hvalue =>
    show Ensures _ _
    rw [Statement.ofTree_assign hname.kind_eq hvalue.isExpression_kind]
    refine (ensures_expression hvalue).map fun value hvalue => ?_
    rw [Statement.WellFormed]
    exact ⟨hname.isIdentifier, hvalue⟩
  | ifStmt span text last hcond hbody hclauses _ ihbody ihclauses ihlast =>
    exact sound_ifStmt span text last hcond hbody hclauses ihbody ihclauses ihlast
  | whileStmt span text hcond hbody ih =>
    show Ensures _ _
    rw [Statement.ofTree_while hcond.isExpression_kind hbody.kind_block]
    refine (ensures_expression hcond).bind fun cond hcond => ?_
    refine Ensures.map ih fun body hbody => ?_
    rw [Statement.WellFormed]
    exact ⟨hcond, hbody⟩
  | returnVoid span text =>
    show Ensures _ _
    rw [Statement.ofTree_returnVoid]
    exact ensures_ok (by simp [Statement.WellFormed])
  | returnValue span text hvalue =>
    show Ensures _ _
    rw [Statement.ofTree_returnValue hvalue.isExpression_kind]
    refine (ensures_expression hvalue).map fun value hvalue => ?_
    rwa [Statement.WellFormed]
  | breakStmt span text =>
    show Ensures _ _
    rw [Statement.ofTree_break]
    exact ensures_ok (by simp [Statement.WellFormed])
  | continueStmt span text =>
    show Ensures _ _
    rw [Statement.ofTree_continue]
    exact ensures_ok (by simp [Statement.WellFormed])
  | elseIf span text hcond hbody ih =>
    show Ensures _ _
    rw [Statement.branchOfTree_cons .elseIfClause .block hcond.isExpression_kind hbody.kind_block]
    refine (ensures_expression hcond).bind fun cond hcond => ?_
    exact Ensures.map ih fun body hbody => ⟨hcond, hbody⟩
  | elseClause span text hbody ih => exact ⟨span, text, _, rfl, hbody.kind_block, ih⟩
  | block span text _ ih =>
    show Ensures _ _
    rw [Block.ofTree_block]
    exact ensures_items ih
  | variableItem h =>
    intro ts hmore
    rw [Block.ofTrees_cons_variable h.kind_eq]
    refine (ensures_variable _ h).bind fun v hv => ?_
    exact hmore.map fun b hb => hb.addLocal hv
  | statementItem h ih =>
    intro ts hmore
    rw [Block.ofTrees_cons_statement h.isStatement_kind]
    refine Ensures.bind ih fun s hs => ?_
    exact hmore.map fun b hb => hb.addStatement hs

/-- **A statement that comes from a source is well-formed.** -/
theorem Statement.wellFormed_of_parse {source : String} {s : Statement}
    (h : Statement.parse source = .ok s) : s.WellFormed := by
  obtain ⟨tree, htree, hbuild⟩ := readSource_eq_ok.mp h
  have hcode : IsCode .statement tree := isTree_of_parse htree
  exact sound_code hcode s hbuild

/-! ## Functions and programs -/

theorem ensures_function {t : SyntaxTree} (h : IsFunction t) :
    Ensures (Function.ofTree policy t) Function.WellFormed := by
  cases h with
  | @intro span text type name body params htype hname hparams hbody =>
    have hlist : Ensures ((paramTrees params).mapM Variable.ofParamTree)
        fun vs => ∀ v ∈ vs, IsIdentifier v.name ∧ v.initializer = none := by
      cases params with
      | none =>
        have hnone : ∀ t ∈ ([] : List SyntaxTree), IsParam t := by simp
        exact ensures_params hnone
      | some l =>
        obtain ⟨span, text, hts⟩ := hparams l rfl
        exact ensures_params hts
    rw [Function.ofTree_funcDecl htype.kind_eq hname.kind_eq (fun l hl => (hparams l hl).kind_eq)
      hbody.kind_block]
    refine (ensures_true _).bind fun returnType _ => ?_
    refine hlist.bind fun params hparams => ?_
    exact Ensures.map (sound_code hbody) fun body hbody => ⟨hname.isIdentifier, hparams, hbody⟩

theorem ensures_declarations {ts : List SyntaxTree} (h : ∀ t ∈ ts, IsDeclaration t) :
    Ensures (Program.ofTrees policy ts) Program.WellFormed := by
  induction ts with
  | nil =>
    rw [Program.ofTrees_nil]
    exact ensures_ok ⟨by simp, by simp⟩
  | cons t ts ih =>
    have hmore := ih fun t ht => h t (List.mem_cons_of_mem _ ht)
    rcases h t List.mem_cons_self with ht | ht
    · rw [Program.ofTrees_cons_variable ht.kind_eq]
      refine (ensures_variable true ht).bind fun v hv => ?_
      exact hmore.map fun p hp => ⟨List.forall_mem_cons.mpr ⟨hv, hp.globals⟩, hp.functions⟩
    · rw [Program.ofTrees_cons_function ht.kind_eq]
      refine (ensures_function ht).bind fun f hf => ?_
      exact hmore.map fun p hp => ⟨hp.globals, List.forall_mem_cons.mpr ⟨hf, hp.functions⟩⟩

/-- **A program that comes from a source is well-formed.** -/
theorem Program.wellFormed_of_parse {source : String} {p : Program}
    (h : Program.parse policy source = .ok p) : p.WellFormed := by
  obtain ⟨tree, htree, hbuild⟩ := readSource_eq_ok.mp h
  have hsound : Ensures (Program.ofTree policy tree) Program.WellFormed := by
    obtain ⟨span, text, hts⟩ := isTree_of_parse htree
    rw [Program.ofTree_program]
    exact ensures_declarations hts
  exact hsound p hbuild

end ImpFront
