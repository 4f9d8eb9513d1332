import ImpFront.Proofs.Build.WellFormed
import ImpFront.Proofs.Printing.Expression
import ImpFront.Proofs.Printing.Source

/-!
# Printing a program and reading it back

What `Printing.Expression` does for expressions is done here for the rest of the
language, in the same two steps: the items of a program are derivable, and the
tree of the derivation means the program. Nothing has to be said about what the
reader might have made of the items instead, since it accepts exactly the
grammar.

Together with the fact that whatever is read is well-formed this says which
programs there are for a reader: **the well-formed ones, and all of them**.
-/

namespace ImpFront

open Ebnf SyntaxTree

variable {source : List Char} {size : Nat} {ts : List Lexeme}

/-- **The lexemes stand for a value**: the nonterminal derives them with a tree
that means it. -/
def StandsFor {α : Type} (source : List Char) (size : Nat) (n : Nonterminal)
    (build : SyntaxTree → Except BuildError α) (ts : List Lexeme) (a : α) : Prop :=
  ∃ t, Derives size (.rule n) ts [t] ∧ build (ofShape source t) = .ok a

/-- **The lexemes stand for several values** that are read together: any number
of items derive them, with trees that mean what they come to. -/
def StandForAll {β : Type} (source : List Char) (size : Nat) (item : Form)
    (build : List SyntaxTree → Except BuildError β) (ts : List Lexeme) (b : β) : Prop :=
  ∃ trees, Derives size (.repeated item) ts trees ∧ build (ofShapes source trees) = .ok b

theorem standForAll_nil {β : Type} {item : Form} {build : List SyntaxTree → Except BuildError β}
    {b : β} (hts : Carries source ts []) (hbuild : build [] = .ok b) :
    StandForAll source size item build ts b := by
  obtain rfl := carries_nil.mp hts
  exact ⟨[], .done _, by rwa [ofShapes]⟩

/-- One more item in front. -/
theorem StandForAll.cons {β : Type} {item : Form} {build : List SyntaxTree → Except BuildError β}
    {us vs : List Lexeme} {t : TreeShape} {b c : β} (ht : Derives size item us [t])
    (h : StandForAll source size item build vs b)
    (hbuild : ∀ more, build more = .ok b → build (ofShape source t :: more) = .ok c) :
    StandForAll source size item build (us ++ vs) c := by
  obtain ⟨trees, htrees, hmore⟩ := h
  refine ⟨t :: trees, .again ht htrees, ?_⟩
  rw [ofShapes]
  exact hbuild _ hmore

/-- The kind of a tree is that of its nonterminal. -/
theorem Ebnf.Derives.kind_eq {n : Nonterminal} {kind : NodeKind} {t : TreeShape}
    (h : Derives size (.rule n) ts [t]) (hn : n.nodeKind? = some kind) : t.kind = kind := by
  obtain ⟨parts, -, ht⟩ := derives_rule.mp h
  simp only [Nonterminal.assemble, hn] at ht
  rw [List.singleton_inj.mp ht]

theorem Ebnf.Derives.isStatement_kind {t : TreeShape}
    (h : Derives size (.rule .statement) ts [t]) : t.kind.isStatement = true := by
  obtain ⟨parts, hparts, ht⟩ := derives_rule.mp h
  obtain rfl : [t] = parts := ht
  simp only [production, derives_orElse] at hparts
  rcases hparts with h | h | h | h | h | h <;>
  · rw [h.kind_eq rfl]
    rfl

/-! ## Types and names -/

theorem standsFor_type (type : TypeName) (span : Span) :
    StandsFor source size .type TypeName.ofTree [⟨.keyword type.keyword, span⟩] type := by
  cases type with
  | int => exact ⟨_, .rule .type (.left _ (.only _ _ span)), TypeName.ofTree_type rfl⟩
  | bool => exact ⟨_, .rule .type (.right _ (.left _ (.only _ _ span))), TypeName.ofTree_type rfl⟩
  | void => exact ⟨_, .rule .type (.right _ (.right _ (.only _ _ span))), TypeName.ofTree_type rfl⟩

/-- A type and a name are what every declaration starts with. -/
theorem derives_head (size : Nat) {type : TypeName} {name : String} {items : List Item}
    (hts : Carries source ts (type.keyword.item :: nameItem name :: items)) :
    ∃ us vs t span, ts = us ++ vs ∧ Carries source vs items
      ∧ Derives size (.rule .type ++ .ident) us [t, ⟨.ident, span, []⟩]
      ∧ t.kind = .type ∧ TypeName.ofTree (ofShape source t) = .ok type
      ∧ slice source span = name.toList := by
  rw [Keyword.item, nameItem] at hts
  obtain ⟨wordSpan, _, rfl, -, hmore⟩ := carries_cons.mp hts
  obtain ⟨span, vs, rfl, hspan, hvs⟩ := carries_cons.mp hmore
  obtain ⟨t, ht, hbuild⟩ : StandsFor source size .type TypeName.ofTree _ type :=
    standsFor_type type wordSpan
  exact ⟨_, vs, t, span, rfl, hvs, ht.sequence (.ident span), ht.kind_eq rfl, hbuild, hspan⟩

/-- A semicolon ends declarations and simple statements. -/
theorem carries_ended {items : List Item}
    (hts : Carries source ts (items ++ [Symbol.semicolon.item])) :
    ∃ us closing, ts = us ++ [⟨.symbol .semicolon, closing⟩] ∧ Carries source us items := by
  rw [Symbol.item] at hts
  obtain ⟨us, _, rfl, hus, hclosing⟩ := carries_append.mp hts
  obtain ⟨closing, rfl, -⟩ := carries_singleton.mp hclosing
  exact ⟨us, closing, rfl, hus⟩

/-- Two lexemes make up a statement that is one word. -/
theorem carries_word {k : Keyword} (hts : Carries source ts [k.item, Symbol.semicolon.item]) :
    ∃ word closing, ts = [⟨.keyword k, word⟩] ++ [⟨.symbol .semicolon, closing⟩] := by
  rw [Keyword.item] at hts
  obtain ⟨word, _, rfl, -, hmore⟩ := carries_cons.mp hts
  rw [Symbol.item] at hmore
  obtain ⟨closing, rfl, -⟩ := carries_singleton.mp hmore
  exact ⟨word, closing, rfl⟩

/-! ## Variables -/

theorem standsFor_param {v : Variable} (hnone : v.initializer = none)
    (hts : Carries source ts v.items) :
    StandsFor source size .param Variable.ofParamTree ts v := by
  obtain ⟨name, type, initializer⟩ := v
  obtain rfl : initializer = none := hnone
  obtain ⟨us, vs, t, span, rfl, hvs, hhead, hkind, hbuild, hspan⟩ := derives_head size hts
  obtain rfl := carries_nil.mp hvs
  rw [List.append_nil]
  refine ⟨_, .rule .param hhead, ?_⟩
  rw [ofShape, ofShapes, ofShapes, ofShapes, ofShape_leaf hspan,
    Variable.ofParamTree_param (by rw [kind_ofShape, hkind]) rfl, hbuild]
  rfl

/-- **The items of a declaration stand for the variable.** -/
theorem standsFor_variable {v : Variable} (h : v.WellFormed)
    (hts : Carries source ts v.printItems) :
    StandsFor source size .varDecl (Variable.ofTree true) ts v := by
  obtain ⟨name, type, initializer⟩ := v
  obtain ⟨_, closing, rfl, hitems⟩ := carries_ended hts
  obtain ⟨us, vs, t, span, rfl, hvs, hhead, hkind, hbuild, hspan⟩ :=
    derives_head size hitems
  cases initializer with
  | none =>
    obtain rfl := carries_nil.mp hvs
    refine ⟨_, .rule .varDecl ((hhead.sequence (.absent _)).sequence
      (.mark .semicolon closing)), ?_⟩
    rw [ofShape]
    simp only [List.append_nil, ofShapes]
    rw [ofShape_leaf hspan, Variable.ofTree_plain true (by rw [kind_ofShape, hkind]) rfl, hbuild]
    rfl
  | some e =>
    rw [initializerItems, Symbol.item] at hvs
    obtain ⟨assign, ws, rfl, -, hws⟩ := carries_cons.mp hvs
    obtain ⟨value, hder, hvalue, hbuildValue⟩ :=
      (Expression.denotes size (h.initializer e rfl)).1 ws hws
    have hinitializer := (Derives.mark .assign assign).sequence hder
    refine ⟨_, .rule .varDecl ((hhead.sequence (.present hinitializer)).sequence
      (.mark .semicolon closing)), ?_⟩
    rw [ofShape]
    simp only [List.append_nil, List.nil_append, List.cons_append, ofShapes]
    rw [ofShape_leaf hspan, Variable.ofTree_initialized true (by rw [kind_ofShape, hkind]) rfl
      (by rw [kind_ofShape, hvalue]), hbuild, hbuildValue]
    rfl

/-! ## Statements and blocks -/

/-- **The items of a branch** derive its condition and its block. -/
theorem derives_branch (k : Keyword) {cond : Expression} {body : Block} (hcond : cond.WellFormed)
    (hbody : ∀ us, Carries source us body.items →
      StandsFor source size .block (Block.ofTree .keep) us body)
    (hts : Carries source ts (branchItems k cond.items body.items)) :
    ∃ c b, Derives size (.word k ++ .mark .openParen ++ .rule .expr ++ .mark .closeParen
        ++ .rule .block) ts [c, b]
      ∧ (ofShape source c).kind.isExpression = true ∧ (ofShape source b).kind = .block
      ∧ Expression.ofTree (ofShape source c) = .ok cond
      ∧ Block.ofTree .keep (ofShape source b) = .ok body := by
  rw [branchItems, Keyword.item] at hts
  obtain ⟨word, _, rfl, -, hmore⟩ := carries_cons.mp hts
  obtain ⟨_, vs, rfl, hparens, hvs⟩ := carries_append.mp hmore
  obtain ⟨opening, us, closing, rfl, -, -, hus⟩ := carries_parens.mp hparens
  obtain ⟨c, hc, hkind, hbuildCond⟩ := (Expression.denotes size hcond).1 us hus
  obtain ⟨b, hb, hbuildBody⟩ := hbody vs hvs
  refine ⟨c, b, ?_, by rw [kind_ofShape, hkind], by rw [kind_ofShape, hb.kind_eq rfl], hbuildCond,
    hbuildBody⟩
  have hopening : Derives size (.word k ++ .mark .openParen) _ _ :=
    (Derives.word k word).sequence (.mark .openParen opening)
  have hbranch := ((hopening.sequence hc).sequence (.mark .closeParen closing)).sequence hb
  simpa using hbranch

/-- The lexemes of a statement by itself. -/
abbrev StandsForStatement (source : List Char) (size : Nat) : List Lexeme → Statement → Prop :=
  StandsFor source size .statement (Statement.ofTree .keep)

/-- The lexemes of a block by itself. -/
abbrev StandsForBlock (source : List Char) (size : Nat) : List Lexeme → Block → Prop :=
  StandsFor source size .block (Block.ofTree .keep)

namespace Statement

theorem standsFor_assignment {target : String} {value : Expression} (hvalue : value.WellFormed)
    (hts : Carries source ts (assignment target value).items) :
    StandsForStatement source size ts (.assignment target value) := by
  rw [items, nameItem, Symbol.item] at hts
  obtain ⟨span, _, rfl, hspan, hmore⟩ := carries_cons.mp hts
  obtain ⟨assign, _, rfl, -, hmore⟩ := carries_cons.mp hmore
  obtain ⟨us, closing, rfl, hus⟩ := carries_ended hmore
  obtain ⟨e, he, hkind, hbuild⟩ := (Expression.denotes size hvalue).1 us hus
  have htarget : Derives size (.ident ++ .mark .assign) _ _ :=
    (Derives.ident span).sequence (.mark .assign assign)
  have hassign := Derives.rule .assign ((htarget.sequence he).sequence (.mark .semicolon closing))
  refine ⟨_, .rule .statement (.left _ hassign), ?_⟩
  rw [ofShape]
  simp only [List.append_nil, List.nil_append, List.cons_append, ofShapes]
  rw [ofShape_leaf hspan, ofTree_assign rfl (by rw [kind_ofShape, hkind]), hbuild]
  rfl

theorem standsFor_returnValue {value : Expression} (hvalue : value.WellFormed)
    (hts : Carries source ts (returnValue value).items) :
    StandsForStatement source size ts (.returnValue value) := by
  rw [items, Keyword.item] at hts
  obtain ⟨word, _, rfl, -, hmore⟩ := carries_cons.mp hts
  obtain ⟨us, closing, rfl, hus⟩ := carries_ended hmore
  obtain ⟨e, he, hkind, hbuild⟩ := (Expression.denotes size hvalue).1 us hus
  have hreturn := Derives.rule .returnStmt
    (((Derives.word .returnWord word).sequence he.present).sequence (.mark .semicolon closing))
  refine ⟨_, .rule .statement (.right _ (.right _ (.right _ (.left _ hreturn)))), ?_⟩
  rw [ofShape]
  simp only [List.append_nil, List.nil_append, ofShapes]
  rw [ofTree_returnValue (by rw [kind_ofShape, hkind]), hbuild]
  rfl

theorem standsFor_returnVoid (hts : Carries source ts returnVoid.items) :
    StandsForStatement source size ts .returnVoid := by
  obtain ⟨word, closing, rfl⟩ := carries_word hts
  have hreturn : Derives size (.rule .returnStmt) _ _ := .rule .returnStmt
    (((Derives.word .returnWord word).sequence (.absent _)).sequence (.mark .semicolon closing))
  refine ⟨_, .rule .statement (.right _ (.right _ (.right _ (.left _ hreturn)))), ?_⟩
  exact ofTree_returnVoid

theorem standsFor_breakLoop (hts : Carries source ts breakLoop.items) :
    StandsForStatement source size ts .breakLoop := by
  obtain ⟨word, closing, rfl⟩ := carries_word hts
  have hbreak : Derives size (.rule .breakStmt) _ _ :=
    .rule .breakStmt ((Derives.word .breakWord word).sequence (.mark .semicolon closing))
  refine ⟨_, .rule .statement (.right _ (.right _ (.right _ (.right _ (.left _ hbreak))))), ?_⟩
  exact ofTree_break

theorem standsFor_continueLoop (hts : Carries source ts continueLoop.items) :
    StandsForStatement source size ts .continueLoop := by
  obtain ⟨word, closing, rfl⟩ := carries_word hts
  have hcontinue : Derives size (.rule .continueStmt) _ _ :=
    .rule .continueStmt ((Derives.word .continueWord word).sequence (.mark .semicolon closing))
  refine ⟨_, .rule .statement (.right _ (.right _ (.right _ (.right _ (.right _ hcontinue))))), ?_⟩
  exact ofTree_continue

theorem standsFor_whileLoop {cond : Expression} {body : Block} (hcond : cond.WellFormed)
    (hbody : ∀ us, Carries source us body.items → StandsForBlock source size us body)
    (hts : Carries source ts (whileLoop cond body).items) :
    StandsForStatement source size ts (.whileLoop cond body) := by
  rw [items] at hts
  obtain ⟨c, b, hbranch, hc, hb, hbuildCond, hbuildBody⟩ :=
    derives_branch .whileWord hcond hbody hts
  have hwhile := Derives.rule .whileStmt hbranch
  refine ⟨_, .rule .statement (.right _ (.right _ (.left _ hwhile))), ?_⟩
  rw [ofShape, ofShapes, ofShapes, ofShapes, ofTree_while hc hb, hbuildCond, hbuildBody]
  rfl

/-- The conditional is printed with its `else`, and so it is read without
clauses. -/
theorem standsFor_ifElse {cond : Expression} {thenBlock elseBlock : Block}
    (hcond : cond.WellFormed)
    (hthen : ∀ us, Carries source us thenBlock.items → StandsForBlock source size us thenBlock)
    (helse : ∀ us, Carries source us elseBlock.items → StandsForBlock source size us elseBlock)
    (hts : Carries source ts (ifElse cond thenBlock elseBlock).items) :
    StandsForStatement source size ts (.ifElse cond thenBlock elseBlock) := by
  rw [items, Keyword.item] at hts
  obtain ⟨us, _, rfl, hus, hmore⟩ := carries_append.mp hts
  obtain ⟨word, vs, rfl, -, hvs⟩ := carries_cons.mp hmore
  obtain ⟨c, b, hbranch, hc, hb, hbuildCond, hbuildThen⟩ := derives_branch .ifWord hcond hthen hus
  obtain ⟨last, hlast, hbuildElse⟩ := helse vs hvs
  -- An `if` inside the block is inside the braces, so it is no `else if`.
  have helseClause : Derives size (.rule .elseClause) _ [⟨.elseClause, _, [last]⟩] :=
    .rule .elseClause ((Derives.word .elseWord word).sequence hlast)
  have hif := Derives.rule .ifStmt
    ((hbranch.sequence (.done (.rule .elseIf))).sequence helseClause.present)
  rw [List.append_nil] at hif
  refine ⟨_, .rule .statement (.right _ (.left _ hif)), ?_⟩
  have hkind : (ofShape source last).kind = .block := by rw [kind_ofShape, hlast.kind_eq rfl]
  have hnone : ∀ t ∈ ([] : List SyntaxTree), t.kind = .elseIfClause := by simp
  rw [ofShape]
  simp only [List.append_nil, List.cons_append, List.nil_append, ofShapes]
  rw [ofShape, ofShapes, ofShapes]
  show ofTree .keep ⟨_, _, _, ofShape source c :: ofShape source b :: ([] ++ [_])⟩ = _
  rw [ofTree_ifElse hc hb hnone _ _ hkind, hbuildCond, hbuildThen, clausesOfTrees_nil, hbuildElse]
  rfl

end Statement

/-- The lexemes of what stands in a block. -/
abbrev StandsForItems (source : List Char) (size : Nat) : List Lexeme → Block → Prop :=
  StandForAll source size (.rule .varDecl <|> .rule .statement) (Block.ofTrees .keep)

/-- Locals in front of the statements of a block. -/
theorem standsForItems_locals {locals : List Variable} {statements : List Statement}
    (h : ∀ v ∈ locals, v.WellFormed)
    (hstatements : ∀ us, Carries source us (Statement.itemsAll statements).flatten →
      StandsForItems source size us ⟨[], statements⟩)
    (hts : Carries source ts
      (locals.flatMap Variable.printItems ++ (Statement.itemsAll statements).flatten)) :
    StandsForItems source size ts ⟨locals, statements⟩ := by
  induction locals generalizing ts with
  | nil => exact hstatements ts hts
  | cons v vs ih =>
    rw [List.flatMap_cons, List.append_assoc] at hts
    obtain ⟨us, ws, rfl, hus, hws⟩ := carries_append.mp hts
    obtain ⟨t, ht, hbuild⟩ : StandsFor source size .varDecl (Variable.ofTree true) us v :=
      standsFor_variable (h v List.mem_cons_self) hus
    have hmore := ih (fun w hw => h w (List.mem_cons_of_mem _ hw)) hws
    refine hmore.cons (.left _ ht) fun more hmore => ?_
    rw [Block.ofTrees_cons_variable (by rw [kind_ofShape, ht.kind_eq rfl]), hmore]
    show (do
      let v ← Variable.ofTree true (ofShape source t)
      return Block.addLocal v ⟨vs, statements⟩) = _
    rw [hbuild]
    rfl

/-- Braces around what stands in a block. -/
theorem standsForBlock_braces {b : Block} {us : List Lexeme} (opening closing : Span)
    (h : StandsForItems source size us b) :
    StandsForBlock source size ([⟨.symbol .openBrace, opening⟩] ++ us
      ++ [⟨.symbol .closeBrace, closing⟩]) b := by
  obtain ⟨trees, htrees, hbuild⟩ := h
  have hblock := Derives.rule .block
    (((Derives.mark .openBrace opening).sequence htrees).sequence (.mark .closeBrace closing))
  refine ⟨_, hblock, ?_⟩
  rw [ofShape, List.append_nil, List.nil_append, Block.ofTree_block, hbuild]

mutual
/-- **The items of a statement stand for it.** -/
theorem Statement.standsFor (s : Statement) (h : s.WellFormed) (ts : List Lexeme)
    (hts : Carries source ts s.items) : StandsForStatement source size ts s := by
  match s with
  | .assignment target value =>
    rw [Statement.WellFormed] at h
    exact Statement.standsFor_assignment h.2 hts
  | .ifElse cond thenBlock elseBlock =>
    rw [Statement.WellFormed] at h
    exact Statement.standsFor_ifElse h.1 (Block.standsFor thenBlock h.2.1)
      (Block.standsFor elseBlock h.2.2) hts
  | .whileLoop cond body =>
    rw [Statement.WellFormed] at h
    exact Statement.standsFor_whileLoop h.1 (Block.standsFor body h.2) hts
  | .returnValue value =>
    rw [Statement.WellFormed] at h
    exact Statement.standsFor_returnValue h hts
  | .returnVoid => exact Statement.standsFor_returnVoid hts
  | .breakLoop => exact Statement.standsFor_breakLoop hts
  | .continueLoop => exact Statement.standsFor_continueLoop hts

/-- **The items of a block stand for it.** -/
theorem Block.standsFor (b : Block) (h : b.WellFormed) (ts : List Lexeme)
    (hts : Carries source ts b.items) : StandsForBlock source size ts b := by
  match b with
  | ⟨locals, statements⟩ =>
    rw [Block.WellFormed] at h
    rw [Block.items, Symbol.item, Symbol.item, ← List.append_assoc] at hts
    obtain ⟨opening, _, rfl, -, hmore⟩ := carries_cons.mp hts
    obtain ⟨us, _, rfl, hus, hmark⟩ := carries_append.mp hmore
    obtain ⟨closing, rfl, -⟩ := carries_singleton.mp hmark
    exact standsForBlock_braces opening closing
      (standsForItems_locals h.1 (Statement.standsForItems_all statements h.2) hus)

/-- The same for the statements of a block. -/
theorem Statement.standsForItems_all (ss : List Statement) (h : Statement.AllWellFormed ss)
    (ts : List Lexeme) (hts : Carries source ts (Statement.itemsAll ss).flatten) :
    StandsForItems source size ts ⟨[], ss⟩ := by
  match ss with
  | [] => exact standForAll_nil hts Block.ofTrees_nil
  | s :: ss =>
    rw [Statement.AllWellFormed] at h
    rw [Statement.itemsAll, List.flatten_cons] at hts
    obtain ⟨us, vs, rfl, hus, hvs⟩ := carries_append.mp hts
    obtain ⟨t, ht, hbuild⟩ : StandsForStatement source size us s := Statement.standsFor s h.1 us hus
    have hmore : StandsForItems source size vs ⟨[], ss⟩ :=
      Statement.standsForItems_all ss h.2 vs hvs
    refine hmore.cons (.right _ ht) fun more hmore => ?_
    rw [Block.ofTrees_cons_statement (by rw [kind_ofShape, ht.isStatement_kind]), hbuild, hmore]
    rfl
end

/-! ## Functions and programs -/

theorem mapM_ofParamTree_shapes {trees : List TreeShape} {params : List Variable}
    (h : List.Forall₂ (fun t v => Variable.ofParamTree (ofShape source t) = .ok v) trees params) :
    (ofShapes source trees).mapM Variable.ofParamTree = .ok params := by
  induction h with
  | nil => rfl
  | cons h _ ih =>
    rw [ofShapes, List.mapM_cons, h, ih]
    rfl

/-- **The items of several parameters** derive a list of them, or nothing if
there are none. -/
theorem derives_params (size : Nat) {params : List Variable}
    (h : ∀ v ∈ params, v.initializer = none)
    (hts : Carries source ts (commaItems (params.map Variable.items))) :
    ∃ list : Option TreeShape, Derives size (Form.optional (.rule .paramList)) ts list.toList
      ∧ (∀ l ∈ list.map (ofShape source), l.kind = .paramList)
      ∧ (paramTrees (list.map (ofShape source))).mapM Variable.ofParamTree = .ok params := by
  by_cases hne : params = []
  · subst hne
    obtain rfl := carries_nil.mp hts
    exact ⟨none, .absent _, by simp, rfl⟩
  · have hparam : ∀ v ∈ params, ∀ us, Carries source us v.items →
        StandsFor source size .param Variable.ofParamTree us v :=
      fun v hv us hus => standsFor_param (h v hv) hus
    obtain ⟨trees, htrees, hmeans⟩ := derives_commas hne hparam hts
    have hlist := Derives.rule .paramList htrees
    refine ⟨some _, hlist.present, ?_, mapM_ofParamTree_shapes hmeans⟩
    rintro l ⟨⟩
    rfl

/-- **The items of a function stand for it.** -/
theorem standsFor_function {f : Function} (h : f.WellFormed) (hts : Carries source ts f.items) :
    StandsFor source size .funcDecl (Function.ofTree .keep) ts f := by
  rw [Function.items] at hts
  obtain ⟨us, _, t, span, rfl, hmore, hhead, hkind, hbuild, hspan⟩ := derives_head size hts
  obtain ⟨_, ws, rfl, hparens, hws⟩ := carries_append.mp hmore
  obtain ⟨opening, vs, closing, rfl, -, -, hvs⟩ := carries_parens.mp hparens
  obtain ⟨body, hbody, hbuildBody⟩ : StandsForBlock source size ws f.body :=
    Block.standsFor f.body h.body ws hws
  obtain ⟨list, hlist, hlistKind, hbuildParams⟩ :=
    derives_params size (fun v hv => (h.params v hv).2) hvs
  have hfunction := Derives.rule .funcDecl ((((hhead.sequence (.mark .openParen opening)).sequence
    hlist).sequence (.mark .closeParen closing)).sequence hbody)
  -- The parentheses leave no parts, and an absent list leaves none either.
  have hchildren : ofShapes source ([t, ⟨.ident, span, []⟩] ++ [] ++ list.toList ++ [] ++ [body])
      = ofShape source t :: leaf .ident span f.name
        :: ((list.map (ofShape source)).toList ++ [ofShape source body]) := by
    cases list <;> simp [ofShape_leaf hspan]
  have happend : us ++ ([⟨.symbol .openParen, opening⟩] ++ vs
      ++ [⟨.symbol .closeParen, closing⟩] ++ ws)
        = us ++ [⟨.symbol .openParen, opening⟩] ++ vs
          ++ [⟨.symbol .closeParen, closing⟩] ++ ws := by
    simp only [List.append_assoc]
  rw [happend]
  refine ⟨_, hfunction, ?_⟩
  rw [ofShape, hchildren, Function.ofTree_funcDecl (by rw [kind_ofShape, hkind]) rfl hlistKind
    (by rw [kind_ofShape, hbody.kind_eq rfl]), hbuild, hbuildParams, hbuildBody]
  rfl

/-- The lexemes of what stands in a program. -/
abbrev StandsForDeclarations (source : List Char) (size : Nat) : List Lexeme → Program → Prop :=
  StandForAll source size (.rule .varDecl <|> .rule .funcDecl) (Program.ofTrees .keep)

theorem standsForDeclarations_functions {functions : List Function}
    (h : ∀ f ∈ functions, f.WellFormed)
    (hts : Carries source ts (functions.flatMap Function.items)) :
    StandsForDeclarations source size ts ⟨[], functions⟩ := by
  induction functions generalizing ts with
  | nil => exact standForAll_nil hts Program.ofTrees_nil
  | cons f fs ih =>
    rw [List.flatMap_cons] at hts
    obtain ⟨us, vs, rfl, hus, hvs⟩ := carries_append.mp hts
    obtain ⟨t, ht, hbuild⟩ : StandsFor source size .funcDecl (Function.ofTree .keep) us f :=
      standsFor_function (h f List.mem_cons_self) hus
    have hmore := ih (fun g hg => h g (List.mem_cons_of_mem _ hg)) hvs
    refine hmore.cons (.right _ ht) fun more hmore => ?_
    rw [Program.ofTrees_cons_function (by rw [kind_ofShape, ht.kind_eq rfl]), hbuild, hmore]
    rfl

/-- Globals in front of the functions of a program. -/
theorem standsForDeclarations_globals {globals : List Variable} {functions : List Function}
    (h : ∀ v ∈ globals, v.WellFormed) (hfunctions : ∀ f ∈ functions, f.WellFormed)
    (hts : Carries source ts
      (globals.flatMap Variable.printItems ++ functions.flatMap Function.items)) :
    StandsForDeclarations source size ts ⟨globals, functions⟩ := by
  induction globals generalizing ts with
  | nil => exact standsForDeclarations_functions hfunctions hts
  | cons v vs ih =>
    rw [List.flatMap_cons, List.append_assoc] at hts
    obtain ⟨us, ws, rfl, hus, hws⟩ := carries_append.mp hts
    obtain ⟨t, ht, hbuild⟩ : StandsFor source size .varDecl (Variable.ofTree true) us v :=
      standsFor_variable (h v List.mem_cons_self) hus
    have hmore := ih (fun w hw => h w (List.mem_cons_of_mem _ hw)) hws
    refine hmore.cons (.left _ ht) fun more hmore => ?_
    rw [Program.ofTrees_cons_variable (by rw [kind_ofShape, ht.kind_eq rfl]), hbuild, hmore]
    rfl

/-- **A text that is written of the items of a statement is read as it.** -/
theorem Statement.parse_of_scans {s : Statement} (h : s.WellFormed) {source : String}
    (hscans : Scans source.toList s.items) : Statement.parse source = .ok s :=
  readSource_of_scans hscans (Statement.standsFor s h)

namespace Program

/-- **A text that is written of the items of a program is read as it**, whatever its layout. -/
theorem parse_of_scans {p : Program} (h : p.WellFormed) {source : String}
    (hscans : Scans source.toList p.items) : Program.parse .keep source = .ok p := by
  refine readSource_of_scans hscans fun ts hts => ?_
  obtain ⟨trees, htrees, hbuild⟩ := standsForDeclarations_globals h.globals h.functions hts
  refine ⟨_, .rule .program htrees, ?_⟩
  rw [ofShape, ofTree_program, hbuild]

/-- **A program that is printed is read back**, if it is well-formed. -/
theorem parse_print {p : Program} (h : p.WellFormed) : Program.parse .keep p.print = .ok p :=
  parse_of_scans h (scans_print h)

/-- **The programs that sources can say are the well-formed ones**, whatever
becomes of the initializers of locals; each of them is what its printed form is
read as, and so is every program that has been read. -/
theorem parse_print_of_wellFormed (p : Program) :
    ((∃ policy source, Program.parse policy source = .ok p) ↔ p.WellFormed)
      ∧ (p.WellFormed → Program.parse .keep p.print = .ok p)
      ∧ ∀ policy source, Program.parse policy source = .ok p →
        Program.parse .keep p.print = .ok p := by
  refine ⟨⟨?_, fun h => ⟨.keep, p.print, parse_print h⟩⟩, parse_print, ?_⟩
  · rintro ⟨policy, source, h⟩
    exact wellFormed_of_parse h
  · intro policy source h
    exact parse_print (wellFormed_of_parse h)

/-- A block in full: the locals first, an `else` that says nothing, parentheses
around the left operand although the operators group that way. -/
theorem parse_print_function :
    ∃ p : Program, p.WellFormed
      ∧ p.print
        = "int n = 1;\nvoid f(bool a) { int b; if (a) { return; } else { } b = (b - n) - 1; }"
      ∧ Program.parse .keep p.print = .ok p := by
  have hp : WellFormed ⟨[⟨"n", .int, some (.intConstant 1)⟩], [⟨.void, "f", [⟨"a", .bool, none⟩],
      ⟨[⟨"b", .int, none⟩], [.ifElse (.location "a") ⟨[], [.returnVoid]⟩ .empty,
        .assignment "b" (.binary (.binary (.location "b") .sub (.location "n")) .sub
          (.intConstant 1))]⟩⟩]⟩ := by
    have hn : Expression.WellFormed (.intConstant 1) := .intConstant (by decide)
    have hcond : Expression.WellFormed (.location "a") := .location (by decide)
    have hvalue : Expression.WellFormed (.binary (.binary (.location "b") .sub (.location "n")) .sub
        (.intConstant 1)) :=
      .binary _ (.binary _ (.location (by decide)) (.location (by decide))) hn
    refine ⟨?_, ?_⟩
    · exact List.forall_mem_singleton.mpr ⟨by decide, by simpa using hn⟩
    · refine List.forall_mem_singleton.mpr ⟨by decide, ?_, ?_⟩
      · exact List.forall_mem_singleton.mpr ⟨by decide, rfl⟩
      · have hb : Variable.WellFormed ⟨"b", .int, none⟩ := ⟨by decide, by simp⟩
        have htarget : IsIdentifier "b" := by decide
        simp [Block.empty, Block.WellFormed, Statement.AllWellFormed, Statement.WellFormed, hb,
          hcond, hvalue, htarget]
  obtain ⟨-, hread, hagain⟩ := parse_print_of_wellFormed _
  exact ⟨_, hp, by decide +kernel, hagain .keep _ (hread hp)⟩

end Program

end ImpFront
