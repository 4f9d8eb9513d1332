import ImpFront.Proofs.Grammar.Completeness.Expression

/-!
# What is derivable is read: statements and programs

The next token tells most alternatives apart. The exceptions are all resolved
within three tokens: `else if` against `else`, and a function against a
variable, which begin alike with a type and a name.

`Form.Begins` bounds what a form may begin with. It is what shows that an item
of a repetition is not taken for what follows it.
-/

namespace ImpFront

open Ebnf Rule

variable {size : Nat}

/-! ## The tokens that a form begins with -/

namespace Ebnf

/-- **Whatever the form derives begins with one of the tokens**; so it derives
no empty list. -/
def Form.Begins (size : Nat) (f : Form) (tokens : List Token) : Prop :=
  ∀ ⦃us parts⦄, Derives size f us parts →
    ∃ t ∈ tokens, ∀ rest, nextToken (us ++ rest) = some t

variable {f g : Form} {tokens others : List Token}

theorem begins_leaf (kind : NodeKind) (tokens : List Token) :
    (Form.leaf kind tokens).Begins size tokens := by
  intro us parts h
  obtain ⟨t, ht, span, rfl, -⟩ := derives_leaf.mp h
  exact ⟨t, ht, fun rest => rfl⟩

theorem begins_token (t : Token) : (Form.token t).Begins size [t] := by
  intro us parts h
  obtain ⟨span, rfl, -⟩ := derives_token.mp h
  exact ⟨t, List.mem_singleton_self t, fun rest => rfl⟩

theorem Form.Begins.append (hf : f.Begins size tokens) (g : Form) :
    (f ++ g).Begins size tokens := by
  intro us parts h
  obtain ⟨ts, vs, _, _, rfl, -, hts, -⟩ := derives_append.mp h
  obtain ⟨t, ht, hnext⟩ := hf hts
  refine ⟨t, ht, fun rest => ?_⟩
  rw [List.append_assoc]
  exact hnext _

theorem Form.Begins.orElse (hf : f.Begins size tokens) (hg : g.Begins size others) :
    (f <|> g).Begins size (tokens ++ others) := by
  intro us parts h
  rcases derives_orElse.mp h with h | h
  · obtain ⟨t, ht, hnext⟩ := hf h
    exact ⟨t, List.mem_append_left _ ht, hnext⟩
  · obtain ⟨t, ht, hnext⟩ := hg h
    exact ⟨t, List.mem_append_right _ ht, hnext⟩

theorem begins_rule {n : Nonterminal} (h : (production n).Begins size tokens) :
    (Form.rule n).Begins size tokens := by
  intro us parts hus
  obtain ⟨inner, hinner, -⟩ := derives_rule.mp hus
  exact h hinner

/-- What begins with certain tokens only does not begin with another. -/
theorem Form.Begins.nextToken_ne (hf : f.Begins size tokens) {t : Token} (ht : t ∉ tokens)
    {us : List Lexeme} {parts : List TreeShape} (h : Derives size f us parts)
    (rest : List Lexeme) : nextToken (us ++ rest) ≠ some t := by
  obtain ⟨t', ht', hnext⟩ := hf h
  rw [hnext, ne_eq, Option.some.injEq]
  rintro rfl
  exact ht ht'

/-- The words that name types. -/
def typeWords : List Token := [.keyword .int, .keyword .bool, .keyword .void]

/-- The tokens that statements begin with. -/
def statementStarts : List Token :=
  [.ident, .keyword .ifWord, .keyword .whileWord, .keyword .returnWord, .keyword .breakWord,
    .keyword .continueWord]

theorem begins_type (size : Nat) : (Form.rule .type).Begins size typeWords :=
  begins_rule ((begins_leaf _ _).orElse ((begins_leaf _ _).orElse (begins_leaf _ _)))

theorem begins_varDecl (size : Nat) : (Form.rule .varDecl).Begins size typeWords :=
  begins_rule ((((begins_type size).append _).append _).append _)

theorem begins_block (size : Nat) :
    (Form.rule .block).Begins size [.symbol .openBrace] :=
  begins_rule (((begins_token _).append _).append _)

theorem begins_statement (size : Nat) : (Form.rule .statement).Begins size statementStarts :=
  have hassign : (Form.rule .assign).Begins size [.ident] :=
    begins_rule ((((begins_leaf _ _).append _).append _).append _)
  have hif : (Form.rule .ifStmt).Begins size [.keyword .ifWord] :=
    begins_rule (((((((begins_token _).append _).append _).append _).append _).append _).append _)
  have hwhile : (Form.rule .whileStmt).Begins size [.keyword .whileWord] :=
    begins_rule (((((begins_token _).append _).append _).append _).append _)
  have hreturn : (Form.rule .returnStmt).Begins size [.keyword .returnWord] :=
    begins_rule (((begins_token _).append _).append _)
  have hbreak : (Form.rule .breakStmt).Begins size [.keyword .breakWord] :=
    begins_rule ((begins_token _).append _)
  have hcontinue : (Form.rule .continueStmt).Begins size [.keyword .continueWord] :=
    begins_rule ((begins_token _).append _)
  begins_rule (hassign.orElse (hif.orElse (hwhile.orElse (hreturn.orElse
    (hbreak.orElse hcontinue)))))

end Ebnf

namespace Grammar

/-! ## Declarations of variables -/

theorem typeName_accepts (size bound : Nat) :
    typeName.Accepts size .type bound Anything := by
  intro us parts rest _ hus _
  obtain ⟨children, h, rfl⟩ := derives_node rfl hus
  have hword : ∃ word, children = [word]
      ∧ typeName.Reads (us ++ rest) ⟨.type, word.span, [word]⟩ rest := by
    simp only [production, derives_orElse, derives_leaf, List.mem_singleton] at h
    simp only [typeName, reads_bind, reads_orElse, reads_leaf, fails_leaf, reads_pure]
    rcases h with ⟨_, rfl, span, rfl, rfl⟩ | ⟨_, rfl, span, rfl, rfl⟩ | ⟨_, rfl, span, rfl, rfl⟩
    · exact ⟨_, rfl, _, rest, .inl ⟨span, rfl, rfl⟩, rfl, rfl⟩
    · exact ⟨_, rfl, _, rest, .inr ⟨by simp, .inl ⟨span, rfl, rfl⟩⟩, rfl, rfl⟩
    · exact ⟨_, rfl, _, rest, .inr ⟨by simp, .inr ⟨by simp, span, rfl, rfl⟩⟩, rfl, rfl⟩
  obtain ⟨word, rfl, hreads⟩ := hword
  exact ⟨_, (typeName_yields size).node_eq hreads rfl, hreads⟩

/-- Without a type word in front there is no type. -/
theorem fails_typeName {ts : List Lexeme} (h : ∀ t ∈ typeWords, nextToken ts ≠ some t) :
    typeName.Fails ts := by
  simp only [typeWords, List.forall_mem_cons] at h
  refine Fails.bind ?_
  simp only [fails_orElse, fails_leaf]
  exact ⟨h.1, h.2.1, h.2.2.1⟩

/-- An initializer is read up to the semicolon, and so is its absence. -/
theorem reads_initializer_of_derives {us : List Lexeme} {parts : List TreeShape}
    (closing : Span) (rest : List Lexeme)
    (h : Derives size (.optional (.mark .assign ++ .rule .expr)) us parts) :
    ∃ value : Option TreeShape, parts = value.toList
      ∧ (optional initializer).Reads (us ++ ⟨.symbol .semicolon, closing⟩ :: rest) value
          (⟨.symbol .semicolon, closing⟩ :: rest) := by
  refine reads_optional_of_derives h (fun h => ?_) (Fails.bind (by simp))
  obtain ⟨_, ts, _, parts, rfl, rfl, hassign, hts⟩ := derives_append.mp h
  obtain ⟨span, rfl, rfl⟩ := derives_mark.mp hassign
  obtain ⟨t, rfl, ht⟩ := expression_accepts size _ (Nat.lt_succ_self _) hts
    (ends_symbol (s := .semicolon) (by decide) closing rest)
  refine ⟨t, rfl, ?_⟩
  simp only [initializer, reads_bind, reads_symbol]
  exact ⟨span, _, rfl, ht⟩

theorem varDecl_accepts (size bound : Nat) :
    varDecl.Accepts size .varDecl bound Anything := by
  intro us parts rest _ hus _
  obtain ⟨_, h, rfl⟩ := derives_node rfl hus
  obtain ⟨_, closing, rfl, h₁⟩ := derives_append_mark.mp h
  obtain ⟨_, vs, _, values, rfl, rfl, h₂, hvalue⟩ := derives_append.mp h₁
  obtain ⟨ts, _, types, _, rfl, rfl, htype, h₃⟩ := derives_append.mp h₂
  obtain ⟨span, rfl, rfl⟩ := derives_ident.mp h₃
  obtain ⟨value, rfl, hreadValue⟩ := reads_initializer_of_derives closing rest hvalue
  obtain ⟨type, rfl, hreadType⟩ := typeName_accepts size _ (Nat.lt_succ_self _) htype
    (anything (⟨.ident, span⟩ :: (vs ++ ⟨.symbol .semicolon, closing⟩ :: rest)))
  have hreads : varDecl.Reads
      (ts ++ [⟨.ident, span⟩] ++ vs ++ [⟨.symbol .semicolon, closing⟩] ++ rest)
      (.spanning .varDecl type.span closing (type :: ⟨.ident, span, []⟩ :: value.toList))
      rest := by
    simp only [varDecl, reads_bind, reads_ident, reads_symbol, reads_pure, List.append_assoc]
    exact ⟨type, _, hreadType, _, _, ⟨span, rfl, rfl⟩, value, _, hreadValue, closing, rest, rfl,
      rfl, rfl⟩
  exact ⟨_, (varDecl_yields size).node_eq hreads rfl, hreads⟩

/-! ## Statements -/

theorem assignStmt_accepts (size bound : Nat) :
    assignStmt.Accepts size .assign bound Anything := by
  intro us parts rest _ hus _
  obtain ⟨_, h, rfl⟩ := derives_node rfl hus
  obtain ⟨_, closing, rfl, h₁⟩ := derives_append_mark.mp h
  obtain ⟨_, ts, _, values, rfl, rfl, h₂, hvalue⟩ := derives_append.mp h₁
  obtain ⟨_, equals, rfl, h₃⟩ := derives_append_mark.mp h₂
  obtain ⟨span, rfl, rfl⟩ := derives_ident.mp h₃
  obtain ⟨value, rfl, hreadValue⟩ := expression_accepts size _ (Nat.lt_succ_self _) hvalue
    (ends_symbol (s := .semicolon) (by decide) closing rest)
  have hreads : assignStmt.Reads
      ([⟨.ident, span⟩] ++ [⟨.symbol .assign, equals⟩] ++ ts
        ++ [⟨.symbol .semicolon, closing⟩] ++ rest)
      (.spanning .assignStmt span closing [⟨.ident, span, []⟩, value]) rest := by
    simp only [assignStmt, reads_bind, reads_ident, reads_symbol, reads_pure, List.append_assoc]
    exact ⟨_, _, ⟨span, rfl, rfl⟩, equals, _, rfl, value, _, hreadValue, closing, rest, rfl, rfl,
      rfl⟩
  exact ⟨_, (assignStmt_yields size).node_eq hreads rfl, hreads⟩

theorem returnStmt_accepts (size bound : Nat) :
    returnStmt.Accepts size .returnStmt bound Anything := by
  intro us parts rest _ hus _
  obtain ⟨_, h, rfl⟩ := derives_node rfl hus
  obtain ⟨_, closing, rfl, h₁⟩ := derives_append_mark.mp h
  obtain ⟨_, ts, _, values, rfl, rfl, h₂, hvalue⟩ := derives_append.mp h₁
  obtain ⟨span, rfl, rfl⟩ := derives_word.mp h₂
  obtain ⟨value, rfl, hreadValue⟩ := reads_optional_of_derives hvalue
    (fun h => expression_accepts size _ (Nat.lt_succ_self _) h
      (ends_symbol (s := .semicolon) (by decide) closing rest))
    (fails_expression (by decide) closing rest)
  have hreads : returnStmt.Reads
      ([⟨.keyword .returnWord, span⟩] ++ ts ++ [⟨.symbol .semicolon, closing⟩] ++ rest)
      (.spanning .returnStmt span closing value.toList) rest := by
    simp only [returnStmt, reads_bind, reads_keyword, reads_symbol, reads_pure, List.append_assoc]
    exact ⟨span, _, rfl, value, _, hreadValue, closing, rest, rfl, rfl, rfl⟩
  exact ⟨_, (returnStmt_yields size).node_eq hreads (by simp), hreads⟩

theorem jumpStmt_accepts (size bound : Nat) {kind : NodeKind} {word : Keyword} {n : Nonterminal}
    (hn : n.nodeKind? = some kind) (hproduction : production n = .word word ++ .mark .semicolon) :
    (jumpStmt kind word).Accepts size n bound Anything := by
  intro us parts rest _ hus _
  obtain ⟨_, h, rfl⟩ := derives_node hn hus
  rw [hproduction] at h
  obtain ⟨_, closing, rfl, h₁⟩ := derives_append_mark.mp h
  obtain ⟨span, rfl, rfl⟩ := derives_word.mp h₁
  have hreads : (jumpStmt kind word).Reads
      ([⟨.keyword word, span⟩] ++ [⟨.symbol .semicolon, closing⟩] ++ rest)
      (.spanning kind span closing []) rest := by
    simp only [jumpStmt, reads_bind, reads_keyword, reads_symbol, reads_pure]
    exact ⟨span, _, rfl, closing, rest, rfl, rfl, rfl⟩
  exact ⟨_, (jumpStmt_yields hn hproduction).node_eq hreads rfl, hreads⟩

variable {block : Rule TreeShape} {bound : Nat}

/-- **A condition and the block it governs**, behind whatever comes before
them. -/
theorem reads_branch_of_derives (hblock : block.Accepts size .block bound Anything)
    {f : Form} {ts : List Lexeme} {parts : List TreeShape} (rest : List Lexeme)
    (hbound : ts.length < bound)
    (h : Derives size (f ++ .mark .openParen ++ .rule .expr ++ .mark .closeParen ++ .rule .block)
      ts parts) :
    ∃ fs us children cond body, ts = fs ++ us ∧ parts = children ++ [cond, body]
      ∧ Derives size f fs children
      ∧ ∃ mid, condition.Reads (us ++ rest) cond mid ∧ block.Reads mid body rest := by
  obtain ⟨_, bs, _, bodies, rfl, rfl, h₁, hbody⟩ := derives_append.mp h
  obtain ⟨_, closing, rfl, h₂⟩ := derives_append_mark.mp h₁
  obtain ⟨_, cs, _, conds, rfl, rfl, h₃, hcond⟩ := derives_append.mp h₂
  obtain ⟨fs, opening, rfl, hf⟩ := derives_append_mark.mp h₃
  simp only [List.length_append] at hbound
  obtain ⟨body, rfl, hreadBody⟩ := hblock (by omega) hbody (anything rest)
  obtain ⟨cond, rfl, hreadCond⟩ := expression_accepts size _ (Nat.lt_succ_self _) hcond
    (ends_symbol (s := .closeParen) (by decide) closing (bs ++ rest))
  refine ⟨fs, ⟨.symbol .openParen, opening⟩ :: (cs ++ ⟨.symbol .closeParen, closing⟩ :: bs),
    _, cond, body, by simp, by simp, hf, bs ++ rest, ?_, hreadBody⟩
  simp only [condition, reads_bind, reads_pure, List.cons_append, List.append_assoc]
  exact ⟨(opening, cond, closing), _, reads_parenthesized.mpr ⟨_, rfl, hreadCond⟩, rfl, rfl⟩

theorem whileStmt_accepts (hblock : block.Accepts size .block bound Anything)
    (hyields : block.Yields size .block) :
    (whileStmt block).Accepts size .whileStmt bound Anything := by
  intro us parts rest hbound hus _
  obtain ⟨_, h, rfl⟩ := derives_node rfl hus
  obtain ⟨_, us, _, cond, body, rfl, rfl, hword, mid, hcond, hbody⟩ :=
    reads_branch_of_derives hblock rest hbound h
  obtain ⟨span, rfl, rfl⟩ := derives_word.mp hword
  have hreads : (whileStmt block).Reads ([⟨.keyword .whileWord, span⟩] ++ us ++ rest)
      (.spanning .whileStmt span body.span [cond, body]) rest := by
    simp only [whileStmt, reads_bind, reads_keyword, reads_pure, List.append_assoc]
    exact ⟨span, _, rfl, cond, mid, hcond, body, rest, hbody, rfl, rfl⟩
  exact ⟨_, (whileStmt_yields hyields).node_eq hreads rfl, hreads⟩

theorem elseIfClause_accepts (hblock : block.Accepts size .block bound Anything)
    (hyields : block.Yields size .block) :
    (elseIfClause block).Accepts size .elseIf bound Anything := by
  intro us parts rest hbound hus _
  obtain ⟨_, h, rfl⟩ := derives_node rfl hus
  obtain ⟨_, us, _, cond, body, rfl, rfl, hwords, mid, hcond, hbody⟩ :=
    reads_branch_of_derives hblock rest hbound h
  obtain ⟨_, _, _, _, rfl, rfl, helse, hif⟩ := derives_append.mp hwords
  obtain ⟨span, rfl, rfl⟩ := derives_word.mp helse
  obtain ⟨inner, rfl, rfl⟩ := derives_word.mp hif
  have hreads : (elseIfClause block).Reads
      ([⟨.keyword .elseWord, span⟩] ++ [⟨.keyword .ifWord, inner⟩] ++ us ++ rest)
      (.spanning .elseIfClause span body.span [cond, body]) rest := by
    simp only [elseIfClause, reads_bind, reads_keyword, reads_pure, List.append_assoc]
    exact ⟨span, _, rfl, inner, _, rfl, cond, mid, hcond, body, rest, hbody, rfl, rfl⟩
  exact ⟨_, (elseIfClause_yields hyields).node_eq hreads rfl, hreads⟩

theorem elseClause_accepts (hblock : block.Accepts size .block bound Anything)
    (hyields : block.Yields size .block) :
    (elseClause block).Accepts size .elseClause bound Anything := by
  intro us parts rest hbound hus _
  obtain ⟨_, h, rfl⟩ := derives_node rfl hus
  obtain ⟨_, us, _, bodies, rfl, rfl, hword, hbody⟩ := derives_append.mp h
  obtain ⟨span, rfl, rfl⟩ := derives_word.mp hword
  simp only [List.length_append] at hbound
  obtain ⟨body, rfl, hread⟩ := hblock (by omega) hbody (anything rest)
  have hreads : (elseClause block).Reads ([⟨.keyword .elseWord, span⟩] ++ us ++ rest)
      (.spanning .elseClause span body.span [body]) rest := by
    simp only [elseClause, reads_bind, reads_keyword, reads_pure, List.append_assoc]
    exact ⟨span, _, rfl, body, rest, hread, rfl, rfl⟩
  exact ⟨_, (elseClause_yields hyields).node_eq hreads rfl, hreads⟩

/-- `else` with a block behind it is no `else if`. -/
theorem fails_elseIfClause_of_derives {us : List Lexeme} {parts : List TreeShape}
    (h : Derives size (.rule .elseClause) us parts) (rest : List Lexeme) :
    (elseIfClause block).Fails (us ++ rest) := by
  obtain ⟨_, hparts, rfl⟩ := derives_node rfl h
  obtain ⟨_, us, _, _, rfl, rfl, hword, hbody⟩ := derives_append.mp hparts
  obtain ⟨span, rfl, rfl⟩ := derives_word.mp hword
  refine fails_bind.mpr (.inr ⟨span, us ++ rest, by simp, Fails.bind ?_⟩)
  rw [fails_keyword]
  exact (begins_block size).nextToken_ne (by decide) hbody rest

/-- A last clause is read where there is one, and none where no `else` comes
next. -/
theorem reads_elseClause_of_derives (hblock : block.Accepts size .block bound Anything)
    (hyields : block.Yields size .block) {us rest : List Lexeme} {parts : List TreeShape}
    (hbound : us.length < bound) (h : Derives size (.optional (.rule .elseClause)) us parts)
    (hrest : nextToken rest ≠ some (.keyword .elseWord)) :
    (elseIfClause block).Fails (us ++ rest)
      ∧ ∃ last : Option TreeShape, parts = last.toList
          ∧ (optional (elseClause block)).Reads (us ++ rest) last rest := by
  constructor
  · rcases derives_optional.mp h with h | ⟨rfl, rfl⟩
    · exact fails_elseIfClause_of_derives h rest
    · exact (fails_keyword.mpr hrest).bind
  · refine reads_optional_of_derives h (fun h => ?_) (fails_keyword.mpr hrest).bind
    exact elseClause_accepts hblock hyields hbound h (anything rest)

/-- **A conditional takes all the clauses there are**, so no `else` may come
next. -/
theorem ifStmt_accepts (hblock : block.Accepts size .block bound Anything)
    (hyields : block.Yields size .block) :
    (ifStmt block).Accepts size .ifStmt bound
      fun rest => nextToken rest ≠ some (.keyword .elseWord) := by
  intro us parts rest hbound hus hrest
  obtain ⟨_, h, rfl⟩ := derives_node rfl hus
  obtain ⟨_, ls, _, lasts, rfl, rfl, h₁, hlast⟩ := derives_append.mp h
  obtain ⟨_, cs, _, clauses, rfl, rfl, h₂, hclauses⟩ := derives_append.mp h₁
  simp only [List.length_append] at hbound
  obtain ⟨_, us, _, cond, body, rfl, rfl, hword, mid, hcond, hbody⟩ :=
    reads_branch_of_derives hblock (cs ++ (ls ++ rest)) (by omega) h₂
  obtain ⟨span, rfl, rfl⟩ := derives_word.mp hword
  -- An `else if` ends where a last `else` starts, which reads no further than the word.
  obtain ⟨hend, last, rfl, hreadLast⟩ :=
    reads_elseClause_of_derives hblock hyields (by omega) hlast hrest
  have hreadClauses := (elseIfClause_accepts hblock hyields).many (elseIfClause_yields hyields)
    (fun _ _ _ _ => anything _) (items_of_derives hclauses) (by omega) (anything _) hend
  have hreads : (ifStmt block).Reads
      ([⟨.keyword .ifWord, span⟩] ++ us ++ cs ++ ls ++ rest)
      (.spanning .ifStmt span ((clauses ++ last.toList).getLastD body).span
        (cond :: body :: (clauses ++ last.toList))) rest := by
    simp only [ifStmt, reads_bind, reads_many_bind, reads_keyword, reads_pure, List.append_assoc]
    exact ⟨span, _, rfl, cond, mid, hcond, body, _, hbody, clauses, _, hreadClauses, last, rest,
      hreadLast, rfl, rfl⟩
  exact ⟨_, (ifStmt_yields hyields).node_eq hreads (by simp), hreads⟩

/-- **The first token tells the statements apart.** -/
theorem statementWith_accepts (hblock : block.Accepts size .block bound Anything)
    (hyields : block.Yields size .block) :
    (statementWith block).Accepts size .statement bound
      fun rest => nextToken rest ≠ some (.keyword .elseWord) := by
  intro us parts rest hbound hus hrest
  simp only [derives_group (.inl rfl), production, derives_orElse] at hus
  simp only [statementWith, reads_orElse]
  have hassign : nextToken (us ++ rest) ≠ some .ident → assignStmt.Fails (us ++ rest) :=
    fun h => (fails_ident.mpr h).bind
  have hword : ∀ {k : Keyword} {f : Span → Rule TreeShape},
      nextToken (us ++ rest) ≠ some (.keyword k) →
        (keyword k >>= f : Rule TreeShape).Fails (us ++ rest) :=
    fun h => (fails_keyword.mpr h).bind
  rcases hus with h | h | h | h | h | h
  · obtain ⟨t, rfl, ht⟩ := assignStmt_accepts size bound hbound h (anything rest)
    exact ⟨t, rfl, .inl ht⟩
  · obtain ⟨t, rfl, ht⟩ := ifStmt_accepts hblock hyields hbound h hrest
    have hnext := ht.nextToken_eq hword
    exact ⟨t, rfl, .inr ⟨hassign (by simp [hnext]), .inl ht⟩⟩
  · obtain ⟨t, rfl, ht⟩ := whileStmt_accepts hblock hyields hbound h (anything rest)
    have hnext := ht.nextToken_eq hword
    exact ⟨t, rfl, .inr ⟨hassign (by simp [hnext]), .inr ⟨hword (by simp [hnext]), .inl ht⟩⟩⟩
  · obtain ⟨t, rfl, ht⟩ := returnStmt_accepts size bound hbound h (anything rest)
    have hnext := ht.nextToken_eq hword
    exact ⟨t, rfl, .inr ⟨hassign (by simp [hnext]), .inr ⟨hword (by simp [hnext]),
      .inr ⟨hword (by simp [hnext]), .inl ht⟩⟩⟩⟩
  · obtain ⟨t, rfl, ht⟩ := jumpStmt_accepts size bound (n := .breakStmt) rfl rfl hbound h
      (anything rest)
    have hnext := ht.nextToken_eq hword
    exact ⟨t, rfl, .inr ⟨hassign (by simp [hnext]), .inr ⟨hword (by simp [hnext]),
      .inr ⟨hword (by simp [hnext]), .inr ⟨hword (by simp [hnext]), .inl ht⟩⟩⟩⟩⟩
  · obtain ⟨t, rfl, ht⟩ := jumpStmt_accepts size bound (n := .continueStmt) rfl rfl hbound h
      (anything rest)
    have hnext := ht.nextToken_eq hword
    exact ⟨t, rfl, .inr ⟨hassign (by simp [hnext]), .inr ⟨hword (by simp [hnext]),
      .inr ⟨hword (by simp [hnext]), .inr ⟨hword (by simp [hnext]),
        .inr ⟨hword (by simp [hnext]), ht⟩⟩⟩⟩⟩⟩

/-- No item of a block starts with something else than a type or the first
token of a statement. -/
theorem fails_item {ts : List Lexeme}
    (h : ∀ t ∈ typeWords ++ statementStarts, nextToken ts ≠ some t) :
    (varDecl <|> statementWith block).Fails ts := by
  rw [fails_orElse]
  refine ⟨(fails_typeName fun t ht => h t (List.mem_append_left _ ht)).bind, ?_⟩
  have hstart : ∀ t ∈ statementStarts, nextToken ts ≠ some t :=
    fun t ht => h t (List.mem_append_right _ ht)
  simp only [statementStarts, List.forall_mem_cons] at hstart
  obtain ⟨hident, hif, hwhile, hreturn, hbreak, hcontinue, -⟩ := hstart
  simp only [statementWith, fails_orElse]
  exact ⟨(fails_ident.mpr hident).bind, (fails_keyword.mpr hif).bind,
    (fails_keyword.mpr hwhile).bind, (fails_keyword.mpr hreturn).bind,
    (fails_keyword.mpr hbreak).bind, (fails_keyword.mpr hcontinue).bind⟩

/-- **A block takes all its items.** Each starts with a type or with the first
token of a statement, and the brace is neither. -/
theorem blockWith_accepts (hblock : block.Accepts size .block bound Anything)
    (hyields : block.Yields size .block) :
    (blockWith block).Accepts size .block (bound + 1) Anything := by
  intro us parts rest hbound hus _
  obtain ⟨_, h, rfl⟩ := derives_node rfl hus
  obtain ⟨_, closing, rfl, h₁⟩ := derives_append_mark.mp h
  obtain ⟨_, us, _, children, rfl, rfl, h₂, hitems⟩ := derives_append.mp h₁
  obtain ⟨opening, rfl, rfl⟩ := derives_mark.mp h₂
  simp only [List.length_append, List.length_singleton] at hbound
  have hbegins := (begins_varDecl size).orElse (begins_statement size)
  -- What follows an item is the next one or the brace, so it is never an `else`.
  have hitem : ∀ ⦃us parts rest⦄, us.length < bound →
      Derives size (.rule .varDecl <|> .rule .statement) us parts →
      nextToken rest ≠ some (.keyword .elseWord) →
      us ≠ [] ∧ ∃ t, parts = [t] ∧ (varDecl <|> statementWith block).Reads (us ++ rest) t rest := by
    intro us parts rest hbound hus hrest
    simp only [reads_orElse]
    rcases derives_orElse.mp hus with h | h
    · obtain ⟨t, rfl, ht⟩ := varDecl_accepts size bound hbound h (anything rest)
      exact ⟨((varDecl_yields size).covers ht).ne_nil, t, rfl, .inl ht⟩
    · obtain ⟨t, rfl, ht⟩ := statementWith_accepts hblock hyields hbound h hrest
      have hfails : varDecl.Fails (us ++ rest) := by
        refine (fails_typeName fun t ht => ?_).bind
        refine (begins_statement size).nextToken_ne ?_ h rest
        revert t
        decide
      exact ⟨((statementWith_yields hyields).covers ht).ne_nil, t, rfl, .inr ⟨hfails, ht⟩⟩
  have hnext : ∀ ⦃us parts⦄ rest, Derives size (.rule .varDecl <|> .rule .statement) us parts →
      nextToken (us ++ rest) ≠ some (.keyword .elseWord) :=
    fun us parts rest h => hbegins.nextToken_ne (by decide) h rest
  have hclose : nextToken (⟨.symbol .closeBrace, closing⟩ :: rest) ≠ some (.keyword .elseWord) := by
    simp
  have hend : (varDecl <|> statementWith block).Fails (⟨.symbol .closeBrace, closing⟩ :: rest) :=
    fails_item (by simp [typeWords, statementStarts])
  obtain ⟨-, items, rfl, hreadItems⟩ :=
    reads_many_of_items hitem hnext (items_of_derives hitems) (by omega) hclose hend
  have hreads : (blockWith block).Reads
      ([⟨.symbol .openBrace, opening⟩] ++ us ++ [⟨.symbol .closeBrace, closing⟩] ++ rest)
      (.spanning .block opening closing items) rest := by
    simp only [blockWith, reads_bind, reads_many_bind, reads_symbol, reads_pure,
      List.append_assoc]
    exact ⟨opening, _, rfl, items, _, hreadItems, closing, rest, rfl, rfl, rfl⟩
  exact ⟨_, (blockWith_yields hyields).node_eq hreads (by simp), hreads⟩

/-- **Looking `depth` deep is enough for fewer than `depth` tokens.** -/
theorem blockAt_accepts (size depth : Nat) :
    Rule.Accepts size (blockAt depth) .block depth Anything := by
  induction depth with
  | zero =>
    intro us parts rest hbound
    omega
  | succ depth ih => exact blockWith_accepts ih (blockAt_yields size depth)

/-- **Every block is read**, however many tokens it has. -/
theorem block_accepts (size bound : Nat) :
    Grammar.block.Accepts size .block bound Anything := by
  intro us parts rest _ hus hrest
  have hbound : us.length < (us ++ rest).length + 1 := by
    rw [List.length_append]
    omega
  obtain ⟨t, rfl, ht⟩ := blockAt_accepts size _ hbound hus hrest
  exact ⟨t, rfl, reads_block.mpr ht⟩

/-- **Every statement is read**, if no `else` comes next. -/
theorem statement_accepts (size bound : Nat) :
    statement.Accepts size .statement bound
      fun rest => nextToken rest ≠ some (.keyword .elseWord) :=
  statementWith_accepts (block_accepts size bound) (block_yields size)

/-! ## Programs -/

theorem param_accepts (size bound : Nat) : param.Accepts size .param bound Anything := by
  intro us parts rest _ hus _
  obtain ⟨_, h, rfl⟩ := derives_node rfl hus
  obtain ⟨ts, _, types, _, rfl, rfl, htype, h₁⟩ := derives_append.mp h
  obtain ⟨span, rfl, rfl⟩ := derives_ident.mp h₁
  obtain ⟨type, rfl, hreadType⟩ := typeName_accepts size _ (Nat.lt_succ_self _) htype
    (anything (⟨.ident, span⟩ :: rest))
  have hreads : param.Reads (ts ++ [⟨.ident, span⟩] ++ rest)
      (.spanning .param type.span span [type, ⟨.ident, span, []⟩]) rest := by
    simp only [param, reads_bind, reads_ident, reads_pure, List.append_assoc]
    exact ⟨type, _, hreadType, _, rest, ⟨span, rfl, rfl⟩, rfl, rfl⟩
  exact ⟨_, (param_yields size).node_eq hreads rfl, hreads⟩

theorem paramList_accepts (size bound : Nat) :
    paramList.Accepts size .paramList bound
      fun rest => nextToken rest ≠ some (.symbol .comma) := by
  intro us parts rest hbound hus hrest
  obtain ⟨_, h, rfl⟩ := derives_node rfl hus
  obtain ⟨first, others, rfl, hlist⟩ := reads_separated_of_derives (param_accepts size bound)
    (fun _ _ => anything _) hbound h (anything rest) hrest
  have hreads : paramList.Reads (us ++ rest) (.listing .paramList first others) rest := by
    simp only [paramList, reads_bind, reads_pure]
    exact ⟨_, rest, hlist, rfl, rfl⟩
  exact ⟨_, (paramList_yields size).node_eq hreads rfl, hreads⟩

theorem funcDecl_accepts (size bound : Nat) :
    funcDecl.Accepts size .funcDecl bound Anything := by
  intro us parts rest _ hus _
  obtain ⟨_, h, rfl⟩ := derives_node rfl hus
  obtain ⟨_, bs, _, bodies, rfl, rfl, h₁, hbody⟩ := derives_append.mp h
  obtain ⟨_, closing, rfl, h₂⟩ := derives_append_mark.mp h₁
  obtain ⟨_, ps, _, lists, rfl, rfl, h₃, hparams⟩ := derives_append.mp h₂
  obtain ⟨_, opening, rfl, h₄⟩ := derives_append_mark.mp h₃
  obtain ⟨ts, _, types, _, rfl, rfl, htype, h₅⟩ := derives_append.mp h₄
  obtain ⟨span, rfl, rfl⟩ := derives_ident.mp h₅
  obtain ⟨body, rfl, hreadBody⟩ := block_accepts size _ (Nat.lt_succ_self _) hbody
    (anything rest)
  have hend : nextToken (⟨.symbol .closeParen, closing⟩ :: (bs ++ rest))
      ≠ some (.symbol .comma) := by simp
  have hfails : typeName.Fails (⟨.symbol .closeParen, closing⟩ :: (bs ++ rest)) :=
    fails_typeName (by simp [typeWords])
  obtain ⟨params, rfl, hreadParams⟩ := reads_optional_of_derives hparams
    (fun h => paramList_accepts size _ (Nat.lt_succ_self _) h hend) hfails.bind.bind.bind
  obtain ⟨type, rfl, hreadType⟩ := typeName_accepts size _ (Nat.lt_succ_self _) htype
    (anything (⟨.ident, span⟩ :: ⟨.symbol .openParen, opening⟩ :: (ps
      ++ ⟨.symbol .closeParen, closing⟩ :: (bs ++ rest))))
  have hreads : funcDecl.Reads
      (ts ++ [⟨.ident, span⟩] ++ [⟨.symbol .openParen, opening⟩] ++ ps
        ++ [⟨.symbol .closeParen, closing⟩] ++ bs ++ rest)
      (.spanning .funcDecl type.span body.span
        (type :: ⟨.ident, span, []⟩ :: params.toList ++ [body])) rest := by
    simp only [funcDecl, reads_bind, reads_ident, reads_pure, List.append_assoc]
    exact ⟨type, _, hreadType, _, _, ⟨span, rfl, rfl⟩, (opening, params, closing), _,
      reads_parenthesized.mpr ⟨_, rfl, hreadParams⟩, body, rest, hreadBody, rfl, rfl⟩
  exact ⟨_, (funcDecl_yields size).node_eq hreads (by simp), hreads⟩

/-- **A variable is no function**: behind its name there is no parenthesis. -/
theorem fails_funcDecl_of_derives {us : List Lexeme} {parts : List TreeShape}
    (h : Derives size (.rule .varDecl) us parts) (rest : List Lexeme) :
    funcDecl.Fails (us ++ rest) := by
  obtain ⟨_, hparts, rfl⟩ := derives_node rfl h
  obtain ⟨_, closing, rfl, h₁⟩ := derives_append_mark.mp hparts
  obtain ⟨_, vs, _, values, rfl, rfl, h₂, hvalue⟩ := derives_append.mp h₁
  obtain ⟨ts, _, types, _, rfl, rfl, htype, h₃⟩ := derives_append.mp h₂
  obtain ⟨span, rfl, rfl⟩ := derives_ident.mp h₃
  have hnext : nextToken (vs ++ ⟨.symbol .semicolon, closing⟩ :: rest)
      ≠ some (.symbol .openParen) := by
    rcases derives_optional.mp hvalue with hvalue | ⟨rfl, rfl⟩
    · exact ((begins_token (.symbol .assign)).append _).nextToken_ne (by decide) hvalue _
    · simp
  obtain ⟨type, rfl, hreadType⟩ := typeName_accepts size _ (Nat.lt_succ_self _) htype
    (anything (⟨.ident, span⟩ :: (vs ++ ⟨.symbol .semicolon, closing⟩ :: rest)))
  simp only [List.append_assoc]
  refine fails_bind.mpr (.inr ⟨type, _, hreadType, fails_bind.mpr (.inr ?_)⟩)
  exact ⟨_, _, reads_ident.mpr ⟨span, rfl, rfl⟩, (fails_parenthesized hnext).bind⟩

/-- **Every declaration is read**, whatever comes behind it. -/
theorem reads_declaration_of_derives {us : List Lexeme} {parts : List TreeShape}
    (h : Derives size (.rule .varDecl <|> .rule .funcDecl) us parts) (rest : List Lexeme) :
    us ≠ [] ∧ ∃ t, parts = [t] ∧ declaration.Reads (us ++ rest) t rest := by
  simp only [declaration, reads_orElse]
  rcases derives_orElse.mp h with h | h
  · -- The function was tried first, and gave the type and the name back.
    obtain ⟨t, rfl, ht⟩ := varDecl_accepts size _ (Nat.lt_succ_self _) h (anything rest)
    have hfails := fails_funcDecl_of_derives h rest
    exact ⟨((varDecl_yields size).covers ht).ne_nil, t, rfl, .inr ⟨hfails, ht⟩⟩
  · obtain ⟨t, rfl, ht⟩ := funcDecl_accepts size _ (Nat.lt_succ_self _) h (anything rest)
    exact ⟨((funcDecl_yields size).covers ht).ne_nil, t, rfl, .inl ht⟩

@[simp] theorem children_programNode (size : Nat) (trees : List TreeShape) :
    (programNode size trees).children = trees := by
  cases trees <;> rfl

/-- **Every program is read**, if nothing comes behind it. -/
theorem reads_program_of_derives {us : List Lexeme} {parts : List TreeShape}
    (h : Derives size (.rule .program) us parts) :
    ∃ t, parts = [t] ∧ (program size).Reads us t [] := by
  obtain ⟨_, hparts, rfl⟩ := derives_node rfl h
  have hend : declaration.Fails [] := by
    have hfails : typeName.Fails [] := fails_typeName (by simp)
    exact fails_orElse.mpr ⟨hfails.bind, hfails.bind⟩
  obtain ⟨-, trees, rfl, htrees⟩ := reads_many_of_items
    (fun _ _ rest _ hts _ => reads_declaration_of_derives hts rest) (fun _ _ _ _ => anything _)
    (items_of_derives hparts) (Nat.lt_succ_self _) (anything []) hend
  rw [List.append_nil] at htrees
  have hreads : (program size).Reads us (programNode size trees) [] := by
    simp only [program, reads_many_bind, reads_pure]
    exact ⟨trees, [], htrees, rfl, rfl⟩
  -- The span of the node is known from reading it.
  obtain ⟨us', hus', hnode⟩ := derives_of_reads_program hreads
  obtain rfl : us = us' := by rw [hus', List.append_nil]
  obtain ⟨children, -, hchildren⟩ := derives_node rfl hnode
  have hspan : programNode size trees = ⟨.program, extent size us, children⟩ :=
    List.singleton_inj.mp hchildren
  obtain rfl : trees = children := by
    rw [← children_programNode size trees, hspan]
  exact ⟨_, by simp [hspan], hreads⟩

end Grammar

end ImpFront
