import ImpFront.Proofs.Failure.Expression

/-!
# Where statements and programs get stuck

One lemma for each rule, along its steps: where its form ends, and where it stops.
Two places ask for more than the steps. `else` may begin another condition or the
last clause, so the clauses of a conditional are told apart by the token behind it.
And a function and a variable begin alike, with a type and a name.

Blocks are bounded by their depth, and so are the statements about them.
-/

namespace ImpFront.Grammar

open Ebnf Rule

variable {size bound : Nat}

/-! ## Variables and simple statements -/

theorem typeName_delimits : typeName.Delimits size (.rule .type) bound False [] := by
  refine .rule nofun (Delimits.map ?_ _)
  refine (leaf_delimits _ _).orElse ?_ rfl rfl (by decide)
  exact (leaf_delimits _ _).orElse (leaf_delimits _ _) rfl rfl (by decide)

theorem initializer_delimits :
    initializer.Delimits size (.mark .assign ++ .rule .expr) bound False (continuing 6) :=
  (mark_delimits .assign).andThen fun _ => expression_delimits

theorem varDecl_delimits : varDecl.Delimits size (.rule .varDecl) bound False [] :=
  .rule nofun ((typeName_delimits.andThen fun _ => ident_delimits.andThen fun _ =>
    closedBy_delimits .semicolon (initializer_delimits.optional rfl) (by decide) _).of_steps rfl)

theorem assignStmt_delimits : assignStmt.Delimits size (.rule .assign) bound False [] :=
  .rule nofun ((ident_delimits.andThen fun _ => (mark_delimits .assign).andThen fun _ =>
    closedBy_delimits .semicolon expression_delimits (by decide) _).of_steps rfl)

theorem condition_delimits :
    condition.Delimits size (.mark .openParen ++ .rule .expr ++ .mark .closeParen) bound False
      [] :=
  ((parenthesized_delimits expression_delimits (by decide)).mono (Nat.le_succ bound)).map _

theorem returnStmt_delimits : returnStmt.Delimits size (.rule .returnStmt) bound False [] :=
  .rule nofun (((word_delimits .returnWord).andThen fun _ =>
    closedBy_delimits .semicolon (expression_delimits.optional rfl) (by decide) _).of_steps rfl)

theorem jumpStmt_delimits (kind : NodeKind) (word : Keyword) :
    (jumpStmt kind word).Delimits size (.word word ++ .mark .semicolon) bound False [] :=
  closedBy_delimits .semicolon (word_delimits word) nofun _

/-! ## Conditionals -/

section Block

variable {block : Rule TreeShape}

theorem elseIfClause_delimits (hblock : block.Delimits size (.rule .block) bound False []) :
    (elseIfClause block).Delimits size (.rule .elseIf) bound False [] :=
  .rule nofun (((word_delimits .elseWord).andThen fun _ => (word_delimits .ifWord).andThen fun _ =>
    condition_delimits.andThen fun _ => hblock.map _).of_steps rfl)

theorem elseClause_delimits (hblock : block.Delimits size (.rule .block) bound False []) :
    (elseClause block).Delimits size (.rule .elseClause) bound False [] :=
  .rule nofun ((word_delimits .elseWord).andThen fun _ => hblock.map _)

theorem whileStmt_delimits (hblock : block.Delimits size (.rule .block) bound False []) :
    (whileStmt block).Delimits size (.rule .whileStmt) bound False [] :=
  .rule nofun (((word_delimits .whileWord).andThen fun _ => condition_delimits.andThen fun _ =>
    hblock.map _).of_steps rfl)

/-- The token behind `else` tells the clauses apart. -/
theorem elseIf_partWithin_elseClause :
    (Form.rule .elseIf).PartWithin size 1 (.rule .elseClause) := by
  have hpart : Form.PartWithin size 0 (.word .ifWord ++ (.mark .openParen ++ .rule .expr
      ++ .mark .closeParen ++ .rule .block)) (.rule .block) :=
    partWithin_of_disjoint rfl rfl (by decide)
  have helse : (Form.word .elseWord).Single size := single_token _
  refine .rule ?_ (by decide) (by decide)
  exact (hpart.behind helse helse).of_steps rfl rfl

/-- The clauses of a conditional. -/
def clauses (block : Rule TreeShape) (h : List TreeShape → Option TreeShape → TreeShape) :
    Rule TreeShape := do
  let elseIfs ← many (elseIfClause block)
  let last ← optional (elseClause block)
  return h elseIfs last

theorem clauses_recognizes (haccepts : block.Accepts size .block bound Anything)
    (hyields : block.Yields size .block) (h : List TreeShape → Option TreeShape → TreeShape) :
    (clauses block h).Recognizes size
      (.repeated (.rule .elseIf) ++ .optional (.rule .elseClause)) bound [.keyword .elseWord] := by
  rintro us rest hlen ⟨parts, hus⟩ hnext
  obtain ⟨cs, ls, elseIfs, _, rfl, rfl, hclauses, hlast⟩ := derives_append.mp hus
  simp only [List.length_append] at hlen
  rw [List.append_assoc]
  obtain ⟨hend, last, rfl, hreadLast⟩ := reads_elseClause_of_derives haccepts hyields (by omega)
    hlast (hnext _ (List.mem_singleton_self _))
  have hreadClauses := (elseIfClause_accepts haccepts hyields).many (elseIfClause_yields hyields)
    (fun _ _ _ _ => anything _) (items_of_derives hclauses) (by omega) (anything _) hend
  exact ⟨h elseIfs last, reads_many_bind.mpr ⟨_, _, hreadClauses, reads_bind.mpr ⟨last, rest,
    hreadLast, reads_pure.mpr ⟨rfl, rfl⟩⟩⟩⟩

theorem clauses_delimits (hblock : block.Delimits size (.rule .block) bound False [])
    (haccepts : block.Accepts size .block bound Anything) (hyields : block.Yields size .block)
    (h : List TreeShape → Option TreeShape → TreeShape) :
    (clauses block h).Delimits size
      (.repeated (.rule .elseIf) ++ .optional (.rule .elseClause)) bound False
        [.keyword .elseWord] :=
  ⟨.many_optional (elseIfClause_delimits hblock) (elseClause_delimits hblock).toBlames rfl
      elseIf_partWithin_elseClause h,
    clauses_recognizes haccepts hyields h,
    continues_of_recognizes fun bound => clauses_recognizes (block_accepts size bound)
      (block_yields size) h⟩

/-! ## Blocks -/

variable (hblock : block.Delimits size (.rule .block) bound False [])
  (haccepts : block.Accepts size .block bound Anything) (hyields : block.Yields size .block)

include hblock haccepts hyields

theorem ifStmt_delimits :
    (ifStmt block).Delimits size (.rule .ifStmt) bound False [.keyword .elseWord] :=
  .rule nofun (((word_delimits .ifWord).andThen fun _ => condition_delimits.andThen fun _ =>
    hblock.andThen fun _ => clauses_delimits hblock haccepts hyields _).of_steps rfl)

theorem statementWith_delimits :
    (statementWith block).Delimits size (.rule .statement) bound False [.keyword .elseWord] := by
  have hbreak : (jumpStmt .breakStmt .breakWord).Delimits size (.rule .breakStmt) bound False [] :=
    .rule nofun (jumpStmt_delimits _ _)
  have hcontinue : (jumpStmt .continueStmt .continueWord).Delimits size (.rule .continueStmt) bound
      False [] :=
    .rule nofun (jumpStmt_delimits _ _)
  have hjump := hbreak.orElse hcontinue rfl rfl (by decide)
  have hreturn := returnStmt_delimits.orElse hjump rfl rfl (by decide)
  have hwhile := (whileStmt_delimits hblock).orElse hreturn rfl rfl (by decide)
  have hif := (ifStmt_delimits hblock haccepts hyields).orElse hwhile rfl rfl (by decide)
  exact .rule nofun (assignStmt_delimits.orElse hif rfl rfl (by decide))

theorem blockWith_delimits :
    (blockWith block).Delimits size (.rule .block) (bound + 1) False [] := by
  have hitem := varDecl_delimits.orElse (statementWith_delimits hblock haccepts hyields) rfl rfl
    (by decide)
  exact .rule nofun (((mark_delimits .openBrace).andInside rfl fun _ =>
    closedBy_delimits .closeBrace (hitem.many rfl (by decide)) (by decide) _).of_steps rfl)

end Block

/-- Two braces are a block. -/
theorem matches_braces (size : Nat) :
    (Form.rule .block).Matches size [⟨.symbol .openBrace, ⟨0, 0⟩⟩, ⟨.symbol .closeBrace, ⟨0, 0⟩⟩] :=
  ⟨_, .rule .block (((Derives.mark .openBrace ⟨0, 0⟩).sequence (.done _)).sequence
    (.mark .closeBrace ⟨0, 0⟩))⟩

/-- No token goes on with a block. -/
theorem continues_block : (Form.rule .block).Continues size [] :=
  continues_of_recognizes fun bound => .of_accepts (block_accepts size bound) fun rest _ =>
    anything rest

/-- **Looking `depth` deep is enough for fewer than `depth` tokens.** -/
theorem blockAt_delimits (size depth : Nat) :
    Delimits size (blockAt depth) (.rule .block) depth False [] := by
  induction depth with
  | zero => exact ⟨⟨⟨⟨_, matches_braces size⟩, nofun, nofun⟩, nofun⟩, nofun, continues_block⟩
  | succ depth ih =>
    exact blockWith_delimits ih (blockAt_accepts size depth) (blockAt_yields size depth)

theorem block_delimits : block.Delimits size (.rule .block) bound False [] :=
  delimits_of_depth (blockAt_delimits size)

theorem statement_delimits :
    statement.Delimits size (.rule .statement) bound False [.keyword .elseWord] :=
  statementWith_delimits block_delimits (block_accepts size bound) (block_yields size)

/-! ## Programs -/

theorem param_delimits : param.Delimits size (.rule .param) bound False [] :=
  .rule nofun (typeName_delimits.andThen fun _ => ident_delimits.map _)

theorem paramList_delimits :
    paramList.Delimits size (.rule .paramList) bound False [.symbol .comma] :=
  .rule nofun ((separatedBy_delimits .comma param_delimits nofun).map _)

theorem funcDecl_delimits : funcDecl.Delimits size (.rule .funcDecl) bound False [] :=
  .rule nofun ((typeName_delimits.andThen fun _ => ident_delimits.andThen fun _ =>
    ((parenthesized_delimits (paramList_delimits.optional rfl) (by decide)).mono
      (Nat.le_succ bound)).andThen fun _ => block_delimits.map _).of_steps rfl)

/-- The third token tells a function from a variable. -/
theorem funcDecl_partWithin_varDecl :
    (Form.rule .funcDecl).PartWithin size 2 (.rule .varDecl) := by
  have hpart : Form.PartWithin size 0
      (.mark .openParen ++ (.optional (.rule .paramList) ++ .mark .closeParen ++ .rule .block))
      (.optional (.mark .assign ++ .rule .expr) ++ .mark .semicolon) :=
    partWithin_of_disjoint rfl rfl (by decide)
  have hident : Form.ident.Single size := single_leaf _ _
  have hnamed := (hpart.behind hident hident).behind single_type single_type
  exact .rule (hnamed.of_steps rfl rfl) (by decide) (by decide)

theorem declaration_delimits :
    declaration.Delimits size (.rule .varDecl <|> .rule .funcDecl) bound False [] := by
  -- The reader tries the function first, the grammar names it second.
  refine (funcDecl_delimits.orElse_of_partWithin varDecl_delimits
    funcDecl_partWithin_varDecl).congr (fun us => ?_) fun c d => ?_
  · rw [Form.matches_orElse, Form.matches_orElse, or_comm]
  · rw [begun_orElse, begun_orElse, or_comm]

theorem program_delimits : (program size).Delimits size (.rule .program) bound False typeWords :=
  .rule nofun ((declaration_delimits.many rfl nofun).map _ |>.weaken (by decide))

/-- **The rule of every start symbol gets stuck** at the end of what has begun, or at an
open call. -/
theorem start_blames (start : StartSymbol) :
    (start.rule size).Blames size (.rule start.nonterminal) bound False := by
  cases start with
  | program => exact program_delimits.toBlames
  | statement => exact statement_delimits.toBlames
  | expression => exact expression_delimits.toBlames

end ImpFront.Grammar
