import ImpFront.Proofs.Failure.Choice
import ImpFront.Proofs.Grammar.Nodes

/-!
# Where expressions get stuck

One lemma for each rule, along its steps: which tokens go on with its form, and where
it stops. A call asks for more than its steps. The name of a call could be a variable,
and this is what the reader tries when the call has failed. It succeeds, so that
whatever the call had read is forgotten, and the reader stops at the parenthesis
(`Grammar.callOrName_blames`).

Expressions are bounded by their depth, and so are the statements about them.
-/

namespace ImpFront

instance : Nonempty Span := ⟨⟨0, 0⟩⟩

instance : Nonempty TreeShape := ⟨⟨.program, ⟨0, 0⟩, []⟩⟩

open Ebnf Rule

variable {size bound : Nat} {f g : Form} {c d us : List Lexeme}

/-! ## The tokens that go on with an expression -/

/-- The tokens that go on with an expression of a rank at most. -/
def Ebnf.continuing (rank : Nat) : List Token := (continuations rank).map .symbol

theorem ends_of_continuing {rank : Nat} {rest : List Lexeme}
    (h : ∀ t ∈ continuing rank, nextToken rest ≠ some t) : Ends (continuations rank) rest :=
  fun _ hs => h _ (List.mem_map_of_mem hs)

namespace Grammar

/-! ## Single tokens -/

theorem mark_delimits (s : Symbol) : (symbol s).Delimits size (.mark s) bound False [] :=
  ⟨.token _, .token _, (single_token _).continues⟩

theorem word_delimits (k : Keyword) : (keyword k).Delimits size (.word k) bound False [] :=
  ⟨.token _, .token _, (single_token _).continues⟩

/-- A rule for a leaf is complete once it has read a token. -/
theorem delimits_of_leaf {p : Rule TreeShape} {kind : NodeKind} {tokens : List Token} {mute : Prop}
    (hp : p.Explains size (.leaf kind tokens) bound mute)
    (hr : p.Recognizes size (.leaf kind tokens) bound []) :
    p.Delimits size (.leaf kind tokens) bound mute [] :=
  ⟨hp.blames_of_whole hr fun _ _ h hc => h.of_leaf hc, hr, (single_leaf _ _).continues⟩

theorem leaf_delimits (kind : NodeKind) (t : Token) :
    (leaf kind t).Delimits size (.leaf kind [t]) bound False [] := by
  have hmatches : ∀ us, (Form.token t).Matches size us ↔ (Form.leaf kind [t]).Matches size us := by
    intro us
    rw [Form.matches_token, Form.matches_leaf]
    simp
  exact delimits_of_leaf (((Blames.token t).map _).toExplains.congr hmatches)
    (((Recognizes.token t).map _).congr hmatches)

theorem ident_delimits : ident.Delimits size .ident bound False [] := leaf_delimits _ _

theorem operatorLeaf_delimits {symbols : List Symbol} (hs : symbols ≠ []) :
    (operatorLeaf symbols).Delimits size (.operator symbols) bound True [] := by
  refine delimits_of_leaf (((Explains.operator hs).andThen fun _ => .pure _).of_steps rfl) ?_
  rintro us rest - hus -
  obtain ⟨t, ht, span, rfl⟩ := Form.matches_leaf.mp hus
  obtain ⟨s, hs, rfl⟩ := List.mem_map.mp ht
  exact ⟨_, reads_operatorLeaf.mpr ⟨s, hs, span, rfl, rfl⟩⟩

theorem boolLiteral_delimits :
    boolLiteral.Delimits size (.leaf .boolLiteral [.keyword .trueWord, .keyword .falseWord]) bound
      False [] := by
  have hmatches : ∀ us, (Form.leaf .boolLiteral [.keyword .trueWord]
      <|> Form.leaf .boolLiteral [.keyword .falseWord]).Matches size us
        ↔ (Form.leaf .boolLiteral [.keyword .trueWord, .keyword .falseWord]).Matches size us := by
    intro us
    simp only [Form.matches_orElse, Form.matches_leaf, List.mem_cons, List.not_mem_nil, or_false,
      exists_eq_left, or_and_right, exists_or]
  have hwords : boolLiteral.Delimits size (.leaf .boolLiteral [.keyword .trueWord]
      <|> .leaf .boolLiteral [.keyword .falseWord]) bound False [] :=
    (leaf_delimits _ _).orElse (leaf_delimits _ _) rfl rfl (by decide)
  exact delimits_of_leaf (hwords.toExplains.congr hmatches) (hwords.recognizes.congr hmatches)

/-! ## Parts with marks around them -/

section Parts

variable {α β : Type} {p : Rule α} {mute : Prop} {conts : List Token}

/-- A part and the symbol that closes it. -/
theorem closedBy_delimits [Nonempty α] (s : Symbol) (hp : p.Delimits size f bound mute conts)
    (hs : Token.symbol s ∉ conts) (h : α → Span → β) :
    (p >>= fun a => symbol s >>= fun closing => pure (h a closing)).Delimits size (f ++ .mark s)
      bound mute [] := by
  have hdisj : ∀ t ∈ conts, t ∉ (Form.mark s).first := by
    rintro t ht hmem
    obtain rfl := List.mem_singleton.mp hmem
    exact hs ht
  exact hp.endedBy (fun a => (mark_delimits s).map (h a)) hdisj (.inl rfl)

theorem parenthesized_delimits [Nonempty α] (hp : p.Delimits size f bound False conts)
    (hclose : Token.symbol .closeParen ∉ conts) :
    (parenthesized p).Delimits size (.mark .openParen ++ f ++ .mark .closeParen) (bound + 1) False
      [] :=
  ((mark_delimits .openParen).andInside rfl fun _ =>
    closedBy_delimits .closeParen hp hclose _).of_steps rfl

/-- A list ends where no separator comes next, and no token that goes on with its last
item. -/
theorem separatedBy_delimits [Nonempty α] (s : Symbol) (hp : p.Delimits size f bound False conts)
    (hs : Token.symbol s ∉ conts) :
    (separatedBy p (symbol s)).Delimits size (f ++ .repeated (.mark s ++ f)) bound False
      (.symbol s :: conts) := by
  have hdisj : ∀ t ∈ conts, t ∉ (Form.mark s ++ f).first := by
    rintro t ht hmem
    obtain rfl := List.mem_singleton.mp hmem
    exact hs ht
  have hitem := (mark_delimits s).andThen fun _ => hp
  exact hp.endedBy (fun _ => (hitem.many rfl hdisj).map _) hdisj (.inr (List.subset_cons_self _ _))

/-- A rule that looks as deep as there are tokens. -/
theorem delimits_of_depth {p : Nat → List Lexeme → Outcome α}
    (hp : ∀ depth, Delimits size (p depth) f depth False conts) :
    Delimits size (fun ts => p (ts.length + 1) ts) f bound False conts where
  completable := (hp 0).completable
  ok _ _ _ _ _ h := (hp _).ok (Nat.lt_succ_self _) h
  fail _ _ _ h := (hp _).fail (Nat.lt_succ_self _) h
  located _ _ _ _ h := (hp _).located (Nat.lt_succ_self _) h
  recognizes _ _ _ h := (hp _).recognizes (Nat.lt_succ_self _) h
  continues := (hp 0).continues

end Parts

/-! ## Expressions -/

/-- A literal is an expression. -/
theorem matches_literal (size : Nat) :
    (Form.rule .expr).Matches size [⟨.intLiteral, ⟨0, 0⟩⟩] := by
  have hatom : Derives size (.rule .atom) _ _ :=
    (derives_group (.inr (.inr rfl))).mpr (.left _ (.only .intLiteral .intLiteral ⟨0, 0⟩))
  have hterm := Derives.operand (l := .term) hatom
  have hadditive := Derives.operand (l := .additive) hterm
  have hrelational := Derives.operand (l := .relational) hadditive
  have hequality := Derives.operand (l := .equality) hrelational
  have hand := Derives.operand (l := .and) hequality
  have hor := Derives.operand (l := .or) hand
  exact ⟨_, (derives_group (.inr (.inl rfl))).mpr hor⟩

theorem continues_expr : (Form.rule .expr).Continues size (continuing 6) :=
  continues_of_recognizes fun bound =>
    .of_accepts (expression_accepts size bound) fun _ => ends_of_continuing

theorem expression_fails_closing (span : Span) (ts : List Lexeme) :
    expression.Fails (⟨.symbol .closeParen, span⟩ :: ts) :=
  fails_expression (by decide) span ts

/-- Only the parenthesis of a call goes on with an atom. -/
theorem continues_atom : (Form.rule .atom).Continues size (continuing 0) := by
  have haccepts : ∀ bound, (atom expression).Accepts size .atom bound (Ends (continuations 0)) :=
    fun bound us parts rest hlen => atom_accepts (expression_accepts size bound)
      (expression_yields size) expression_fails_closing (Nat.lt_succ_of_lt hlen)
  exact continues_of_recognizes fun bound => .of_accepts (haccepts bound) fun _ =>
    ends_of_continuing

section Expression

variable {expr : Rule TreeShape}

theorem argList_delimits (hexpr : expr.Delimits size (.rule .expr) bound False (continuing 6)) :
    (argList expr).Delimits size (.rule .argList) bound False
      (.symbol .comma :: continuing 6) :=
  .rule nofun ((separatedBy_delimits .comma hexpr (by decide)).map _)

/-- The steps of a call. Where a call gets stuck they do not say: what they fail at is
forgotten. -/
theorem call_delimits (hexpr : expr.Delimits size (.rule .expr) bound False (continuing 6)) :
    (call expr).Delimits size (production .call) (bound + 1) False [] :=
  (ident_delimits.andThen fun _ =>
    (parenthesized_delimits ((argList_delimits hexpr).optional rfl) (by decide)).map _).of_steps rfl

theorem call_explains (hexpr : expr.Delimits size (.rule .expr) bound False (continuing 6)) :
    (call expr).Explains size (.rule .call) (bound + 1) False :=
  (call_delimits hexpr).toExplains.rule

/-- **An open call fails**, as no token goes on with a complete one. -/
theorem fails_call_of_open (hexpr : expr.Delimits size (.rule .expr) bound False (continuing 6))
    {c vs x : List Lexeme} (hlen : (c ++ x).length < bound + 1)
    (h : (Form.rule .call).Matches size (c ++ vs)) (hvs : vs ≠ [])
    (hstuck : (Form.rule .call).Stuck size c x) : (call expr).Fails (c ++ x) := by
  cases hrun : call expr (c ++ x) with
  | fail e => exact ⟨e, hrun⟩
  | ok t rest s =>
    obtain ⟨⟨us, heq, hus⟩, -⟩ := (call_explains hexpr).ok hlen hrun
    obtain ⟨ws, rfl, -⟩ := hstuck.exists_append hus.viable heq
    obtain ⟨l, more, hmore⟩ :=
      List.exists_cons_of_ne_nil (List.append_ne_nil_of_right_ne_nil ws hvs)
    rw [List.append_assoc, hmore] at h
    have hcontinues := (call_delimits hexpr).continues (Form.matches_rule.mp hus)
      (Form.matches_rule.mp h).viable
    exact absurd hcontinues (by simp)

theorem location_delimits : location.Delimits size (.rule .location) bound False [] :=
  .rule nofun (ident_delimits.map _)

theorem group_delimits (hexpr : expr.Delimits size (.rule .expr) bound False (continuing 6)) :
    (group expr).Delimits size (.rule .group) (bound + 1) False [] :=
  .rule nofun ((parenthesized_delimits hexpr (by decide)).map _)

/-- A name is read as a variable in any case. -/
theorem nameOrGroup_eq_ok (expr : Rule TreeShape) (span : Span) (rest : List Lexeme) :
    ∃ t, (location <|> group expr) (⟨.ident, span⟩ :: rest) = .ok t rest none :=
  ⟨_, rfl⟩

theorem reach_callOrName_le (hexpr : expr.Delimits size (.rule .expr) bound False (continuing 6))
    {span : Span} {x : List Lexeme} (hlen : (⟨.ident, span⟩ :: x).length < bound + 1) :
    ((call expr <|> (location <|> group expr)) (⟨.ident, span⟩ :: x)).reach ≤ x.length := by
  cases hrun : call expr (⟨.ident, span⟩ :: x) with
  | ok t rest s =>
    obtain ⟨⟨us, heq, hus⟩, -⟩ := (call_explains hexpr).ok hlen hrun
    obtain ⟨l, us, rfl⟩ := List.exists_cons_of_ne_nil (hus.ne_nil rfl)
    rw [orElse_apply, hrun, (List.cons.inj heq).2]
    refine Nat.le_trans (leftAt_le s _) ?_
    simp
  | fail e =>
    obtain ⟨t, ht⟩ := nameOrGroup_eq_ok expr span x
    rw [orElse_apply, hrun, ht]
    exact leftAt_le none _

/-- **A call that does not come about is given up for its name**: what its arguments
were read for is forgotten, and the reader stops at the parenthesis. -/
theorem callOrName_blames (hexpr : expr.Delimits size (.rule .expr) bound False (continuing 6)) :
    (call expr <|> (location <|> group expr)).Blames size
      (.rule .call <|> (.rule .location <|> .rule .group)) (bound + 1) False := by
  have hcall := call_explains hexpr
  have hothers := (location_delimits.orElse (group_delimits hexpr) rfl rfl (by decide)).toBlames
  refine (hcall.orElse hothers.toExplains).blames fun c d x hc hlen hbegun hstuck => ?_
  have hge := (hcall.orElse hothers.toExplains).le_reach hlen hstuck
  have hstuckCall : (Form.rule .call).Stuck size c x :=
    fun l hl hviable => hstuck l hl hviable.left
  rcases begun_orElse.mp hbegun with hbegun | hbegun
  · cases hbegun with
    | none => exact absurd rfl hc
    | whole h =>
      obtain ⟨t, s, hrun⟩ := (call_delimits hexpr).recognizes.rule hlen h (by simp)
      refine Nat.le_antisymm ?_ hge
      rw [orElse_apply, hrun]
      exact leftAt_le s _
    | name span => exact Nat.le_antisymm (reach_callOrName_le hexpr hlen) hge
    | @«open» span opening c vs hvs h =>
      obtain ⟨e, he⟩ := fails_call_of_open hexpr hlen h hvs hstuckCall
      obtain ⟨t, ht⟩ := nameOrGroup_eq_ok expr span (⟨.symbol .openParen, opening⟩ :: (c ++ x))
      rw [orElse_apply, he, List.cons_append, List.cons_append, ht]
      rfl
    | rule hn => exact absurd rfl hn
  · have hreach := hothers.located hlen hbegun fun l hl hviable => hstuck l hl hviable.right
    rcases begun_orElse.mp hbegun with hbegun | hbegun
    · have hident : Begun size .ident c d := (begun_rule (by decide)).mp hbegun
      obtain ⟨rfl, hmatches⟩ := hident.of_leaf hc
      obtain ⟨t, ht, span, rfl⟩ := Form.matches_leaf.mp hmatches
      obtain rfl := List.mem_singleton.mp ht
      exact Nat.le_antisymm (reach_callOrName_le hexpr hlen) hge
    · -- No call begins with the parenthesis of a group.
      have hpart : (Form.rule .group).PartWithin size 0 (.rule .call) :=
        partWithin_of_disjoint rfl rfl (by decide)
      obtain ⟨e, hfail, hle⟩ := hcall.exists_fail hlen hbegun hstuckCall hpart
      exact (reach_orElse_right hfail (hreach ▸ hle)).trans hreach

theorem atom_delimits (hexpr : expr.Delimits size (.rule .expr) bound False (continuing 6))
    (hatom : (atom expr).Recognizes size (.rule .atom) (bound + 1) (continuing 0)) :
    (atom expr).Delimits size (.rule .atom) (bound + 1) False (continuing 0) := by
  have hbool := boolLiteral_delimits.toBlames.orElse (callOrName_blames hexpr)
    (partWithin_of_disjoint rfl rfl (by decide))
  have hliteral := (leaf_delimits .intLiteral .intLiteral).toBlames.orElse hbool
    (partWithin_of_disjoint rfl rfl (by decide))
  exact ⟨.rule nofun hliteral, hatom, continues_atom⟩

/-- **A level of operators**, if no operator of it goes on with an operand. -/
theorem binaryLevel_delimits {l : Level} {operand : Rule TreeShape}
    (h : operand.Delimits size (.rule l.operand) bound False (continuing (l.rank - 1))) :
    (binaryLevel operand l.operators).Delimits size (.rule (.level l)) bound False
      (continuing l.rank) := by
  have hop : (operatorLeaf l.operators).Delimits size (.operator l.operators) bound True [] :=
    operatorLeaf_delimits (by cases l <;> nofun)
  have hdisj : ∀ t ∈ continuing (l.rank - 1),
      t ∉ (Form.operator l.operators ++ .rule l.operand).first := by
    cases l <;> decide
  have hitem := hop.andThen fun operator => h.map fun right => (operator, right)
  have hsub : (Form.operator l.operators ++ .rule l.operand).first ++ continuing (l.rank - 1)
      ⊆ continuing l.rank := by
    refine List.append_subset.mpr ⟨?_, ?_⟩
    · exact List.map_subset _ (operators_subset_continuations l)
    · exact List.map_subset _ (continuations_pred_subset l)
  refine .rule nofun (Delimits.weaken ?_ hsub)
  exact h.endedBy (fun _ => (hitem.many rfl hdisj).map _) hdisj
    (.inr (List.subset_append_right _ _))

theorem expressionWith_delimits
    (hexpr : expr.Delimits size (.rule .expr) bound False (continuing 6))
    (hatom : (atom expr).Recognizes size (.rule .atom) (bound + 1) (continuing 0)) :
    (expressionWith expr).Delimits size (.rule .expr) (bound + 1) False (continuing 6) := by
  have hterm := binaryLevel_delimits (l := .term) (atom_delimits hexpr hatom)
  have hadditive := binaryLevel_delimits (l := .additive) hterm
  have hrelational := binaryLevel_delimits (l := .relational) hadditive
  have hequality := binaryLevel_delimits (l := .equality) hrelational
  have hand := binaryLevel_delimits (l := .and) hequality
  have hor := binaryLevel_delimits (l := .or) hand
  rw [expressionWith_eq]
  exact .rule nofun hor

end Expression

/-- **Looking `depth` deep is enough for fewer than `depth` tokens.** -/
theorem expressionAt_delimits (size depth : Nat) :
    Delimits size (expressionAt depth) (.rule .expr) depth False (continuing 6) := by
  induction depth with
  | zero => exact ⟨⟨⟨⟨_, matches_literal size⟩, nofun, nofun⟩, nofun⟩, nofun, continues_expr⟩
  | succ depth ih =>
    have hatom := atom_accepts (expressionAt_accepts size depth) (expressionAt_yields size depth)
      fun span ts => fails_expressionAt depth (by decide) span ts
    exact expressionWith_delimits ih (.of_accepts hatom fun _ => ends_of_continuing)

theorem expression_delimits :
    expression.Delimits size (.rule .expr) bound False (continuing 6) :=
  delimits_of_depth (expressionAt_delimits size)

end Grammar

end ImpFront
