import ImpFront.Proofs.Grammar.Soundness

/-!
# What is derivable is read

The other half of "the reader accepts exactly the grammar". Here the order of
choices and the greed of repetitions could lose something: an alternative that
matches too early, an item taken that belonged to what follows. That nothing is
lost is a matter of **what may come next**, so each statement says what it
needs to know about the tokens behind.

For an expression these are the tokens that would go on with it: an operator,
or the `(` that would make a name a call (`Ends`). For a statement it is the
word `else`. Everything else is decided by the next token, or, for a function,
by the third.

The rules for expressions and blocks look only so deep, so the statements about
them bound the number of tokens. Every nesting costs two of them.
-/

namespace ImpFront

open Ebnf Rule

variable {size : Nat}

namespace Ebnf

/-- **Items of a form**, one after another. -/
inductive Items (size : Nat) (f : Form) : List Lexeme → List TreeShape → Prop
  | nil : Items size f [] []
  | cons {ts us : List Lexeme} {parts others : List TreeShape}
      (hitem : Derives size f ts parts) (hitems : Items size f us others) :
      Items size f (ts ++ us) (parts ++ others)

/-- A repetition derives any number of items. -/
theorem items_of_derives {f : Form} {ts : List Lexeme} {parts : List TreeShape}
    (h : Derives size (.repeated f) ts parts) : Items size f ts parts := by
  generalize hform : Form.repeated f = form at h
  induction h with
  | nothing => cases hform
  | token => cases hform
  | leaf => cases hform
  | rule => cases hform
  | sequence => cases hform
  | left => cases hform
  | right => cases hform
  | done =>
    cases hform
    exact .nil
  | again hf _ _ ih =>
    cases hform
    exact .cons hf (ih rfl)

/-- What a nonterminal with a node of its own leaves. -/
theorem derives_node {n : Nonterminal} {kind : NodeKind} {ts : List Lexeme}
    {parts : List TreeShape} (hn : n.nodeKind? = some kind)
    (h : Derives size (.rule n) ts parts) :
    ∃ children, Derives size (production n) ts children
      ∧ parts = [⟨kind, extent size ts, children⟩] := by
  obtain ⟨children, hchildren, rfl⟩ := derives_rule.mp h
  refine ⟨children, hchildren, ?_⟩
  simp only [Nonterminal.assemble, hn]

/-- What a nonterminal that only groups alternatives leaves. -/
theorem derives_group {n : Nonterminal} {ts : List Lexeme} {parts : List TreeShape}
    (hn : n = .statement ∨ n = .expr ∨ n = .atom) :
    Derives size (.rule n) ts parts ↔ Derives size (production n) ts parts := by
  rw [derives_rule]
  constructor
  · rintro ⟨inner, h, rfl⟩
    obtain rfl | rfl | rfl := hn <;> exact h
  · intro h
    refine ⟨parts, h, ?_⟩
    obtain rfl | rfl | rfl := hn <;> rfl

end Ebnf

/-- A tree covers the tokens it is read from. -/
theorem Rule.Yields.covers {p : Rule TreeShape} {n : Nonterminal} (hp : p.Yields size n)
    {us rest : List Lexeme} {t : TreeShape} (h : p.Reads (us ++ rest) t rest) :
    Covers us t.span := by
  obtain ⟨us', hus, hcov, -⟩ := hp h
  rwa [List.append_cancel_right hus]

/-- The node that the grammar makes around some children is the one that a rule
makes around them: their spans agree. -/
theorem Rule.Yields.node_eq {p : Rule TreeShape} {n : Nonterminal} (hp : p.Yields size n)
    {us rest : List Lexeme} {kind : NodeKind} {s : Span} {children children' : List TreeShape}
    (h : p.Reads (us ++ rest) ⟨kind, s, children⟩ rest) (hchildren : children' = children) :
    [(⟨kind, extent size us, children'⟩ : TreeShape)] = [⟨kind, s, children⟩] := by
  rw [extent_eq_of_covers size (hp.covers h), hchildren]

/-! ## Rules that accept nonterminals -/

/-- **The rule reads every tree of the nonterminal**, if the tokens are fewer
than `bound` and what stands behind them is as `follow` says. -/
def Rule.Accepts (size : Nat) (p : Rule TreeShape) (n : Nonterminal) (bound : Nat)
    (follow : List Lexeme → Prop) : Prop :=
  ∀ ⦃us parts rest⦄, us.length < bound → Derives size (.rule n) us parts → follow rest →
    ∃ t, parts = [t] ∧ p.Reads (us ++ rest) t rest

/-- No condition on what comes next. -/
def Anything (_ : List Lexeme) : Prop := True

theorem anything (rest : List Lexeme) : Anything rest := trivial

/-- **A greedy repetition loses nothing**, if each item is read wherever another
item or the end may come behind it, and the end is no item. -/
theorem reads_many_of_items {α : Type} {p : Rule α} {item : Form}
    {leaves : α → List TreeShape} {bound : Nat} {follow : List Lexeme → Prop}
    (hitem : ∀ ⦃us parts rest⦄, us.length < bound → Derives size item us parts → follow rest →
      us ≠ [] ∧ ∃ a, parts = leaves a ∧ p.Reads (us ++ rest) a rest)
    (hnext : ∀ ⦃us parts⦄ rest, Derives size item us parts → follow (us ++ rest))
    {us rest : List Lexeme} {parts : List TreeShape} (h : Items size item us parts)
    (hbound : us.length < bound) (hrest : follow rest) (hend : p.Fails rest) :
    follow (us ++ rest)
      ∧ ∃ as, parts = as.flatMap leaves ∧ Reads (many p) (us ++ rest) as rest := by
  induction h with
  | nil => exact ⟨hrest, [], rfl, reads_many_nil hend⟩
  | @cons ts us parts others hts _ ih =>
    simp only [List.length_append] at hbound
    obtain ⟨hfollow, as, rfl, has⟩ := ih (by omega)
    obtain ⟨hne, a, rfl, ha⟩ := hitem (by omega) hts hfollow
    rw [List.append_assoc]
    refine ⟨hnext _ hts, a :: as, rfl, reads_many_cons ha ?_ has⟩
    have := List.length_pos_iff.mpr hne
    simp only [List.length_append]
    omega

/-- The same for items that leave one tree each. -/
theorem Rule.Accepts.many {p : Rule TreeShape} {n : Nonterminal} {bound : Nat}
    {follow : List Lexeme → Prop} (hp : p.Accepts size n bound follow)
    (hyields : p.Yields size n)
    (hnext : ∀ ⦃us parts⦄ rest, Derives size (.rule n) us parts → follow (us ++ rest))
    {us rest : List Lexeme} {parts : List TreeShape} (h : Items size (.rule n) us parts)
    (hbound : us.length < bound) (hrest : follow rest) (hend : p.Fails rest) :
    Reads (Rule.many p) (us ++ rest) parts rest := by
  have hitem : ∀ ⦃us parts rest⦄, us.length < bound → Derives size (.rule n) us parts →
      follow rest → us ≠ [] ∧ ∃ t, parts = [t] ∧ p.Reads (us ++ rest) t rest := by
    intro us parts rest hbound hus hfollow
    obtain ⟨t, rfl, ht⟩ := hp hbound hus hfollow
    exact ⟨(hyields.covers ht).ne_nil, t, rfl, ht⟩
  obtain ⟨-, trees, rfl, htrees⟩ := reads_many_of_items hitem hnext h hbound hrest hend
  simpa using htrees

/-! ## The tokens that end an expression -/

/-- None of the symbols comes next. -/
def Ends (symbols : List Symbol) (rest : List Lexeme) : Prop :=
  ∀ s ∈ symbols, nextToken rest ≠ some (.symbol s)

theorem Ends.mono {symbols fewer : List Symbol} {rest : List Lexeme} (h : Ends symbols rest)
    (hsub : fewer ⊆ symbols) : Ends fewer rest :=
  fun s hs => h s (hsub hs)

theorem ends_symbol {symbols : List Symbol} {s : Symbol} (h : s ∉ symbols) (span : Span)
    (rest : List Lexeme) : Ends symbols (⟨.symbol s, span⟩ :: rest) := by
  intro s' hs' heq
  simp only [nextToken_cons, Option.some.injEq, Token.symbol.injEq] at heq
  exact h (heq ▸ hs')

theorem ends_nil (symbols : List Symbol) : Ends symbols [] := by
  intro s _ h
  simp at h

namespace Ebnf

/-- How loose a level is; atoms have rank zero. -/
def Level.rank : Level → Nat
  | .term => 1
  | .additive => 2
  | .relational => 3
  | .equality => 4
  | .and => 5
  | .or => 6

/-- **The symbols that go on with an expression** whose operators are of a rank
at most: these operators, and the parenthesis of a call. -/
def continuations (rank : Nat) : List Symbol :=
  .openParen :: ([.term, .additive, .relational, .equality, .and, .or].filter
    (Level.rank · ≤ rank)).flatMap Level.operators

theorem continuations_pred_subset (l : Level) :
    continuations (l.rank - 1) ⊆ continuations l.rank := by
  cases l <;> decide

theorem operators_subset_continuations (l : Level) :
    l.operators ⊆ continuations l.rank := by
  cases l <;> decide

/-- An operator of a level ends its own operand. -/
theorem not_mem_continuations_of_mem_operators {l : Level} {s : Symbol}
    (h : s ∈ l.operators) : s ∉ continuations (l.rank - 1) := by
  revert s
  cases l <;> decide

end Ebnf

namespace Grammar

/-! ## Expressions -/

/-- **Folding operations is nesting their parts.** -/
theorem foldl_binary_eq_nestLeft (left : TreeShape) (others : List (TreeShape × TreeShape)) :
    others.foldl (fun left (operator, right) => .binary left operator right) left
      = nestLeft left (others.flatMap fun (operator, right) => [operator, right]) := by
  induction others generalizing left with
  | nil => rfl
  | cons o others ih => exact ih _

/-- Operations of a level are read as far as they go, if none of the level or
of a tighter one comes next. -/
theorem reads_operations {l : Level} {operand : Rule TreeShape} {bound : Nat}
    (hoperand : operand.Accepts size l.operand bound (Ends (continuations (l.rank - 1))))
    {us rest : List Lexeme} {parts : List TreeShape}
    (h : Items size (.operator l.operators ++ .rule l.operand) us parts)
    (hbound : us.length < bound) (hrest : Ends (continuations l.rank) rest) :
    Ends (continuations (l.rank - 1)) (us ++ rest)
      ∧ ∃ others : List (TreeShape × TreeShape),
          parts = others.flatMap (fun (operator, right) => [operator, right])
            ∧ Reads (many (operation operand l.operators)) (us ++ rest) others rest := by
  refine reads_many_of_items ?_ ?_ h hbound (hrest.mono (continuations_pred_subset l)) ?_
  -- An operator of the level, and behind it an operand, which ends where the next one starts.
  · intro us parts rest hbound hus hfollow
    obtain ⟨ts, vs, parts, others, rfl, rfl, hts, hvs⟩ := derives_append.mp hus
    obtain ⟨t, ht, span, rfl, rfl⟩ := derives_leaf.mp hts
    obtain ⟨s, hs, rfl⟩ := List.mem_map.mp ht
    simp only [List.length_append, List.length_singleton] at hbound
    obtain ⟨right, rfl, hright⟩ := hoperand (by omega) hvs hfollow
    refine ⟨by simp, (⟨.operator, span, []⟩, right), rfl, ?_⟩
    simp only [operation, reads_bind, reads_operatorLeaf, reads_pure]
    exact ⟨_, _, ⟨s, hs, span, rfl, rfl⟩, right, rest, hright, rfl, rfl⟩
  · intro us parts rest hus
    obtain ⟨ts, vs, parts, others, rfl, rfl, hts, hvs⟩ := derives_append.mp hus
    obtain ⟨t, ht, span, rfl, rfl⟩ := derives_leaf.mp hts
    obtain ⟨s, hs, rfl⟩ := List.mem_map.mp ht
    exact ends_symbol (not_mem_continuations_of_mem_operators hs) span _
  · exact (fails_operatorLeaf.mpr fun s hs =>
      hrest s (operators_subset_continuations l hs)).bind

/-- **A level reads its operations** and leaves everything looser alone. -/
theorem binaryLevel_accepts {l : Level} {operand : Rule TreeShape} {bound : Nat}
    (hoperand : operand.Accepts size l.operand bound (Ends (continuations (l.rank - 1)))) :
    (binaryLevel operand l.operators).Accepts size (.level l) bound
      (Ends (continuations l.rank)) := by
  intro us parts rest hbound hus hrest
  obtain ⟨parts, hparts, rfl⟩ := derives_rule.mp hus
  obtain ⟨ts, vs, firsts, parts, rfl, rfl, hts, hvs⟩ := derives_append.mp hparts
  simp only [List.length_append] at hbound
  -- The operations come first: they say what follows the first operand.
  obtain ⟨hfollow, others, rfl, hothers⟩ :=
    reads_operations hoperand (items_of_derives hvs) (by omega) hrest
  obtain ⟨first, rfl, hfirst⟩ := hoperand (by omega) hts hfollow
  refine ⟨_, rfl, ?_⟩
  simp only [binaryLevel, reads_bind, reads_many_bind, reads_pure, List.append_assoc]
  exact ⟨first, _, hfirst, others, rest, hothers, foldl_binary_eq_nestLeft first others, rfl⟩

/-- No expression starts with a symbol other than a parenthesis. -/
theorem fails_expressionWith {expr : Rule TreeShape} {s : Symbol} (hs : s ≠ .openParen)
    (span : Span) (ts : List Lexeme) :
    (expressionWith expr).Fails (⟨.symbol s, span⟩ :: ts) := by
  have hatom : (atom expr).Fails (⟨.symbol s, span⟩ :: ts) := by
    simp only [atom, boolLiteral, fails_orElse, fails_leaf, nextToken_cons]
    refine ⟨by simp, ⟨by simp, by simp⟩, Fails.bind (by simp), Fails.bind (by simp), ?_⟩
    exact (fails_parenthesized (by simpa using hs)).bind
  rw [expressionWith_eq]
  exact hatom.bind.bind.bind.bind.bind.bind

theorem fails_expressionAt (depth : Nat) {s : Symbol} (hs : s ≠ .openParen)
    (span : Span) (ts : List Lexeme) :
    Fails (expressionAt depth) (⟨.symbol s, span⟩ :: ts) := by
  cases depth with
  | zero => exact ⟨_, rfl⟩
  | succ depth => exact fails_expressionWith hs span ts

variable {expr : Rule TreeShape} {bound : Nat}

/-- **A part that may be missing** is read where the grammar has it, and its
absence where the rule fails on what comes next. -/
theorem reads_optional_of_derives {p : Rule TreeShape} {f : Form} {ts rest : List Lexeme}
    {parts : List TreeShape} (h : Derives size f.optional ts parts)
    (hp : Derives size f ts parts → ∃ t, parts = [t] ∧ p.Reads (ts ++ rest) t rest)
    (hfails : p.Fails rest) :
    ∃ value : Option TreeShape, parts = value.toList
      ∧ (optional p).Reads (ts ++ rest) value rest := by
  rcases derives_optional.mp h with h | ⟨rfl, rfl⟩
  · obtain ⟨t, rfl, ht⟩ := hp h
    exact ⟨some t, rfl, reads_optional.mpr (.inl ⟨t, rfl, ht⟩)⟩
  · exact ⟨none, rfl, reads_optional.mpr (.inr ⟨rfl, rfl, hfails⟩)⟩

/-- A list with commas is read up to where no comma comes next. -/
theorem reads_separated_of_derives {p : Rule TreeShape} {n : Nonterminal}
    {follow : List Lexeme → Prop} (hp : p.Accepts size n bound follow)
    (hcomma : ∀ span ts, follow (⟨.symbol .comma, span⟩ :: ts))
    {us rest : List Lexeme} {parts : List TreeShape} (hbound : us.length < bound)
    (h : Derives size (.rule n ++ .repeated (.mark .comma ++ .rule n)) us parts)
    (hrest : follow rest) (hend : nextToken rest ≠ some (.symbol .comma)) :
    ∃ first others, parts = first :: others
      ∧ (separatedBy p (symbol .comma)).Reads (us ++ rest) (first, others) rest := by
  obtain ⟨ts, vs, firsts, parts, rfl, rfl, hts, hvs⟩ := derives_append.mp h
  simp only [List.length_append] at hbound
  have hitem : ∀ ⦃us parts rest⦄, us.length < bound →
      Derives size (.mark .comma ++ .rule n) us parts → follow rest →
      us ≠ [] ∧ ∃ t, parts = [t]
        ∧ (do let _ ← symbol .comma; p : Rule TreeShape).Reads (us ++ rest) t rest := by
    intro us parts rest hbound hus hfollow
    obtain ⟨_, ws, _, others, rfl, rfl, hts, hws⟩ := derives_append.mp hus
    obtain ⟨span, rfl, rfl⟩ := derives_mark.mp hts
    simp only [List.length_append, List.length_singleton] at hbound
    obtain ⟨t, rfl, ht⟩ := hp (by omega) hws hfollow
    refine ⟨by simp, t, rfl, ?_⟩
    simp only [reads_bind, reads_symbol]
    exact ⟨span, _, rfl, ht⟩
  have hnext : ∀ ⦃us parts⦄ rest, Derives size (.mark .comma ++ .rule n) us parts →
      follow (us ++ rest) := by
    intro us parts rest hus
    obtain ⟨_, ws, _, others, rfl, rfl, hts, hws⟩ := derives_append.mp hus
    obtain ⟨span, rfl, rfl⟩ := derives_mark.mp hts
    exact hcomma span _
  obtain ⟨hfollow, others, rfl, hothers⟩ := reads_many_of_items hitem hnext
    (items_of_derives hvs) (by omega) hrest (fails_symbol.mpr hend).bind
  obtain ⟨first, rfl, hfirst⟩ := hp (by omega) hts hfollow
  refine ⟨first, others, by simp, ?_⟩
  simp only [separatedBy, reads_bind, reads_many_bind, reads_pure, List.append_assoc]
  exact ⟨first, _, hfirst, others, rest, hothers, rfl, rfl⟩

theorem argList_accepts (hexpr : expr.Accepts size .expr bound (Ends (continuations 6)))
    (hyields : expr.Yields size .expr) :
    (argList expr).Accepts size .argList bound (Ends (.comma :: continuations 6)) := by
  intro us parts rest hbound hus hrest
  obtain ⟨children, h, rfl⟩ := derives_node rfl hus
  obtain ⟨first, others, rfl, hlist⟩ := reads_separated_of_derives hexpr
    (fun span ts => ends_symbol (by decide) span ts) hbound h
    (hrest.mono (List.subset_cons_self _ _)) (hrest _ List.mem_cons_self)
  have hreads : (argList expr).Reads (us ++ rest) (.listing .argList first others) rest := by
    simp only [argList, reads_bind, reads_pure]
    exact ⟨_, rest, hlist, rfl, rfl⟩
  exact ⟨_, (argList_yields hyields).node_eq hreads rfl, hreads⟩

theorem call_accepts (hexpr : expr.Accepts size .expr bound (Ends (continuations 6)))
    (hyields : expr.Yields size .expr)
    (hfails : ∀ span ts, expr.Fails (⟨.symbol .closeParen, span⟩ :: ts)) :
    (call expr).Accepts size .call (bound + 1) Anything := by
  intro us parts rest hbound hus _
  obtain ⟨_, h, rfl⟩ := derives_node rfl hus
  obtain ⟨_, closing, rfl, h₁⟩ := derives_append_mark.mp h
  obtain ⟨_, ts, _, children, rfl, rfl, h₂, hargs⟩ := derives_append.mp h₁
  obtain ⟨_, opening, rfl, h₃⟩ := derives_append_mark.mp h₂
  obtain ⟨span, rfl, rfl⟩ := derives_ident.mp h₃
  simp only [List.length_append, List.length_singleton] at hbound
  -- Without arguments the parenthesis comes next, and no expression starts with it.
  obtain ⟨args, rfl, hreadsArgs⟩ := reads_optional_of_derives hargs
    (fun h => argList_accepts hexpr hyields (by omega) h
      (ends_symbol (s := .closeParen) (by decide) closing rest))
    (hfails closing rest).bind.bind
  have hreads : (call expr).Reads
      ([⟨.ident, span⟩] ++ [⟨.symbol .openParen, opening⟩] ++ ts
        ++ [⟨.symbol .closeParen, closing⟩] ++ rest)
      (.spanning .callExpr span closing (⟨.ident, span, []⟩ :: args.toList)) rest := by
    simp only [call, reads_bind, reads_ident, reads_pure, List.append_assoc]
    exact ⟨_, _, ⟨span, rfl, rfl⟩, (opening, args, closing), rest,
      reads_parenthesized.mpr ⟨_, rfl, hreadsArgs⟩, rfl, rfl⟩
  exact ⟨_, (call_yields hyields).node_eq hreads rfl, hreads⟩

/-- A name without a parenthesis behind it is no call. -/
theorem fails_call {span : Span} {rest : List Lexeme}
    (h : nextToken rest ≠ some (.symbol .openParen)) :
    (call expr).Fails (⟨.ident, span⟩ :: rest) := by
  refine fails_bind.mpr (.inr ⟨_, rest, reads_ident.mpr ⟨span, rfl, rfl⟩, ?_⟩)
  exact (fails_parenthesized h).bind

theorem reads_location {ts rest : List Lexeme} {t : TreeShape} :
    location.Reads ts t rest
      ↔ ∃ span, ts = ⟨.ident, span⟩ :: rest
          ∧ t = ⟨.locationExpr, span, [⟨.ident, span, []⟩]⟩ := by
  simp only [location, reads_bind, reads_ident, reads_pure]
  constructor
  · rintro ⟨_, _, ⟨span, rfl, rfl⟩, rfl, rfl⟩
    exact ⟨span, rfl, rfl⟩
  · rintro ⟨span, rfl, rfl⟩
    exact ⟨_, rest, ⟨span, rfl, rfl⟩, rfl, rfl⟩

theorem location_accepts (size bound : Nat) :
    location.Accepts size .location bound Anything := by
  intro us parts rest _ hus _
  obtain ⟨children, h, rfl⟩ := derives_node rfl hus
  obtain ⟨span, rfl, rfl⟩ := derives_ident.mp h
  have hreads := reads_location.mpr ⟨span, Eq.refl (⟨.ident, span⟩ :: rest), rfl⟩
  exact ⟨_, (location_yields size).node_eq hreads rfl, hreads⟩

theorem group_accepts (hexpr : expr.Accepts size .expr bound (Ends (continuations 6)))
    (hyields : expr.Yields size .expr) :
    (group expr).Accepts size .group (bound + 1) Anything := by
  intro us parts rest hbound hus _
  obtain ⟨_, h, rfl⟩ := derives_node rfl hus
  obtain ⟨_, closing, rfl, h₁⟩ := derives_append_mark.mp h
  obtain ⟨_, ts, _, children, rfl, rfl, h₂, h₃⟩ := derives_append.mp h₁
  obtain ⟨opening, rfl, rfl⟩ := derives_mark.mp h₂
  simp only [List.length_append, List.length_singleton] at hbound
  obtain ⟨inner, rfl, hinner⟩ := hexpr (by omega) h₃
    (ends_symbol (s := .closeParen) (by decide) closing rest)
  have hreads : (group expr).Reads
      ([⟨.symbol .openParen, opening⟩] ++ ts ++ [⟨.symbol .closeParen, closing⟩] ++ rest)
      (.spanning .parenExpr opening closing [inner]) rest := by
    simp only [group, reads_bind, reads_pure, List.append_assoc]
    exact ⟨(opening, inner, closing), rest, reads_parenthesized.mpr ⟨_, rfl, hinner⟩, rfl, rfl⟩
  exact ⟨_, (group_yields hyields).node_eq hreads rfl, hreads⟩

/-- **The next token tells the atoms apart**, except that a name may be a call;
which it is, the token behind it tells. -/
theorem atom_accepts (hexpr : expr.Accepts size .expr bound (Ends (continuations 6)))
    (hyields : expr.Yields size .expr)
    (hfails : ∀ span ts, expr.Fails (⟨.symbol .closeParen, span⟩ :: ts)) :
    (atom expr).Accepts size .atom (bound + 1) (Ends (continuations 0)) := by
  intro us parts rest hbound hus hrest
  simp only [derives_group (.inr (.inr rfl)), production, derives_orElse] at hus
  simp only [atom, boolLiteral, reads_orElse, fails_orElse, reads_leaf, fails_leaf]
  rcases hus with h | h | h | h | h
  · obtain ⟨t, ht, span, rfl, rfl⟩ := derives_leaf.mp h
    obtain rfl := List.mem_singleton.mp ht
    exact ⟨_, rfl, .inl ⟨span, rfl, rfl⟩⟩
  · obtain ⟨t, ht, span, rfl, rfl⟩ := derives_leaf.mp h
    obtain rfl | rfl : t = .keyword .trueWord ∨ t = .keyword .falseWord := by simpa using ht
    · exact ⟨_, rfl, .inr ⟨by simp, .inl (.inl ⟨span, rfl, rfl⟩)⟩⟩
    · exact ⟨_, rfl, .inr ⟨by simp, .inl (.inr ⟨by simp, span, rfl, rfl⟩)⟩⟩
  · obtain ⟨t, rfl, ht⟩ := call_accepts hexpr hyields hfails hbound h (anything rest)
    have hnext := ht.nextToken_eq fun hne => (fails_ident.mpr hne).bind
    exact ⟨t, rfl, .inr ⟨by simp [hnext], .inr ⟨by simp [hnext], .inl ht⟩⟩⟩
  · -- A call was tried before, and has failed on what comes behind the name.
    obtain ⟨t, rfl, ht⟩ := location_accepts size _ hbound h (anything rest)
    obtain ⟨span, hts, -⟩ := reads_location.mp ht
    have hcall : (call expr).Fails (us ++ rest) := by
      rw [hts]
      exact fails_call (hrest .openParen List.mem_cons_self)
    exact ⟨t, rfl, .inr ⟨by simp [hts], .inr ⟨by simp [hts], .inr ⟨hcall, .inl ht⟩⟩⟩⟩
  · obtain ⟨t, rfl, ht⟩ := group_accepts hexpr hyields hbound h (anything rest)
    have hnext := ht.nextToken_eq fun hne => (fails_parenthesized hne).bind
    have hident : nextToken (us ++ rest) ≠ some .ident := by simp [hnext]
    refine ⟨t, rfl, .inr ⟨by simp [hnext], .inr ⟨by simp [hnext], .inr ⟨?_, .inr ⟨?_, ht⟩⟩⟩⟩⟩
    · exact (fails_ident.mpr hident).bind
    · exact (fails_ident.mpr hident).bind

theorem expressionWith_accepts (hexpr : expr.Accepts size .expr bound (Ends (continuations 6)))
    (hyields : expr.Yields size .expr)
    (hfails : ∀ span ts, expr.Fails (⟨.symbol .closeParen, span⟩ :: ts)) :
    (expressionWith expr).Accepts size .expr (bound + 1) (Ends (continuations 6)) := by
  intro us parts rest hbound hus hrest
  -- Each level turns what may follow its operands into what may follow it.
  have hterm := binaryLevel_accepts (l := .term) (atom_accepts hexpr hyields hfails)
  have hadditive := binaryLevel_accepts (l := .additive) hterm
  have hrelational := binaryLevel_accepts (l := .relational) hadditive
  have hequality := binaryLevel_accepts (l := .equality) hrelational
  have hand := binaryLevel_accepts (l := .and) hequality
  have hor := binaryLevel_accepts (l := .or) hand
  rw [derives_group (.inr (.inl rfl))] at hus
  rw [expressionWith_eq]
  exact hor hbound hus hrest

/-- **Looking `depth` deep is enough for fewer than `depth` tokens**: an
expression inside another leaves at least one token of it. -/
theorem expressionAt_accepts (size depth : Nat) :
    Rule.Accepts size (expressionAt depth) .expr depth (Ends (continuations 6)) := by
  induction depth with
  | zero =>
    intro us parts rest hbound
    omega
  | succ depth ih =>
    have hfails : ∀ span ts, Fails (expressionAt depth) (⟨.symbol .closeParen, span⟩ :: ts) :=
      fun span ts => fails_expressionAt depth (by decide) span ts
    exact expressionWith_accepts ih (expressionAt_yields size depth) hfails

/-- **Every expression is read**, however many tokens it has, if nothing that
would go on with it comes next. -/
theorem expression_accepts (size bound : Nat) :
    expression.Accepts size .expr bound (Ends (continuations 6)) := by
  intro us parts rest _ hus hrest
  have hbound : us.length < (us ++ rest).length + 1 := by
    rw [List.length_append]
    omega
  obtain ⟨t, rfl, ht⟩ := expressionAt_accepts size _ hbound hus hrest
  exact ⟨t, rfl, reads_expression.mpr ht⟩

/-- A symbol other than a parenthesis starts no expression. -/
theorem fails_expression {s : Symbol} (hs : s ≠ .openParen) (span : Span)
    (ts : List Lexeme) : expression.Fails (⟨.symbol s, span⟩ :: ts) := by
  obtain ⟨e, he⟩ := fails_expressionAt ((Lexeme.mk (.symbol s) span :: ts).length + 1) hs span ts
  refine ⟨e, ?_⟩
  rw [expression]
  exact he

end Grammar

end ImpFront
