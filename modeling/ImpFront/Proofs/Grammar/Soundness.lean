import ImpFront.Proofs.Grammar.Derivation
import ImpFront.Proofs.Grammar.Reading

/-!
# What the rules read is derivable

One half of "the reader accepts exactly the grammar": a tree that a rule reads
off a list of tokens is one that the grammar derives from the tokens used up.
Choices and repetitions cost nothing here – whichever alternative was taken, the
grammar has it too.

What needs care is spans. The reader gives a node the span of its parts, joined;
the grammar gives it the span of its tokens. `Covers ts s` says that `s` is the
span of the tokens, and every statement below carries it along.
-/

namespace ImpFront

open Ebnf Rule

/-! ## Spans of tokens -/

/-- The first of the tokens starts at an offset. -/
def StartsAt (ts : List Lexeme) (offset : Nat) : Prop :=
  ts.head?.map (·.span.start) = some offset

/-- The last of the tokens stops at an offset. -/
def StopsAt (ts : List Lexeme) (offset : Nat) : Prop :=
  ts.getLast?.map (·.span.stop) = some offset

/-- **A span reaches over the tokens** and no further. -/
def Covers (ts : List Lexeme) (s : Span) : Prop := StartsAt ts s.start ∧ StopsAt ts s.stop

theorem StartsAt.append {ts : List Lexeme} {n : Nat} (h : StartsAt ts n) (us : List Lexeme) :
    StartsAt (ts ++ us) n := by
  unfold StartsAt at *
  cases ts with
  | nil => simp at h
  | cons t ts => simpa using h

theorem StopsAt.append {us : List Lexeme} {n : Nat} (h : StopsAt us n) (ts : List Lexeme) :
    StopsAt (ts ++ us) n := by
  unfold StopsAt at *
  rw [List.getLast?_append]
  cases hu : us.getLast? with
  | none => simp [hu] at h
  | some l => simpa [hu] using h

@[simp] theorem startsAt_cons {l : Lexeme} {ts : List Lexeme} {n : Nat} :
    StartsAt (l :: ts) n ↔ l.span.start = n := by
  simp [StartsAt]

@[simp] theorem stopsAt_singleton {l : Lexeme} {n : Nat} :
    StopsAt [l] n ↔ l.span.stop = n := by
  simp [StopsAt]

theorem covers_singleton (l : Lexeme) : Covers [l] l.span := by
  simp [Covers]

/-- Tokens that a span covers are some tokens. -/
theorem Covers.ne_nil {ts : List Lexeme} {s : Span} (h : Covers ts s) : ts ≠ [] := by
  rintro rfl
  simp [Covers, StartsAt] at h

/-- The span of some tokens is the one that covers them. -/
theorem extent_eq_of_covers {ts : List Lexeme} {s : Span} (size : Nat) (h : Covers ts s) :
    extent size ts = s := by
  obtain ⟨hstart, hstop⟩ := h
  unfold StartsAt at hstart
  unfold StopsAt at hstop
  obtain ⟨first, hfirst, hstart⟩ := Option.map_eq_some_iff.mp hstart
  obtain ⟨last, hlast, hstop⟩ := Option.map_eq_some_iff.mp hstop
  rw [extent, hfirst, hlast]
  show first.span.join last.span = s
  rw [Span.join, hstart, hstop]

/-- A nonterminal with a node of its own wraps what its production left. -/
theorem Ebnf.Derives.node {size : Nat} {n : Nonterminal} {kind : NodeKind} {ts : List Lexeme}
    {parts children : List TreeShape} {s : Span} (hn : n.nodeKind? = some kind)
    (hs : Covers ts s) (h : Derives size (production n) ts parts)
    (hparts : parts = children) :
    Derives size (.rule n) ts [⟨kind, s, children⟩] := by
  subst hparts
  have h' := Derives.rule n h
  simp only [Nonterminal.assemble, hn, extent_eq_of_covers size hs] at h'
  exact h'

/-! ## Rules that yield nonterminals -/

/-- **Whatever the rule reads is a tree of the nonterminal**, derived from the
tokens used up and as wide as they are. -/
def Rule.Yields (size : Nat) (p : Rule TreeShape) (n : Nonterminal) : Prop :=
  ∀ ⦃ts t rest⦄, p.Reads ts t rest →
    ∃ us, ts = us ++ rest ∧ Covers us t.span ∧ Derives size (.rule n) us [t]

variable {size : Nat}

/-- A chain of items is a repetition of the item's form. Each tree stops where
the tokens of its item do, so the last one stops where all tokens do. -/
theorem derives_repeated_of_chain {p : Rule TreeShape} {item : Form}
    (hp : ∀ ⦃ts t rest⦄, p.Reads ts t rest →
      ∃ us, ts = us ++ rest ∧ StopsAt us t.span.stop ∧ Derives size item us [t])
    {ts rest : List Lexeme} {trees : List TreeShape} (h : Chain p ts trees rest) :
    ∃ us, ts = us ++ rest ∧ Derives size (.repeated item) us trees
      ∧ ∀ before (d : TreeShape), StopsAt before d.span.stop →
          StopsAt (before ++ us) (trees.getLastD d).span.stop := by
  induction h with
  | nil ts => exact ⟨[], rfl, .done item, fun before d hd => by simpa using hd⟩
  | cons ht _ ih =>
    obtain ⟨us, rfl, hstop, hus⟩ := hp ht
    obtain ⟨vs, rfl, hvs, hlast⟩ := ih
    refine ⟨us ++ vs, by simp, hus.again hvs, fun before d _ => ?_⟩
    rw [List.getLastD_cons, ← List.append_assoc]
    exact hlast _ _ (hstop.append before)

/-- A list with commas is one item and then a repetition of a comma and an
item. -/
theorem derives_separated_of_reads {p : Rule TreeShape} {n : Nonterminal}
    (hp : p.Yields size n) {ts rest : List Lexeme} {first : TreeShape}
    {others : List TreeShape}
    (h : (separatedBy p (symbol .comma)).Reads ts (first, others) rest) :
    ∃ us, ts = us ++ rest
      ∧ Covers us (first.span.join (others.getLastD first).span)
      ∧ Derives size (.rule n ++ .repeated (.mark .comma ++ .rule n)) us (first :: others) := by
  simp only [separatedBy, reads_bind, reads_many_bind, reads_pure, Prod.mk.injEq] at h
  obtain ⟨t, mid, ht, trees, rest', htrees, ⟨rfl, rfl⟩, rfl⟩ := h
  obtain ⟨us, rfl, ⟨hstart, hstop⟩, hus⟩ := hp ht
  have hstep : ∀ ⦃ts t rest⦄,
      (do let _ ← symbol .comma; p : Rule TreeShape).Reads ts t rest →
        ∃ us, ts = us ++ rest ∧ StopsAt us t.span.stop
          ∧ Derives size (.mark .comma ++ .rule n) us [t] := by
    intro ts t rest h
    simp only [reads_bind, reads_symbol] at h
    obtain ⟨span, mid, rfl, h⟩ := h
    obtain ⟨us, rfl, ⟨-, hstop⟩, hus⟩ := hp h
    refine ⟨[⟨.symbol .comma, span⟩] ++ us, rfl, hstop.append _, ?_⟩
    exact .sequence (.mark .comma span) hus
  obtain ⟨vs, rfl, hvs, hlast⟩ := derives_repeated_of_chain hstep (chain_of_reads_many htrees)
  refine ⟨us ++ vs, by simp, ⟨hstart.append vs, hlast us t hstop⟩, ?_⟩
  exact .sequence hus hvs

/-- A part that may be missing is an optional form. -/
theorem derives_optional_of_reads {p : Rule TreeShape} {f : Form}
    (hp : ∀ ⦃ts t rest⦄, p.Reads ts t rest → ∃ us, ts = us ++ rest ∧ Derives size f us [t])
    {ts rest : List Lexeme} {o : Option TreeShape} (h : (optional p).Reads ts o rest) :
    ∃ us, ts = us ++ rest ∧ Derives size f.optional us o.toList := by
  rcases reads_optional.mp h with ⟨t, rfl, ht⟩ | ⟨rfl, rfl, -⟩
  · obtain ⟨us, rfl, hus⟩ := hp ht
    exact ⟨us, rfl, .present hus⟩
  · exact ⟨[], rfl, .absent f⟩

theorem Rule.Yields.derives {p : Rule TreeShape} {n : Nonterminal} (hp : p.Yields size n)
    ⦃ts : List Lexeme⦄ ⦃t : TreeShape⦄ ⦃rest : List Lexeme⦄ (h : p.Reads ts t rest) :
    ∃ us, ts = us ++ rest ∧ Derives size (.rule n) us [t] := by
  obtain ⟨us, hts, -, hus⟩ := hp h
  exact ⟨us, hts, hus⟩

theorem Rule.Yields.stops {p : Rule TreeShape} {n : Nonterminal} (hp : p.Yields size n)
    ⦃ts : List Lexeme⦄ ⦃t : TreeShape⦄ ⦃rest : List Lexeme⦄ (h : p.Reads ts t rest) :
    ∃ us, ts = us ++ rest ∧ StopsAt us t.span.stop ∧ Derives size (.rule n) us [t] := by
  obtain ⟨us, hts, hcov, hus⟩ := hp h
  exact ⟨us, hts, hcov.2, hus⟩

namespace Grammar

/-! ## Expressions -/

variable {expr : Rule TreeShape}

theorem argList_yields (hexpr : expr.Yields size .expr) :
    (argList expr).Yields size .argList := by
  intro ts t rest h
  simp only [argList, reads_bind, reads_pure] at h
  obtain ⟨⟨first, others⟩, _, hlist, rfl, rfl⟩ := h
  obtain ⟨us, rfl, hcov, hus⟩ := derives_separated_of_reads hexpr hlist
  exact ⟨us, rfl, hcov, .node rfl hcov hus (by simp)⟩

theorem call_yields (hexpr : expr.Yields size .expr) : (call expr).Yields size .call := by
  intro ts t rest h
  simp only [call, reads_bind, reads_ident, reads_pure] at h
  obtain ⟨_, _, ⟨span, rfl, rfl⟩, ⟨opening, args, closing⟩, _, hparen, rfl, rfl⟩ := h
  obtain ⟨inner, rfl, hargs⟩ := reads_parenthesized.mp hparen
  obtain ⟨us, rfl, hus⟩ := derives_optional_of_reads (argList_yields hexpr).derives hargs
  have hder := (((Derives.ident span).sequence (.mark .openParen opening)).sequence hus).sequence
    (.mark .closeParen closing)
  have hcov : Covers ([⟨.ident, span⟩] ++ [⟨.symbol .openParen, opening⟩] ++ us
      ++ [⟨.symbol .closeParen, closing⟩]) (span.join closing) :=
    ⟨by simp, StopsAt.append (by simp) _⟩
  exact ⟨_, by simp, hcov, .node rfl hcov hder (by simp)⟩

theorem location_yields (size : Nat) : location.Yields size .location := by
  intro ts t rest h
  simp only [location, reads_bind, reads_ident, reads_pure] at h
  obtain ⟨_, _, ⟨span, rfl, rfl⟩, rfl, rfl⟩ := h
  have hcov := covers_singleton ⟨.ident, span⟩
  exact ⟨[⟨.ident, span⟩], rfl, hcov, .node rfl hcov (.ident span) (by simp)⟩

theorem group_yields (hexpr : expr.Yields size .expr) : (group expr).Yields size .group := by
  intro ts t rest h
  simp only [group, reads_bind, reads_pure] at h
  obtain ⟨⟨opening, inner, closing⟩, _, hparen, rfl, rfl⟩ := h
  obtain ⟨_, rfl, hinner⟩ := reads_parenthesized.mp hparen
  obtain ⟨us, rfl, -, hus⟩ := hexpr hinner
  have hder := ((Derives.mark .openParen opening).sequence hus).sequence
    (.mark .closeParen closing)
  have hcov : Covers ([⟨.symbol .openParen, opening⟩] ++ us
      ++ [⟨.symbol .closeParen, closing⟩]) (opening.join closing) :=
    ⟨by simp, StopsAt.append (by simp) _⟩
  exact ⟨_, by simp, hcov, .node rfl hcov hder (by simp)⟩

/-- An atom is a literal, a call, a name or a group; it makes no node of its
own. -/
theorem atom_yields (hexpr : expr.Yields size .expr) : (atom expr).Yields size .atom := by
  intro ts t rest h
  have hatom : ∀ {us}, Derives size (production .atom) us [t] →
      Derives size (.rule .atom) us [t] := Derives.rule .atom
  simp only [atom, boolLiteral, reads_orElse, reads_leaf] at h
  rcases h with ⟨span, rfl, rfl⟩ | ⟨-, (⟨span, rfl, rfl⟩ | ⟨-, span, rfl, rfl⟩) | ⟨-, h⟩⟩
  · exact ⟨_, rfl, covers_singleton _, hatom (.left _ (.only _ _ span))⟩
  · exact ⟨_, rfl, covers_singleton _, hatom (.right _ (.left _ (.leaf _ span (by simp))))⟩
  · exact ⟨_, rfl, covers_singleton _, hatom (.right _ (.left _ (.leaf _ span (by simp))))⟩
  rcases h with h | ⟨-, h | ⟨-, h⟩⟩
  · obtain ⟨us, rfl, hcov, hus⟩ := call_yields hexpr h
    exact ⟨us, rfl, hcov, hatom (.right _ (.right _ (.left _ hus)))⟩
  · obtain ⟨us, rfl, hcov, hus⟩ := location_yields size h
    exact ⟨us, rfl, hcov, hatom (.right _ (.right _ (.right _ (.left _ hus))))⟩
  · obtain ⟨us, rfl, hcov, hus⟩ := group_yields hexpr h
    exact ⟨us, rfl, hcov, hatom (.right _ (.right _ (.right _ (.right _ hus))))⟩

/-- One operation more: an operator of the level and its right operand. -/
def operation (operand : Rule TreeShape) (symbols : List Symbol) :
    Rule (TreeShape × TreeShape) := do
  let operator ← operatorLeaf symbols
  let right ← operand
  return (operator, right)

/-- **The reader folds operations as the grammar does.** Whatever the tree so
far covers, with a chain of operations behind it the nest covers the tokens of
the operations as well. -/
theorem derives_operations {l : Level} {operand : Rule TreeShape}
    (hoperand : operand.Yields size l.operand) {mid rest : List Lexeme}
    {others : List (TreeShape × TreeShape)}
    (h : Chain (operation operand l.operators) mid others rest)
    {us : List Lexeme} {left : TreeShape} (hleft : Covers us left.span) :
    ∃ vs parts, mid = vs ++ rest
      ∧ Derives size (.repeated (.operator l.operators ++ .rule l.operand)) vs parts
      ∧ others.foldl (fun left (operator, right) => .binary left operator right) left
          = nestLeft left parts
      ∧ Covers (us ++ vs) (nestLeft left parts).span := by
  induction h generalizing us left with
  | nil ts => exact ⟨[], [], rfl, .done _, rfl, by simpa [nestLeft] using hleft⟩
  | cons ha _ ih =>
    simp only [operation, reads_bind, reads_operatorLeaf, reads_pure] at ha
    obtain ⟨_, _, ⟨s, hs, span, rfl, rfl⟩, right, _, hright, rfl, rfl⟩ := ha
    obtain ⟨ws, rfl, ⟨_, hstop⟩, hws⟩ := hoperand hright
    -- The operation so far is the left operand of what comes next.
    have hbinary : Covers (us ++ ([⟨.symbol s, span⟩] ++ ws))
        (TreeShape.binary left ⟨.operator, span, []⟩ right).span :=
      ⟨hleft.1.append _, (hstop.append _).append _⟩
    obtain ⟨vs, parts, rfl, hvs, hfold, hcov⟩ := ih hbinary
    have hagain := Derives.again (.sequence (.operator span hs) hws) hvs
    refine ⟨([⟨.symbol s, span⟩] ++ ws) ++ vs, _, by simp, hagain, ?_, ?_⟩
    · exact hfold
    · rw [← List.append_assoc]
      exact hcov

theorem binaryLevel_yields {l : Level} {operand : Rule TreeShape}
    (hoperand : operand.Yields size l.operand) :
    (binaryLevel operand l.operators).Yields size (.level l) := by
  intro ts t rest h
  simp only [binaryLevel, reads_bind, reads_many_bind, reads_pure] at h
  obtain ⟨first, _, hfirst, others, _, hothers, rfl, rfl⟩ := h
  obtain ⟨us, rfl, hcov, hus⟩ := hoperand hfirst
  obtain ⟨vs, parts, rfl, hvs, hfold, hcov⟩ :=
    derives_operations hoperand (chain_of_reads_many hothers) hcov
  rw [hfold]
  exact ⟨us ++ vs, by simp, hcov, .rule (.level l) (.sequence hus hvs)⟩

/-- The levels of the reader are the levels of the grammar. -/
theorem expressionWith_eq (expr : Rule TreeShape) :
    expressionWith expr
      = binaryLevel (binaryLevel (binaryLevel (binaryLevel (binaryLevel (binaryLevel (atom expr)
          Level.term.operators) Level.additive.operators) Level.relational.operators)
          Level.equality.operators) Level.and.operators) Level.or.operators := rfl

theorem expressionWith_yields (hexpr : expr.Yields size .expr) :
    (expressionWith expr).Yields size .expr := by
  intro ts t rest h
  rw [expressionWith_eq] at h
  have hterm := binaryLevel_yields (l := .term) (atom_yields hexpr)
  have hadditive := binaryLevel_yields (l := .additive) hterm
  have hrelational := binaryLevel_yields (l := .relational) hadditive
  have hequality := binaryLevel_yields (l := .equality) hrelational
  have hand := binaryLevel_yields (l := .and) hequality
  obtain ⟨us, rfl, hcov, hus⟩ := binaryLevel_yields (l := .or) hand h
  exact ⟨us, rfl, hcov, .rule .expr hus⟩

/-- However deep the reader looks, the expressions it reads are derivable. -/
theorem expressionAt_yields (size depth : Nat) :
    Rule.Yields size (expressionAt depth) .expr := by
  induction depth with
  | zero =>
    rintro ts t rest ⟨s, hs⟩
    simp [expressionAt] at hs
  | succ depth ih => exact expressionWith_yields ih

theorem reads_expression {ts rest : List Lexeme} {t : TreeShape} :
    expression.Reads ts t rest ↔ Reads (expressionAt (ts.length + 1)) ts t rest := by
  simp only [Reads, expression]

theorem expression_yields (size : Nat) : expression.Yields size .expr :=
  fun _ _ _ h => expressionAt_yields size _ (reads_expression.mp h)

/-! ## Statements -/

theorem typeName_yields (size : Nat) : typeName.Yields size .type := by
  intro ts t rest h
  simp only [typeName, reads_bind, reads_orElse, reads_leaf, reads_pure] at h
  obtain ⟨_, _, h, rfl, rfl⟩ := h
  have hnode : ∀ {kind t span}, Derives size (production .type) [⟨t, span⟩] [⟨kind, span, []⟩] →
      Covers [⟨t, span⟩] span
        ∧ Derives size (.rule .type) [⟨t, span⟩] [⟨.type, span, [⟨kind, span, []⟩]⟩] :=
    fun hder => ⟨covers_singleton _, .node rfl (covers_singleton _) hder (by simp)⟩
  rcases h with ⟨span, rfl, rfl⟩ | ⟨-, ⟨span, rfl, rfl⟩ | ⟨-, span, rfl, rfl⟩⟩
  · exact ⟨_, rfl, hnode (.left _ (.only _ _ span))⟩
  · exact ⟨_, rfl, hnode (.right _ (.left _ (.only _ _ span)))⟩
  · exact ⟨_, rfl, hnode (.right _ (.right _ (.only _ _ span)))⟩

theorem derives_of_reads_initializer (size : Nat) ⦃ts : List Lexeme⦄ ⦃t : TreeShape⦄
    ⦃rest : List Lexeme⦄
    (h : initializer.Reads ts t rest) :
    ∃ us, ts = us ++ rest ∧ Derives size (.mark .assign ++ .rule .expr) us [t] := by
  simp only [initializer, reads_bind, reads_symbol] at h
  obtain ⟨span, _, rfl, h⟩ := h
  obtain ⟨us, rfl, -, hus⟩ := expression_yields size h
  exact ⟨[⟨.symbol .assign, span⟩] ++ us, rfl, .sequence (.mark .assign span) hus⟩

theorem varDecl_yields (size : Nat) : varDecl.Yields size .varDecl := by
  intro ts t rest h
  simp only [varDecl, reads_bind, reads_ident, reads_symbol, reads_pure] at h
  obtain ⟨type, _, htype, _, _, ⟨span, rfl, rfl⟩, value, _, hvalue, closing, _, rfl, rfl, rfl⟩ := h
  obtain ⟨us, rfl, ⟨hstart, -⟩, hus⟩ := typeName_yields size htype
  obtain ⟨vs, rfl, hvs⟩ := derives_optional_of_reads (derives_of_reads_initializer size) hvalue
  have hder := ((hus.sequence (.ident span)).sequence hvs).sequence (.mark .semicolon closing)
  have hcov : Covers (us ++ [⟨.ident, span⟩] ++ vs ++ [⟨.symbol .semicolon, closing⟩])
      (type.span.join closing) :=
    ⟨((hstart.append _).append _).append _, StopsAt.append (by simp) _⟩
  exact ⟨_, by simp, hcov, .node rfl hcov hder (by simp)⟩

theorem assignStmt_yields (size : Nat) : assignStmt.Yields size .assign := by
  intro ts t rest h
  simp only [assignStmt, reads_bind, reads_ident, reads_symbol, reads_pure] at h
  obtain ⟨_, _, ⟨span, rfl, rfl⟩, equals, _, rfl, value, _, hvalue, closing, _, rfl, rfl, rfl⟩ := h
  obtain ⟨us, rfl, -, hus⟩ := expression_yields size hvalue
  have hder := (((Derives.ident span).sequence (.mark .assign equals)).sequence hus).sequence
    (.mark .semicolon closing)
  have hcov : Covers ([⟨.ident, span⟩] ++ [⟨.symbol .assign, equals⟩] ++ us
      ++ [⟨.symbol .semicolon, closing⟩]) (span.join closing) :=
    ⟨by simp, StopsAt.append (by simp) _⟩
  exact ⟨_, by simp, hcov, .node rfl hcov hder (by simp)⟩

/-- A condition is an expression between parentheses. -/
theorem derives_of_reads_condition (size : Nat) {ts rest : List Lexeme} {t : TreeShape}
    (h : condition.Reads ts t rest) :
    ∃ opening us closing,
      ts = ([⟨.symbol .openParen, opening⟩] ++ us ++ [⟨.symbol .closeParen, closing⟩]) ++ rest
        ∧ Derives size (.rule .expr) us [t] := by
  simp only [condition, reads_bind, reads_pure] at h
  obtain ⟨⟨opening, _, closing⟩, _, hparen, rfl, rfl⟩ := h
  obtain ⟨_, rfl, hinner⟩ := reads_parenthesized.mp hparen
  obtain ⟨us, rfl, -, hus⟩ := expression_yields size hinner
  exact ⟨opening, us, closing, by simp, hus⟩

variable {block : Rule TreeShape}

theorem elseIfClause_yields (hblock : block.Yields size .block) :
    (elseIfClause block).Yields size .elseIf := by
  intro ts t rest h
  simp only [elseIfClause, reads_bind, reads_keyword, reads_pure] at h
  obtain ⟨span, _, rfl, inner, _, rfl, cond, _, hcond, body, _, hbody, rfl, rfl⟩ := h
  obtain ⟨opening, us, closing, rfl, hus⟩ := derives_of_reads_condition size hcond
  obtain ⟨vs, rfl, ⟨-, hstop⟩, hvs⟩ := hblock hbody
  have hder := (((((Derives.word .elseWord span).sequence (.word .ifWord inner)).sequence
    (.mark .openParen opening)).sequence hus).sequence (.mark .closeParen closing)).sequence hvs
  have hcov : Covers ([⟨.keyword .elseWord, span⟩] ++ [⟨.keyword .ifWord, inner⟩]
      ++ [⟨.symbol .openParen, opening⟩] ++ us ++ [⟨.symbol .closeParen, closing⟩] ++ vs)
      (span.join body.span) :=
    ⟨by simp, hstop.append _⟩
  exact ⟨_, by simp, hcov, .node rfl hcov hder (by simp)⟩

theorem elseClause_yields (hblock : block.Yields size .block) :
    (elseClause block).Yields size .elseClause := by
  intro ts t rest h
  simp only [elseClause, reads_bind, reads_keyword, reads_pure] at h
  obtain ⟨span, _, rfl, body, _, hbody, rfl, rfl⟩ := h
  obtain ⟨us, rfl, ⟨-, hstop⟩, hus⟩ := hblock hbody
  have hcov : Covers ([⟨.keyword .elseWord, span⟩] ++ us) (span.join body.span) :=
    ⟨by simp, hstop.append _⟩
  exact ⟨_, by simp, hcov, .node rfl hcov ((Derives.word .elseWord span).sequence hus) (by simp)⟩

theorem whileStmt_yields (hblock : block.Yields size .block) :
    (whileStmt block).Yields size .whileStmt := by
  intro ts t rest h
  simp only [whileStmt, reads_bind, reads_keyword, reads_pure] at h
  obtain ⟨span, _, rfl, cond, _, hcond, body, _, hbody, rfl, rfl⟩ := h
  obtain ⟨opening, us, closing, rfl, hus⟩ := derives_of_reads_condition size hcond
  obtain ⟨vs, rfl, ⟨-, hstop⟩, hvs⟩ := hblock hbody
  have hder := ((((Derives.word .whileWord span).sequence (.mark .openParen opening)).sequence
    hus).sequence (.mark .closeParen closing)).sequence hvs
  have hcov : Covers ([⟨.keyword .whileWord, span⟩] ++ [⟨.symbol .openParen, opening⟩] ++ us
      ++ [⟨.symbol .closeParen, closing⟩] ++ vs) (span.join body.span) :=
    ⟨by simp, hstop.append _⟩
  exact ⟨_, by simp, hcov, .node rfl hcov hder (by simp)⟩

theorem returnStmt_yields (size : Nat) : returnStmt.Yields size .returnStmt := by
  intro ts t rest h
  simp only [returnStmt, reads_bind, reads_keyword, reads_symbol, reads_pure] at h
  obtain ⟨span, _, rfl, value, _, hvalue, closing, _, rfl, rfl, rfl⟩ := h
  obtain ⟨us, rfl, hus⟩ := derives_optional_of_reads (expression_yields size).derives hvalue
  have hder := ((Derives.word .returnWord span).sequence hus).sequence (.mark .semicolon closing)
  have hcov : Covers ([⟨.keyword .returnWord, span⟩] ++ us
      ++ [⟨.symbol .semicolon, closing⟩]) (span.join closing) :=
    ⟨by simp, StopsAt.append (by simp) _⟩
  exact ⟨_, by simp, hcov, .node rfl hcov hder (by simp)⟩

theorem jumpStmt_yields {kind : NodeKind} {word : Keyword} {n : Nonterminal}
    (hn : n.nodeKind? = some kind) (hproduction : production n = .word word ++ .mark .semicolon) :
    (jumpStmt kind word).Yields size n := by
  intro ts t rest h
  simp only [jumpStmt, reads_bind, reads_keyword, reads_symbol, reads_pure] at h
  obtain ⟨span, _, rfl, closing, _, rfl, rfl, rfl⟩ := h
  have hder : Derives size (production n)
      ([⟨.keyword word, span⟩] ++ [⟨.symbol .semicolon, closing⟩]) ([] ++ []) := by
    rw [hproduction]
    exact (Derives.word word span).sequence (.mark .semicolon closing)
  have hcov : Covers ([⟨.keyword word, span⟩] ++ [⟨.symbol .semicolon, closing⟩])
      (span.join closing) :=
    ⟨by simp, StopsAt.append (by simp) _⟩
  exact ⟨_, rfl, hcov, .node hn hcov hder (by simp)⟩

/-- A conditional stops where its last clause does, or its first block if it
has no clauses. -/
theorem ifStmt_yields (hblock : block.Yields size .block) :
    (ifStmt block).Yields size .ifStmt := by
  intro ts t rest h
  simp only [ifStmt, reads_bind, reads_many_bind, reads_keyword, reads_pure] at h
  obtain ⟨span, _, rfl, cond, _, hcond, body, _, hbody, elseIfs, _, helseIfs, last, _, hlast,
    rfl, rfl⟩ := h
  obtain ⟨opening, us, closing, rfl, hus⟩ := derives_of_reads_condition size hcond
  obtain ⟨vs, rfl, ⟨-, hstop⟩, hvs⟩ := hblock hbody
  obtain ⟨ws, rfl, hws, hlater⟩ :=
    derives_repeated_of_chain (elseIfClause_yields hblock).stops (chain_of_reads_many helseIfs)
  have hstart : Derives size
      (.word .ifWord ++ .mark .openParen ++ .rule .expr ++ .mark .closeParen ++ .rule .block
        ++ .repeated (.rule .elseIf)) _ _ :=
    (((((Derives.word .ifWord span).sequence (.mark .openParen opening)).sequence
      hus).sequence (.mark .closeParen closing)).sequence hvs).sequence hws
  have hstops := hlater _ body (hstop.append ([⟨.keyword .ifWord, span⟩]
    ++ [⟨.symbol .openParen, opening⟩] ++ us ++ [⟨.symbol .closeParen, closing⟩]))
  -- The span of the node depends on which clause is the last, and so the cases.
  rcases reads_optional.mp hlast with ⟨t, rfl, ht⟩ | ⟨rfl, rfl, -⟩
  · obtain ⟨xs, rfl, ⟨-, hstop'⟩, hxs⟩ := elseClause_yields hblock ht
    have hcov : Covers ([⟨.keyword .ifWord, span⟩] ++ [⟨.symbol .openParen, opening⟩] ++ us
        ++ [⟨.symbol .closeParen, closing⟩] ++ vs ++ ws ++ xs)
        (span.join ((elseIfs ++ [t]).getLastD body).span) := by
      rw [List.getLastD_concat]
      exact ⟨by simp, hstop'.append _⟩
    exact ⟨_, by simp, hcov, .node rfl hcov (hstart.sequence (.present hxs)) (by simp)⟩
  · have hcov : Covers ([⟨.keyword .ifWord, span⟩] ++ [⟨.symbol .openParen, opening⟩] ++ us
        ++ [⟨.symbol .closeParen, closing⟩] ++ vs ++ ws ++ [])
        (span.join ((elseIfs ++ []).getLastD body).span) := by
      rw [List.append_nil, List.append_nil]
      exact ⟨by simp, hstops⟩
    exact ⟨_, by simp, hcov, .node rfl hcov (hstart.sequence (.absent _)) (by simp)⟩

/-- A statement is one of six, and makes no node of its own. -/
theorem statementWith_yields (hblock : block.Yields size .block) :
    (statementWith block).Yields size .statement := by
  intro ts t rest h
  have hstatement : ∀ {us}, Derives size (production .statement) us [t] →
      Derives size (.rule .statement) us [t] := Derives.rule .statement
  simp only [statementWith, reads_orElse] at h
  rcases h with h | ⟨-, h | ⟨-, h | ⟨-, h | ⟨-, h | ⟨-, h⟩⟩⟩⟩⟩
  · obtain ⟨us, rfl, hcov, hus⟩ := assignStmt_yields size h
    exact ⟨us, rfl, hcov, hstatement (.left _ hus)⟩
  · obtain ⟨us, rfl, hcov, hus⟩ := ifStmt_yields hblock h
    exact ⟨us, rfl, hcov, hstatement (.right _ (.left _ hus))⟩
  · obtain ⟨us, rfl, hcov, hus⟩ := whileStmt_yields hblock h
    exact ⟨us, rfl, hcov, hstatement (.right _ (.right _ (.left _ hus)))⟩
  · obtain ⟨us, rfl, hcov, hus⟩ := returnStmt_yields size h
    exact ⟨us, rfl, hcov, hstatement (.right _ (.right _ (.right _ (.left _ hus))))⟩
  · obtain ⟨us, rfl, hcov, hus⟩ := jumpStmt_yields (n := .breakStmt) rfl rfl h
    exact ⟨us, rfl, hcov, hstatement (.right _ (.right _ (.right _ (.right _ (.left _ hus)))))⟩
  · obtain ⟨us, rfl, hcov, hus⟩ := jumpStmt_yields (n := .continueStmt) rfl rfl h
    exact ⟨us, rfl, hcov, hstatement (.right _ (.right _ (.right _ (.right _ (.right _ hus)))))⟩

theorem blockWith_yields (hblock : block.Yields size .block) :
    (blockWith block).Yields size .block := by
  intro ts t rest h
  simp only [blockWith, reads_bind, reads_many_bind, reads_symbol, reads_pure] at h
  obtain ⟨opening, _, rfl, items, _, hitems, closing, _, rfl, rfl, rfl⟩ := h
  have hitem : ∀ ⦃ts t rest⦄, (varDecl <|> statementWith block).Reads ts t rest →
      ∃ us, ts = us ++ rest ∧ StopsAt us t.span.stop
        ∧ Derives size (.rule .varDecl <|> .rule .statement) us [t] := by
    intro ts t rest h
    rcases reads_orElse.mp h with h | ⟨-, h⟩
    · obtain ⟨us, rfl, ⟨-, hstop⟩, hus⟩ := varDecl_yields size h
      exact ⟨us, rfl, hstop, .left _ hus⟩
    · obtain ⟨us, rfl, ⟨-, hstop⟩, hus⟩ := statementWith_yields hblock h
      exact ⟨us, rfl, hstop, .right _ hus⟩
  obtain ⟨us, rfl, hus, -⟩ := derives_repeated_of_chain hitem (chain_of_reads_many hitems)
  have hder := ((Derives.mark .openBrace opening).sequence hus).sequence
    (.mark .closeBrace closing)
  have hcov : Covers ([⟨.symbol .openBrace, opening⟩] ++ us
      ++ [⟨.symbol .closeBrace, closing⟩]) (opening.join closing) :=
    ⟨by simp, StopsAt.append (by simp) _⟩
  exact ⟨_, by simp, hcov, .node rfl hcov hder (by simp)⟩

theorem blockAt_yields (size depth : Nat) : Rule.Yields size (blockAt depth) .block := by
  induction depth with
  | zero =>
    rintro ts t rest ⟨s, hs⟩
    simp [blockAt] at hs
  | succ depth ih => exact blockWith_yields ih

theorem reads_block {ts rest : List Lexeme} {t : TreeShape} :
    Grammar.block.Reads ts t rest ↔ Reads (blockAt (ts.length + 1)) ts t rest := by
  simp only [Reads, Grammar.block]

theorem block_yields (size : Nat) : Grammar.block.Yields size .block :=
  fun _ _ _ h => blockAt_yields size _ (reads_block.mp h)

theorem statement_yields (size : Nat) : statement.Yields size .statement :=
  statementWith_yields (block_yields size)

/-! ## Programs -/

theorem param_yields (size : Nat) : param.Yields size .param := by
  intro ts t rest h
  simp only [param, reads_bind, reads_ident, reads_pure] at h
  obtain ⟨type, _, htype, _, _, ⟨span, rfl, rfl⟩, rfl, rfl⟩ := h
  obtain ⟨us, rfl, ⟨hstart, -⟩, hus⟩ := typeName_yields size htype
  have hcov : Covers (us ++ [⟨.ident, span⟩]) (type.span.join span) :=
    ⟨hstart.append _, StopsAt.append (by simp) _⟩
  exact ⟨_, by simp, hcov, .node rfl hcov (hus.sequence (.ident span)) (by simp)⟩

theorem paramList_yields (size : Nat) : paramList.Yields size .paramList := by
  intro ts t rest h
  simp only [paramList, reads_bind, reads_pure] at h
  obtain ⟨⟨first, others⟩, _, hlist, rfl, rfl⟩ := h
  obtain ⟨us, rfl, hcov, hus⟩ := derives_separated_of_reads (param_yields size) hlist
  exact ⟨us, rfl, hcov, .node rfl hcov hus (by simp)⟩

theorem funcDecl_yields (size : Nat) : funcDecl.Yields size .funcDecl := by
  intro ts t rest h
  simp only [funcDecl, reads_bind, reads_ident, reads_pure] at h
  obtain ⟨type, _, htype, _, _, ⟨span, rfl, rfl⟩, ⟨opening, params, closing⟩, _, hparen, body, _,
    hbody, rfl, rfl⟩ := h
  obtain ⟨us, rfl, ⟨hstart, -⟩, hus⟩ := typeName_yields size htype
  obtain ⟨_, rfl, hparams⟩ := reads_parenthesized.mp hparen
  obtain ⟨vs, rfl, hvs⟩ := derives_optional_of_reads (paramList_yields size).derives hparams
  obtain ⟨ws, rfl, ⟨-, hstop⟩, hws⟩ := block_yields size hbody
  have hder := ((((hus.sequence (.ident span)).sequence (.mark .openParen opening)).sequence
    hvs).sequence (.mark .closeParen closing)).sequence hws
  have hcov : Covers (us ++ [⟨.ident, span⟩] ++ [⟨.symbol .openParen, opening⟩] ++ vs
      ++ [⟨.symbol .closeParen, closing⟩] ++ ws) (type.span.join body.span) :=
    ⟨((((hstart.append _).append _).append _).append _).append _, hstop.append _⟩
  exact ⟨_, by simp, hcov, .node rfl hcov hder (by simp)⟩

theorem derives_of_reads_declaration (size : Nat) ⦃ts : List Lexeme⦄ ⦃t : TreeShape⦄
    ⦃rest : List Lexeme⦄ (h : declaration.Reads ts t rest) :
    ∃ us, ts = us ++ rest ∧ Covers us t.span
      ∧ Derives size (.rule .varDecl <|> .rule .funcDecl) us [t] := by
  rcases reads_orElse.mp h with h | ⟨-, h⟩
  · obtain ⟨us, rfl, hcov, hus⟩ := funcDecl_yields size h
    exact ⟨us, rfl, hcov, .right _ hus⟩
  · obtain ⟨us, rfl, hcov, hus⟩ := varDecl_yields size h
    exact ⟨us, rfl, hcov, .left _ hus⟩

/-- **A program is derivable.** It is the one node that may cover no tokens, and
then stands at the end of the source. -/
theorem derives_of_reads_program {ts rest : List Lexeme} {t : TreeShape}
    (h : (program size).Reads ts t rest) :
    ∃ us, ts = us ++ rest ∧ Derives size (.rule .program) us [t] := by
  simp only [program, reads_many_bind, reads_pure] at h
  obtain ⟨trees, _, htrees, rfl, rfl⟩ := h
  cases chain_of_reads_many htrees with
  -- Without tokens the extent is the end of the source on both sides.
  | nil => exact ⟨[], rfl, .rule .program (.done _)⟩
  | @cons _ _ _ first others hfirst hothers =>
    obtain ⟨us, rfl, ⟨hstart, hstop⟩, hus⟩ := derives_of_reads_declaration size hfirst
    have hitem : ∀ ⦃ts t rest⦄, declaration.Reads ts t rest →
        ∃ us, ts = us ++ rest ∧ StopsAt us t.span.stop
          ∧ Derives size (.rule .varDecl <|> .rule .funcDecl) us [t] := by
      intro ts t rest h
      obtain ⟨us, rfl, ⟨-, hstop⟩, hus⟩ := derives_of_reads_declaration size h
      exact ⟨us, rfl, hstop, hus⟩
    obtain ⟨vs, rfl, hvs, hlast⟩ := derives_repeated_of_chain hitem hothers
    have hcov : Covers (us ++ vs) (first.span.join (others.getLastD first).span) :=
      ⟨hstart.append vs, hlast us first hstop⟩
    exact ⟨us ++ vs, by simp, .node rfl hcov (hus.again hvs) (by simp)⟩

end Grammar

end ImpFront
