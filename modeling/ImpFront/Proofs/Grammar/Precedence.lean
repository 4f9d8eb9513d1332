import ImpFront.Proofs.SyntaxTree.Faithful

/-!
# Precedence decides the tree of an expression

The grammar writes precedence down as six levels, each nested in the one before.
A reader of the language thinks of it in another way: an expression is made of
operands and operators in any grouping whatsoever (`Groups`), and precedence
rules most groupings out. An operation has to have operations on its left that
bind at least as tightly, and on its right only operations that bind more tightly
(`SyntaxTree.RespectsPrecedence`).

Both come to the same. What the grammar derives is a grouping that respects
precedence, and every such grouping is derived (`derives_expr_iff`). As the
grammar is unambiguous, no second grouping of the same tokens respects
precedence; and where there is a grouping at all, there is one that does.

So precedence decides what the parser returns. The tree of an expression, and every
expression in the tree of a statement or of a program, is the only grouping of its
tokens that respects precedence (`SyntaxTree.IsOnlyGrouping`).
-/

namespace ImpFront

open Ebnf SyntaxTree

/-! ## What precedence asks of a tree -/

/-- The level that has an operator with the spelling. -/
def Ebnf.Level.ofSpelling? (text : String) : Option Level :=
  [Level.or, .and, .equality, .relational, .additive, .term].find?
    fun l => l.operators.any (·.spelling = text)

namespace SyntaxTree

/-- **The operands and the level of a binary operation.** -/
def operation? : SyntaxTree → Option (SyntaxTree × Level × SyntaxTree)
  | ⟨.binaryExpr, _, _, [left, operator, right]⟩ =>
    (Level.ofSpelling? operator.text).map fun l => (left, l, right)
  | _ => none

/-- How loosely the outermost operation of a tree binds. What is no operation has
rank zero, like the atoms. -/
def rank (t : SyntaxTree) : Nat := t.operation?.elim 0 fun o => o.2.1.rank

/-- **Every operation in the tree binds as precedence asks**: on its left there is
no operation of a looser level, on its right none of a looser or of the same
level. -/
def RespectsPrecedence (t : SyntaxTree) : Prop :=
  ∀ n ∈ t.preorder, n.kind = .binaryExpr → ∃ left l right,
    n.operation? = some (left, l, right) ∧ left.rank ≤ l.rank ∧ right.rank < l.rank

theorem rank_of_kind_ne {t : SyntaxTree} (h : t.kind ≠ .binaryExpr) : t.rank = 0 := by
  have hnone : t.operation? = none := by
    unfold operation?
    split
    · exact absurd rfl h
    · rfl
  rw [rank, hnone]
  rfl

/-- A tree respects precedence if it does at the top and below. -/
theorem respectsPrecedence_iff {t : SyntaxTree} :
    t.RespectsPrecedence ↔ (t.kind = .binaryExpr → ∃ left l right,
        t.operation? = some (left, l, right) ∧ left.rank ≤ l.rank ∧ right.rank < l.rank)
      ∧ ∀ c ∈ t.children, c.RespectsPrecedence := by
  have hpre : t.preorder = t :: t.children.flatMap preorder := by
    cases t
    rw [preorder, preorderAll_eq_flatMap]
  simp only [RespectsPrecedence, hpre, List.forall_mem_cons, List.forall_mem_flatMap]

end SyntaxTree

namespace Ebnf

variable {source : List Char} {size : Nat} {ts us : List Lexeme} {l l' : Level}
  {s left right : TreeShape}

theorem Level.ofSpelling?_spelling {op : Symbol} (h : op ∈ l.operators) :
    Level.ofSpelling? op.spelling = some l := by
  revert op
  cases l <;> decide +kernel

/-- An operator leaf makes its node an operation of its level. -/
theorem operation?_binary {op : Symbol} {span : Span} (hop : op ∈ l.operators)
    (hspells : (Token.symbol op).Spells (slice source span)) :
    (ofShape source (.binary left ⟨.operator, span, []⟩ right)).operation?
      = some (ofShape source left, l, ofShape source right) := by
  have htext : String.ofList (slice source span) = op.spelling := by
    rw [hspells, String.ofList_toList]
  simp only [TreeShape.binary, TreeShape.spanning, ofShape, ofShapes, operation?, htext,
    Level.ofSpelling?_spelling hop, Option.map_some]

theorem rank_binary {op : Symbol} {span : Span} (hop : op ∈ l.operators)
    (hspells : (Token.symbol op).Spells (slice source span)) :
    (ofShape source (.binary left ⟨.operator, span, []⟩ right)).rank = l.rank := by
  rw [rank, operation?_binary hop hspells]
  rfl

/-! ## Operations in derivations -/

/-- **An operation of a level**, with an operand of the same level on its left and
a tighter one on its right. -/
inductive OperationOf (size : Nat) (l : Level) : List Lexeme → TreeShape → Prop
  | intro {ts us : List Lexeme} {op : Symbol} {left right : TreeShape} (span : Span)
      (hop : op ∈ l.operators) (hleft : Derives size (.rule (.level l)) ts [left])
      (hright : Derives size (.rule l.operand) us [right]) :
      OperationOf size l (ts ++ (⟨.symbol op, span⟩ :: us))
        (.binary left ⟨.operator, span, []⟩ right)

/-- What a level derives is a single operand, or an operation of the level. -/
theorem operand_or_operationOf (h : Derives size (.rule (.level l)) ts [s])
    (hts : StandIn source ts) :
    Derives size (.rule l.operand) ts [s] ∨ OperationOf size l ts s := by
  obtain ⟨_, hinner, hs⟩ := derives_rule.mp h
  obtain ⟨us, vs, first, others, rfl, rfl, hfirst, hothers⟩ := derives_level hinner hts
  obtain rfl : s = nestLeft first others := List.singleton_inj.mp hs
  suffices hboth : Derives size (.rule (.level l)) (us ++ vs) [nestLeft first others]
      ∧ (Derives size (.rule l.operand) (us ++ vs) [nestLeft first others]
        ∨ OperationOf size l (us ++ vs) (nestLeft first others)) from hboth.2
  refine operations_induction (motive := fun ts left => Derives size (.rule (.level l)) ts [left]
    ∧ (Derives size (.rule l.operand) ts [left] ∨ OperationOf size l ts left))
    hothers hts (List.Subset.refl _) ⟨hfirst.operand, .inl hfirst⟩ ?_
  intro us left op span ws right hleft hop hts hright _ _
  exact ⟨hleft.1.operation span hts.left hop hright, .inr (.intro span hop hleft.1 hright)⟩

/-- **What a level derives** is an atom, or an operation of the level or of a
tighter one. -/
theorem atom_or_operationOf (h : Derives size (.rule (.level l)) ts [s])
    (hts : StandIn source ts) :
    Derives size (.rule .atom) ts [s] ∨ ∃ l', l'.rank ≤ l.rank ∧ OperationOf size l' ts s := by
  induction l using Level.induction with
  | tightest l hoperand _ =>
    rcases operand_or_operationOf h hts with h | h
    · exact .inl (hoperand ▸ h)
    · exact .inr ⟨l, Nat.le_refl _, h⟩
  | looser l l' hoperand hrank ih =>
    rcases operand_or_operationOf h hts with h | h
    · rcases ih (hoperand ▸ h) with h | ⟨l'', hle, h⟩
      · exact .inl h
      · exact .inr ⟨l'', by omega, h⟩
    · exact .inr ⟨l, Nat.le_refl _, h⟩

/-- An atom is no operation. -/
theorem kind_ne_of_atom (h : Derives size (.rule .atom) ts [s]) : s.kind ≠ .binaryExpr := by
  have hnode : ∀ (n : Nonterminal) (kind : NodeKind), n.nodeKind? = some kind →
      kind ≠ .binaryExpr → Derives size (.rule n) ts [s] → s.kind ≠ .binaryExpr := by
    intro n kind hn hkind h
    obtain ⟨children, -, hs⟩ := derives_node hn h
    rwa [List.singleton_inj.mp hs]
  simp only [derives_group (.inr (.inr rfl)), production, derives_orElse, derives_leaf] at h
  rcases h with ⟨t, -, span, rfl, hs⟩ | ⟨t, -, span, rfl, hs⟩ | h | h | h
  · rw [List.singleton_inj.mp hs]
    simp
  · rw [List.singleton_inj.mp hs]
    simp
  · exact hnode .call .callExpr rfl (by decide) h
  · exact hnode .location .locationExpr rfl (by decide) h
  · exact hnode .group .parenExpr rfl (by decide) h

theorem rank_of_atom (h : Derives size (.rule .atom) ts [s]) : (ofShape source s).rank = 0 :=
  rank_of_kind_ne (by simpa using kind_ne_of_atom h)

theorem OperationOf.rank_eq (h : OperationOf size l ts s) (hts : StandIn source ts) :
    (ofShape source s).rank = l.rank := by
  cases h with
  | intro span hop _ _ => exact rank_binary hop (hts.right.head.spells List.mem_cons_self)

theorem rank_le_of_level (h : Derives size (.rule (.level l)) ts [s]) (hts : StandIn source ts) :
    (ofShape source s).rank ≤ l.rank := by
  rcases atom_or_operationOf h hts with h | ⟨l', hle, h⟩
  · rw [rank_of_atom h]
    exact Nat.zero_le _
  · rwa [h.rank_eq hts]

theorem rank_lt_of_operand (h : Derives size (.rule l.operand) ts [s])
    (hts : StandIn source ts) : (ofShape source s).rank < l.rank := by
  induction l using Level.induction with
  | tightest l hoperand _ =>
    rw [rank_of_atom (hoperand ▸ h)]
    exact l.rank_pos
  | looser l l' hoperand hrank _ =>
    have := rank_le_of_level (hoperand ▸ h) hts
    omega

/-- An operation that a level derives binds as precedence asks. -/
theorem OperationOf.binds (h : OperationOf size l ts s) (hts : StandIn source ts) :
    ∃ left l right, (ofShape source s).operation? = some (left, l, right)
      ∧ left.rank ≤ l.rank ∧ right.rank < l.rank := by
  cases h with
  | intro span hop hleft hright =>
    exact ⟨_, _, _, operation?_binary hop (hts.right.head.spells List.mem_cons_self),
      rank_le_of_level hleft hts.left, rank_lt_of_operand hright hts.right.tail⟩

/-- The tokens that leave an expression are literals. -/
theorem literal_of_leafKind {t : Token} {kind : NodeKind} (h : t.leafKind? = some kind)
    (hkind : kind.isExpression = true) :
    t = .intLiteral ∧ kind = .intLiteral
      ∨ (t = .keyword .trueWord ∨ t = .keyword .falseWord) ∧ kind = .boolLiteral := by
  cases t with
  | ident =>
    cases h
    cases hkind
  | intLiteral =>
    cases h
    exact .inl ⟨rfl, rfl⟩
  | keyword k =>
    cases k with
    | trueWord =>
      cases h
      exact .inr ⟨.inl rfl, rfl⟩
    | falseWord =>
      cases h
      exact .inr ⟨.inr rfl, rfl⟩
    | _ => cases h <;> cases hkind
  | symbol op =>
    dsimp only [Token.leafKind?] at h
    split_ifs at h
    cases h
    cases hkind

/-- Only levels of operators make operations. -/
theorem exists_level_of_makes {f : Form} (h : f.Makes .binaryExpr) : ∃ l, f = .rule (.level l) := by
  cases h with
  | leaf h => rcases literal_of_leafKind h rfl with ⟨-, hkind⟩ | ⟨-, hkind⟩ <;> cases hkind
  | @rule n _ h => cases n <;> simp [Nonterminal.nodeKind?] at h
  | level l => exact ⟨l, rfl⟩

/-- **Every node of a derivation binds as precedence asks.** -/
theorem NodeOf.binds (h : NodeOf size ts s) (hts : StandIn source ts)
    (hs : s.kind = .binaryExpr) :
    ∃ left l right, (ofShape source s).operation? = some (left, l, right)
      ∧ left.rank ≤ l.rank ∧ right.rank < l.rank := by
  obtain ⟨us, f, hus, hf, hder, -⟩ := h.matched
  have hsub := hts.sublist hus.sublist
  obtain ⟨l, rfl⟩ := exists_level_of_makes (hs ▸ hf)
  rcases atom_or_operationOf hder hsub with h | ⟨l', -, h⟩
  · exact absurd hs (kind_ne_of_atom h)
  · exact h.binds hsub

theorem respectsPrecedence_of_nodeOf (hts : StandIn source ts)
    (h : ∀ n, s.Has n → n.kind = .binaryExpr → NodeOf size ts n) :
    (ofShape source s).RespectsPrecedence := by
  intro n hn hkind
  obtain ⟨m, hm, rfl⟩ := exists_has_of_mem_preorder s hn
  have hbinary : m.kind = .binaryExpr := by simpa using hkind
  exact (h m hm hbinary).binds hts hbinary

/-! ## From tighter levels to looser ones -/

/-- **The tokens make an operand of some rank at most.** -/
def Fits (size : Nat) (ts : List Lexeme) (s : TreeShape) (rank : Nat) : Prop :=
  Derives size (.rule .atom) ts [s] ∨ ∃ l, l.rank ≤ rank ∧ Derives size (.rule (.level l)) ts [s]

theorem Fits.level (h : Fits size ts s l.rank) : Derives size (.rule (.level l)) ts [s] := by
  induction l using Level.induction with
  | tightest l hoperand hrank =>
    rcases h with h | ⟨l', hle, h⟩
    · exact Derives.operand (hoperand ▸ h)
    · have hpos := l'.rank_pos
      obtain rfl : l' = l := Level.rank_injective (by omega)
      exact h
  | looser l l' hoperand hrank ih =>
    rcases h with h | ⟨l'', hle, h⟩
    · exact Derives.operand (hoperand ▸ ih (.inl h))
    · rcases Nat.lt_or_ge l''.rank l.rank with hlt | hge
      · exact Derives.operand (hoperand ▸ ih (.inr ⟨l'', by omega, h⟩))
      · obtain rfl : l'' = l := Level.rank_injective (by omega)
        exact h

theorem Fits.operand {rank : Nat} (h : Fits size ts s rank) (hrank : rank < l.rank) :
    Derives size (.rule l.operand) ts [s] := by
  cases l using Level.induction with
  | tightest l hoperand hone =>
    rcases h with h | ⟨l', hle, -⟩
    · rwa [hoperand]
    · have hpos := l'.rank_pos
      omega
  | looser l l' hoperand hsucc _ =>
    rw [hoperand]
    refine Fits.level (h.imp_right ?_)
    rintro ⟨l'', hle, h⟩
    exact ⟨l'', by omega, h⟩

theorem Fits.expr {rank : Nat} (h : Fits size ts s rank) : Derives size (.rule .expr) ts [s] := by
  refine (derives_group (.inr (.inl rfl))).mpr (Fits.level (h.imp_right ?_))
  rintro ⟨l, -, h⟩
  exact ⟨l, by cases l <;> decide, h⟩

theorem expr_of_atom (h : Derives size (.rule .atom) ts [s]) : Derives size (.rule .expr) ts [s] :=
  Fits.expr (.inl h : Fits size ts s 0)

/-- **An expression is an atom or an operation** whose operands are expressions. -/
theorem Derives.expr_cases (h : Derives size (.rule .expr) ts [s]) (hts : StandIn source ts) :
    Derives size (.rule .atom) ts [s] ∨ ∃ l, OperationOf size l ts s := by
  rcases atom_or_operationOf ((derives_group (.inr (.inl rfl))).mp h) hts with h | ⟨l, -, h⟩
  · exact .inl h
  · exact .inr ⟨l, h⟩

theorem expr_of_level (h : Derives size (.rule (.level l)) ts [s]) :
    Derives size (.rule .expr) ts [s] :=
  Fits.expr (.inr ⟨l, Nat.le_refl _, h⟩)

theorem expr_of_operand (h : Derives size (.rule l.operand) ts [s]) :
    Derives size (.rule .expr) ts [s] :=
  expr_of_level h.operand

/-! ## Groupings -/

/-- What operands and operators are grouped into. -/
inductive GroupRole
  | expression | arguments

/-- **The groupings of tokens into expressions**, whatever precedence says: an
operation may have any expressions for its operands. -/
inductive Groups (size : Nat) : GroupRole → List Lexeme → List TreeShape → Prop
  | intLiteral (span : Span) :
      Groups size .expression [⟨.intLiteral, span⟩] [⟨.intLiteral, span, []⟩]
  | boolLiteral {k : Keyword} (span : Span) (hk : k = .trueWord ∨ k = .falseWord) :
      Groups size .expression [⟨.keyword k, span⟩] [⟨.boolLiteral, span, []⟩]
  | location (span : Span) :
      Groups size .expression [⟨.ident, span⟩] [⟨.locationExpr, span, [⟨.ident, span, []⟩]⟩]
  | callEmpty {ts : List Lexeme} (span opening closing : Span)
      (hts : ts = [⟨.ident, span⟩, ⟨.symbol .openParen, opening⟩,
        ⟨.symbol .closeParen, closing⟩]) :
      Groups size .expression ts [⟨.callExpr, extent size ts, [⟨.ident, span, []⟩]⟩]
  | call {ts us : List Lexeme} {args : List TreeShape} (span opening closing : Span)
      (hargs : Groups size .arguments us args)
      (hts : ts = ⟨.ident, span⟩ :: ⟨.symbol .openParen, opening⟩ ::
        (us ++ [⟨.symbol .closeParen, closing⟩])) :
      Groups size .expression ts
        [⟨.callExpr, extent size ts, [⟨.ident, span, []⟩, ⟨.argList, extent size us, args⟩]⟩]
  | group {ts us : List Lexeme} {inner : TreeShape} (opening closing : Span)
      (hinner : Groups size .expression us [inner])
      (hts : ts = ⟨.symbol .openParen, opening⟩ :: (us ++ [⟨.symbol .closeParen, closing⟩])) :
      Groups size .expression ts [⟨.parenExpr, extent size ts, [inner]⟩]
  | binary {ts us : List Lexeme} {left right : TreeShape} (l : Level) {op : Symbol} (span : Span)
      (hop : op ∈ l.operators) (hleft : Groups size .expression ts [left])
      (hright : Groups size .expression us [right]) :
      Groups size .expression (ts ++ (⟨.symbol op, span⟩ :: us))
        [.binary left ⟨.operator, span, []⟩ right]
  | last {ts : List Lexeme} {arg : TreeShape} (harg : Groups size .expression ts [arg]) :
      Groups size .arguments ts [arg]
  | more {ts us : List Lexeme} {arg : TreeShape} {args : List TreeShape} (comma : Span)
      (harg : Groups size .expression ts [arg]) (hargs : Groups size .arguments us args) :
      Groups size .arguments (ts ++ (⟨.symbol .comma, comma⟩ :: us)) (arg :: args)

variable {parts args : List TreeShape} {role : GroupRole}

/-- A list of arguments is grouped if each argument is. -/
theorem groups_arguments (h : Derives size (production .argList) ts parts)
    (hts : StandIn source ts)
    (hexpr : ∀ us s, us.length ≤ ts.length → StandIn source us →
      Derives size (.rule .expr) us [s] → Groups size .expression us [s]) :
    Groups size .arguments ts parts := by
  obtain ⟨us, vs, _, others, rfl, rfl, hfirst, hothers⟩ := derives_append.mp h
  obtain ⟨first, rfl⟩ := hfirst.exists_singleton hts.left
  have hitems := items_of_derives hothers
  clear h hothers
  induction hitems generalizing us first with
  | nil =>
    rw [List.append_nil] at hts hexpr ⊢
    exact .last (hexpr us first (Nat.le_refl _) hts hfirst)
  | cons hitem _ ih =>
    obtain ⟨_, ws, _, _, rfl, rfl, hcomma, harg⟩ := derives_append.mp hitem
    obtain ⟨comma, rfl, rfl⟩ := derives_mark.mp hcomma
    obtain ⟨arg, rfl⟩ := harg.exists_singleton hts.right.left.right
    rw [List.append_assoc] at hts hexpr ⊢
    simp only [List.length_append] at hexpr ih
    have hargs := ih ws hts.right.right (fun us s hlen => hexpr us s (by omega)) arg harg
    exact .more comma (hexpr us first (by omega) hts.left hfirst) hargs

/-- **What the grammar derives is a grouping.** -/
theorem groups_of_derives (h : Derives size (.rule .expr) ts [s]) (hts : StandIn source ts) :
    Groups size .expression ts [s] := by
  induction hn : ts.length using Nat.strongRecOn generalizing ts s with
  | _ n ih =>
    subst hn
    rcases h.expr_cases hts with h | ⟨l, h⟩
    · simp only [derives_group (.inr (.inr rfl)), production, derives_orElse, derives_leaf] at h
      rcases h with ⟨t, ht, span, rfl, hs⟩ | ⟨t, ht, span, rfl, hs⟩ | h | h | h
      · obtain rfl := List.mem_singleton.mp ht
        exact hs ▸ .intLiteral span
      · rw [hs]
        obtain rfl | rfl : t = .keyword .trueWord ∨ t = .keyword .falseWord := by simpa using ht
        · exact .boolLiteral span (.inl rfl)
        · exact .boolLiteral span (.inr rfl)
      · obtain ⟨_, h, hs⟩ := derives_node rfl h
        obtain ⟨_, closing, rfl, h₁⟩ := derives_append_mark.mp h
        obtain ⟨_, us, _, _, rfl, rfl, h₂, hargs⟩ := derives_append.mp h₁
        obtain ⟨_, opening, rfl, h₃⟩ := derives_append_mark.mp h₂
        obtain ⟨span, rfl, rfl⟩ := derives_ident.mp h₃
        rw [hs]
        rcases derives_optional.mp hargs with hargs | ⟨rfl, rfl⟩
        · obtain ⟨args, hlist, rfl⟩ := derives_node rfl hargs
          refine .call span opening closing (groups_arguments hlist hts.left.right ?_) (by simp)
          intro vs s hlen hvs h
          refine ih _ ?_ h hvs rfl
          simp only [List.length_append, List.length_singleton]
          omega
        · exact .callEmpty span opening closing rfl
      · obtain ⟨_, h, hs⟩ := derives_node rfl h
        obtain ⟨span, rfl, rfl⟩ := derives_ident.mp h
        exact hs ▸ .location span
      · obtain ⟨_, h, hs⟩ := derives_node rfl h
        obtain ⟨_, closing, rfl, h₁⟩ := derives_append_mark.mp h
        obtain ⟨_, us, _, _, rfl, rfl, h₂, hinner⟩ := derives_append.mp h₁
        obtain ⟨opening, rfl, rfl⟩ := derives_mark.mp h₂
        obtain ⟨inner, rfl⟩ := hinner.exists_singleton hts.left.right
        rw [hs]
        refine .group opening closing (ih _ ?_ hinner hts.left.right rfl) (by simp)
        simp only [List.length_append, List.length_singleton]
        omega
    · cases h with
      | intro span hop hleft hright =>
        refine .binary l span hop (ih _ ?_ (expr_of_level hleft) hts.left rfl)
          (ih _ ?_ (expr_of_operand hright) hts.right.tail rfl)
        all_goals
          simp only [List.length_append, List.length_cons]
          omega

/-! ### Atoms -/

theorem atom_of_leaf (h : Derives size (.leaf .intLiteral [.intLiteral]) ts [s]
    ∨ Derives size (.leaf .boolLiteral [.keyword .trueWord, .keyword .falseWord]) ts [s]) :
    Derives size (.rule .atom) ts [s] :=
  (derives_group (.inr (.inr rfl))).mpr (h.elim (.left _) fun h => .right _ (.left _ h))

theorem atom_of_location (span : Span) :
    Derives size (.rule .atom) [⟨.ident, span⟩]
      [⟨.locationExpr, span, [⟨.ident, span, []⟩]⟩] :=
  (derives_group (.inr (.inr rfl))).mpr
    (.right _ (.right _ (.right _ (.left _ (.rule .location (.ident span))))))

theorem atom_of_call (span opening closing : Span)
    (h : Derives size (Form.optional (.rule .argList)) us args) :
    Derives size (.rule .atom)
      (⟨.ident, span⟩ :: ⟨.symbol .openParen, opening⟩ :: (us ++ [⟨.symbol .closeParen, closing⟩]))
      [⟨.callExpr, extent size (⟨.ident, span⟩ :: ⟨.symbol .openParen, opening⟩ ::
        (us ++ [⟨.symbol .closeParen, closing⟩])), ⟨.ident, span, []⟩ :: args⟩] := by
  have hcall := Derives.rule .call
    ((((Derives.ident span).sequence (.mark .openParen opening)).sequence h).sequence
      (.mark .closeParen closing))
  have hatom := (derives_group (.inr (.inr rfl))).mpr (.right _ (.right _ (.left _ hcall)))
  simpa [Nonterminal.assemble, Nonterminal.nodeKind?] using hatom

theorem atom_of_group (opening closing : Span) (h : Derives size (.rule .expr) us [s]) :
    Derives size (.rule .atom)
      (⟨.symbol .openParen, opening⟩ :: (us ++ [⟨.symbol .closeParen, closing⟩]))
      [⟨.parenExpr, extent size (⟨.symbol .openParen, opening⟩ ::
        (us ++ [⟨.symbol .closeParen, closing⟩])), [s]⟩] := by
  have hgroup := Derives.rule .group
    (((Derives.mark .openParen opening).sequence h).sequence (.mark .closeParen closing))
  have hatom := (derives_group (.inr (.inr rfl))).mpr
    (.right _ (.right _ (.right _ (.right _ hgroup))))
  simpa [Nonterminal.assemble, Nonterminal.nodeKind?] using hatom

/-! ### Groupings that respect precedence are derived -/

theorem Fits.mono {rank rank' : Nat} (h : Fits size ts s rank) (hle : rank ≤ rank') :
    Fits size ts s rank' := by
  refine h.imp_right ?_
  rintro ⟨l, hl, h⟩
  exact ⟨l, Nat.le_trans hl hle, h⟩

/-- What is derived of a grouping that respects precedence. -/
def GroupRole.Derived (source : List Char) (size : Nat) :
    GroupRole → List Lexeme → List TreeShape → Prop
  | .expression, ts, parts => ∀ s ∈ parts, Fits size ts s (ofShape source s).rank
  | .arguments, ts, parts => Derives size (production .argList) ts parts

/-- A binary operation respects precedence at its top and in its operands. -/
theorem respectsPrecedence_binary {op : Symbol} {span : Span} (hop : op ∈ l.operators)
    (hspells : (Token.symbol op).Spells (slice source span))
    (h : (ofShape source (.binary left ⟨.operator, span, []⟩ right)).RespectsPrecedence) :
    (ofShape source left).RespectsPrecedence ∧ (ofShape source right).RespectsPrecedence
      ∧ (ofShape source left).rank ≤ l.rank ∧ (ofShape source right).rank < l.rank := by
  obtain ⟨htop, hbelow⟩ := respectsPrecedence_iff.mp h
  obtain ⟨_, _, _, hoperation, hleft, hright⟩ := htop (kind_ofShape _ _)
  rw [operation?_binary hop hspells] at hoperation
  obtain ⟨rfl, rfl, rfl⟩ : _ ∧ _ ∧ _ := by simpa using hoperation
  rw [children_ofShape] at hbelow
  exact ⟨hbelow _ (List.mem_map_of_mem (by simp [TreeShape.binary, TreeShape.spanning])),
    hbelow _ (List.mem_map_of_mem (by simp [TreeShape.binary, TreeShape.spanning])), hleft, hright⟩

/-- **A grouping that respects precedence is derived**, by the induction along the
grouping. -/
theorem Groups.derived (h : Groups size role ts parts) (hts : StandIn source ts)
    (hparts : ∀ s ∈ parts, (ofShape source s).RespectsPrecedence) :
    role.Derived source size ts parts := by
  have hchild : ∀ {kind span children c},
      (ofShape source ⟨kind, span, children⟩).RespectsPrecedence → c ∈ children →
        (ofShape source c).RespectsPrecedence := by
    intro kind span children c h hc
    refine (respectsPrecedence_iff.mp h).2 _ ?_
    rw [children_ofShape]
    exact List.mem_map_of_mem hc
  induction h with
  | intLiteral span =>
    exact List.forall_mem_singleton.mpr (.inl (atom_of_leaf (.inl (.only _ _ span))))
  | boolLiteral span hk =>
    refine List.forall_mem_singleton.mpr (.inl (atom_of_leaf (.inr (.leaf _ span ?_))))
    simpa using hk
  | location span => exact List.forall_mem_singleton.mpr (.inl (atom_of_location span))
  | callEmpty span opening closing heq =>
    subst heq
    exact List.forall_mem_singleton.mpr (.inl (atom_of_call span opening closing (.absent _)))
  | @call _ us args span opening closing _ heq ih =>
    subst heq
    have hlist : (ofShape source ⟨.argList, extent size us, args⟩).RespectsPrecedence :=
      hchild (hparts _ List.mem_cons_self) (by simp)
    have hargs := ih hts.tail.tail.left fun a ha => hchild hlist ha
    exact List.forall_mem_singleton.mpr
      (.inl (atom_of_call span opening closing (.present (.rule .argList hargs))))
  | group opening closing _ heq ih =>
    subst heq
    have hinner := ih hts.tail.left
      (List.forall_mem_singleton.mpr (hchild (hparts _ List.mem_cons_self) List.mem_cons_self))
    exact List.forall_mem_singleton.mpr
      (.inl (atom_of_group opening closing (hinner _ List.mem_cons_self).expr))
  | binary l span hop _ _ ihleft ihright =>
    have hspells := hts.right.head.spells List.mem_cons_self
    obtain ⟨hleft, hright, hle, hlt⟩ := respectsPrecedence_binary hop hspells
      (hparts _ List.mem_cons_self)
    have hfitsLeft := ihleft hts.left (List.forall_mem_singleton.mpr hleft) _ List.mem_cons_self
    have hfitsRight := ihright hts.right.tail (List.forall_mem_singleton.mpr hright) _
      List.mem_cons_self
    refine List.forall_mem_singleton.mpr (.inr ⟨l, Nat.le_of_eq (rank_binary hop hspells).symm, ?_⟩)
    exact (hfitsLeft.mono hle).level.operation span hts.left hop (hfitsRight.operand hlt)
  | last _ ih =>
    have harg := (ih hts hparts _ List.mem_cons_self).expr
    have hlist := harg.sequence (.done (.mark .comma ++ .rule .expr))
    rwa [List.append_nil] at hlist
  | more comma _ _ iharg ihargs =>
    obtain ⟨hparg, hpargs⟩ := List.forall_mem_cons.mp hparts
    have harg := (iharg hts.left (List.forall_mem_singleton.mpr hparg) _ List.mem_cons_self).expr
    obtain ⟨_, _, _, _, rfl, rfl, hfirst, hothers⟩ :=
      derives_append.mp (ihargs hts.right.tail hpargs)
    exact harg.sequence (((Derives.mark .comma comma).sequence hfirst).again hothers)

/-- **The grammar derives exactly the groupings that respect precedence.** -/
theorem derives_expr_iff (hts : StandIn source ts) :
    Derives size (.rule .expr) ts [s]
      ↔ Groups size .expression ts [s] ∧ (ofShape source s).RespectsPrecedence := by
  constructor
  · intro h
    have hnodes := h.nodeOf rfl hts s List.mem_cons_self
    exact ⟨groups_of_derives h hts, respectsPrecedence_of_nodeOf hts fun n hn _ => hnodes n hn⟩
  · rintro ⟨h, hs⟩
    exact (h.derived hts (List.forall_mem_singleton.mpr hs) _ List.mem_cons_self).expr

/-! ### Where there is a grouping, there is one that respects precedence -/

/-- An atom is taken into an expression from the right, by the level of the
operator before it. -/
theorem exists_operation_atom {op : Symbol} (span : Span) (hop : op ∈ l'.operators)
    (hle : l'.rank ≤ l.rank) (hleft : Derives size (.rule (.level l)) ts [left])
    (hright : Derives size (.rule .atom) us [right])
    (hts : StandIn source (ts ++ (⟨.symbol op, span⟩ :: us))) :
    ∃ s, Derives size (.rule (.level l)) (ts ++ (⟨.symbol op, span⟩ :: us)) [s] := by
  induction l using Level.induction generalizing ts left with
  | tightest l hoperand hone =>
    have hpos := l'.rank_pos
    obtain rfl : l' = l := Level.rank_injective (by omega)
    exact ⟨_, hleft.operation span hts.left hop (hoperand ▸ hright)⟩
  | looser l l'' hoperand hrank ih =>
    rcases Nat.lt_or_ge l'.rank l.rank with hlt | hge
    · rcases operand_or_operationOf hleft hts.left with h | h
      · obtain ⟨s, hs⟩ := ih (by omega) (hoperand ▸ h) hts
        exact ⟨s, Derives.operand (hoperand ▸ hs)⟩
      · -- The atom goes into the last operand.
        cases h with
        | intro span' hop' hfirst hlast =>
          rw [List.append_assoc, List.cons_append] at hts ⊢
          obtain ⟨s, hs⟩ := ih (by omega) (hoperand ▸ hlast) hts.right.tail
          exact ⟨_, hfirst.operation span' hts.left hop' (hoperand ▸ hs)⟩
    · obtain rfl : l' = l := Level.rank_injective (by omega)
      exact ⟨_, hleft.operation span hts.left hop (Fits.operand (.inl hright) l'.rank_pos)⟩

/-- **Two expressions with an operator between them make an expression.** -/
theorem exists_operation {op : Symbol} (span : Span) (hop : op ∈ l.operators)
    (hleft : Derives size (.rule .expr) ts [left]) (hright : Derives size (.rule .expr) us [right])
    (hts : StandIn source (ts ++ (⟨.symbol op, span⟩ :: us))) :
    ∃ s, Derives size (.rule .expr) (ts ++ (⟨.symbol op, span⟩ :: us)) [s] := by
  induction hn : us.length using Nat.strongRecOn generalizing ts us left right l op span with
  | _ n ih =>
    subst hn
    rcases hright.expr_cases hts.right.tail with h | ⟨l', h⟩
    · have hor := (derives_group (.inr (.inl rfl))).mp hleft
      obtain ⟨s, hs⟩ := exists_operation_atom span hop (by cases l <;> decide) hor h hts
      exact ⟨s, expr_of_level hs⟩
    · cases h with
      | @intro vs ws _ _ _ span' hop' hfirst hlast =>
        rw [← List.cons_append, ← List.append_assoc] at hts ⊢
        simp only [List.length_append, List.length_cons] at ih
        obtain ⟨s, hs⟩ := ih vs.length (by omega) span hop hleft (expr_of_level hfirst) hts.left rfl
        exact ih ws.length (by omega) span' hop' hs (expr_of_operand hlast) hts rfl

/-- What is derivable of a grouping. -/
def GroupRole.Derivable (size : Nat) : GroupRole → List Lexeme → Prop
  | .expression, ts => ∃ s, Derives size (.rule .expr) ts [s]
  | .arguments, ts => ∃ parts, Derives size (production .argList) ts parts

/-- **Tokens that can be grouped make an expression.** -/
theorem Groups.derivable (h : Groups size role ts parts) (hts : StandIn source ts) :
    role.Derivable size ts := by
  induction h with
  | intLiteral span => exact ⟨_, expr_of_atom (atom_of_leaf (.inl (.only _ _ span)))⟩
  | boolLiteral span hk =>
    exact ⟨_, expr_of_atom (atom_of_leaf (.inr (.leaf _ span (by simpa using hk))))⟩
  | location span => exact ⟨_, expr_of_atom (atom_of_location span)⟩
  | callEmpty span opening closing heq =>
    subst heq
    exact ⟨_, expr_of_atom (atom_of_call span opening closing (.absent _))⟩
  | call span opening closing _ heq ih =>
    subst heq
    obtain ⟨args, hargs⟩ := ih hts.tail.tail.left
    exact ⟨_, expr_of_atom (atom_of_call span opening closing (.present (.rule .argList hargs)))⟩
  | group opening closing _ heq ih =>
    subst heq
    obtain ⟨inner, hinner⟩ := ih hts.tail.left
    exact ⟨_, expr_of_atom (atom_of_group opening closing hinner)⟩
  | binary l span hop _ _ ihleft ihright =>
    obtain ⟨left, hleft⟩ := ihleft hts.left
    obtain ⟨right, hright⟩ := ihright hts.right.tail
    exact exists_operation span hop hleft hright hts
  | last _ ih =>
    obtain ⟨arg, harg⟩ := ih hts
    have hlist := harg.sequence (.done (.mark .comma ++ .rule .expr))
    rw [List.append_nil] at hlist
    exact ⟨_, hlist⟩
  | more comma _ _ iharg ihargs =>
    obtain ⟨arg, harg⟩ := iharg hts.left
    obtain ⟨args, hargs⟩ := ihargs hts.right.tail
    obtain ⟨_, _, _, _, rfl, rfl, hfirst, hothers⟩ := derives_append.mp hargs
    exact ⟨_, harg.sequence (((Derives.mark .comma comma).sequence hfirst).again hothers)⟩

/-- **Tokens that can be grouped have one grouping that respects precedence.** -/
theorem existsUnique_groups (h : Groups size .expression ts [s]) (hts : StandIn source ts) :
    ∃! s, Groups size .expression ts [s] ∧ (ofShape source s).RespectsPrecedence := by
  obtain ⟨s, hs⟩ := h.derivable hts
  refine ⟨s, (derives_expr_iff hts).mp hs, fun s' hs' => ?_⟩
  have hparts := @derives_start_unique _ _ .expression _ _ ((derives_expr_iff hts).mpr hs') hs
  exact List.singleton_inj.mp hparts

/-! ### Expressions in trees -/

/-- **What makes an expression node** derives it as an expression. -/
theorem Derives.expr_of_makes {f : Form} {kind : NodeKind} (h : Derives size f ts [s])
    (hf : f.Makes kind) (hkind : kind.isExpression = true) : Derives size (.rule .expr) ts [s] := by
  cases hf with
  | leaf ht =>
    refine expr_of_atom (atom_of_leaf ?_)
    obtain ⟨rfl, rfl⟩ | ⟨hword, rfl⟩ := literal_of_leafKind ht hkind
    · exact .inl h
    · obtain ⟨t, ht, hleaf⟩ := derives_leaf.mp h
      obtain rfl := List.mem_singleton.mp ht
      exact .inr (derives_leaf.mpr ⟨t, by simpa using hword, hleaf⟩)
  | @rule n _ hn =>
    refine expr_of_atom ((derives_group (.inr (.inr rfl))).mpr ?_)
    cases n with
    | call => exact .right _ (.right _ (.left _ h))
    | location => exact .right _ (.right _ (.right _ (.left _ h)))
    | group => exact .right _ (.right _ (.right _ (.right _ h)))
    | _ => cases hn <;> cases hkind
  | level l => exact expr_of_level h

end Ebnf

namespace SyntaxTree

/-- **The tree is the only grouping of the tokens** into an expression that respects
precedence. -/
def IsOnlyGrouping (source : List Char) (size : Nat) (ts : List Lexeme) (t : SyntaxTree) : Prop :=
  ∃ s, t = ofShape source s ∧ Groups size .expression ts [s] ∧ t.RespectsPrecedence
    ∧ ∀ s', Groups size .expression ts [s'] → (ofShape source s').RespectsPrecedence → s' = s

/-- The only grouping of tokens is the tree that the grammar derives of them. -/
theorem isOnlyGrouping_iff {source : List Char} {size : Nat} {ts : List Lexeme} {t : SyntaxTree}
    (hts : StandIn source ts) :
    t.IsOnlyGrouping source size ts
      ↔ ∃ s, Derives size (.rule .expr) ts [s] ∧ t = ofShape source s := by
  constructor
  · rintro ⟨s, rfl, hgroups, hs, -⟩
    exact ⟨s, (derives_expr_iff hts).mpr ⟨hgroups, hs⟩, rfl⟩
  · rintro ⟨s, h, rfl⟩
    obtain ⟨hgroups, hs⟩ := (derives_expr_iff hts).mp h
    exact ⟨s, rfl, hgroups, hs, fun s' hgroups' hs' =>
      (existsUnique_groups hgroups hts).unique ⟨hgroups', hs'⟩ ⟨hgroups, hs⟩⟩

end SyntaxTree

/-- **An expression in a tree** is the only grouping of the tokens that it reaches over. -/
theorem Ebnf.NodeOf.isOnlyGrouping {source : List Char} {size : Nat} {ts : List Lexeme}
    {n : TreeShape} (h : NodeOf size ts n) (hts : StandIn source ts)
    (hkind : n.kind.isExpression = true) :
    ∃ us, us <:+: ts ∧ n.span = extent size us
      ∧ (ofShape source n).IsOnlyGrouping source size us := by
  obtain ⟨us, f, hus, hf, hder, hcov⟩ := h.matched
  exact ⟨us, hus, (extent_eq_of_covers size hcov).symm,
    (isOnlyGrouping_iff (hts.sublist hus.sublist)).mpr ⟨n, hder.expr_of_makes hf hkind, rfl⟩⟩

/-- **Precedence decides the trees of expressions.** A source is an expression with a tree
exactly if the tree is the only grouping of its tokens that respects precedence. In the tree
of any source every operation binds as precedence asks, and every expression is the only
such grouping of the tokens that it reaches over. And if tokens of the source that stand
next to each other can be grouped into an expression at all, then precedence admits exactly
one grouping of them, which is the tree that the grammar derives. -/
theorem SyntaxTree.precedence_determines_tree (source : String) (ts : List Lexeme)
    (h : tokenize source = .ok ts) :
    (∀ tree, SyntaxTree.parse .expression source = .ok tree
        ↔ tree.IsOnlyGrouping source.toList (byteLength source.toList) ts)
      ∧ (∀ start tree, SyntaxTree.parse start source = .ok tree → tree.RespectsPrecedence
        ∧ ∀ n ∈ tree.preorder, n.kind.isExpression = true → ∃ us, us <:+: ts
          ∧ n.span = extent (byteLength source.toList) us
          ∧ n.IsOnlyGrouping source.toList (byteLength source.toList) us)
      ∧ ∀ us, us <:+: ts →
        (∀ s, Derives (byteLength source.toList) (.rule .expr) us [s]
          ↔ Groups (byteLength source.toList) .expression us [s]
            ∧ (ofShape source.toList s).RespectsPrecedence)
        ∧ ((∃ s, Groups (byteLength source.toList) .expression us [s])
          → ∃! s, Groups (byteLength source.toList) .expression us [s]
            ∧ (ofShape source.toList s).RespectsPrecedence) := by
  have hts := standIn_of_tokenize h
  refine ⟨fun tree => ?_, fun start tree hparse => ?_, fun us hus => ?_⟩
  · rw [isOnlyGrouping_iff hts, parse_eq_ok]
    constructor
    · rintro ⟨ts', shape, htok, hder, rfl⟩
      obtain rfl : ts = ts' := by simpa [h] using htok
      exact ⟨shape, hder, rfl⟩
    · rintro ⟨shape, hder, rfl⟩
      exact ⟨ts, shape, h, hder, rfl⟩
  · obtain ⟨ts', shape, htok, hder, rfl⟩ := parse_eq_ok.mp hparse
    obtain rfl : ts = ts' := by simpa [h] using htok
    have hnodes : ∀ n, shape.Has n → n.kind.isExpression = true →
        NodeOf (byteLength source.toList) ts n := by
      intro n hn hkind
      refine ((StartSymbol.nodeOf_of_derives hts hder).1 n hn).resolve_right ?_
      rintro ⟨-, rfl⟩
      cases hkind
    constructor
    · exact respectsPrecedence_of_nodeOf hts fun n hn hkind => hnodes n hn (by rw [hkind]; rfl)
    · intro n hn hkind
      obtain ⟨m, hm, rfl⟩ := exists_has_of_mem_preorder shape hn
      rw [kind_ofShape] at hkind
      rw [span_ofShape]
      exact (hnodes m hm hkind).isOnlyGrouping hts hkind
  · have hsub := hts.sublist hus.sublist
    refine ⟨fun s => derives_expr_iff hsub, ?_⟩
    rintro ⟨s, hs⟩
    exact existsUnique_groups hs hsub

/-- A product behind a difference: of its two groupings precedence admits one, and that is
the tree. -/
theorem SyntaxTree.precedence_determines_product :
    tokenize "a-b*c" = .ok [⟨.ident, ⟨0, 1⟩⟩, ⟨.symbol .minus, ⟨1, 2⟩⟩, ⟨.ident, ⟨2, 3⟩⟩,
        ⟨.symbol .star, ⟨3, 4⟩⟩, ⟨.ident, ⟨4, 5⟩⟩]
      ∧ ∃ tree, SyntaxTree.parse .expression "a-b*c" = .ok tree
        ∧ tree = ⟨.binaryExpr, ⟨0, 5⟩, "a-b*c",
          [⟨.locationExpr, ⟨0, 1⟩, "a", [leaf .ident ⟨0, 1⟩ "a"]⟩, leaf .operator ⟨1, 2⟩ "-",
            ⟨.binaryExpr, ⟨2, 5⟩, "b*c",
              [⟨.locationExpr, ⟨2, 3⟩, "b", [leaf .ident ⟨2, 3⟩ "b"]⟩, leaf .operator ⟨3, 4⟩ "*",
                ⟨.locationExpr, ⟨4, 5⟩, "c", [leaf .ident ⟨4, 5⟩ "c"]⟩]⟩]⟩
        ∧ tree.IsOnlyGrouping "a-b*c".toList (byteLength "a-b*c".toList)
          [⟨.ident, ⟨0, 1⟩⟩, ⟨.symbol .minus, ⟨1, 2⟩⟩, ⟨.ident, ⟨2, 3⟩⟩,
            ⟨.symbol .star, ⟨3, 4⟩⟩, ⟨.ident, ⟨4, 5⟩⟩]
        ∧ ∃! s, Groups (byteLength "a-b*c".toList) .expression
            [⟨.ident, ⟨0, 1⟩⟩, ⟨.symbol .minus, ⟨1, 2⟩⟩, ⟨.ident, ⟨2, 3⟩⟩,
              ⟨.symbol .star, ⟨3, 4⟩⟩, ⟨.ident, ⟨4, 5⟩⟩] [s]
          ∧ (ofShape "a-b*c".toList s).RespectsPrecedence := by
  have htokens : tokenize "a-b*c" = .ok [⟨.ident, ⟨0, 1⟩⟩, ⟨.symbol .minus, ⟨1, 2⟩⟩,
      ⟨.ident, ⟨2, 3⟩⟩, ⟨.symbol .star, ⟨3, 4⟩⟩, ⟨.ident, ⟨4, 5⟩⟩] := by decide +kernel
  obtain ⟨hexpression, -, hgroupings⟩ := precedence_determines_tree "a-b*c" _ htokens
  refine ⟨htokens, _, ?hparse, rfl, (hexpression _).mp ?hparse, (hgroupings _ List.infix_rfl).2 ?_⟩
  case hparse => decide +kernel
  -- The other grouping, with the difference inside.
  exact ⟨_, .binary .term ⟨3, 4⟩ (by decide)
    (.binary .additive ⟨1, 2⟩ (by decide) (.location ⟨0, 1⟩) (.location ⟨2, 3⟩))
    (.location ⟨4, 5⟩)⟩

end ImpFront
