import ImpFront.Proofs.Grammar.Sentences
import ImpFront.Proofs.SyntaxTree.Extents
import ImpFront.Proofs.SyntaxTree.Leaves

/-!
# The nodes of a derivation

What the tokens of a derivation leave behind: trees that stand where the tokens
stand. Each node was made by one nonterminal or one token, from tokens that
stand next to each other, and reaches from the start of the first of them to the
stop of the last (`NodeOf`). The children of a node lie inside it, one after
another. And the leaves, from left to right, are the tokens that leave a node –
all of them, each once (`Derives.leavesOf_eq`).

There are two ways in which a node comes by its span: a nonterminal takes the
extent of its tokens, while an operation joins the spans of its operands. That
these agree is an induction along the nest of operations, since each operation
in it is derived from a beginning of the tokens (`Derives.operation`).
-/

namespace ImpFront

open Ebnf SyntaxTree

/-! ## Tokens that leave a node -/

/-- **The kind of leaf that a token leaves**, if it leaves one: punctuation and
the other keywords do not. -/
def Token.leafKind? : Token → Option NodeKind
  | .ident => some .ident
  | .intLiteral => some .intLiteral
  | .keyword .trueWord | .keyword .falseWord => some .boolLiteral
  | .keyword .int => some .intKeyword
  | .keyword .bool => some .boolKeyword
  | .keyword .void => some .voidKeyword
  | .keyword _ => none
  | .symbol s =>
    if s ∈ [Level.or, .and, .equality, .relational, .additive, .term].flatMap Level.operators
    then some .operator else none

/-- The kinds of the leaves that tokens leave. -/
def NodeKind.isToken : NodeKind → Bool
  | .ident | .intLiteral | .boolLiteral | .operator | .intKeyword | .boolKeyword
  | .voidKeyword => true
  | _ => false

/-- **The leaf that a token leaves**, if it leaves one. -/
def Lexeme.leaf? (source : List Char) (l : Lexeme) : Option SyntaxTree :=
  l.token.leafKind?.map fun kind => leaf kind l.span (String.ofList (slice source l.span))

/-- **The nodes that stand for tokens**, in the order of the tree. -/
def SyntaxTree.tokenLeaves (t : SyntaxTree) : List SyntaxTree :=
  t.preorder.filter (·.kind.isToken)

namespace Ebnf

/-- **Whether a form is one that occurs in productions**: a token that leaves a
node is kept, in its kind, one that leaves none is not, and no program stands
inside. -/
def Form.proper : Form → Bool
  | .nothing => true
  | .token t => t.leafKind? = none
  | .leaf kind tokens => tokens.all (·.leafKind? = some kind)
  | .rule n => n ≠ .program
  | .sequence f g | .choice f g => f.proper && g.proper
  | .repeated f => f.proper

theorem proper_production (n : Nonterminal) : (production n).proper = true := by
  cases n with
  | level l => cases l <;> rfl
  | _ => rfl

/-- A nonterminal is no token. -/
theorem isToken_of_nodeKind? {n : Nonterminal} {kind : NodeKind} (h : n.nodeKind? = some kind) :
    kind.isToken = false := by
  cases n <;> simp only [Nonterminal.nodeKind?, Option.some.injEq, reduceCtorEq] at h <;>
    rw [← h] <;> rfl

variable {source : List Char} {size : Nat} {f : Form} {ts us : List Lexeme}
  {parts others : List TreeShape}

/-! ## Levels of operators -/

theorem Level.rank_pos (l : Level) : 0 < l.rank := by
  cases l <;> decide

theorem Level.rank_injective : Function.Injective Level.rank := by
  intro l l' h
  cases l <;> cases l' <;> first | rfl | cases h

/-- **From the tightest level to the loosest**: the operands of a level are atoms,
or of the level next to it. -/
theorem Level.induction {motive : Level → Prop}
    (tightest : ∀ l : Level, l.operand = .atom → l.rank = 1 → motive l)
    (looser : ∀ l l' : Level, l.operand = .level l' → l.rank = l'.rank + 1 → motive l' → motive l)
    (l : Level) : motive l := by
  have hterm := tightest .term rfl rfl
  have hadditive := looser .additive .term rfl rfl hterm
  have hrelational := looser .relational .additive rfl rfl hadditive
  have hequality := looser .equality .relational rfl rfl hrelational
  have hand := looser .and .equality rfl rfl hequality
  have hor := looser .or .and rfl rfl hand
  cases l <;> assumption

/-- A nonterminal leaves one tree. -/
theorem Derives.exists_singleton {n : Nonterminal} (h : Derives size (.rule n) ts parts)
    (hts : StandIn source ts) : ∃ s, parts = [s] := by
  obtain ⟨s, rfl, -⟩ := h.leaves fun l hl => hts.spells hl
  exact ⟨s, rfl⟩

/-- An item of a level is an operator and its right operand. -/
theorem derives_operation {l : Level}
    (h : Derives size (.operator l.operators ++ .rule l.operand) ts parts)
    (hts : StandIn source ts) :
    ∃ s ∈ l.operators, ∃ span us right, ts = ⟨.symbol s, span⟩ :: us
      ∧ parts = [⟨.operator, span, []⟩, right] ∧ Derives size (.rule l.operand) us [right] := by
  obtain ⟨_, us, _, _, rfl, rfl, hop, hright⟩ := derives_append.mp h
  obtain ⟨t, ht, span, rfl, rfl⟩ := derives_leaf.mp hop
  obtain ⟨s, hs, rfl⟩ := List.mem_map.mp ht
  obtain ⟨right, rfl⟩ := hright.exists_singleton hts.right
  exact ⟨s, hs, span, us, right, rfl, rfl, hright⟩

/-- **A level is taken apart** into its first operand and its operations. -/
theorem derives_level {l : Level} (h : Derives size (production (.level l)) ts parts)
    (hts : StandIn source ts) :
    ∃ us vs first others, ts = us ++ vs ∧ parts = first :: others
      ∧ Derives size (.rule l.operand) us [first]
      ∧ Items size (.operator l.operators ++ .rule l.operand) vs others := by
  obtain ⟨us, vs, _, others, rfl, rfl, hfirst, hothers⟩ := derives_append.mp h
  obtain ⟨first, rfl⟩ := hfirst.exists_singleton hts.left
  exact ⟨us, vs, first, others, rfl, rfl, hfirst, items_of_derives hothers⟩

/-- **One operation more**: what holds of the first operand, and with an
operation behind it again, holds of the nest. The parts of the operations are
among the parts of the level. -/
theorem operations_induction {l : Level} {motive : List Lexeme → TreeShape → Prop}
    {vs : List Lexeme} {all : List TreeShape}
    (h : Items size (.operator l.operators ++ .rule l.operand) vs others)
    (hts : StandIn source (us ++ vs)) (hall : others ⊆ all) {left : TreeShape}
    (hleft : motive us left)
    (hstep : ∀ us left s span ws right, motive us left → s ∈ l.operators →
      StandIn source (us ++ (⟨.symbol s, span⟩ :: ws)) →
      Derives size (.rule l.operand) ws [right] → ⟨.operator, span, []⟩ ∈ all → right ∈ all →
      motive (us ++ (⟨.symbol s, span⟩ :: ws)) (.binary left ⟨.operator, span, []⟩ right)) :
    motive (us ++ vs) (nestLeft left others) := by
  induction h generalizing us left with
  | nil => rwa [List.append_nil]
  | @cons ts vs parts others hitem _ ih =>
    obtain ⟨s, hs, span, ws, right, rfl, rfl, hright⟩ := derives_operation hitem hts.right.left
    rw [← List.append_assoc] at hts ⊢
    simp only [List.cons_append, List.nil_append, List.cons_subset] at hall
    obtain ⟨hop, hmem, hall⟩ := hall
    exact ih hts hall (hstep us left s span ws right hleft hs hts.left hright hop hmem)

/-! ## Each tree has the extent of its tokens -/

theorem covers_extent (size : Nat) (h : ts ≠ []) : Covers ts (extent size ts) := by
  simp only [Covers, StartsAt, StopsAt, extent, List.head?_eq_some_head h,
    List.getLast?_eq_some_getLast h, Option.map_some, Span.join, and_self]

/-- The trees of a nonterminal reach over the tokens that they are made from. -/
def Nonterminal.Tight (source : List Char) (size : Nat) (n : Nonterminal) : Prop :=
  ∀ ⦃ts s⦄, StandIn source ts → Derives size (.rule n) ts [s] → Covers ts s.span

theorem tight_of_nodeKind {n : Nonterminal} {kind : NodeKind} (hn : n.nodeKind? = some kind)
    (hne : n ≠ .program) : n.Tight source size := by
  intro ts s _ h
  obtain ⟨children, -, hs⟩ := derives_node hn h
  rw [List.singleton_inj.mp hs]
  exact covers_extent size (h.ne_nil (decide_eq_true hne))

theorem tight_atom : Nonterminal.atom.Tight source size := by
  intro ts s hts h
  rw [derives_group (.inr (.inr rfl))] at h
  simp only [production, derives_orElse, derives_leaf] at h
  rcases h with ⟨t, -, span, rfl, hs⟩ | ⟨t, -, span, rfl, hs⟩ | h | h | h
  · rw [List.singleton_inj.mp hs]
    exact covers_singleton _
  · rw [List.singleton_inj.mp hs]
    exact covers_singleton _
  · exact tight_of_nodeKind rfl (by decide) hts h
  · exact tight_of_nodeKind rfl (by decide) hts h
  · exact tight_of_nodeKind rfl (by decide) hts h

/-- The span of an operation reaches over its operands and what is between
them. -/
theorem covers_binary {left right : TreeShape} {l : Lexeme} {op : TreeShape}
    (hleft : Covers ts left.span) (hright : Covers us right.span) :
    Covers (ts ++ l :: us) (TreeShape.binary left op right).span :=
  ⟨hleft.1.append _, (hright.2.append [l]).append ts⟩

theorem tight_level_of_operand {l : Level} (hl : l.operand.Tight source size) :
    (Nonterminal.level l).Tight source size := by
  intro ts s hts h
  obtain ⟨_, hinner, hs⟩ := derives_rule.mp h
  obtain ⟨us, vs, first, others, rfl, rfl, hfirst, hothers⟩ := derives_level hinner hts
  obtain rfl : s = nestLeft first others := List.singleton_inj.mp hs
  refine operations_induction (motive := fun us left => Covers us left.span) hothers hts
    (List.Subset.refl _) (hl hts.left hfirst) ?_
  intro us left s span ws right hleft _ hts hright _ _
  exact covers_binary hleft (hl hts.right.tail hright)

theorem tight_level (l : Level) : (Nonterminal.level l).Tight source size := by
  induction l using Level.induction with
  | tightest l hoperand _ => exact tight_level_of_operand (hoperand ▸ tight_atom)
  | looser l l' hoperand _ ih => exact tight_level_of_operand (hoperand ▸ ih)

/-- **Every tree reaches over the tokens that it is made from**, but for a
program, which may have none. -/
theorem tight_of_ne_program {n : Nonterminal} (hn : n ≠ .program) : n.Tight source size := by
  cases n with
  | program => exact absurd rfl hn
  | atom => exact tight_atom
  | level l => exact tight_level l
  | expr =>
    intro ts s hts h
    rw [derives_group (.inr (.inl rfl))] at h
    exact tight_level .or hts h
  | statement =>
    intro ts s hts h
    simp only [derives_group (.inl rfl), production, derives_orElse] at h
    rcases h with h | h | h | h | h | h <;> exact tight_of_nodeKind rfl (by decide) hts h
  | _ => exact tight_of_nodeKind rfl hn

/-! ## The parts of a derivation stand one after another -/

/-- **The tree stands among the tokens**: it starts with one and stops with one,
and takes some room. -/
structure Within (ts : List Lexeme) (s : TreeShape) : Prop where
  /-- It starts where a token starts. -/
  starts : ∃ a ∈ ts, s.span.start = a.span.start
  /-- It stops where a token stops. -/
  stops : ∃ b ∈ ts, s.span.stop = b.span.stop
  /-- It takes some room. -/
  room : s.span.start < s.span.stop

/-- **The trees stand among the tokens, one after another.** -/
structure Placed (ts : List Lexeme) (parts : List TreeShape) : Prop where
  /-- Each stands among the tokens. -/
  within : ∀ s ∈ parts, Within ts s
  /-- They stand one after another. -/
  ordered : (parts.map TreeShape.span).Pairwise Span.Before

theorem Within.mono {s : TreeShape} (h : Within ts s) (hsub : ts ⊆ us) : Within us s := by
  obtain ⟨⟨a, ha, hstart⟩, ⟨b, hb, hstop⟩, hroom⟩ := h
  exact ⟨⟨a, hsub ha, hstart⟩, ⟨b, hsub hb, hstop⟩, hroom⟩

theorem within_of_covers {s : TreeShape} (hts : StandIn source ts) (h : Covers ts s.span) :
    Within ts s := by
  obtain ⟨first, more, rfl⟩ := List.exists_cons_of_ne_nil h.ne_nil
  obtain ⟨hstart, hstop⟩ := h
  rw [startsAt_cons] at hstart
  obtain ⟨last, hlast, hstop⟩ := Option.map_eq_some_iff.mp hstop
  have hmem := List.mem_of_getLast? hlast
  refine ⟨⟨first, List.mem_cons_self, hstart.symm⟩, ⟨last, hmem, hstop.symm⟩, ?_⟩
  rw [← hstart, ← hstop]
  have hroom := hts.start_lt_stop List.mem_cons_self
  rcases List.mem_cons.mp hmem with rfl | hmem
  · exact hroom
  · -- The last token is behind the first one.
    have hbefore := hts.before_of_mem_tail hmem
    unfold Span.Before at hbefore
    have := hts.start_lt_stop (List.mem_cons_of_mem _ hmem)
    omega

theorem placed_nil (ts : List Lexeme) : Placed ts [] := ⟨by simp, .nil⟩

theorem placed_singleton {s : TreeShape} (h : Within ts s) : Placed ts [s] :=
  ⟨by simpa using h, List.pairwise_singleton _ _⟩

theorem Placed.append (h : Placed ts parts) (h' : Placed us others)
    (hts : StandIn source (ts ++ us)) : Placed (ts ++ us) (parts ++ others) := by
  constructor
  · intro s hs
    rcases List.mem_append.mp hs with hs | hs
    · exact (h.within s hs).mono (List.subset_append_left _ _)
    · exact (h'.within s hs).mono (List.subset_append_right _ _)
  · rw [List.map_append, List.pairwise_append]
    refine ⟨h.ordered, h'.ordered, ?_⟩
    intro a ha b hb
    obtain ⟨s, hs, rfl⟩ := List.mem_map.mp ha
    obtain ⟨s', hs', rfl⟩ := List.mem_map.mp hb
    obtain ⟨l, hl, hstop⟩ := (h.within s hs).stops
    obtain ⟨l', hl', hstart⟩ := (h'.within s' hs').starts
    show s.span.stop ≤ s'.span.start
    rw [hstop, hstart]
    exact hts.before hl hl'

/-- An operator stands between its operands. -/
theorem placed_operation {l : Lexeme} {left right : TreeShape}
    (hts : StandIn source (ts ++ l :: us)) (hleft : Within ts left) (hright : Within us right) :
    Placed (ts ++ l :: us) [left, ⟨.operator, l.span, []⟩, right] := by
  have hop : Within [l] ⟨.operator, l.span, []⟩ :=
    within_of_covers hts.right.head (covers_singleton l)
  have hrest : Placed (l :: us) [⟨.operator, l.span, []⟩, right] :=
    (placed_singleton hop).append (placed_singleton hright) hts.right
  exact (placed_singleton hleft).append hrest hts

/-- **What a form derives stands among its tokens**, one part after another. -/
theorem Derives.placed (h : Derives size f ts parts) (hf : f.proper = true)
    (hts : StandIn source ts) : Placed ts parts := by
  induction h with
  | nothing => exact placed_nil _
  | token => exact placed_nil _
  | leaf kind span => exact placed_singleton (within_of_covers hts (covers_singleton _))
  | @rule n ts parts h _ =>
    have hder := Derives.rule n h
    obtain ⟨s, hs⟩ := hder.exists_singleton hts
    rw [hs] at hder ⊢
    exact placed_singleton (within_of_covers hts
      (tight_of_ne_program (of_decide_eq_true hf) hts hder))
  | sequence _ _ ihf ihg =>
    obtain ⟨hf, hg⟩ := (Bool.and_eq_true _ _).mp hf
    exact (ihf hf hts.left).append (ihg hg hts.right) hts
  | left g _ ih => exact ih ((Bool.and_eq_true _ _).mp hf).1 hts
  | right f _ ih => exact ih ((Bool.and_eq_true _ _).mp hf).2 hts
  | done => exact placed_nil _
  | again _ _ ihf ihfs => exact (ihf hf hts.left).append (ihfs hf hts.right) hts

/-- No token starts before the first one. -/
theorem le_start_of_startsAt {n : Nat} (hts : StandIn source ts) (h : StartsAt ts n)
    {a : Lexeme} (ha : a ∈ ts) : n ≤ a.span.start := by
  obtain ⟨first, more, rfl⟩ := List.exists_cons_of_ne_nil (List.ne_nil_of_mem ha)
  obtain rfl := startsAt_cons.mp h
  rcases List.mem_cons.mp ha with rfl | ha
  · exact Nat.le_refl _
  · have hroom := hts.start_lt_stop (List.mem_cons_self (a := first) (l := more))
    have hbefore := hts.before_of_mem_tail ha
    unfold Span.Before at hbefore
    omega

/-- No token stops behind the last one. -/
theorem stop_le_of_stopsAt {n : Nat} (hts : StandIn source ts) (h : StopsAt ts n)
    {b : Lexeme} (hb : b ∈ ts) : b.span.stop ≤ n := by
  obtain ⟨last, hlast, rfl⟩ := Option.map_eq_some_iff.mp h
  obtain ⟨init, rfl⟩ := List.getLast?_eq_some_iff.mp hlast
  rcases List.mem_append.mp hb with hb | hb
  · have hroom := hts.right.start_lt_stop (List.mem_singleton_self last)
    have hbefore : b.span.stop ≤ last.span.start := hts.before hb (List.mem_singleton_self _)
    omega
  · obtain rfl := List.mem_singleton.mp hb
    exact Nat.le_refl _

/-! ## Nodes -/

/-- **The forms that make a node of a kind** themselves: a token, a nonterminal
that wraps its parts, or a level of operators. -/
inductive Form.Makes : Form → NodeKind → Prop
  | leaf {t : Token} {kind : NodeKind} (h : t.leafKind? = some kind) :
      (Form.leaf kind [t]).Makes kind
  | rule {n : Nonterminal} {kind : NodeKind} (h : n.nodeKind? = some kind) :
      (Form.rule n).Makes kind
  | level (l : Level) : (Form.rule (.level l)).Makes .binaryExpr

/-- **What is known of a node** of a tree that is derived from the tokens. -/
structure NodeOf (size : Nat) (ts : List Lexeme) (n : TreeShape) : Prop where
  /-- It is made of tokens that stand next to each other, and reaches over
  them. -/
  matched : ∃ us f, us <:+: ts ∧ f.Makes n.kind ∧ Derives size f us [n] ∧ Covers us n.span
  /-- Its children lie inside it. -/
  inside : ∀ c ∈ n.children, n.span.start ≤ c.span.start ∧ c.span.stop ≤ n.span.stop
  /-- Its children stand one after another. -/
  ordered : (n.children.map TreeShape.span).Pairwise Span.Before

theorem NodeOf.mono {n : TreeShape} (h : NodeOf size us n) (hsub : us <:+: ts) :
    NodeOf size ts n := by
  obtain ⟨⟨vs, f, hvs, hf, hder, hcov⟩, hinside, hordered⟩ := h
  exact ⟨⟨vs, f, hvs.trans hsub, hf, hder, hcov⟩, hinside, hordered⟩

/-- A node around parts that stand among its tokens. -/
theorem nodeOf_of_placed {n : TreeShape} (hts : StandIn source ts) (hf : f.Makes n.kind)
    (h : Derives size f ts [n]) (hcov : Covers ts n.span) (hplaced : Placed ts n.children) :
    NodeOf size ts n := by
  refine ⟨⟨ts, f, List.infix_rfl, hf, h, hcov⟩, fun c hc => ?_, hplaced.ordered⟩
  obtain ⟨⟨a, ha, hstart⟩, ⟨b, hb, hstop⟩, -⟩ := hplaced.within c hc
  rw [hstart, hstop]
  exact ⟨le_start_of_startsAt hts hcov.1 ha, stop_le_of_stopsAt hts hcov.2 hb⟩

end Ebnf

/-- **Induction along a shape**, from the children to the node. -/
theorem TreeShape.induction {motive : TreeShape → Prop}
    (node : ∀ kind span children, (∀ c ∈ children, motive c) → motive ⟨kind, span, children⟩)
    (s : TreeShape) : motive s := by
  match s with
  | ⟨kind, span, children⟩ => exact node kind span children fun c hc => induction node c
termination_by sizeOf s
decreasing_by
  have := List.sizeOf_lt_of_mem hc
  simp only [TreeShape.mk.sizeOf_spec]
  omega

/-- **The nodes of a tree**: itself, and those of its children. -/
inductive TreeShape.Has : TreeShape → TreeShape → Prop
  | self (s : TreeShape) : Has s s
  | child {s c n : TreeShape} (hc : c ∈ s.children) (h : Has c n) : Has s n

namespace Ebnf

variable {source : List Char} {size : Nat} {f : Form} {ts us : List Lexeme}
  {parts others : List TreeShape}

/-- **Operations behind others** are nested around them. -/
theorem nestLeft_append {l : Level} {left : TreeShape}
    (h : Items size (.operator l.operators ++ .rule l.operand) ts others)
    (hts : StandIn source ts) (more : List TreeShape) :
    nestLeft left (others ++ more) = nestLeft (nestLeft left others) more := by
  induction h generalizing left with
  | nil => rfl
  | cons hitem _ ih =>
    obtain ⟨s, -, span, us, right', rfl, rfl, -⟩ := derives_operation hitem hts.left
    exact ih hts.right

theorem Items.concat {item : Form} (h : Items size item ts parts)
    (hitem : Derives size item us others) :
    Derives size (.repeated item) (ts ++ us) (parts ++ others) := by
  induction h with
  | nil =>
    have h := hitem.again (.done item)
    rwa [List.append_nil, List.append_nil] at h
  | cons hfirst _ ih =>
    rw [List.append_assoc, List.append_assoc]
    exact hfirst.again ih

/-- **An operation is derived by the level of its operator**, like what is on its
left. -/
theorem Derives.operation {l : Level} {left right : TreeShape} {s : Symbol} (span : Span)
    (hleft : Derives size (.rule (.level l)) ts [left]) (hts : StandIn source ts)
    (hs : s ∈ l.operators) (hright : Derives size (.rule l.operand) us [right]) :
    Derives size (.rule (.level l)) (ts ++ (⟨.symbol s, span⟩ :: us))
      [.binary left ⟨.operator, span, []⟩ right] := by
  obtain ⟨_, hinner, hleft⟩ := derives_rule.mp hleft
  obtain ⟨vs, ws, first, others, rfl, rfl, hfirst, hothers⟩ := derives_level hinner hts
  obtain rfl : left = nestLeft first others := List.singleton_inj.mp hleft
  have hoperation := (Derives.operator span hs).sequence hright
  have hder := Derives.rule (.level l) (hfirst.sequence (hothers.concat hoperation))
  have hnest : nestLeft first (others ++ [⟨.operator, span, []⟩, right])
      = .binary (nestLeft first others) ⟨.operator, span, []⟩ right :=
    nestLeft_append hothers hts.right _
  rw [← hnest, List.append_assoc]
  exact hder

/-- A single operand is of the level. -/
theorem Derives.operand {l : Level} {first : TreeShape}
    (h : Derives size (.rule l.operand) ts [first]) :
    Derives size (.rule (.level l)) ts [first] := by
  have hder := Derives.rule (.level l) (h.sequence (.done _))
  rwa [List.append_nil] at hder

/-- All nodes of nested operations, if the nodes of the operands are known. Each
operation in the nest is made of a beginning of the tokens. -/
theorem nodeOf_nestLeft {l : Level} {first : TreeShape} {vs : List Lexeme}
    (hts : StandIn source (us ++ vs)) (hfirst : Derives size (.rule l.operand) us [first])
    (hothers : Items size (.operator l.operators ++ .rule l.operand) vs others)
    (hnodes : ∀ s ∈ first :: others, ∀ n, s.Has n → NodeOf size (us ++ vs) n) :
    ∀ n, (nestLeft first others).Has n → NodeOf size (us ++ vs) n := by
  have hlevel : (Nonterminal.level l).Tight source size := tight_of_ne_program nofun
  have hoperand : l.operand.Tight source size := tight_of_ne_program (by cases l <;> nofun)
  suffices h : us ++ vs <+: us ++ vs →
      Derives size (.rule (.level l)) (us ++ vs) [nestLeft first others]
        ∧ ∀ n, (nestLeft first others).Has n → NodeOf size (us ++ vs) n from
    (h List.prefix_rfl).2
  refine operations_induction (motive := fun ts left => ts <+: us ++ vs →
    Derives size (.rule (.level l)) ts [left] ∧ ∀ n, left.Has n → NodeOf size (us ++ vs) n)
    hothers hts (List.subset_cons_self first others) ?_ ?_
  · exact fun _ => ⟨hfirst.operand, hnodes first List.mem_cons_self⟩
  · intro ts left s span ws right ih hs hws hright hop hmem hprefix
    obtain ⟨hleft, hnodesLeft⟩ := ih ((List.prefix_append _ _).trans hprefix)
    have hder := hleft.operation span hws.left hs hright
    refine ⟨hder, fun n hn => ?_⟩
    cases hn with
    | self =>
      have hplaced := placed_operation hws (within_of_covers hws.left (hlevel hws.left hleft))
        (within_of_covers hws.right.tail (hoperand hws.right.tail hright))
      exact (nodeOf_of_placed hws (.level l) hder (hlevel hws hder) hplaced).mono hprefix.isInfix
    | child hc hn =>
      have hc : _ ∈ [left, ⟨.operator, span, []⟩, right] := hc
      simp only [List.mem_cons, List.not_mem_nil, or_false] at hc
      obtain rfl | rfl | rfl := hc
      · exact hnodesLeft n hn
      · exact hnodes _ hop n hn
      · exact hnodes _ hmem n hn

/-- **Every node of a derivation** is made of some of its tokens. -/
theorem Derives.nodeOf (h : Derives size f ts parts) (hf : f.proper = true)
    (hts : StandIn source ts) : ∀ s ∈ parts, ∀ n, s.Has n → NodeOf size ts n := by
  induction h with
  | nothing => simp
  | token => simp
  | @leaf kind tokens t span ht =>
    intro s hs n hn
    obtain rfl := List.mem_singleton.mp hs
    have hkind : t.leafKind? = some kind := of_decide_eq_true (List.all_eq_true.mp hf t ht)
    cases hn with
    | self =>
      exact nodeOf_of_placed hts (.leaf hkind) (.only kind t span) (covers_singleton _)
        (placed_nil _)
    | child hc _ => simp at hc
  | @rule n ts parts h ih =>
    have hne : n ≠ .program := of_decide_eq_true hf
    have hinner := ih (proper_production n) hts
    have hder := Derives.rule n h
    cases hkind : n.nodeKind? with
    | some kind =>
      simp only [Nonterminal.assemble, hkind] at hder ⊢
      intro s hs m hm
      obtain rfl := List.mem_singleton.mp hs
      cases hm with
      | self =>
        exact nodeOf_of_placed hts (.rule hkind) hder (tight_of_ne_program hne hts hder)
          (h.placed (proper_production n) hts)
      | child hc hm => exact hinner _ hc m hm
    | none =>
      cases n with
      | level l =>
        obtain ⟨us, vs, first, others, rfl, rfl, hfirst, hothers⟩ := derives_level h hts
        intro s hs m hm
        obtain rfl := List.mem_singleton.mp hs
        exact nodeOf_nestLeft hts hfirst hothers hinner m hm
      | statement => exact hinner
      | expr => exact hinner
      | atom => exact hinner
      | _ => simp [Nonterminal.nodeKind?] at hkind
  | sequence _ _ ihf ihg =>
    obtain ⟨hf, hg⟩ := (Bool.and_eq_true _ _).mp hf
    intro s hs n hn
    rcases List.mem_append.mp hs with hs | hs
    · exact (ihf hf hts.left s hs n hn).mono (List.infix_append_left ..)
    · exact (ihg hg hts.right s hs n hn).mono (List.suffix_append _ _).isInfix
  | left g _ ih => exact ih ((Bool.and_eq_true _ _).mp hf).1 hts
  | right f _ ih => exact ih ((Bool.and_eq_true _ _).mp hf).2 hts
  | done => simp
  | again _ _ ihf ihfs =>
    intro s hs n hn
    rcases List.mem_append.mp hs with hs | hs
    · exact (ihf hf hts.left s hs n hn).mono (List.prefix_append _ _).isInfix
    · exact (ihfs hf hts.right s hs n hn).mono (List.suffix_append _ _).isInfix

/-! ## Leaves -/

/-- The leaves of several trees that stand for tokens. -/
def leavesOf (source : List Char) (parts : List TreeShape) : List SyntaxTree :=
  parts.flatMap fun s => (ofShape source s).tokenLeaves

theorem leavesOf_append (source : List Char) (parts others : List TreeShape) :
    leavesOf source (parts ++ others) = leavesOf source parts ++ leavesOf source others :=
  List.flatMap_append

/-- A node that does not stand for a token passes on the leaves of its parts. -/
theorem leavesOf_node (source : List Char) {kind : NodeKind} (hkind : kind.isToken = false)
    (span : Span) (parts : List TreeShape) :
    leavesOf source [⟨kind, span, parts⟩] = leavesOf source parts := by
  rw [leavesOf, List.flatMap_singleton, ofShape, tokenLeaves, preorder,
    List.filter_cons_of_neg (by simp [hkind]), preorderAll_eq_flatMap, ofShapes_eq_map,
    List.flatMap_map, List.filter_flatMap]
  rfl

theorem leavesOf_leaf (source : List Char) {t : Token} {kind : NodeKind}
    (h : t.leafKind? = some kind) (span : Span) :
    leavesOf source [⟨kind, span, []⟩] = [⟨t, span⟩].filterMap (Lexeme.leaf? source) := by
  have hkind : kind.isToken = true := by
    revert h
    cases t with
    | keyword k => cases k <;> rintro ⟨⟩ <;> rfl
    | symbol s => cases s <;> rintro ⟨⟩ <;> rfl
    | intLiteral => rintro ⟨⟩; rfl
    | ident => rintro ⟨⟩; rfl
  rw [leavesOf, List.flatMap_singleton, ofShape, ofShapes, tokenLeaves, preorder, preorderAll,
    List.filter_cons_of_pos (by simpa using hkind),
    List.filterMap_cons_some (by rw [Lexeme.leaf?, h]; rfl)]
  rfl

/-- Nesting operations to the left keeps all leaves, in their order. -/
theorem leavesOf_nestLeft {l : Level} {left : TreeShape}
    (h : Items size (.operator l.operators ++ .rule l.operand) ts others)
    (hts : StandIn source ts) :
    leavesOf source [nestLeft left others] = leavesOf source (left :: others) := by
  induction h generalizing left with
  | nil => rfl
  | cons hitem _ ih =>
    obtain ⟨s, -, span, us, right, rfl, rfl, -⟩ := derives_operation hitem hts.left
    refine (ih hts.right).trans ?_
    rw [← List.singleton_append, leavesOf_append, TreeShape.binary, TreeShape.spanning,
      leavesOf_node source rfl, ← leavesOf_append]
    rfl

/-- **The leaves of a derivation are its tokens**, those that leave a node. -/
theorem Derives.leavesOf_eq (h : Derives size f ts parts) (hf : f.proper = true)
    (hts : StandIn source ts) :
    leavesOf source parts = ts.filterMap (Lexeme.leaf? source) := by
  induction h with
  | nothing => rfl
  | token t span =>
    have ht : t.leafKind? = none := of_decide_eq_true hf
    rw [List.filterMap_cons_none (by rw [Lexeme.leaf?, ht]; rfl)]
    rfl
  | @leaf kind tokens t span ht =>
    exact leavesOf_leaf source (of_decide_eq_true (List.all_eq_true.mp hf t ht)) span
  | @rule n ts parts h ih =>
    rw [← ih (proper_production n) hts]
    cases hkind : n.nodeKind? with
    | some kind =>
      simp only [Nonterminal.assemble, hkind]
      exact leavesOf_node source (isToken_of_nodeKind? hkind) _ _
    | none =>
      cases n with
      | level l =>
        obtain ⟨us, vs, first, others, rfl, rfl, -, hothers⟩ := derives_level h hts
        exact leavesOf_nestLeft hothers hts.right
      | statement => rfl
      | expr => rfl
      | atom => rfl
      | _ => simp [Nonterminal.nodeKind?] at hkind
  | sequence _ _ ihf ihg =>
    obtain ⟨hf, hg⟩ := (Bool.and_eq_true _ _).mp hf
    rw [leavesOf_append, List.filterMap_append, ihf hf hts.left, ihg hg hts.right]
  | left g _ ih => exact ih ((Bool.and_eq_true _ _).mp hf).1 hts
  | right f _ ih => exact ih ((Bool.and_eq_true _ _).mp hf).2 hts
  | done => rfl
  | again _ _ ihf ihfs =>
    rw [leavesOf_append, List.filterMap_append, ihf hf hts.left, ihfs hf hts.right]

end Ebnf

end ImpFront
