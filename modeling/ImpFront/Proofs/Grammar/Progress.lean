import ImpFront.Proofs.Grammar.Completeness.Expression
import Mathlib.Logic.Function.Iterate

/-!
# The reader gets on

Two things in the reader look as if they decided what is read. A repetition checks
that its item has taken a token, and expressions and blocks nest only so deep as a
number says. Both are there to make the recursion end, and neither is ever felt: no
item of the grammar matches without a token, and nothing nests deeper than there are
tokens.

`Rule.Advances` says that a rule takes a token whenever it matches. For the rules of
the grammar it comes for free: what they read is derivable, and the tokens of a tree
are not none. From it follows what a repetition does if nobody checks
(`Rule.Advances.many_eq`, `Rule.Advances.reads_many_iff`).

As to depth, one more level of nesting costs one more token, so whatever is put at the
bottom of the recursion, the first `n` levels read the same from less than `n` tokens.
That makes the recursion `Rule.Guarded`, and a guarded recursion has one solution only,
which every depth that is large enough reaches (`Rule.Guarded.unique`,
`Rule.Guarded.iterate_eq`).
-/

namespace ImpFront

open Ebnf Rule

namespace Rule

variable {α β : Type} {p q : Rule α} {f g : α → Rule β} {ts rest : List Lexeme} {a : α} {m n : Nat}

/-! ## Rules that take a token -/

/-- **The rule leaves an end of what it is given.** -/
def Keeps (p : Rule α) : Prop := ∀ ⦃ts a rest⦄, p.Reads ts a rest → rest <:+ ts

/-- **The rule takes a token** whenever it matches, and leaves an end of what it is
given. -/
def Advances (p : Rule α) : Prop :=
  ∀ ⦃ts a rest⦄, p.Reads ts a rest → rest <:+ ts ∧ rest.length < ts.length

theorem Advances.keeps (h : p.Advances) : p.Keeps := fun _ _ _ hp => (h hp).1

theorem Advances.length_lt (h : p.Advances) (hp : p.Reads ts a rest) : rest.length < ts.length :=
  (h hp).2

theorem keeps_pure (a : α) : (pure a : Rule α).Keeps := by
  intro ts b rest h
  obtain ⟨-, rfl⟩ := reads_pure.mp h
  exact List.suffix_rfl

theorem advances_token (t : Token) : (token t).Advances := by
  intro ts span rest h
  obtain rfl := reads_token.mp h
  exact ⟨List.suffix_cons _ _, Nat.lt_succ_self _⟩

theorem advances_operator (symbols : List Symbol) : (operator symbols).Advances := by
  intro ts span rest h
  obtain ⟨s, -, rfl⟩ := reads_operator.mp h
  exact ⟨List.suffix_cons _ _, Nat.lt_succ_self _⟩

theorem Keeps.bind (hp : p.Keeps) (hf : ∀ a, (f a).Keeps) : (p >>= f).Keeps := by
  intro ts b rest h
  obtain ⟨a, mid, ha, hb⟩ := reads_bind.mp h
  exact (hf a hb).trans (hp ha)

/-- It is enough that the first of two steps takes a token. -/
theorem Advances.bind (hp : p.Advances) (hf : ∀ a, (f a).Keeps) : (p >>= f).Advances := by
  intro ts b rest h
  obtain ⟨a, mid, ha, hb⟩ := reads_bind.mp h
  exact ⟨(hf a hb).trans (hp ha).1, Nat.lt_of_le_of_lt (hf a hb).length_le (hp.length_lt ha)⟩

theorem Advances.orElse (hp : p.Advances) (hq : q.Advances) : (p <|> q).Advances := by
  intro ts a rest h
  rcases reads_orElse.mp h with h | ⟨-, h⟩
  · exact hp h
  · exact hq h

theorem Keeps.optional (hp : p.Keeps) : (Rule.optional p).Keeps := by
  intro ts o rest h
  rcases reads_optional.mp h with ⟨a, -, ha⟩ | ⟨-, rfl, -⟩
  · exact hp ha
  · exact List.suffix_rfl

theorem Chain.suffix {as : List α} (hp : p.Keeps) (h : Chain p ts as rest) : rest <:+ ts := by
  induction h with
  | nil ts => exact List.suffix_rfl
  | cons ha _ ih => exact ih.trans (hp ha)

theorem Keeps.many (hp : p.Keeps) : Keeps (Rule.many p) :=
  fun _ _ _ h => (chain_of_reads_many h).suffix hp

/-- What is derivable from the tokens used up takes a token. -/
theorem Yields.advances {size : Nat} {p : Rule TreeShape} {n : Nonterminal}
    (hp : p.Yields size n) : p.Advances := by
  intro ts t rest h
  obtain ⟨us, rfl, hcovers, -⟩ := hp h
  refine ⟨List.suffix_append us rest, ?_⟩
  rw [List.length_append]
  exact Nat.lt_add_of_pos_left (List.length_pos_iff.mpr hcovers.ne_nil)

/-! ## Repetitions -/

/-- **A repetition goes on behind every item**, without a look at what it has taken. -/
theorem Advances.many_eq (hp : p.Advances) (ts : List Lexeme) :
    many p ts = match p ts with
      | .ok a rest survived => ((many p rest).map (a :: ·)).remember survived
      | .fail e => .ok [] ts (some e) := by
  rw [many_apply]
  cases hrun : p ts with
  | fail e => rfl
  | ok a rest s => exact if_pos (hp.length_lt ⟨s, hrun⟩)

/-- A chain of items has no more items than there are tokens between its ends. -/
theorem Chain.length_le {as : List α} (hp : p.Advances) (h : Chain p ts as rest) :
    as.length + rest.length ≤ ts.length := by
  induction h with
  | nil ts => exact Nat.le_of_eq (Nat.zero_add _)
  | cons ha _ ih =>
    have := hp.length_lt ha
    rw [List.length_cons]
    omega

/-- **A repetition reads a chain of items and stops where none follows.** -/
theorem Advances.reads_many_iff {as : List α} (hp : p.Advances) :
    Reads (many p) ts as rest ↔ Chain p ts as rest ∧ p.Fails rest := by
  constructor
  · intro h
    refine ⟨chain_of_reads_many h, ?_⟩
    induction hn : ts.length using Nat.strongRecOn generalizing ts as with
    | _ n ih =>
      obtain ⟨s, hs⟩ := h
      rw [hp.many_eq] at hs
      cases hrun : p ts with
      | fail e =>
        rw [hrun] at hs
        simp only [Outcome.ok.injEq] at hs
        obtain ⟨-, rfl, -⟩ := hs
        exact ⟨e, hrun⟩
      | ok a mid s' =>
        rw [hrun] at hs
        obtain ⟨as', -, has⟩ := reads_map.mp (remember_eq_ok.mp ⟨s, hs⟩)
        exact ih _ (hn ▸ hp.length_lt ⟨s', hrun⟩) has rfl
  · rintro ⟨hchain, hfails⟩
    induction hchain with
    | nil ts => exact reads_many_nil hfails
    | cons ha _ ih => exact reads_many_cons ha (hp.length_lt ha) (ih hfails)

/-! ## Rules that agree on short lists -/

/-- **Two rules do the same** to every list of less than `n` tokens. -/
def AgreeBelow (n : Nat) (p q : Rule α) : Prop := ∀ ⦃ts⦄, ts.length < n → p ts = q ts

namespace AgreeBelow

theorem refl (n : Nat) (p : Rule α) : AgreeBelow n p p := fun _ _ => rfl

theorem symm (h : AgreeBelow n p q) : AgreeBelow n q p := fun _ hts => (h hts).symm

theorem mono (h : AgreeBelow n p q) (hm : m ≤ n) : AgreeBelow m p q :=
  fun _ hts => h (Nat.lt_of_lt_of_le hts hm)

theorem bind (hp : AgreeBelow n p q) (hq : q.Keeps) (hf : ∀ a, AgreeBelow n (f a) (g a)) :
    AgreeBelow n (p >>= f) (q >>= g) := by
  intro ts hts
  rw [bind_apply, bind_apply, hp hts]
  cases hrun : q ts with
  | fail e => rfl
  | ok a rest s =>
    have hrest := (hq ⟨s, hrun⟩).length_le
    simp only [hf a (Nat.lt_of_le_of_lt hrest hts)]

/-- Behind a token it is enough to agree on shorter lists. -/
theorem behind (hp : p.Advances) (hf : ∀ a, AgreeBelow n (f a) (g a)) :
    AgreeBelow (n + 1) (p >>= f) (p >>= g) := by
  intro ts hts
  rw [bind_apply, bind_apply]
  cases hrun : p ts with
  | fail e => rfl
  | ok a rest s =>
    have hrest := hp.length_lt ⟨s, hrun⟩
    simp only [hf a (Nat.lt_of_lt_of_le hrest (Nat.le_of_lt_succ hts))]

theorem orElse {p' q' : Rule α} (hp : AgreeBelow n p q) (hp' : AgreeBelow n p' q') :
    AgreeBelow n (p <|> p') (q <|> q') := by
  intro ts hts
  rw [orElse_apply, orElse_apply, hp hts, hp' hts]

theorem optional (hp : AgreeBelow n p q) : AgreeBelow n (Rule.optional p) (Rule.optional q) := by
  intro ts hts
  unfold Rule.optional
  rw [hp hts]

theorem many (hp : AgreeBelow n p q) : AgreeBelow n (Rule.many p) (Rule.many q) := by
  intro ts hts
  induction hn : ts.length using Nat.strongRecOn generalizing ts with
  | _ k ih =>
    rw [many_apply, many_apply, hp hts]
    cases q ts with
    | fail e => rfl
    | ok a rest s =>
      dsimp only
      split
      · rename_i hlt
        rw [ih _ (hn ▸ hlt) (Nat.lt_trans hlt hts) rfl]
      · rfl

end AgreeBelow

/-! ## Recursion that costs tokens -/

/-- **A recursion whose levels cost a token each**: one level more makes one depth of the
next, and it needs the level below on shorter lists only. -/
structure Guarded (step : Rule α → Rule α) (depths : Nat → Rule α) : Prop where
  succ (k : Nat) : depths (k + 1) = step (depths k)
  agrees ⦃n k : Nat⦄ ⦃p : Rule α⦄ (h : AgreeBelow n p (depths k)) :
    AgreeBelow (n + 1) (step p) (step (depths k))

namespace Guarded

variable {step : Rule α → Rule α} {depths : Nat → Rule α}

/-- **The bottom of the recursion is out of reach** of a list that is short enough. -/
theorem iterate_agrees (h : Guarded step depths) (bottom : Rule α) (n : Nat) :
    AgreeBelow n (step^[n] bottom) (depths n) := by
  induction n with
  | zero => exact fun ts hts => absurd hts (Nat.not_lt_zero _)
  | succ n ih =>
    rw [Function.iterate_succ_apply', h.succ]
    exact h.agrees ih

theorem depths_add (h : Guarded step depths) (n k : Nat) :
    depths (n + k) = step^[n] (depths k) := by
  induction n with
  | zero => rw [Nat.zero_add, Function.iterate_zero_apply]
  | succ n ih => rw [Nat.succ_add, h.succ, ih, Function.iterate_succ_apply']

/-- **All depths agree** that are larger than the list. -/
theorem depths_agree (h : Guarded step depths) (hm : ts.length < m) (hn : ts.length < n) :
    depths m ts = depths n ts := by
  have hleast : ∀ k, ts.length < k → depths k ts = depths (ts.length + 1) ts := by
    intro k hk
    obtain ⟨j, rfl⟩ := Nat.exists_eq_add_of_le hk
    rw [h.depths_add]
    exact h.iterate_agrees (depths j) _ (Nat.lt_succ_self _)
  rw [hleast m hm, hleast n hn]

variable {whole : Rule α} (hwhole : ∀ ts, whole ts = depths (ts.length + 1) ts)

include hwhole

/-- **The recursion has a solution**: the rule that goes as deep as there are tokens. -/
theorem eq_step (h : Guarded step depths) : whole = step whole := by
  funext ts
  have hagree : AgreeBelow ts.length whole (depths ts.length) := by
    intro us hus
    rw [hwhole]
    exact h.depths_agree (Nat.lt_succ_self _) hus
  rw [hwhole, h.succ]
  exact (h.agrees hagree (Nat.lt_succ_self _)).symm

/-- Any number of levels that is larger than the list reads as the solution does,
whatever is put below them. -/
theorem iterate_eq (h : Guarded step depths) (bottom : Rule α) (hn : ts.length < n) :
    step^[n] bottom ts = whole ts := by
  rw [hwhole, h.iterate_agrees bottom n hn]
  exact h.depths_agree hn (Nat.lt_succ_self _)

/-- **It has no other solution.** -/
theorem unique (h : Guarded step depths) (hp : p = step p) : p = whole := by
  funext ts
  rw [← h.iterate_eq hwhole p (Nat.lt_succ_self ts.length), Function.iterate_fixed hp.symm]

end Guarded

end Rule

namespace Grammar

variable {expr expr' block block' operand operand' : Rule TreeShape} {n : Nat} {size : Nat}

/-! ## Expressions -/

theorem advances_leaf (kind : NodeKind) (t : Token) : (leaf kind t).Advances :=
  (advances_token t).bind fun _ => keeps_pure _

theorem advances_operatorLeaf (symbols : List Symbol) : (operatorLeaf symbols).Advances :=
  (advances_operator symbols).bind fun _ => keeps_pure _

/-- An operator with the operand behind it takes a token. -/
theorem advances_operation (hoperand : operand.Keeps) (symbols : List Symbol) :
    (operation operand symbols).Advances :=
  (advances_operatorLeaf symbols).bind fun _ => hoperand.bind fun _ => keeps_pure _

theorem keeps_binaryLevel (hoperand : operand.Keeps) (symbols : List Symbol) :
    (binaryLevel operand symbols).Keeps :=
  hoperand.bind fun _ =>
    (advances_operation hoperand symbols).keeps.many.bind fun _ => keeps_pure _

theorem agree_separated (hexpr : expr'.Keeps) (h : AgreeBelow n expr expr') (s : Symbol) :
    AgreeBelow n (separatedBy expr (symbol s)) (separatedBy expr' (symbol s)) := by
  have hitem := AgreeBelow.bind (.refl n (symbol s)) (advances_token _).keeps fun _ => h
  have hkeeps := ((advances_token (.symbol s)).bind fun _ => hexpr).keeps
  exact h.bind hexpr fun _ => hitem.many.bind hkeeps.many fun _ => .refl n _

theorem keeps_separated (hexpr : expr.Keeps) (s : Symbol) :
    (separatedBy expr (symbol s)).Keeps :=
  hexpr.bind fun _ =>
    ((advances_token (.symbol s)).bind fun _ => hexpr).keeps.many.bind fun _ => keeps_pure _

theorem agree_parenthesized {α : Type} {p q : Rule α} (hq : q.Keeps) (h : AgreeBelow n p q) :
    AgreeBelow (n + 1) (parenthesized p) (parenthesized q) :=
  .behind (advances_token _) fun _ => h.bind hq fun _ => .refl n _

theorem advances_parenthesized {α : Type} {p : Rule α} (hp : p.Keeps) :
    (parenthesized p).Advances :=
  (advances_token _).bind fun _ => hp.bind fun _ =>
    ((advances_token _).bind fun _ => keeps_pure _).keeps

/-- Calls and groups have their parts behind a token, and the other atoms have none. -/
theorem agree_atom (hexpr : expr'.Keeps) (h : AgreeBelow n expr expr') :
    AgreeBelow (n + 1) (atom expr) (atom expr') := by
  have hargs : AgreeBelow n (argList expr) (argList expr') :=
    (agree_separated hexpr h .comma).bind (keeps_separated hexpr .comma) fun _ => .refl n _
  have hkeeps : (argList expr').Keeps :=
    (keeps_separated hexpr .comma).bind fun _ => keeps_pure _
  have hcall : AgreeBelow (n + 1) (call expr) (call expr') := by
    refine .behind (advances_leaf _ _) fun name => ?_
    have hparens := (agree_parenthesized hkeeps.optional hargs.optional).mono (Nat.le_succ n)
    exact hparens.bind (advances_parenthesized hkeeps.optional).keeps fun _ => .refl n _
  have hgroup : AgreeBelow (n + 1) (group expr) (group expr') :=
    (agree_parenthesized hexpr h).bind (advances_parenthesized hexpr).keeps fun _ => .refl _ _
  exact .orElse (.refl _ _) (.orElse (.refl _ _) (.orElse hcall (.orElse (.refl _ _) hgroup)))

theorem agree_binaryLevel (hoperand : operand'.Keeps) (h : AgreeBelow n operand operand')
    (symbols : List Symbol) :
    AgreeBelow n (binaryLevel operand symbols) (binaryLevel operand' symbols) := by
  have hitem : AgreeBelow n (operation operand symbols) (operation operand' symbols) :=
    .bind (.refl n _) (advances_operatorLeaf symbols).keeps fun _ =>
      h.bind hoperand fun _ => .refl n _
  have hkeeps := (advances_operation hoperand symbols).keeps
  exact h.bind hoperand fun _ => hitem.many.bind hkeeps.many fun _ => .refl n _

/-- The levels of operators cost nothing. -/
theorem agree_levels (levels : List (List Symbol)) (hoperand : operand'.Keeps)
    (h : AgreeBelow n operand operand') :
    AgreeBelow n (levels.foldl binaryLevel operand) (levels.foldl binaryLevel operand') := by
  induction levels generalizing operand operand' with
  | nil => exact h
  | cons symbols levels ih =>
    exact ih (keeps_binaryLevel hoperand symbols) (agree_binaryLevel hoperand h symbols)

/-- **Expressions within expressions cost a token.** -/
theorem guarded_expression : Guarded expressionWith expressionAt where
  succ k := rfl
  agrees n k p h := by
    have hyields := expressionAt_yields 0 k
    exact agree_levels _ (atom_yields hyields).advances.keeps
      (agree_atom hyields.advances.keeps h)

/-- **The recursion of expressions** has one solution, which is the rule for them. -/
theorem expression_eq : expression = expressionWith expression :=
  guarded_expression.eq_step fun _ => rfl

/-! ## Blocks -/

theorem advances_condition : condition.Advances :=
  (advances_parenthesized (expression_yields 0).advances.keeps).bind fun _ => keeps_pure _

section Statements

variable (hblock : block'.Keeps) (h : AgreeBelow n block block')

include hblock h

theorem agree_elseIfClause : AgreeBelow n (elseIfClause block) (elseIfClause block') :=
  .bind (.refl n _) (advances_token _).keeps fun _ =>
    .bind (.refl n _) (advances_token _).keeps fun _ =>
      .bind (.refl n _) advances_condition.keeps fun _ => h.bind hblock fun _ => .refl n _

theorem agree_elseClause : AgreeBelow n (elseClause block) (elseClause block') :=
  .bind (.refl n _) (advances_token _).keeps fun _ => h.bind hblock fun _ => .refl n _

theorem agree_whileStmt : AgreeBelow n (whileStmt block) (whileStmt block') :=
  .bind (.refl n _) (advances_token _).keeps fun _ =>
    .bind (.refl n _) advances_condition.keeps fun _ => h.bind hblock fun _ => .refl n _

omit h in
theorem advances_elseIfClause : (elseIfClause block').Advances :=
  (advances_token _).bind fun _ => (advances_token _).keeps.bind fun _ =>
    advances_condition.keeps.bind fun _ => hblock.bind fun _ => keeps_pure _

omit h in
theorem advances_elseClause : (elseClause block').Advances :=
  (advances_token _).bind fun _ => hblock.bind fun _ => keeps_pure _

theorem agree_ifStmt : AgreeBelow n (ifStmt block) (ifStmt block') := by
  refine .bind (.refl n _) (advances_token _).keeps fun _ => ?_
  refine .bind (.refl n _) advances_condition.keeps fun _ => h.bind hblock fun _ => ?_
  have hclauses := (agree_elseIfClause hblock h).many
  refine hclauses.bind (advances_elseIfClause hblock).keeps.many fun _ => ?_
  have hlast := (agree_elseClause hblock h).optional
  exact hlast.bind (advances_elseClause hblock).keeps.optional fun _ => .refl n _

theorem agree_statementWith : AgreeBelow n (statementWith block) (statementWith block') :=
  .orElse (.refl n _) (.orElse (agree_ifStmt hblock h) (.orElse (agree_whileStmt hblock h)
    (.orElse (.refl n _) (.orElse (.refl n _) (.refl n _)))))

end Statements

/-- **Blocks within blocks cost a token.** -/
theorem guarded_block : Guarded blockWith blockAt where
  succ k := rfl
  agrees n k p h := by
    have hyields := blockAt_yields 0 k
    have hitem := (varDecl_yields 0).advances.orElse (statementWith_yields hyields).advances
    have hagree := AgreeBelow.orElse (.refl n varDecl)
      (agree_statementWith hyields.advances.keeps h)
    exact .behind (advances_token _) fun _ =>
      hagree.many.bind hitem.keeps.many fun _ => .refl n _

/-- **The recursion of blocks** has one solution, which is the rule for them. -/
theorem block_eq : Grammar.block = blockWith Grammar.block :=
  guarded_block.eq_step fun _ => rfl

/-! ## The rules by their names -/

/-- Expressions whose operators have a rank at most. -/
def upToRank (rank : Nat) : Rule TreeShape :=
  (operatorLevels.take rank).foldl binaryLevel (atom expression)

/-- **The rule of a nonterminal.** -/
def ruleOf (size : Nat) : Nonterminal → Rule TreeShape
  | .program => program size
  | .varDecl => varDecl
  | .funcDecl => funcDecl
  | .paramList => paramList
  | .param => param
  | .type => typeName
  | .block => Grammar.block
  | .statement => statement
  | .assign => assignStmt
  | .ifStmt => ifStmt Grammar.block
  | .elseIf => elseIfClause Grammar.block
  | .elseClause => elseClause Grammar.block
  | .whileStmt => whileStmt Grammar.block
  | .returnStmt => returnStmt
  | .breakStmt => jumpStmt .breakStmt .breakWord
  | .continueStmt => jumpStmt .continueStmt .continueWord
  | .expr => expression
  | .level l => upToRank l.rank
  | .atom => atom expression
  | .call => call expression
  | .argList => argList expression
  | .location => location
  | .group => group expression

/-- A level consists of operands of the rank below and its own operators. -/
theorem upToRank_level (l : Level) :
    upToRank l.rank = binaryLevel (upToRank (l.rank - 1)) l.operators := by
  cases l <;> rfl

theorem ruleOf_operand (size : Nat) (l : Level) :
    ruleOf size l.operand = upToRank (l.rank - 1) := by
  cases l <;> rfl

theorem upToRank_yields (size : Nat) (l : Level) :
    (upToRank l.rank).Yields size (.level l) := by
  have hterm := binaryLevel_yields (l := .term) (atom_yields (expression_yields size))
  have hadditive := binaryLevel_yields (l := .additive) hterm
  have hrelational := binaryLevel_yields (l := .relational) hadditive
  have hequality := binaryLevel_yields (l := .equality) hrelational
  have hand := binaryLevel_yields (l := .and) hequality
  cases l with
  | term => exact hterm
  | additive => exact hadditive
  | relational => exact hrelational
  | equality => exact hequality
  | and => exact hand
  | or => exact binaryLevel_yields (l := .or) hand

/-- **What the rule of a nonterminal reads is derivable from the nonterminal.** -/
theorem ruleOf_yields {n : Nonterminal} (hn : n ≠ .program) : (ruleOf size n).Yields size n := by
  have hexpr := expression_yields size
  have hblock := block_yields size
  cases n with
  | program => exact absurd rfl hn
  | varDecl => exact varDecl_yields size
  | funcDecl => exact funcDecl_yields size
  | paramList => exact paramList_yields size
  | param => exact param_yields size
  | type => exact typeName_yields size
  | block => exact hblock
  | statement => exact statement_yields size
  | assign => exact assignStmt_yields size
  | ifStmt => exact ifStmt_yields hblock
  | elseIf => exact elseIfClause_yields hblock
  | elseClause => exact elseClause_yields hblock
  | whileStmt => exact whileStmt_yields hblock
  | returnStmt => exact returnStmt_yields size
  | breakStmt => exact jumpStmt_yields rfl rfl
  | continueStmt => exact jumpStmt_yields rfl rfl
  | expr => exact hexpr
  | level l => exact upToRank_yields size l
  | atom => exact atom_yields hexpr
  | call => exact call_yields hexpr
  | argList => exact argList_yields hexpr
  | location => exact location_yields size
  | group => exact group_yields hexpr

/-- **Every rule takes a token whenever it matches**, but for that of programs. -/
theorem advances_ruleOf (size : Nat) {n : Nonterminal} (hn : n ≠ .program) :
    (ruleOf size n).Advances :=
  (ruleOf_yields hn).advances

/-- **The repetitions of the grammar.** -/
inductive Repetition
  /-- The operators of a level with their right operands. -/
  | operations (l : Level)
  /-- Further arguments of a call. -/
  | arguments
  /-- Further parameters of a function. -/
  | parameters
  /-- What a block holds. -/
  | blockItems
  /-- The clauses of a conditional with a condition of their own. -/
  | elseIfs
  /-- What a program consists of. -/
  | declarations

namespace Repetition

/-- What an item is read as. -/
def Value : Repetition → Type
  | operations _ => TreeShape × TreeShape
  | _ => TreeShape

/-- **The item that is repeated.** -/
def item : (r : Repetition) → Rule r.Value
  | operations l => operation (upToRank (l.rank - 1)) l.operators
  | arguments => do
    let _ ← symbol .comma
    expression
  | parameters => do
    let _ ← symbol .comma
    param
  | blockItems => varDecl <|> statement
  | elseIfs => elseIfClause Grammar.block
  | declarations => declaration

end Repetition

/-- **Every item takes a token.** -/
theorem advances_item (r : Repetition) : r.item.Advances := by
  have hrule : ∀ n : Nonterminal, n ≠ .program → (ruleOf 0 n).Advances :=
    fun n hn => advances_ruleOf 0 hn
  have hcomma : (symbol .comma).Advances := advances_token _
  cases r with
  | operations l =>
    have hoperand := hrule l.operand (by cases l <;> decide)
    rw [ruleOf_operand] at hoperand
    exact advances_operation hoperand.keeps l.operators
  | arguments => exact hcomma.bind fun _ => (hrule .expr (by decide)).keeps
  | parameters => exact hcomma.bind fun _ => (hrule .param (by decide)).keeps
  | blockItems => exact (hrule .varDecl (by decide)).orElse (hrule .statement (by decide))
  | elseIfs => exact hrule .elseIf (by decide)
  | declarations => exact (hrule .funcDecl (by decide)).orElse (hrule .varDecl (by decide))

end Grammar

end ImpFront
