import ImpFront.Proofs.Grammar.Completeness.Program
import ImpFront.Proofs.Grammar.Progress
import ImpFront.Proofs.Grammar.Sentences

/-!
# The reader is recursive descent, which ends

The productions of the language can be run. Alternatives are tried in the order in which
they are written, a repetition goes on for as long as its item matches, and a nonterminal
is tried by trying its production. `Ebnf.Descends` says what comes of it. Nothing there
counts how deep it goes, and nothing looks at what an item has taken: a grammar with an
item that may be empty, or with a nonterminal that begins with itself, would have lists of
tokens on which the descent never comes to an end, and `Descends` would say nothing of
them.

For the language it ends on all lists of tokens, and with what the reader makes of them
(`Grammar.reads_iff_descends`). That is one lemma per form of rule, and then the steps of each
rule of the grammar, expressions and blocks by induction on the number of tokens.
-/

namespace ImpFront

open Ebnf Rule

/-! ## Recursive descent -/

namespace Ebnf

/-- **What recursive descent makes of a form** on a list of tokens: the tokens left, or
nothing if the form does not match. -/
inductive Descends : Form → List Lexeme → Option (List Lexeme) → Prop
  | nothing (ts : List Lexeme) : Descends .nothing ts (some ts)
  | token (t : Token) (span : Span) (rest : List Lexeme) :
      Descends (.token t) (⟨t, span⟩ :: rest) (some rest)
  | noToken {t : Token} {ts : List Lexeme} (h : nextToken ts ≠ some t) :
      Descends (.token t) ts none
  | leaf (kind : NodeKind) {tokens : List Token} {t : Token} (ht : t ∈ tokens) (span : Span)
      (rest : List Lexeme) : Descends (.leaf kind tokens) (⟨t, span⟩ :: rest) (some rest)
  | noLeaf (kind : NodeKind) {tokens : List Token} {ts : List Lexeme}
      (h : ∀ t ∈ tokens, nextToken ts ≠ some t) : Descends (.leaf kind tokens) ts none
  | rule (n : Nonterminal) {ts : List Lexeme} {r : Option (List Lexeme)}
      (h : Descends (production n) ts r) : Descends (.rule n) ts r
  | stop {f : Form} (g : Form) {ts : List Lexeme} (hf : Descends f ts none) :
      Descends (f ++ g) ts none
  | sequence {f g : Form} {ts mid : List Lexeme} {r : Option (List Lexeme)}
      (hf : Descends f ts (some mid)) (hg : Descends g mid r) : Descends (f ++ g) ts r
  | left {f : Form} (g : Form) {ts rest : List Lexeme} (hf : Descends f ts (some rest)) :
      Descends (f <|> g) ts (some rest)
  | right {f g : Form} {ts : List Lexeme} {r : Option (List Lexeme)}
      (hf : Descends f ts none) (hg : Descends g ts r) : Descends (f <|> g) ts r
  | done {f : Form} {ts : List Lexeme} (hf : Descends f ts none) :
      Descends (.repeated f) ts (some ts)
  | again {f : Form} {ts mid : List Lexeme} {r : Option (List Lexeme)}
      (hf : Descends f ts (some mid)) (hfs : Descends (.repeated f) mid r) :
      Descends (.repeated f) ts r

variable {f g : Form} {ts rest : List Lexeme} {r r' : Option (List Lexeme)}

/-- **Recursive descent comes to one end at most.** -/
theorem Descends.unique (h : Descends f ts r) (h' : Descends f ts r') : r = r' := by
  induction h generalizing r' with
  | nothing ts =>
    cases h'
    rfl
  | token t span rest =>
    cases h' with
    | token => rfl
    | noToken h => exact absurd rfl h
  | noToken h =>
    cases h' with
    | token => exact absurd rfl h
    | noToken => rfl
  | leaf kind ht span rest =>
    cases h' with
    | leaf => rfl
    | noLeaf _ h => exact absurd rfl (h _ ht)
  | noLeaf kind h =>
    cases h' with
    | leaf _ ht => exact absurd rfl (h _ ht)
    | noLeaf => rfl
  | rule n _ ih =>
    cases h' with
    | rule _ h' => exact ih h'
  | stop g _ ih =>
    cases h' with
    | stop => rfl
    | sequence hf => cases ih hf
  | sequence _ _ ihf ihg =>
    cases h' with
    | stop _ hf => cases ihf hf
    | sequence hf hg =>
      cases ihf hf
      exact ihg hg
  | left g _ ih =>
    cases h' with
    | left _ hf => exact ih hf
    | right hf => cases ih hf
  | right _ _ ihf ihg =>
    cases h' with
    | left _ hf => cases ihf hf
    | right _ hg => exact ihg hg
  | done _ ih =>
    cases h' with
    | done => rfl
    | again hf => cases ih hf
  | again _ _ ihf ihfs =>
    cases h' with
    | done hf => cases ihf hf
    | again hf hfs =>
      cases ihf hf
      exact ihfs hfs

theorem descends_append :
    Descends (f ++ g) ts r
      ↔ Descends f ts none ∧ r = none ∨ ∃ mid, Descends f ts (some mid) ∧ Descends g mid r := by
  constructor
  · intro h
    cases h with
    | stop _ hf => exact .inl ⟨hf, rfl⟩
    | sequence hf hg => exact .inr ⟨_, hf, hg⟩
  · rintro (⟨hf, rfl⟩ | ⟨mid, hf, hg⟩)
    · exact .stop g hf
    · exact .sequence hf hg

@[simp] theorem descends_nothing : Descends .nothing ts r ↔ r = some ts := by
  constructor
  · intro h
    cases h
    rfl
  · rintro rfl
    exact .nothing ts

/-- The descent does not see how sequences are grouped. -/
theorem regroups_descends :
    Form.Regroups fun f g => ∀ ts r, Descends f ts r ↔ Descends g ts r := by
  constructor
  case equivalence =>
    exact ⟨fun _ _ _ => Iff.rfl, fun h ts r => (h ts r).symm,
      fun h h' ts r => (h ts r).trans (h' ts r)⟩
  case append =>
    intro f f' g g' hf hg ts r
    simp only [descends_append, hf, hg]
  case assoc =>
    intro f g h ts r
    constructor
    · intro hfgh
      rcases descends_append.mp hfgh with ⟨hf, rfl⟩ | ⟨mid, hf, hgh⟩
      · exact .stop h (.stop g hf)
      · rcases descends_append.mp hgh with ⟨hg, rfl⟩ | ⟨mid', hg, hh⟩
        · exact .stop h (.sequence hf hg)
        · exact .sequence (.sequence hf hg) hh
    · intro hfgh
      rcases descends_append.mp hfgh with ⟨hfg, rfl⟩ | ⟨mid', hfg, hh⟩
      · rcases descends_append.mp hfg with ⟨hf, -⟩ | ⟨mid, hf, hg⟩
        · exact .stop (g ++ h) hf
        · exact .sequence hf (.stop h hg)
      · rcases descends_append.mp hfg with ⟨-, hnone⟩ | ⟨mid, hf, hg⟩
        · cases hnone
        · exact .sequence hf (.sequence hg hh)
  case nothing_append =>
    intro f ts r
    simp [descends_append]
  case append_nothing =>
    intro f ts r
    constructor
    · intro h
      rcases descends_append.mp h with ⟨hf, rfl⟩ | ⟨mid, hf, hnothing⟩
      · exact hf
      · rw [descends_nothing.mp hnothing]
        exact hf
    · intro hf
      cases r with
      | none => exact .stop _ hf
      | some rest => exact .sequence hf (.nothing rest)

end Ebnf

/-! ## Rules that do as the descent does -/

namespace Rule

variable {α β : Type} {p : Rule α} {q : α → Rule β} {f g : Form} {ts rest : List Lexeme}
  {bound bound' size : Nat}

/-- **The rule does as the descent does** with every list of less than `bound` tokens: it
leaves the same tokens, or does not match either. -/
structure Follows (p : Rule α) (f : Form) (bound : Nat) : Prop where
  reads ⦃ts rest : List Lexeme⦄ ⦃a : α⦄ (hts : ts.length < bound) (h : p.Reads ts a rest) :
    Descends f ts (some rest)
  fails ⦃ts : List Lexeme⦄ (hts : ts.length < bound) (h : p.Fails ts) : Descends f ts none

/-- A rule matches a list or does not. -/
theorem reads_or_fails (p : Rule α) (ts : List Lexeme) :
    (∃ a rest, p.Reads ts a rest) ∨ p.Fails ts := by
  cases hrun : p ts with
  | ok a rest s => exact .inl ⟨a, rest, s, hrun⟩
  | fail e => exact .inr ⟨e, hrun⟩

namespace Follows

theorem mono (h : p.Follows f bound) (hle : bound' ≤ bound) : p.Follows f bound' :=
  ⟨fun _ _ _ hts => h.reads (Nat.lt_of_lt_of_le hts hle),
    fun _ hts => h.fails (Nat.lt_of_lt_of_le hts hle)⟩

/-- No list has less than no tokens. -/
theorem zero (p : Rule α) (f : Form) : p.Follows f 0 :=
  ⟨fun _ _ _ hts => absurd hts (Nat.not_lt_zero _), fun _ hts => absurd hts (Nat.not_lt_zero _)⟩

theorem token (t : Token) (bound : Nat) : (Rule.token t).Follows (.token t) bound where
  reads ts rest span _ h := by
    obtain rfl := reads_token.mp h
    exact .token t span rest
  fails ts _ h := .noToken (fails_token.mp h)

theorem leaf (kind : NodeKind) (t : Token) (bound : Nat) :
    (Grammar.leaf kind t).Follows (.leaf kind [t]) bound where
  reads ts rest n _ h := by
    obtain ⟨span, rfl, -⟩ := Grammar.reads_leaf.mp h
    exact .leaf kind (List.mem_singleton_self t) span rest
  fails ts _ h := .noLeaf kind (List.forall_mem_singleton.mpr (Grammar.fails_leaf.mp h))

theorem operatorLeaf (symbols : List Symbol) (bound : Nat) :
    (Grammar.operatorLeaf symbols).Follows (.operator symbols) bound where
  reads ts rest n _ h := by
    obtain ⟨s, hs, span, rfl, -⟩ := Grammar.reads_operatorLeaf.mp h
    exact .leaf .operator (List.mem_map_of_mem hs) span rest
  fails ts _ h := .noLeaf .operator (List.forall_mem_map.mpr (Grammar.fails_operatorLeaf.mp h))

theorem boolLiteral (bound : Nat) :
    Grammar.boolLiteral.Follows (.leaf .boolLiteral [.keyword .trueWord, .keyword .falseWord])
      bound where
  reads ts rest n _ h := by
    rcases reads_orElse.mp h with h | ⟨-, h⟩
    · obtain ⟨span, rfl, -⟩ := Grammar.reads_leaf.mp h
      exact .leaf _ (by simp) span rest
    · obtain ⟨span, rfl, -⟩ := Grammar.reads_leaf.mp h
      exact .leaf _ (by simp) span rest
  fails ts _ h := by
    obtain ⟨htrue, hfalse⟩ := fails_orElse.mp h
    refine .noLeaf _ (List.forall_mem_cons.mpr ⟨Grammar.fails_leaf.mp htrue, ?_⟩)
    exact List.forall_mem_singleton.mpr (Grammar.fails_leaf.mp hfalse)

/-- Two steps, where the first leaves few enough tokens for the second. -/
theorem bindWithin (hp : p.Follows f bound) (hq : ∀ a, (q a).Follows g bound')
    (hmid : ∀ ⦃ts a mid⦄, ts.length < bound → p.Reads ts a mid → mid.length < bound') :
    (p >>= q).Follows (f ++ g) bound where
  reads ts rest b hts h := by
    obtain ⟨a, mid, ha, hb⟩ := reads_bind.mp h
    exact .sequence (hp.reads hts ha) ((hq a).reads (hmid hts ha) hb)
  fails ts hts h := by
    rcases fails_bind.mp h with h | ⟨a, mid, ha, hb⟩
    · exact .stop g (hp.fails hts h)
    · exact .sequence (hp.reads hts ha) ((hq a).fails (hmid hts ha) hb)

theorem bind (hp : p.Follows f bound) (hkeeps : p.Keeps) (hq : ∀ a, (q a).Follows g bound) :
    (p >>= q).Follows (f ++ g) bound :=
  hp.bindWithin hq fun _ _ _ hts ha => Nat.lt_of_le_of_lt (hkeeps ha).length_le hts

/-- A first step that takes a token leaves one token less to the second. -/
theorem behind (hp : p.Follows f (bound + 1)) (hadvances : p.Advances)
    (hq : ∀ a, (q a).Follows g bound) : (p >>= q).Follows (f ++ g) (bound + 1) :=
  hp.bindWithin hq fun _ _ _ hts ha =>
    Nat.lt_of_lt_of_le (hadvances.length_lt ha) (Nat.le_of_lt_succ hts)

/-- What is made of the value does not matter. -/
theorem map (hp : p.Follows f bound) (h : α → β) :
    (p >>= fun a => pure (h a)).Follows f bound where
  reads ts rest b hts hb := by
    obtain ⟨a, mid, ha, hpure⟩ := reads_bind.mp hb
    obtain ⟨-, rfl⟩ := reads_pure.mp hpure
    exact hp.reads hts ha
  fails ts hts hb := by
    rcases fails_bind.mp hb with hb | ⟨a, mid, -, hpure⟩
    · exact hp.fails hts hb
    · exact absurd hpure fails_pure

theorem orElse {p' : Rule α} (hp : p.Follows f bound) (hp' : p'.Follows g bound) :
    (p <|> p').Follows (f <|> g) bound where
  reads ts rest a hts h := by
    rcases reads_orElse.mp h with h | ⟨hfails, h⟩
    · exact .left g (hp.reads hts h)
    · exact .right (hp.fails hts hfails) (hp'.reads hts h)
  fails ts hts h := by
    obtain ⟨h, h'⟩ := fails_orElse.mp h
    exact .right (hp.fails hts h) (hp'.fails hts h')

theorem optional (hp : p.Follows f bound) : (Rule.optional p).Follows f.optional bound where
  reads ts rest o hts h := by
    rcases reads_optional.mp h with ⟨a, -, ha⟩ | ⟨-, rfl, hfails⟩
    · exact .left _ (hp.reads hts ha)
    · exact .right (hp.fails hts hfails) (.nothing ts)
  fails ts _ h := absurd h fails_optional

/-- A repetition whose item takes a token is the descent's. -/
theorem many (hp : p.Follows f bound) (hadvances : p.Advances) :
    Follows (Rule.many p) (.repeated f) bound where
  reads ts rest as hts h := by
    obtain ⟨hchain, hfails⟩ := hadvances.reads_many_iff.mp h
    induction hchain with
    | nil ts => exact .done (hp.fails hts hfails)
    | cons ha has ih =>
      have hmid := Nat.lt_trans (hadvances.length_lt ha) hts
      exact .again (hp.reads hts ha)
        (ih hmid (hadvances.reads_many_iff.mpr ⟨has, hfails⟩) hfails)
  fails ts _ h := absurd h fails_many

theorem of_steps (h : p.Follows f bound) (hsteps : f.steps = g.steps) : p.Follows g bound :=
  have hfg := regroups_descends.of_steps hsteps
  ⟨fun _ _ _ hts hp => (hfg _ _).mp (h.reads hts hp),
    fun _ hts hp => (hfg _ _).mp (h.fails hts hp)⟩

theorem rule {n : Nonterminal} (h : p.Follows (production n) bound) :
    p.Follows (.rule n) bound :=
  ⟨fun _ _ _ hts hp => .rule n (h.reads hts hp), fun _ hts hp => .rule n (h.fails hts hp)⟩

end Follows

end Rule

/-! ## The rules of the grammar -/

namespace Grammar

variable {α : Type} {p : Rule α} {f : Form} {bound : Nat}

theorem keeps_ruleOf (n : Nonterminal) (hn : n ≠ .program) : (ruleOf 0 n).Keeps :=
  (advances_ruleOf 0 hn).keeps

theorem parenthesized_follows (hp : p.Follows f bound) (hkeeps : p.Keeps) :
    (parenthesized p).Follows (.mark .openParen ++ (f ++ .mark .closeParen)) (bound + 1) :=
  (Follows.token _ _).behind (advances_token _) fun _ =>
    hp.bind hkeeps fun _ => (Follows.token _ _).map _

theorem separated_follows (hp : p.Follows f bound) (hkeeps : p.Keeps) :
    (separatedBy p (symbol .comma)).Follows (f ++ .repeated (.mark .comma ++ f)) bound := by
  have hcomma : (symbol .comma).Advances := advances_token _
  have hitem := (Follows.token (.symbol .comma) bound).bind hcomma.keeps fun _ => hp
  exact hp.bind hkeeps fun _ => (hitem.many (hcomma.bind fun _ => hkeeps)).map _

/-! ### Expressions -/

section Expressions

variable (hexpr : expression.Follows (.rule .expr) bound)

include hexpr

theorem argList_follows : (argList expression).Follows (.rule .argList) bound :=
  .rule ((separated_follows hexpr (keeps_ruleOf .expr (by decide))).map _)

theorem call_follows : (call expression).Follows (.rule .call) (bound + 1) := by
  have hargs := (argList_follows hexpr).optional
  have hparens := parenthesized_follows hargs (keeps_ruleOf .argList (by decide)).optional
  exact .rule (((Follows.leaf _ _ _).bind (advances_leaf _ _).keeps fun _ =>
    hparens.map _).of_steps rfl)

theorem group_follows : (group expression).Follows (.rule .group) (bound + 1) :=
  .rule (((parenthesized_follows hexpr (keeps_ruleOf .expr (by decide))).map _).of_steps rfl)

omit hexpr in
theorem location_follows (bound : Nat) : location.Follows (.rule .location) bound :=
  .rule ((Follows.leaf _ _ _).map _)

theorem atom_follows : (atom expression).Follows (.rule .atom) (bound + 1) :=
  .rule (.orElse (.leaf _ _ _) (.orElse (.boolLiteral _) (.orElse (call_follows hexpr)
    (.orElse (location_follows _) (group_follows hexpr)))))

omit hexpr in
/-- A level does as the descent does if its operands do. -/
theorem upToRank_follows_of_operand (l : Level)
    (hoperand : (upToRank (l.rank - 1)).Follows (.rule l.operand) bound) :
    (upToRank l.rank).Follows (.rule (.level l)) bound := by
  have hkeeps := keeps_ruleOf l.operand (by cases l <;> decide)
  rw [ruleOf_operand] at hkeeps
  have hitem : (operation (upToRank (l.rank - 1)) l.operators).Follows
      (.operator l.operators ++ .rule l.operand) bound :=
    (Follows.operatorLeaf _ _).bind (advances_operatorLeaf _).keeps fun _ => hoperand.map _
  rw [upToRank_level]
  exact .rule (hoperand.bind hkeeps fun _ => (hitem.many (advances_item (.operations l))).map _)

theorem upToRank_follows (l : Level) :
    (upToRank l.rank).Follows (.rule (.level l)) (bound + 1) := by
  have hterm := upToRank_follows_of_operand .term (atom_follows hexpr)
  have hadditive := upToRank_follows_of_operand .additive hterm
  have hrelational := upToRank_follows_of_operand .relational hadditive
  have hequality := upToRank_follows_of_operand .equality hrelational
  have hand := upToRank_follows_of_operand .and hequality
  cases l with
  | term => exact hterm
  | additive => exact hadditive
  | relational => exact hrelational
  | equality => exact hequality
  | and => exact hand
  | or => exact upToRank_follows_of_operand .or hand

end Expressions

/-- **The rule for expressions does as the descent does.** A list of one token more is read
by an expression's levels, and what they nest is shorter. -/
theorem expression_follows (bound : Nat) : expression.Follows (.rule .expr) bound := by
  induction bound with
  | zero => exact .zero _ _
  | succ bound ih =>
    rw [expression_eq]
    exact .rule (upToRank_follows ih .or)

/-! ### Statements -/

theorem typeName_follows (bound : Nat) : typeName.Follows (.rule .type) bound :=
  .rule ((Follows.orElse (.leaf _ _ _) (.orElse (.leaf _ _ _) (.leaf _ _ _))).map _)

theorem initializer_follows (bound : Nat) :
    initializer.Follows (.mark .assign ++ .rule .expr) bound :=
  (Follows.token _ _).bind (advances_token _).keeps fun _ => expression_follows bound

theorem advances_initializer : initializer.Advances :=
  (advances_token _).bind fun _ => keeps_ruleOf .expr (by decide)

theorem varDecl_follows (bound : Nat) : varDecl.Follows (.rule .varDecl) bound := by
  have hvalue := (initializer_follows bound).optional
  exact .rule (((typeName_follows bound).bind (keeps_ruleOf .type (by decide)) fun _ =>
    (Follows.leaf _ _ _).bind (advances_leaf _ _).keeps fun _ =>
    hvalue.bind advances_initializer.keeps.optional fun _ =>
    (Follows.token _ _).map _).of_steps rfl)

theorem assignStmt_follows (bound : Nat) : assignStmt.Follows (.rule .assign) bound :=
  .rule (((Follows.leaf _ _ _).bind (advances_leaf _ _).keeps fun _ =>
    (Follows.token _ _).bind (advances_token _).keeps fun _ =>
    (expression_follows bound).bind (keeps_ruleOf .expr (by decide)) fun _ =>
    (Follows.token _ _).map _).of_steps rfl)

theorem condition_follows (bound : Nat) :
    condition.Follows (.mark .openParen ++ (.rule .expr ++ .mark .closeParen)) bound :=
  (parenthesized_follows (expression_follows bound) (keeps_ruleOf .expr (by decide))).mono
    (Nat.le_succ bound) |>.map _

theorem returnStmt_follows (bound : Nat) : returnStmt.Follows (.rule .returnStmt) bound :=
  .rule (((Follows.token _ _).bind (advances_token _).keeps fun _ =>
    (expression_follows bound).optional.bind (keeps_ruleOf .expr (by decide)).optional fun _ =>
    (Follows.token _ _).map _).of_steps rfl)

theorem jumpStmt_follows (kind : NodeKind) (word : Keyword) (bound : Nat) :
    (jumpStmt kind word).Follows (.word word ++ .mark .semicolon) bound :=
  (Follows.token _ _).bind (advances_token _).keeps fun _ => (Follows.token _ _).map _

section Blocks

variable (hblock : Grammar.block.Follows (.rule .block) bound)

include hblock

theorem elseIfClause_follows : (elseIfClause Grammar.block).Follows (.rule .elseIf) bound :=
  .rule (((Follows.token _ _).bind (advances_token _).keeps fun _ =>
    (Follows.token _ _).bind (advances_token _).keeps fun _ =>
    (condition_follows bound).bind advances_condition.keeps fun _ => hblock.map _).of_steps rfl)

theorem elseClause_follows : (elseClause Grammar.block).Follows (.rule .elseClause) bound :=
  .rule (((Follows.token _ _).bind (advances_token _).keeps fun _ => hblock.map _).of_steps rfl)

theorem whileStmt_follows : (whileStmt Grammar.block).Follows (.rule .whileStmt) bound :=
  .rule (((Follows.token _ _).bind (advances_token _).keeps fun _ =>
    (condition_follows bound).bind advances_condition.keeps fun _ => hblock.map _).of_steps rfl)

theorem ifStmt_follows : (ifStmt Grammar.block).Follows (.rule .ifStmt) bound := by
  have hclauses := (elseIfClause_follows hblock).many (advances_item .elseIfs)
  have hlast := (elseClause_follows hblock).optional
  exact .rule (((Follows.token _ _).bind (advances_token _).keeps fun _ =>
    (condition_follows bound).bind advances_condition.keeps fun _ =>
    hblock.bind (keeps_ruleOf .block (by decide)) fun _ =>
    hclauses.bind (advances_item .elseIfs).keeps.many fun _ => hlast.map _).of_steps rfl)

theorem statement_follows_of_block : statement.Follows (.rule .statement) bound :=
  .rule (.orElse (assignStmt_follows bound) (.orElse (ifStmt_follows hblock)
    (.orElse (whileStmt_follows hblock) (.orElse (returnStmt_follows bound)
      (.orElse (.rule (jumpStmt_follows _ _ bound)) (.rule (jumpStmt_follows _ _ bound)))))))

end Blocks

/-- **The rule for blocks does as the descent does.** Blocks within a block stand behind its
brace. -/
theorem block_follows (bound : Nat) : Grammar.block.Follows (.rule .block) bound := by
  induction bound with
  | zero => exact .zero _ _
  | succ bound ih =>
    have hitems := ((varDecl_follows bound).orElse (statement_follows_of_block ih)).many
      (advances_item .blockItems)
    rw [block_eq]
    exact .rule (((Follows.token _ _).behind (advances_token _) fun _ =>
      hitems.bind (advances_item .blockItems).keeps.many fun _ =>
      (Follows.token _ _).map _).of_steps rfl)

/-! ### Programs -/

theorem param_follows (bound : Nat) : param.Follows (.rule .param) bound :=
  .rule ((typeName_follows bound).bind (keeps_ruleOf .type (by decide)) fun _ =>
    (Follows.leaf _ _ _).map _)

theorem paramList_follows (bound : Nat) : paramList.Follows (.rule .paramList) bound :=
  .rule ((separated_follows (param_follows bound) (keeps_ruleOf .param (by decide))).map _)

theorem funcDecl_follows (bound : Nat) : funcDecl.Follows (.rule .funcDecl) bound := by
  have hkeeps := (keeps_ruleOf .paramList (by decide)).optional
  have hparens := (parenthesized_follows (paramList_follows bound).optional hkeeps).mono
    (Nat.le_succ bound)
  exact .rule (((typeName_follows bound).bind (keeps_ruleOf .type (by decide)) fun _ =>
    (Follows.leaf _ _ _).bind (advances_leaf _ _).keeps fun _ =>
    hparens.bind (advances_parenthesized hkeeps).keeps fun _ =>
    (block_follows bound).map _).of_steps rfl)

/-- **Functions and variables are tried in either order**, since what is the one is not the
other. -/
theorem declaration_follows (bound : Nat) :
    declaration.Follows (.rule .varDecl <|> .rule .funcDecl) bound where
  reads ts rest t hts h := by
    rcases reads_orElse.mp h with hfunc | ⟨-, hvar⟩
    · refine .right ((varDecl_follows bound).fails hts ?_)
        ((funcDecl_follows bound).reads hts hfunc)
      refine (reads_or_fails varDecl ts).resolve_left ?_
      rintro ⟨t', rest', hvar⟩
      obtain ⟨us, rfl, hus⟩ := (varDecl_yields 0).derives hvar
      exact hfunc.not_fails (fails_funcDecl_of_derives hus rest')
    · exact .left _ ((varDecl_follows bound).reads hts hvar)
  fails ts hts h := by
    obtain ⟨hfunc, hvar⟩ := fails_orElse.mp h
    exact .right ((varDecl_follows bound).fails hts hvar) ((funcDecl_follows bound).fails hts hfunc)

theorem program_follows (size bound : Nat) : (program size).Follows (.rule .program) bound :=
  .rule (((declaration_follows bound).many (advances_item .declarations)).map _)

/-- **Every rule does as the descent does.** -/
theorem ruleOf_follows (size : Nat) (n : Nonterminal) (bound : Nat) :
    (ruleOf size n).Follows (.rule n) bound := by
  have hexpr := expression_follows bound
  have hblock := block_follows bound
  cases n with
  | program => exact program_follows size bound
  | varDecl => exact varDecl_follows bound
  | funcDecl => exact funcDecl_follows bound
  | paramList => exact paramList_follows bound
  | param => exact param_follows bound
  | type => exact typeName_follows bound
  | block => exact hblock
  | statement => exact statement_follows_of_block hblock
  | assign => exact assignStmt_follows bound
  | ifStmt => exact ifStmt_follows hblock
  | elseIf => exact elseIfClause_follows hblock
  | elseClause => exact elseClause_follows hblock
  | whileStmt => exact whileStmt_follows hblock
  | returnStmt => exact returnStmt_follows bound
  | breakStmt => exact .rule (jumpStmt_follows _ _ bound)
  | continueStmt => exact .rule (jumpStmt_follows _ _ bound)
  | expr => exact hexpr
  | level l => exact (upToRank_follows hexpr l).mono (Nat.le_succ bound)
  | atom => exact (atom_follows hexpr).mono (Nat.le_succ bound)
  | call => exact (call_follows hexpr).mono (Nat.le_succ bound)
  | argList => exact argList_follows hexpr
  | location => exact location_follows bound
  | group => exact (group_follows hexpr).mono (Nat.le_succ bound)

/-! ## Progress -/

/-- **A rule matches just if the descent does**, and leaves the same tokens. -/
theorem reads_iff_descends {size : Nat} {n : Nonterminal} {ts rest : List Lexeme} :
    (∃ t, (ruleOf size n).Reads ts t rest) ↔ Descends (.rule n) ts (some rest) := by
  have hfollows := ruleOf_follows size n (ts.length + 1)
  have hts := Nat.lt_succ_self ts.length
  constructor
  · rintro ⟨t, h⟩
    exact hfollows.reads hts h
  · intro h
    rcases reads_or_fails (ruleOf size n) ts with ⟨t, rest', hreads⟩ | hfails
    · cases h.unique (hfollows.reads hts hreads)
      exact ⟨t, hreads⟩
    · cases h.unique (hfollows.fails hts hfails)

theorem fails_iff_descends {size : Nat} {n : Nonterminal} {ts : List Lexeme} :
    (ruleOf size n).Fails ts ↔ Descends (.rule n) ts none := by
  have hfollows := ruleOf_follows size n (ts.length + 1)
  have hts := Nat.lt_succ_self ts.length
  constructor
  · exact hfollows.fails hts
  · intro h
    refine (reads_or_fails (ruleOf size n) ts).resolve_left ?_
    rintro ⟨t, rest, hreads⟩
    cases h.unique (hfollows.reads hts hreads)

/-- **Recursive descent ends** on every list of tokens, in one way. -/
theorem existsUnique_descends (n : Nonterminal) (ts : List Lexeme) :
    ∃! r, Descends (.rule n) ts r := by
  rcases reads_or_fails (ruleOf 0 n) ts with ⟨t, rest, hreads⟩ | hfails
  · exact ⟨_, reads_iff_descends.mp ⟨t, hreads⟩, fun r hr =>
      hr.unique (reads_iff_descends.mp ⟨t, hreads⟩)⟩
  · exact ⟨_, fails_iff_descends.mp hfails, fun r hr => hr.unique (fails_iff_descends.mp hfails)⟩

/-- **The reader gets on**, whatever the tokens: rules and repeated items take tokens, what
fails gives back what it took, the recursion ends, and neither the look at what an item has
taken nor the bound on the depth has a part in what is read. -/
structure Progresses (size : Nat) : Prop where
  /-- A rule other than that of programs leaves an end of the list, and a shorter list. -/
  rule_advances (n : Nonterminal) (hn : n ≠ .program) : (ruleOf size n).Advances
  /-- The rule of programs leaves an end of the list, too, and never fails. -/
  program_keeps : (program size).Keeps ∧ ∀ ts, ¬ (program size).Fails ts
  /-- So does what is repeated, and it takes a token as well. -/
  item_advances (r : Repetition) : r.item.Advances
  /-- A part that may be missing, and is, leaves the list as it was. -/
  optional_stays {α : Type} (p : Rule α) (ts : List Lexeme) (h : p.Fails ts) :
    (Rule.optional p).Reads ts none ts
  /-- A repetition reads one item after another, no more than there are tokens, and leaves
  the list as it was where the item failed. -/
  many_stays (r : Repetition) (ts : List Lexeme) : ∃ as rest,
    Reads (many r.item) ts as rest ∧ Chain r.item ts as rest ∧ r.item.Fails rest
      ∧ as.length + rest.length ≤ ts.length
  /-- No item matches without a token, so nobody has to look. -/
  many_unchecked (r : Repetition) (ts : List Lexeme) :
    many r.item ts = match r.item ts with
      | .ok a rest survived => ((many r.item rest).map (a :: ·)).remember survived
      | .fail e => .ok [] ts (some e)
  /-- Recursive descent, which has no bounds, ends in one way. -/
  descent_ends (n : Nonterminal) (ts : List Lexeme) : ∃! r, Descends (.rule n) ts r
  /-- Where it matches the rule matches and leaves the same tokens. -/
  reads_iff (n : Nonterminal) (ts rest : List Lexeme) :
    (∃ t, (ruleOf size n).Reads ts t rest) ↔ Descends (.rule n) ts (some rest)
  /-- Where it does not match the rule does not either. -/
  fails_iff (n : Nonterminal) (ts : List Lexeme) :
    (ruleOf size n).Fails ts ↔ Descends (.rule n) ts none
  /-- Expressions are read alike at all depths that are larger than the list, also with a
  bottom of another kind. -/
  expression_depth (bottom : Rule TreeShape) (depth : Nat) (ts : List Lexeme)
    (h : ts.length < depth) :
    expressionAt depth ts = expression ts ∧ expressionWith^[depth] bottom ts = expression ts
  /-- Blocks are read alike at all such depths, too. -/
  block_depth (bottom : Rule TreeShape) (depth : Nat) (ts : List Lexeme)
    (h : ts.length < depth) :
    blockAt depth ts = Grammar.block ts ∧ blockWith^[depth] bottom ts = Grammar.block ts
  /-- The rule for expressions is the one that reads expressions within expressions by
  itself. -/
  expression_unique (expr : Rule TreeShape) : expr = expressionWith expr ↔ expr = expression
  /-- The rule for blocks is the one that reads blocks within blocks by itself. -/
  block_unique (block : Rule TreeShape) : block = blockWith block ↔ block = Grammar.block

/-- **The reader always gets on.** -/
theorem reader_progresses (size : Nat) : Progresses size := by
  constructor
  case rule_advances => exact fun n hn => advances_ruleOf size hn
  case program_keeps =>
    refine ⟨(advances_item .declarations).keeps.many.bind fun _ => keeps_pure _, fun ts h => ?_⟩
    rcases fails_bind.mp h with h | ⟨_, _, -, h⟩
    · exact fails_many h
    · exact fails_pure h
  case item_advances => exact advances_item
  case optional_stays => exact fun p ts h => reads_optional.mpr (.inr ⟨rfl, rfl, h⟩)
  case many_stays =>
    intro r ts
    rcases reads_or_fails (many r.item) ts with ⟨as, rest, h⟩ | h
    · obtain ⟨hchain, hfails⟩ := (advances_item r).reads_many_iff.mp h
      exact ⟨as, rest, h, hchain, hfails, hchain.length_le (advances_item r)⟩
    · exact absurd h fails_many
  case many_unchecked =>
    intro r ts
    rw [(advances_item r).many_eq]
    cases r.item ts <;> rfl
  case descent_ends => exact existsUnique_descends
  case reads_iff => exact fun n ts rest => reads_iff_descends
  case fails_iff => exact fun n ts => fails_iff_descends
  case expression_depth =>
    exact fun bottom depth ts h => ⟨guarded_expression.depths_agree h (Nat.lt_succ_self _),
      guarded_expression.iterate_eq (fun _ => rfl) bottom h⟩
  case block_depth =>
    exact fun bottom depth ts h => ⟨guarded_block.depths_agree h (Nat.lt_succ_self _),
      guarded_block.iterate_eq (fun _ => rfl) bottom h⟩
  case expression_unique =>
    refine fun expr => ⟨guarded_expression.unique fun _ => rfl, ?_⟩
    rintro rfl
    exact expression_eq
  case block_unique =>
    refine fun block => ⟨guarded_block.unique fun _ => rfl, ?_⟩
    rintro rfl
    exact block_eq

end Grammar

end ImpFront
