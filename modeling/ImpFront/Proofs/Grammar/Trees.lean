import ImpFront.Proofs.Grammar.Derivation
import ImpFront.Proofs.Token.Spelling

/-!
# The trees that come from sources

A syntax tree can be put together by hand in any shape. A tree that comes from a
source is of a special kind: each node has the children its production leaves,
and each leaf has a text that spells its token. This module names these trees,
nonterminal by nonterminal – expressions, types, variables, code, functions,
programs – so that whoever takes a tree apart can argue by induction on how it
is built, and forget about tokens.

The passage from derivations to such trees is one induction over derivations,
done once (`Derives.leaves`): `Form.Leaves` says what a form leaves behind if
each nonterminal leaves what it should, and it remains to look at every
production once (`isTree_of_leaves`).
-/

namespace ImpFront

open Ebnf

namespace SyntaxTree

/-! ## The trees -/

/-- **A leaf** whose text spells one of several tokens. -/
inductive IsLeaf (kind : NodeKind) (tokens : List Token) : SyntaxTree → Prop
  | intro {token : Token} (span : Span) (text : String) (hmem : token ∈ tokens)
      (hspells : token.Spells text.toList) : IsLeaf kind tokens (leaf kind span text)

/-- The leaf of an identifier. -/
abbrev IsName : SyntaxTree → Prop := IsLeaf .ident [.ident]

/-- **The tree of an expression.** -/
inductive IsExpression : SyntaxTree → Prop
  | intLiteral {t : SyntaxTree} (h : IsLeaf .intLiteral [.intLiteral] t) : IsExpression t
  | boolLiteral {t : SyntaxTree}
      (h : IsLeaf .boolLiteral [.keyword .trueWord, .keyword .falseWord] t) : IsExpression t
  | location (span : Span) (text : String) {name : SyntaxTree} (hname : IsName name) :
      IsExpression ⟨.locationExpr, span, text, [name]⟩
  | callEmpty (span : Span) (text : String) {name : SyntaxTree} (hname : IsName name) :
      IsExpression ⟨.callExpr, span, text, [name]⟩
  | call (span : Span) (text : String) (listSpan : Span) (listText : String)
      {name : SyntaxTree} {args : List SyntaxTree} (hname : IsName name)
      (hargs : ∀ a ∈ args, IsExpression a) :
      IsExpression ⟨.callExpr, span, text, [name, ⟨.argList, listSpan, listText, args⟩]⟩
  | group (span : Span) (text : String) {inner : SyntaxTree} (hinner : IsExpression inner) :
      IsExpression ⟨.parenExpr, span, text, [inner]⟩
  | binary (span : Span) (text : String) (l : Level) {left operator right : SyntaxTree}
      (hleft : IsExpression left)
      (hoperator : IsLeaf .operator (l.operators.map .symbol) operator)
      (hright : IsExpression right) :
      IsExpression ⟨.binaryExpr, span, text, [left, operator, right]⟩

/-- **The tree of a type.** -/
inductive IsType : SyntaxTree → Prop
  | int (span : Span) (text : String) {word : SyntaxTree}
      (h : IsLeaf .intKeyword [.keyword .int] word) : IsType ⟨.type, span, text, [word]⟩
  | bool (span : Span) (text : String) {word : SyntaxTree}
      (h : IsLeaf .boolKeyword [.keyword .bool] word) : IsType ⟨.type, span, text, [word]⟩
  | void (span : Span) (text : String) {word : SyntaxTree}
      (h : IsLeaf .voidKeyword [.keyword .void] word) : IsType ⟨.type, span, text, [word]⟩

/-- **The tree of a variable**, with an initializer or without. -/
inductive IsVariable : SyntaxTree → Prop
  | plain (span : Span) (text : String) {type name : SyntaxTree} (htype : IsType type)
      (hname : IsName name) : IsVariable ⟨.varDecl, span, text, [type, name]⟩
  | initialized (span : Span) (text : String) {type name value : SyntaxTree}
      (htype : IsType type) (hname : IsName name) (hvalue : IsExpression value) :
      IsVariable ⟨.varDecl, span, text, [type, name, value]⟩

/-- The parts that code is made of. -/
inductive CodeRole
  | statement | elseIf | elseClause | block | item

/-- **The tree of a piece of code**: a statement, a clause of one, a block or an
item of a block. -/
inductive IsCode : CodeRole → SyntaxTree → Prop
  | assign (span : Span) (text : String) {name value : SyntaxTree} (hname : IsName name)
      (hvalue : IsExpression value) :
      IsCode .statement ⟨.assignStmt, span, text, [name, value]⟩
  | ifStmt (span : Span) (text : String) {cond body : SyntaxTree} {clauses : List SyntaxTree}
      (last : Option SyntaxTree) (hcond : IsExpression cond) (hbody : IsCode .block body)
      (hclauses : ∀ c ∈ clauses, IsCode .elseIf c) (hlast : ∀ c ∈ last, IsCode .elseClause c) :
      IsCode .statement ⟨.ifStmt, span, text, cond :: body :: (clauses ++ last.toList)⟩
  | whileStmt (span : Span) (text : String) {cond body : SyntaxTree}
      (hcond : IsExpression cond) (hbody : IsCode .block body) :
      IsCode .statement ⟨.whileStmt, span, text, [cond, body]⟩
  | returnVoid (span : Span) (text : String) :
      IsCode .statement ⟨.returnStmt, span, text, []⟩
  | returnValue (span : Span) (text : String) {value : SyntaxTree}
      (hvalue : IsExpression value) : IsCode .statement ⟨.returnStmt, span, text, [value]⟩
  | breakStmt (span : Span) (text : String) : IsCode .statement ⟨.breakStmt, span, text, []⟩
  | continueStmt (span : Span) (text : String) :
      IsCode .statement ⟨.continueStmt, span, text, []⟩
  | elseIf (span : Span) (text : String) {cond body : SyntaxTree} (hcond : IsExpression cond)
      (hbody : IsCode .block body) : IsCode .elseIf ⟨.elseIfClause, span, text, [cond, body]⟩
  | elseClause (span : Span) (text : String) {body : SyntaxTree} (hbody : IsCode .block body) :
      IsCode .elseClause ⟨.elseClause, span, text, [body]⟩
  | block (span : Span) (text : String) {items : List SyntaxTree}
      (hitems : ∀ i ∈ items, IsCode .item i) : IsCode .block ⟨.block, span, text, items⟩
  | variableItem {t : SyntaxTree} (h : IsVariable t) : IsCode .item t
  | statementItem {t : SyntaxTree} (h : IsCode .statement t) : IsCode .item t

/-- The tree of a parameter. -/
inductive IsParam : SyntaxTree → Prop
  | intro (span : Span) (text : String) {type name : SyntaxTree} (htype : IsType type)
      (hname : IsName name) : IsParam ⟨.param, span, text, [type, name]⟩

/-- A node around trees of one sort. -/
inductive IsListOf (kind : NodeKind) (p : SyntaxTree → Prop) : SyntaxTree → Prop
  | intro (span : Span) (text : String) {ts : List SyntaxTree} (hts : ∀ t ∈ ts, p t) :
      IsListOf kind p ⟨kind, span, text, ts⟩

/-- **The tree of a function**, with parameters or without. -/
inductive IsFunction : SyntaxTree → Prop
  | intro (span : Span) (text : String) {type name body : SyntaxTree}
      (params : Option SyntaxTree) (htype : IsType type) (hname : IsName name)
      (hparams : ∀ l ∈ params, IsListOf .paramList IsParam l) (hbody : IsCode .block body) :
      IsFunction ⟨.funcDecl, span, text, type :: name :: (params.toList ++ [body])⟩

/-- A declaration at the top of a program. -/
def IsDeclaration (t : SyntaxTree) : Prop := IsVariable t ∨ IsFunction t

/-! ## Their kinds -/

theorem IsLeaf.kind_eq {kind : NodeKind} {tokens : List Token} {t : SyntaxTree}
    (h : IsLeaf kind tokens t) : t.kind = kind := by
  obtain ⟨span, text, -, -⟩ := h
  rfl

theorem IsExpression.isExpression_kind {t : SyntaxTree} (h : IsExpression t) :
    t.kind.isExpression = true := by
  cases h with
  | intLiteral h =>
    rw [h.kind_eq]
    rfl
  | boolLiteral h =>
    rw [h.kind_eq]
    rfl
  | location => rfl
  | callEmpty => rfl
  | call => rfl
  | group => rfl
  | binary => rfl

theorem IsType.kind_eq {t : SyntaxTree} (h : IsType t) : t.kind = .type := by
  cases h <;> rfl

theorem IsVariable.kind_eq {t : SyntaxTree} (h : IsVariable t) : t.kind = .varDecl := by
  cases h <;> rfl

theorem IsFunction.kind_eq {t : SyntaxTree} (h : IsFunction t) : t.kind = .funcDecl := by
  cases h
  rfl

theorem IsListOf.kind_eq {kind : NodeKind} {p : SyntaxTree → Prop} {t : SyntaxTree}
    (h : IsListOf kind p t) : t.kind = kind := by
  cases h
  rfl

theorem IsCode.kind_block {t : SyntaxTree} (h : IsCode .block t) : t.kind = .block := by
  cases h
  rfl

theorem IsCode.kind_elseIf {t : SyntaxTree} (h : IsCode .elseIf t) :
    t.kind = .elseIfClause := by
  cases h
  rfl

theorem IsCode.isStatement_kind {t : SyntaxTree} (h : IsCode .statement t) :
    t.kind.isStatement = true := by
  cases h <;> rfl

end SyntaxTree

open SyntaxTree

/-- **The trees of a nonterminal.** -/
def Ebnf.Nonterminal.IsTree : Nonterminal → SyntaxTree → Prop
  | .program => IsListOf .program IsDeclaration
  | .varDecl => IsVariable
  | .funcDecl => IsFunction
  | .paramList => IsListOf .paramList IsParam
  | .param => IsParam
  | .type => IsType
  | .block => IsCode .block
  | .elseIf => IsCode .elseIf
  | .elseClause => IsCode .elseClause
  | .statement | .assign | .ifStmt | .whileStmt | .returnStmt | .breakStmt | .continueStmt =>
    IsCode .statement
  | .argList => IsListOf .argList IsExpression
  | .expr | .level _ | .atom | .call | .location | .group => IsExpression

namespace Ebnf

/-! ## What forms leave -/

variable {source : List Char}

/-- The parts are one tree, and it is one of the nonterminal. -/
def Nonterminal.Leaves (source : List Char) (n : Nonterminal) (parts : List TreeShape) : Prop :=
  ∃ s, parts = [s] ∧ n.IsTree (ofShape source s)

/-- **What a form leaves**, if every nonterminal leaves one of its trees. -/
def Form.Leaves (source : List Char) : Form → List TreeShape → Prop
  | .nothing, parts => parts = []
  | .token _, parts => parts = []
  | .leaf kind tokens, parts =>
    ∃ s : TreeShape, parts = [s] ∧ IsLeaf kind tokens (ofShape source s)
  | .rule n, parts => n.Leaves source parts
  | .sequence f g, parts =>
    ∃ firsts seconds, parts = firsts ++ seconds ∧ f.Leaves source firsts
      ∧ g.Leaves source seconds
  | .choice f g, parts => f.Leaves source parts ∨ g.Leaves source parts
  | .repeated f, parts =>
    ∃ items : List (List TreeShape), parts = items.flatten ∧ ∀ i ∈ items, f.Leaves source i

variable {f g : Form} {parts : List TreeShape}

@[simp] theorem leaves_rule {n : Nonterminal} :
    (Form.rule n).Leaves source parts ↔ ∃ s, parts = [s] ∧ n.IsTree (ofShape source s) := Iff.rfl

@[simp] theorem leaves_leaf {kind : NodeKind} {tokens : List Token} :
    (Form.leaf kind tokens).Leaves source parts
      ↔ ∃ s, parts = [s] ∧ IsLeaf kind tokens (ofShape source s) := Iff.rfl

@[simp] theorem leaves_ident :
    Form.ident.Leaves source parts ↔ ∃ s, parts = [s] ∧ IsName (ofShape source s) := Iff.rfl

@[simp] theorem leaves_word {k : Keyword} :
    (Form.word k).Leaves source parts ↔ parts = [] := Iff.rfl

@[simp] theorem leaves_mark {s : Symbol} :
    (Form.mark s).Leaves source parts ↔ parts = [] := Iff.rfl

@[simp] theorem leaves_append :
    (f ++ g).Leaves source parts
      ↔ ∃ firsts seconds, parts = firsts ++ seconds ∧ f.Leaves source firsts
          ∧ g.Leaves source seconds := Iff.rfl

@[simp] theorem leaves_orElse :
    (f <|> g).Leaves source parts ↔ f.Leaves source parts ∨ g.Leaves source parts := Iff.rfl

@[simp] theorem leaves_optional :
    f.optional.Leaves source parts ↔ f.Leaves source parts ∨ parts = [] := Iff.rfl

@[simp] theorem leaves_repeated :
    (Form.repeated f).Leaves source parts
      ↔ ∃ items : List (List TreeShape), parts = items.flatten
          ∧ ∀ i ∈ items, f.Leaves source i := Iff.rfl

/-- A repetition of single trees leaves trees of their sort. -/
theorem forall_mem_of_repeated {p : SyntaxTree → Prop}
    (hf : ∀ i, f.Leaves source i → ∃ s, i = [s] ∧ p (ofShape source s))
    (h : (Form.repeated f).Leaves source parts) :
    ∀ t ∈ parts.map (ofShape source), p t := by
  obtain ⟨items, rfl, hitems⟩ := leaves_repeated.mp h
  intro t ht
  obtain ⟨s, hs, rfl⟩ := List.mem_map.mp ht
  obtain ⟨i, hi, hs⟩ := List.mem_flatten.mp hs
  obtain ⟨s', rfl, hs'⟩ := hf i (hitems i hi)
  rw [List.mem_singleton.mp hs]
  exact hs'

/-- **A list with commas** leaves the trees in it. -/
theorem forall_mem_of_commaList {n : Nonterminal}
    (h : (Form.rule n ++ .repeated (.mark .comma ++ .rule n)).Leaves source parts) :
    ∀ t ∈ parts.map (ofShape source), n.IsTree t := by
  obtain ⟨_, others, rfl, ⟨first, rfl, hfirst⟩, hothers⟩ := leaves_append.mp h
  rw [List.map_append, List.forall_mem_append]
  refine ⟨by simpa using hfirst, forall_mem_of_repeated ?_ hothers⟩
  rintro i ⟨_, _, rfl, rfl, s, rfl, hs⟩
  exact ⟨s, rfl, hs⟩

/-- What may be missing leaves a tree or none. -/
theorem exists_of_optional {n : Nonterminal} (h : (Form.rule n).optional.Leaves source parts) :
    ∃ o : Option SyntaxTree, parts.map (ofShape source) = o.toList ∧ ∀ t ∈ o, n.IsTree t := by
  rcases h with ⟨s, rfl, hs⟩ | rfl
  · refine ⟨some (ofShape source s), rfl, ?_⟩
    rintro t ⟨⟩
    exact hs
  · exact ⟨none, rfl, by simp⟩

/-- **A condition in parentheses and a block** are all that is left where they stand behind
words. -/
theorem exists_of_guarded {words : Form} (hwords : ∀ {ps}, words.Leaves source ps → ps = [])
    (h : (words ++ .mark .openParen ++ .rule .expr ++ .mark .closeParen ++ .rule .block).Leaves
      source parts) :
    ∃ cond body, parts = [cond, body] ∧ IsExpression (ofShape source cond)
      ∧ IsCode .block (ofShape source body) := by
  simp only [leaves_append, leaves_rule, leaves_mark] at h
  obtain ⟨_, _, rfl, ⟨_, _, rfl, ⟨_, _, rfl, ⟨_, _, rfl, hnothing, rfl⟩, cond, rfl, hcond⟩, rfl⟩,
    body, rfl, hbody⟩ := h
  obtain rfl := hwords hnothing
  exact ⟨cond, body, rfl, hcond, hbody⟩

/-- **Nested operations are expressions**, if their operands are. -/
theorem isExpression_nestLeft (l : Level) {left : TreeShape} {items : List (List TreeShape)}
    (hleft : IsExpression (ofShape source left))
    (hitems : ∀ i ∈ items, ∃ op right, i = [op, right]
      ∧ IsLeaf .operator (l.operators.map .symbol) (ofShape source op)
      ∧ IsExpression (ofShape source right)) :
    IsExpression (ofShape source (nestLeft left items.flatten)) := by
  induction items generalizing left with
  | nil => exact hleft
  | cons i items ih =>
    obtain ⟨op, right, rfl, hop, hright⟩ := hitems _ List.mem_cons_self
    refine ih ?_ fun i hi => hitems i (List.mem_cons_of_mem _ hi)
    simp only [TreeShape.binary, TreeShape.spanning, ofShape, ofShapes]
    exact .binary _ _ l hleft hop hright

/-- A node is a tree of its nonterminal if its children are as they should be. -/
theorem leaves_node {n : Nonterminal} {kind : NodeKind} {size : Nat} {us : List Lexeme}
    (hn : n.nodeKind? = some kind)
    (h : ∀ span text, n.IsTree ⟨kind, span, text, parts.map (ofShape source)⟩) :
    n.Leaves source (n.assemble size us parts) := by
  refine ⟨⟨kind, extent size us, parts⟩, ?_, ?_⟩
  · simp only [Nonterminal.assemble, hn]
  · rw [ofShape, ofShapes_eq_map]
    exact h _ _

theorem leaves_varDecl (size : Nat) (us : List Lexeme)
    (h : (production .varDecl).Leaves source parts) :
    Nonterminal.varDecl.Leaves source (Nonterminal.varDecl.assemble size us parts) := by
  simp only [production, leaves_append, leaves_rule, leaves_ident, leaves_optional,
    leaves_mark] at h
  obtain ⟨_, _, rfl, ⟨_, _, rfl, ⟨_, _, rfl, ⟨type, rfl, htype⟩, name, rfl, hname⟩, hvalue⟩,
    rfl⟩ := h
  rcases hvalue with ⟨_, _, rfl, rfl, value, rfl, hvalue⟩ | rfl
  · exact leaves_node rfl fun span text => .initialized span text htype hname hvalue
  · exact leaves_node rfl fun span text => .plain span text htype hname

theorem leaves_funcDecl (size : Nat) (us : List Lexeme)
    (h : (production .funcDecl).Leaves source parts) :
    Nonterminal.funcDecl.Leaves source (Nonterminal.funcDecl.assemble size us parts) := by
  obtain ⟨_, _, rfl, ⟨_, _, rfl, ⟨_, list, rfl, ⟨_, _, rfl, ⟨_, _, rfl, ⟨type, rfl, htype⟩, name,
    rfl, hname⟩, rfl⟩, hlist⟩, rfl⟩, body, rfl, hbody⟩ := leaves_append.mp h
  obtain ⟨params, hmap, hparams⟩ := exists_of_optional hlist
  refine leaves_node rfl fun span text => ?_
  simp only [List.append_nil, List.append_assoc, List.map_append, hmap]
  exact .intro span text params htype hname hparams hbody

theorem leaves_block (size : Nat) (us : List Lexeme)
    (h : (production .block).Leaves source parts) :
    Nonterminal.block.Leaves source (Nonterminal.block.assemble size us parts) := by
  obtain ⟨_, _, rfl, ⟨_, items, rfl, rfl, hitems⟩, rfl⟩ := leaves_append.mp h
  refine leaves_node rfl fun span text => ?_
  rw [List.nil_append, List.append_nil]
  refine .block span text (forall_mem_of_repeated ?_ hitems)
  rintro i (⟨s, rfl, hs⟩ | ⟨s, rfl, hs⟩)
  · exact ⟨s, rfl, .variableItem hs⟩
  · exact ⟨s, rfl, .statementItem hs⟩

theorem leaves_ifStmt (size : Nat) (us : List Lexeme)
    (h : (production .ifStmt).Leaves source parts) :
    Nonterminal.ifStmt.Leaves source (Nonterminal.ifStmt.assemble size us parts) := by
  obtain ⟨_, last, rfl, ⟨_, clauses, rfl, hguarded, hclauses⟩, hlast⟩ := leaves_append.mp h
  obtain ⟨cond, body, rfl, hcond, hbody⟩ := exists_of_guarded leaves_word.mp hguarded
  have helseIfs := forall_mem_of_repeated (f := .rule .elseIf) (fun _ hi => hi) hclauses
  obtain ⟨lastTree, hmap, hlasts⟩ := exists_of_optional hlast
  refine leaves_node rfl fun span text => ?_
  rw [List.map_append, List.map_append, hmap]
  exact .ifStmt span text lastTree hcond hbody helseIfs hlasts

theorem leaves_call (size : Nat) (us : List Lexeme)
    (h : (production .call).Leaves source parts) :
    Nonterminal.call.Leaves source (Nonterminal.call.assemble size us parts) := by
  obtain ⟨_, _, rfl, ⟨_, args, rfl, ⟨_, _, rfl, ⟨name, rfl, hname⟩, rfl⟩, hargs⟩, rfl⟩ :=
    leaves_append.mp h
  obtain ⟨list, hmap, hlist⟩ := exists_of_optional hargs
  refine leaves_node rfl fun span text => ?_
  simp only [List.append_nil, List.map_append, hmap]
  cases list with
  | none => exact .callEmpty span text hname
  | some list =>
    obtain ⟨listSpan, listText, hargs⟩ := hlist list rfl
    exact .call span text listSpan listText hname hargs

theorem leaves_level (size : Nat) (us : List Lexeme) (l : Level)
    (h : (production (.level l)).Leaves source parts) :
    (Nonterminal.level l).Leaves source ((Nonterminal.level l).assemble size us parts) := by
  obtain ⟨_, _, rfl, ⟨first, rfl, hfirst⟩, items, rfl, hitems⟩ := leaves_append.mp h
  refine ⟨nestLeft first items.flatten, rfl, isExpression_nestLeft l ?_ ?_⟩
  · cases l <;> exact hfirst
  · intro i hi
    obtain ⟨_, _, rfl, ⟨op, rfl, hop⟩, right, rfl, hright⟩ := hitems i hi
    refine ⟨op, right, rfl, hop, ?_⟩
    cases l <;> exact hright

/-- **Each production makes trees of its nonterminal** from trees of the
nonterminals in it. -/
theorem leaves_assemble (size : Nat) (us : List Lexeme) (n : Nonterminal)
    (h : (production n).Leaves source parts) : n.Leaves source (n.assemble size us parts) := by
  cases n with
  | program =>
    refine leaves_node rfl fun span text => .intro span text (forall_mem_of_repeated ?_ h)
    rintro i (⟨s, rfl, hs⟩ | ⟨s, rfl, hs⟩)
    · exact ⟨s, rfl, .inl hs⟩
    · exact ⟨s, rfl, .inr hs⟩
  | varDecl => exact leaves_varDecl size us h
  | funcDecl => exact leaves_funcDecl size us h
  | paramList =>
    exact leaves_node rfl fun span text => .intro span text (forall_mem_of_commaList h)
  | param =>
    obtain ⟨_, _, rfl, ⟨type, rfl, htype⟩, name, rfl, hname⟩ := leaves_append.mp h
    exact leaves_node rfl fun span text => .intro span text htype hname
  | type =>
    rcases h with ⟨word, rfl, hword⟩ | ⟨word, rfl, hword⟩ | ⟨word, rfl, hword⟩
    · exact leaves_node rfl fun span text => .int span text hword
    · exact leaves_node rfl fun span text => .bool span text hword
    · exact leaves_node rfl fun span text => .void span text hword
  | block => exact leaves_block size us h
  | statement => rcases h with h | h | h | h | h | h <;> exact h
  | assign =>
    obtain ⟨_, _, rfl, ⟨_, _, rfl, ⟨_, _, rfl, ⟨name, rfl, hname⟩, rfl⟩, value, rfl, hvalue⟩,
      rfl⟩ := leaves_append.mp h
    exact leaves_node rfl fun span text => .assign span text hname hvalue
  | ifStmt => exact leaves_ifStmt size us h
  | elseIf =>
    obtain ⟨cond, body, rfl, hcond, hbody⟩ := exists_of_guarded (by
      rintro ps ⟨_, _, rfl, rfl, rfl⟩
      rfl) h
    exact leaves_node rfl fun span text => .elseIf span text hcond hbody
  | elseClause =>
    obtain ⟨_, _, rfl, rfl, body, rfl, hbody⟩ := leaves_append.mp h
    exact leaves_node rfl fun span text => .elseClause span text hbody
  | whileStmt =>
    obtain ⟨cond, body, rfl, hcond, hbody⟩ := exists_of_guarded leaves_word.mp h
    exact leaves_node rfl fun span text => .whileStmt span text hcond hbody
  | returnStmt =>
    obtain ⟨_, _, rfl, ⟨_, _, rfl, rfl, ⟨value, rfl, hvalue⟩ | rfl⟩, rfl⟩ := leaves_append.mp h
    · exact leaves_node rfl fun span text => .returnValue span text hvalue
    · exact leaves_node rfl fun span text => .returnVoid span text
  | breakStmt =>
    obtain ⟨_, _, rfl, rfl, rfl⟩ := leaves_append.mp h
    exact leaves_node rfl fun span text => .breakStmt span text
  | continueStmt =>
    obtain ⟨_, _, rfl, rfl, rfl⟩ := leaves_append.mp h
    exact leaves_node rfl fun span text => .continueStmt span text
  | expr => exact h
  | level l => exact leaves_level size us l h
  | atom =>
    rcases h with ⟨s, rfl, hs⟩ | ⟨s, rfl, hs⟩ | h | h | h
    · exact ⟨s, rfl, .intLiteral hs⟩
    · exact ⟨s, rfl, .boolLiteral hs⟩
    · exact h
    · exact h
    · exact h
  | call => exact leaves_call size us h
  | argList =>
    exact leaves_node rfl fun span text => .intro span text (forall_mem_of_commaList h)
  | location =>
    obtain ⟨name, rfl, hname⟩ := leaves_ident.mp h
    exact leaves_node rfl fun span text => .location span text hname
  | group =>
    obtain ⟨_, _, rfl, ⟨_, _, rfl, rfl, inner, rfl, hinner⟩, rfl⟩ := leaves_append.mp h
    exact leaves_node rfl fun span text => .group span text hinner

/-- **What a form derives from spelled tokens is what it leaves**, so the trees
of a nonterminal are all that it derives. -/
theorem Derives.leaves {size : Nat} {ts : List Lexeme} (h : Derives size f ts parts)
    (hts : ∀ l ∈ ts, l.token.Spells (slice source l.span)) : f.Leaves source parts := by
  induction h with
  | nothing => rfl
  | token t span => rfl
  | leaf kind span ht =>
    refine ⟨_, rfl, ?_⟩
    rw [ofShape, ofShapes]
    refine .intro span _ ht ?_
    rw [String.toList_ofList]
    exact hts _ (List.mem_singleton_self _)
  | rule n _ ih => exact leaves_assemble size _ n (ih hts)
  | sequence _ _ ihf ihg =>
    exact ⟨_, _, rfl, ihf fun l hl => hts l (List.mem_append_left _ hl),
      ihg fun l hl => hts l (List.mem_append_right _ hl)⟩
  | left g _ ih => exact .inl (ih hts)
  | right f _ ih => exact .inr (ih hts)
  | done f => exact ⟨[], rfl, by simp⟩
  | again _ _ ihf ihfs =>
    obtain ⟨items, rfl, hitems⟩ := ihfs fun l hl => hts l (List.mem_append_right _ hl)
    refine ⟨_ :: items, rfl, List.forall_mem_cons.mpr ⟨?_, hitems⟩⟩
    exact ihf fun l hl => hts l (List.mem_append_left _ hl)

end Ebnf

end ImpFront
