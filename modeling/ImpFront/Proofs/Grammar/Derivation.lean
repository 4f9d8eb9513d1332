import ImpFront.Grammar.Expression
import Mathlib.Data.List.Basic
import Mathlib.Tactic.Common

/-!
# The grammar, and what it derives

The reader of the language is a set of recursive rules with ordered choices and
greedy repetitions. This module says which language they are meant to read: a
context-free grammar in extended form, one `production` for each nonterminal,
written down as data and free of any order of trying.

`Derives` is what such a grammar means. A form derives a list of tokens, and
the derivation leaves **parts** behind: a token that is kept leaves a leaf, a
token that is not leaves nothing, and a nonterminal wraps what its production
left in one node – or passes it on, where the nonterminal only groups
alternatives, or nests it to the left, where it is a level of binary operators
(`Nonterminal.assemble`). So a derivation is a derivation *of a tree*.

Spans come in at one place only: a node reaches from the start of its first
token to the stop of its last one (`extent`). A program without tokens has
neither and stands at the end of the source, which is why the size of the
source is a parameter of everything here.
-/

namespace ImpFront.Ebnf

/-! ## The grammar as data -/

/-- **The levels of binary operators**, from the loosest to the tightest. -/
inductive Level
  | or | and | equality | relational | additive | term
  deriving DecidableEq

/-- **The nonterminals.** The nameless parts of a production that have a node
of their own – the clauses of a conditional, the kinds of atoms – count as
nonterminals. -/
inductive Nonterminal
  | program | varDecl | funcDecl | paramList | param | type | block
  | statement | assign | ifStmt | elseIf | elseClause | whileStmt
  | returnStmt | breakStmt | continueStmt
  | expr | level (l : Level) | atom | call | argList | location | group
  deriving DecidableEq

/-- **The right-hand sides of productions.** -/
inductive Form
  /-- No tokens. -/
  | nothing
  /-- A token that leaves no part. -/
  | token (t : Token)
  /-- One of several tokens, which becomes a leaf. -/
  | leaf (kind : NodeKind) (tokens : List Token)
  /-- What a nonterminal stands for. -/
  | rule (n : Nonterminal)
  /-- One form after another. -/
  | sequence (first second : Form)
  /-- Either of two forms. -/
  | choice (left right : Form)
  /-- Any number of times, none included. -/
  | repeated (item : Form)

namespace Form

instance : Append Form := ⟨sequence⟩

instance : OrElse Form := ⟨fun left right => choice left (right ())⟩

/-- A form that may be missing. -/
def optional (f : Form) : Form := f <|> nothing

/-- A keyword that leaves no part. -/
def word (k : Keyword) : Form := token (.keyword k)

/-- A symbol that leaves no part. -/
def mark (s : Symbol) : Form := token (.symbol s)

/-- An identifier. -/
def ident : Form := leaf .ident [.ident]

/-- An operator out of several. -/
def operator (symbols : List Symbol) : Form := leaf .operator (symbols.map .symbol)

end Form

/-- The operators of a level. -/
def Level.operators : Level → List Symbol
  | .or => [.orOr]
  | .and => [.andAnd]
  | .equality => [.equalEqual, .notEqual]
  | .relational => [.less, .lessEqual, .greater, .greaterEqual]
  | .additive => [.plus, .minus]
  | .term => [.star, .slash, .percent]

/-- What the operators of a level stand between. -/
def Level.operand : Level → Nonterminal
  | .or => .level .and
  | .and => .level .equality
  | .equality => .level .relational
  | .relational => .level .additive
  | .additive => .level .term
  | .term => .atom

open Form in
/-- **The productions of the language.** -/
def production : Nonterminal → Form
  | .program => repeated (rule .varDecl <|> rule .funcDecl)
  | .varDecl =>
    rule .type ++ ident ++ optional (mark .assign ++ rule .expr) ++ mark .semicolon
  | .funcDecl =>
    rule .type ++ ident ++ mark .openParen ++ optional (rule .paramList)
      ++ mark .closeParen ++ rule .block
  | .paramList => rule .param ++ repeated (mark .comma ++ rule .param)
  | .param => rule .type ++ ident
  | .type =>
    leaf .intKeyword [.keyword .int] <|> leaf .boolKeyword [.keyword .bool]
      <|> leaf .voidKeyword [.keyword .void]
  | .block =>
    mark .openBrace ++ repeated (rule .varDecl <|> rule .statement) ++ mark .closeBrace
  | .statement =>
    rule .assign <|> rule .ifStmt <|> rule .whileStmt <|> rule .returnStmt
      <|> rule .breakStmt <|> rule .continueStmt
  | .assign => ident ++ mark .assign ++ rule .expr ++ mark .semicolon
  | .ifStmt =>
    word .ifWord ++ mark .openParen ++ rule .expr ++ mark .closeParen ++ rule .block
      ++ repeated (rule .elseIf) ++ optional (rule .elseClause)
  | .elseIf =>
    word .elseWord ++ word .ifWord ++ mark .openParen ++ rule .expr ++ mark .closeParen
      ++ rule .block
  | .elseClause => word .elseWord ++ rule .block
  | .whileStmt =>
    word .whileWord ++ mark .openParen ++ rule .expr ++ mark .closeParen ++ rule .block
  | .returnStmt => word .returnWord ++ optional (rule .expr) ++ mark .semicolon
  | .breakStmt => word .breakWord ++ mark .semicolon
  | .continueStmt => word .continueWord ++ mark .semicolon
  | .expr => rule (.level .or)
  | .level l => rule l.operand ++ repeated (operator l.operators ++ rule l.operand)
  | .atom =>
    leaf .intLiteral [.intLiteral]
      <|> leaf .boolLiteral [.keyword .trueWord, .keyword .falseWord]
      <|> rule .call <|> rule .location <|> rule .group
  | .call => ident ++ mark .openParen ++ optional (rule .argList) ++ mark .closeParen
  | .argList => rule .expr ++ repeated (mark .comma ++ rule .expr)
  | .location => ident
  | .group => mark .openParen ++ rule .expr ++ mark .closeParen

/-! ## The parts that a nonterminal leaves -/

/-- The kind of the node that a nonterminal makes, if it makes one itself. -/
def Nonterminal.nodeKind? : Nonterminal → Option NodeKind
  | .program => some .program
  | .varDecl => some .varDecl
  | .funcDecl => some .funcDecl
  | .paramList => some .paramList
  | .param => some .param
  | .type => some .type
  | .block => some .block
  | .assign => some .assignStmt
  | .ifStmt => some .ifStmt
  | .elseIf => some .elseIfClause
  | .elseClause => some .elseClause
  | .whileStmt => some .whileStmt
  | .returnStmt => some .returnStmt
  | .breakStmt => some .breakStmt
  | .continueStmt => some .continueStmt
  | .call => some .callExpr
  | .argList => some .argList
  | .location => some .locationExpr
  | .group => some .parenExpr
  | .statement | .expr | .level _ | .atom => none

/-- **The span of several tokens**: from the start of the first to the stop of
the last. No tokens stand at the end of the source. -/
def extent (size : Nat) (ts : List Lexeme) : Span :=
  match ts.head?, ts.getLast? with
  | some first, some last => first.span.join last.span
  | _, _ => .emptyAt size

/-- Operands and operators in turn, grouped to the left. -/
def nestLeft (left : TreeShape) : List TreeShape → TreeShape
  | operator :: right :: more => nestLeft (.binary left operator right) more
  | _ => left

/-- **What a nonterminal makes of the parts of its production**: a node around
them, a nest of binary operations, or just the same parts. -/
def Nonterminal.assemble (size : Nat) (n : Nonterminal) (ts : List Lexeme)
    (parts : List TreeShape) : List TreeShape :=
  match n.nodeKind? with
  | some kind => [⟨kind, extent size ts, parts⟩]
  | none =>
    match n, parts with
    | .level _, first :: others => [nestLeft first others]
    | _, _ => parts

/-- **What the grammar derives**: the form matches all of the tokens and leaves
the parts. -/
inductive Derives (size : Nat) : Form → List Lexeme → List TreeShape → Prop
  | nothing : Derives size .nothing [] []
  | token (t : Token) (span : Span) : Derives size (.token t) [⟨t, span⟩] []
  | leaf (kind : NodeKind) {tokens : List Token} {t : Token} (span : Span)
      (ht : t ∈ tokens) : Derives size (.leaf kind tokens) [⟨t, span⟩] [⟨kind, span, []⟩]
  | rule (n : Nonterminal) {ts : List Lexeme} {parts : List TreeShape}
      (h : Derives size (production n) ts parts) :
      Derives size (.rule n) ts (n.assemble size ts parts)
  | sequence {f g : Form} {ts us : List Lexeme} {parts others : List TreeShape}
      (hf : Derives size f ts parts) (hg : Derives size g us others) :
      Derives size (f ++ g) (ts ++ us) (parts ++ others)
  | left {f : Form} (g : Form) {ts : List Lexeme} {parts : List TreeShape}
      (hf : Derives size f ts parts) : Derives size (f <|> g) ts parts
  | right (f : Form) {g : Form} {ts : List Lexeme} {parts : List TreeShape}
      (hg : Derives size g ts parts) : Derives size (f <|> g) ts parts
  | done (f : Form) : Derives size (.repeated f) [] []
  | again {f : Form} {ts us : List Lexeme} {parts others : List TreeShape}
      (hf : Derives size f ts parts) (hfs : Derives size (.repeated f) us others) :
      Derives size (.repeated f) (ts ++ us) (parts ++ others)

namespace Derives

variable {size : Nat}

theorem word (k : Keyword) (span : Span) :
    Derives size (.word k) [⟨.keyword k, span⟩] [] := .token _ span

theorem mark (s : Symbol) (span : Span) :
    Derives size (.mark s) [⟨.symbol s, span⟩] [] := .token _ span

theorem only (kind : NodeKind) (t : Token) (span : Span) :
    Derives size (.leaf kind [t]) [⟨t, span⟩] [⟨kind, span, []⟩] :=
  .leaf kind span (List.mem_singleton_self t)

theorem ident (span : Span) :
    Derives size .ident [⟨.ident, span⟩] [⟨.ident, span, []⟩] := .only _ _ span

theorem operator {symbols : List Symbol} {s : Symbol} (span : Span) (hs : s ∈ symbols) :
    Derives size (.operator symbols) [⟨.symbol s, span⟩] [⟨.operator, span, []⟩] :=
  .leaf .operator span (List.mem_map_of_mem hs)

theorem present {f : Form} {ts : List Lexeme} {parts : List TreeShape}
    (h : Derives size f ts parts) : Derives size f.optional ts parts := .left _ h

theorem absent (f : Form) : Derives size f.optional [] [] := .right f .nothing

end Derives

/-! ## One equation per form -/

variable {size : Nat} {f g : Form} {ts us : List Lexeme} {parts : List TreeShape}

@[simp] theorem derives_nothing :
    Derives size .nothing ts parts ↔ ts = [] ∧ parts = [] := by
  constructor
  · intro h
    cases h
    exact ⟨rfl, rfl⟩
  · rintro ⟨rfl, rfl⟩
    exact .nothing

@[simp] theorem derives_token {t : Token} :
    Derives size (.token t) ts parts ↔ ∃ span, ts = [⟨t, span⟩] ∧ parts = [] := by
  constructor
  · intro h
    cases h with
    | token _ span => exact ⟨span, rfl, rfl⟩
  · rintro ⟨span, rfl, rfl⟩
    exact .token t span

@[simp] theorem derives_word {k : Keyword} :
    Derives size (.word k) ts parts ↔ ∃ span, ts = [⟨.keyword k, span⟩] ∧ parts = [] :=
  derives_token

@[simp] theorem derives_mark {s : Symbol} :
    Derives size (.mark s) ts parts ↔ ∃ span, ts = [⟨.symbol s, span⟩] ∧ parts = [] :=
  derives_token

theorem derives_leaf {kind : NodeKind} {tokens : List Token} :
    Derives size (.leaf kind tokens) ts parts
      ↔ ∃ t ∈ tokens, ∃ span, ts = [⟨t, span⟩] ∧ parts = [⟨kind, span, []⟩] := by
  constructor
  · intro h
    cases h with
    | leaf _ span ht => exact ⟨_, ht, span, rfl, rfl⟩
  · rintro ⟨t, ht, span, rfl, rfl⟩
    exact .leaf kind span ht

@[simp] theorem derives_ident :
    Derives size .ident ts parts
      ↔ ∃ span, ts = [⟨.ident, span⟩] ∧ parts = [⟨.ident, span, []⟩] := by
  simp [Form.ident, derives_leaf]

theorem derives_rule {n : Nonterminal} :
    Derives size (.rule n) ts parts
      ↔ ∃ inner, Derives size (production n) ts inner ∧ parts = n.assemble size ts inner := by
  constructor
  · intro h
    cases h with
    | rule _ h => exact ⟨_, h, rfl⟩
  · rintro ⟨inner, h, rfl⟩
    exact .rule n h

theorem derives_append :
    Derives size (f ++ g) ts parts
      ↔ ∃ ts₁ ts₂ parts₁ parts₂, ts = ts₁ ++ ts₂ ∧ parts = parts₁ ++ parts₂
          ∧ Derives size f ts₁ parts₁ ∧ Derives size g ts₂ parts₂ := by
  constructor
  · intro h
    cases h with
    | sequence hf hg => exact ⟨_, _, _, _, rfl, rfl, hf, hg⟩
  · rintro ⟨_, _, _, _, rfl, rfl, hf, hg⟩
    exact .sequence hf hg

/-- A symbol at the end of a sequence leaves no part. -/
theorem derives_append_mark {s : Symbol} :
    Derives size (f ++ .mark s) ts parts
      ↔ ∃ us span, ts = us ++ [⟨.symbol s, span⟩] ∧ Derives size f us parts := by
  rw [derives_append]
  constructor
  · rintro ⟨us, _, parts, _, rfl, rfl, hf, hs⟩
    obtain ⟨span, rfl, rfl⟩ := derives_mark.mp hs
    exact ⟨us, span, rfl, by simpa using hf⟩
  · rintro ⟨us, span, rfl, hf⟩
    exact ⟨us, _, parts, [], rfl, by simp, hf, .mark s span⟩

theorem derives_orElse :
    Derives size (f <|> g) ts parts ↔ Derives size f ts parts ∨ Derives size g ts parts := by
  constructor
  · intro h
    cases h with
    | left _ hf => exact .inl hf
    | right _ hg => exact .inr hg
  · rintro (hf | hg)
    · exact .left g hf
    · exact .right f hg

theorem derives_optional :
    Derives size f.optional ts parts
      ↔ Derives size f ts parts ∨ ts = [] ∧ parts = [] := by
  rw [Form.optional, derives_orElse, derives_nothing]

end ImpFront.Ebnf
