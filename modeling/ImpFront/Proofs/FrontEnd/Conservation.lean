import ImpFront.Proofs.Build.WellFormed
import ImpFront.Proofs.Printing.Items
import ImpFront.Proofs.SyntaxTree.Faithful
import Mathlib.Data.List.Forall2

/-!
# No token of an expression is lost

Of parentheses and commas an expression keeps no trace. All other tokens of its source it
keeps, each once and in their order: read from left to right, an expression is the
source without its parentheses and commas (`Expression.constituents_of_parse`). In
particular it has as many nodes as the source has such tokens.

The leaves of the tree are in between. They are the tokens that leave a node, which is known
of every source (`SyntaxTree.faithful_of_parse`); and of an expression they are the
constituents, since each of its nodes takes what it finds from left to right. It
remains that in an expression only parentheses and commas leave no node, which is a
question of the grammar: in other sources semicolons and keywords do not either.
-/

namespace ImpFront

open Ebnf SyntaxTree

/-! ## What an expression is made of -/

/-- **A constituent of an expression**: what one node says, apart from the nodes below. -/
inductive Constituent
  /-- A variable, or a function that is called. -/
  | name (text : String)
  /-- An integer. -/
  | int (value : Int32)
  /-- A truth value. -/
  | bool (value : Bool)
  /-- An operator between its operands. -/
  | operator (op : Operator)
  deriving DecidableEq

namespace Expression

mutual
/-- **The constituents of an expression**, read from left to right: an operator stands
between its operands, a name in front of the arguments. -/
def constituents : Expression → List Constituent
  | .binary left op right => left.constituents ++ .operator op :: right.constituents
  | .intConstant value => [.int value]
  | .boolConstant value => [.bool value]
  | .location name => [.name name]
  | .call name args => .name name :: constituentsAll args

/-- The constituents of several expressions. -/
def constituentsAll : List Expression → List Constituent
  | [] => []
  | e :: es => e.constituents ++ constituentsAll es
end

mutual
/-- Each node is one constituent. -/
theorem length_constituents : (e : Expression) → e.constituents.length = e.nodeCount
  | .binary left op right => by
    rw [constituents, nodeCount, List.length_append, List.length_cons,
      length_constituents left, length_constituents right]
    omega
  | .intConstant value => by rw [constituents, nodeCount, List.length_singleton]
  | .boolConstant value => by rw [constituents, nodeCount, List.length_singleton]
  | .location name => by rw [constituents, nodeCount, List.length_singleton]
  | .call name args => by
    rw [constituents, nodeCount, List.length_cons, length_constituentsAll args]
    omega

theorem length_constituentsAll :
    (es : List Expression) → (constituentsAll es).length = nodeCountAll es
  | [] => by rw [constituentsAll, nodeCountAll, List.length_nil]
  | e :: es => by
    rw [constituentsAll, nodeCountAll, List.length_append, length_constituents e,
      length_constituentsAll es]
end

end Expression

/-- The keyword of a truth value. -/
def boolWord : Bool → Keyword
  | true => .trueWord
  | false => .falseWord

/-- **How a constituent is written**: as which token, with which text. An integer may have
zeros in front. -/
def Constituent.IsWritten : Constituent → Token → String → Prop
  | .name spelling, t, text => t = .ident ∧ text = spelling
  | .int value, t, text => t = .intLiteral ∧ value.toInt = Decimal.value text.toList
  | .bool value, t, text => t = .keyword (boolWord value) ∧ text = (boolWord value).spelling
  | .operator op, t, text => t = .symbol op.symbol ∧ text = op.spelling

/-- **Whether a token is a constituent** where it stands in an expression: parentheses and
commas are not. -/
def Token.isConstituent : Token → Bool
  | .symbol .openParen | .symbol .closeParen | .symbol .comma => false
  | _ => true

/-! ## Constituents as leaves -/

/-- How a constituent looks as a leaf of a tree. -/
def Constituent.IsLeaf : Constituent → SyntaxTree → Prop
  | .name spelling, l => l.kind = .ident ∧ l.text = spelling
  | .int value, l => l.kind = .intLiteral ∧ value.toInt = Decimal.value l.text.toList
  | .bool value, l => l.kind = .boolLiteral ∧ l.text = (boolWord value).spelling
  | .operator op, l => l.kind = .operator ∧ l.text = op.spelling

/-- The symbol of an operator is determined by its spelling. -/
theorem Operator.eq_symbol_of_spelling {op : Operator} {s : Symbol}
    (h : s.spelling = op.spelling) : s = op.symbol := by
  revert h
  cases op <;> cases s <;> decide

/-- The tokens that leave a leaf of a kind. -/
theorem Token.eq_of_leafKind? {t : Token} {kind : NodeKind} (h : t.leafKind? = some kind) :
    match kind with
    | .ident => t = .ident
    | .intLiteral => t = .intLiteral
    | .boolLiteral => ∃ b, t = .keyword (boolWord b)
    | .operator => ∃ s, t = .symbol s
    | _ => True := by
  cases t with
  | ident => cases h; rfl
  | intLiteral => cases h; rfl
  | keyword k =>
    cases k with
    | trueWord => cases h; exact ⟨true, rfl⟩
    | falseWord => cases h; exact ⟨false, rfl⟩
    | int | bool | void => cases h; trivial
    | _ => cases h
  | symbol s =>
    have hkind : kind = .operator := by cases s <;> cases h <;> rfl
    subst hkind
    exact ⟨s, rfl⟩

theorem boolWord_of_spelling {b b' : Bool} (h : (boolWord b).spelling = (boolWord b').spelling) :
    b = b' := by
  revert h
  cases b <;> cases b' <;> decide

/-- **The token of a leaf** is how the constituent is written. -/
theorem Constituent.IsLeaf.isWritten {c : Constituent} {l : SyntaxTree} {t : Token}
    (h : c.IsLeaf l) (hkind : t.leafKind? = some l.kind) (hspells : t.Spells l.text.toList) :
    c.IsWritten t l.text := by
  cases c with
  | name spelling =>
    obtain ⟨hname, htext⟩ := h
    rw [hname] at hkind
    exact ⟨Token.eq_of_leafKind? hkind, htext⟩
  | int value =>
    obtain ⟨hint, hvalue⟩ := h
    rw [hint] at hkind
    exact ⟨Token.eq_of_leafKind? hkind, hvalue⟩
  | bool value =>
    obtain ⟨hbool, htext⟩ := h
    rw [hbool] at hkind
    -- Of the two keywords, the text says which.
    obtain ⟨b, rfl⟩ : ∃ b, t = .keyword (boolWord b) := Token.eq_of_leafKind? hkind
    have hspelling : (boolWord b).spelling = (boolWord value).spelling := by
      rw [← htext, ← String.toList_inj, hspells]
    exact ⟨by rw [boolWord_of_spelling hspelling], htext⟩
  | operator op =>
    obtain ⟨hoperator, htext⟩ := h
    rw [hoperator] at hkind
    obtain ⟨s, rfl⟩ : ∃ s, t = .symbol s := Token.eq_of_leafKind? hkind
    have hspelling : s.spelling = op.spelling := by
      rw [← htext, ← String.toList_inj, hspells]
    exact ⟨by rw [Operator.eq_symbol_of_spelling hspelling], htext⟩

namespace SyntaxTree

variable {kind : NodeKind}

/-- A node that does not stand for a token passes on the leaves of its children. -/
theorem tokenLeaves_node (hkind : kind.isToken = false) (span : Span) (text : String)
    (cs : List SyntaxTree) :
    tokenLeaves ⟨kind, span, text, cs⟩ = cs.flatMap tokenLeaves := by
  rw [tokenLeaves, preorder, List.filter_cons_of_neg (by simp [hkind]), preorderAll_eq_flatMap,
    List.filter_flatMap]
  rfl

theorem tokenLeaves_leaf (hkind : kind.isToken = true) (span : Span) (text : String) :
    tokenLeaves (leaf kind span text) = [leaf kind span text] := by
  rw [tokenLeaves, leaf, preorder, preorderAll, List.filter_cons_of_pos (by simpa using hkind),
    List.filter_nil]

end SyntaxTree

/-! ## The leaves of an expression are its constituents -/

theorem ensures_intValue {span : Span} {text : String}
    (h : Token.Spells .intLiteral text.toList) :
    Ensures (intOfTree (leaf .intLiteral span text))
      fun n => (Constituent.int n).IsLeaf (leaf .intLiteral span text) := by
  obtain ⟨hne, hdigits⟩ := h
  have hread := Decimal.readInt32?_of_digits hne hdigits
  by_cases hsmall : Decimal.value text.toList ≤ 2147483647
  · rw [if_pos hsmall] at hread
    rw [intOfTree_of_some (t := leaf .intLiteral span text) hread]
    exact ensures_ok ⟨rfl, Int32.toInt_ofInt_of_le (by omega) (by omega)⟩
  · rw [if_neg hsmall] at hread
    rw [intOfTree_of_none (t := leaf .intLiteral span text) hread]
    exact ensures_error _

theorem ensures_boolValue (span : Span) (text : String) :
    Ensures (boolOfTree (leaf .boolLiteral span text))
      fun b => (Constituent.bool b).IsLeaf (leaf .boolLiteral span text) := by
  unfold boolOfTree
  split
  · next htrue => exact ensures_ok ⟨rfl, htrue⟩
  · split
    · next hfalse => exact ensures_ok ⟨rfl, hfalse⟩
    · exact ensures_error _

theorem Operator.spelling_of_ofSpelling? {text : String} {op : Operator}
    (h : ofSpelling? text = some op) : text = op.spelling := by
  unfold ofSpelling? at h
  split at h <;> cases h <;> rfl

theorem ensures_operator (span : Span) (text : String) :
    Ensures (Operator.ofTree (leaf .operator span text))
      fun op => (Constituent.operator op).IsLeaf (leaf .operator span text) := by
  cases hop : Operator.ofSpelling? text with
  | some op =>
    rw [Operator.ofTree_of_some rfl hop]
    exact ensures_ok ⟨rfl, Operator.spelling_of_ofSpelling? hop⟩
  | none =>
    rw [Operator.ofTree_of_none rfl hop]
    exact ensures_error _

/-- The leaves, from left to right, are the constituents. -/
def ReadsOff (leaves : List SyntaxTree) (cs : List Constituent) : Prop :=
  List.Forall₂ (fun l c => c.IsLeaf l) leaves cs

theorem SyntaxTree.IsLeaf.readsOff {name : SyntaxTree} (h : IsName name) :
    ReadsOff name.tokenLeaves [.name name.text] := by
  obtain ⟨span, text, -, -⟩ := h
  rw [tokenLeaves_leaf rfl]
  exact .cons ⟨rfl, rfl⟩ .nil

theorem ensures_readsOffAll {ts : List SyntaxTree}
    (h : ∀ t ∈ ts, Ensures (Expression.ofTree t) fun e => ReadsOff t.tokenLeaves e.constituents) :
    Ensures (Expression.ofTrees ts)
      fun es => ReadsOff (ts.flatMap tokenLeaves) (Expression.constituentsAll es) := by
  induction ts with
  | nil =>
    rw [Expression.ofTrees_nil]
    exact ensures_ok .nil
  | cons t ts ih =>
    obtain ⟨ht, hts⟩ := List.forall_mem_cons.mp h
    rw [Expression.ofTrees_cons]
    refine ht.bind fun e he => (ih hts).map fun es hes => ?_
    rw [List.flatMap_cons, Expression.constituentsAll]
    exact List.rel_append he hes

/-- **The leaves of a tree are the constituents** of the expression that it means. -/
theorem ensures_readsOff {t : SyntaxTree} (h : IsExpression t) :
    Ensures (Expression.ofTree t) fun e => ReadsOff t.tokenLeaves e.constituents := by
  induction h with
  | intLiteral h =>
    obtain ⟨span, text, hmem, hspells⟩ := h
    obtain rfl := List.mem_singleton.mp hmem
    rw [Expression.ofTree_intLiteral, tokenLeaves_leaf rfl]
    exact (ensures_intValue hspells).map fun n hn => .cons hn .nil
  | boolLiteral h =>
    obtain ⟨span, text, -, -⟩ := h
    rw [Expression.ofTree_boolLiteral, tokenLeaves_leaf rfl]
    exact (ensures_boolValue span text).map fun b hb => .cons hb .nil
  | location span text hname =>
    rw [Expression.ofTree_location hname.kind_eq, tokenLeaves_node rfl, List.flatMap_singleton]
    exact ensures_ok hname.readsOff
  | callEmpty span text hname =>
    rw [Expression.ofTree_callEmpty hname.kind_eq, tokenLeaves_node rfl, List.flatMap_singleton]
    exact ensures_ok hname.readsOff
  | call span text listSpan listText hname _ ih =>
    rw [Expression.ofTree_call hname.kind_eq, tokenLeaves_node rfl, List.flatMap_cons,
      List.flatMap_singleton, tokenLeaves_node rfl]
    exact (ensures_readsOffAll ih).map fun es hes => List.rel_append hname.readsOff hes
  | group span text hinner ih =>
    rw [Expression.ofTree_group hinner.isExpression_kind, tokenLeaves_node rfl,
      List.flatMap_singleton]
    exact ih
  | binary span text l _ hoperator _ ihleft ihright =>
    obtain ⟨opSpan, opText, -, -⟩ := hoperator
    rw [Expression.ofTree_binary, tokenLeaves_node rfl, List.flatMap_cons, List.flatMap_cons,
      List.flatMap_singleton, tokenLeaves_leaf rfl]
    refine ihleft.bind fun left hleft => ?_
    refine (ensures_operator opSpan opText).bind fun op hop => ?_
    exact ihright.map fun right hright => List.rel_append hleft (.cons hop hright)

/-! ## The tokens of an expression -/

/-- Whether the token leaves a node just if it is a constituent. -/
def Token.isAccounted (t : Token) : Bool := t.leafKind?.isSome = t.isConstituent

namespace Ebnf

/-- The nonterminals that expressions are made of. -/
def Nonterminal.isExpressive : Nonterminal → Bool
  | .expr | .level _ | .atom | .call | .argList | .location | .group => true
  | _ => false

/-- **Whether a form is one of expressions**: all its tokens are accounted for. -/
def Form.isExpressive : Form → Bool
  | .nothing => true
  | .token t => t.isAccounted
  | .leaf _ tokens => tokens.all Token.isAccounted
  | .rule n => n.isExpressive
  | .sequence f g | .choice f g => f.isExpressive && g.isExpressive
  | .repeated f => f.isExpressive

theorem isExpressive_production {n : Nonterminal} (h : n.isExpressive = true) :
    (production n).isExpressive = true := by
  cases n with
  | level l => cases l <;> rfl
  | expr => rfl
  | atom => rfl
  | call => rfl
  | argList => rfl
  | location => rfl
  | group => rfl
  | _ => cases h

/-- **All tokens of an expression are accounted for.** -/
theorem Derives.isAccounted {size : Nat} {f : Form} {ts : List Lexeme} {parts : List TreeShape}
    (h : Derives size f ts parts) (hf : f.isExpressive = true) :
    ∀ l ∈ ts, l.token.isAccounted = true := by
  induction h with
  | nothing => simp
  | token t span => exact List.forall_mem_singleton.mpr hf
  | leaf kind span ht => exact List.forall_mem_singleton.mpr (List.all_eq_true.mp hf _ ht)
  | rule n _ ih => exact ih (isExpressive_production hf)
  | sequence _ _ ihf ihg =>
    obtain ⟨hf, hg⟩ := (Bool.and_eq_true _ _).mp hf
    exact List.forall_mem_append.mpr ⟨ihf hf, ihg hg⟩
  | left g _ ih => exact ih ((Bool.and_eq_true _ _).mp hf).1
  | right f _ ih => exact ih ((Bool.and_eq_true _ _).mp hf).2
  | done => simp
  | again _ _ ihf ihfs => exact List.forall_mem_append.mpr ⟨ihf hf, ihfs hf⟩

end Ebnf

/-! ## From the source to the expression -/

/-- The text of a token. -/
def Lexeme.text (source : String) (l : Lexeme) : String :=
  String.ofList (slice source.toList l.span)

/-- **The tokens that leave a node** are the constituents. -/
theorem ReadsOff.forall₂_isWritten {source : String} {ts : List Lexeme} {cs : List Constituent}
    (h : ReadsOff (ts.filterMap (Lexeme.leaf? source.toList)) cs)
    (haccounted : ∀ l ∈ ts, l.token.isAccounted = true)
    (hspells : ∀ l ∈ ts, l.token.Spells (slice source.toList l.span)) :
    List.Forall₂ (fun l c => c.IsWritten l.token (l.text source))
      (ts.filter (·.token.isConstituent)) cs := by
  induction ts generalizing cs with
  | nil =>
    obtain rfl := List.forall₂_nil_left_iff.mp h
    exact .nil
  | cons l ts ih =>
    obtain ⟨hl, hts⟩ := List.forall_mem_cons.mp haccounted
    obtain ⟨hspell, hmore⟩ := List.forall_mem_cons.mp hspells
    have hsome : l.token.leafKind?.isSome = l.token.isConstituent := of_decide_eq_true hl
    cases hkind : l.token.leafKind? with
    | none =>
      rw [List.filterMap_cons_none (by rw [Lexeme.leaf?, hkind]; rfl)] at h
      rw [List.filter_cons_of_neg (by rw [← hsome, hkind]; decide)]
      exact ih h hts hmore
    | some kind =>
      rw [List.filterMap_cons_some (by rw [Lexeme.leaf?, hkind]; rfl)] at h
      rw [List.filter_cons_of_pos (by rw [← hsome, hkind]; rfl)]
      obtain ⟨c, cs, hc, hcs, rfl⟩ := List.forall₂_cons_left_iff.mp h
      have hspell : l.token.Spells (l.text source).toList := by
        rwa [Lexeme.text, String.toList_ofList]
      exact .cons (hc.isWritten hkind hspell) (ih hcs hts hmore)

/-- **An expression keeps every token of its source**, once and in order, parentheses and
commas apart: these tokens are how its constituents are written. So it has as many
nodes. -/
theorem Expression.constituents_of_parse (source : String) (e : Expression)
    (h : Expression.parse source = .ok e) :
    ∃ ts, tokenize source = .ok ts
      ∧ List.Forall₂ (fun l c => c.IsWritten l.token (l.text source))
          (ts.filter (·.token.isConstituent)) e.constituents
      ∧ e.nodeCount = (ts.filter (·.token.isConstituent)).length := by
  obtain ⟨tree, hparse, hbuild⟩ := readSource_eq_ok.mp h
  obtain ⟨ts, shape, htok, hder, rfl⟩ := parse_eq_ok.mp hparse
  have hts := standIn_of_tokenize htok
  obtain ⟨-, hleaves⟩ := StartSymbol.nodeOf_of_derives hts hder
  rw [leavesOf, List.flatMap_singleton] at hleaves
  have hreads : ReadsOff _ e.constituents := ensures_readsOff (isTree_of_parse hparse) e hbuild
  rw [hleaves] at hreads
  have hwritten := hreads.forall₂_isWritten (hder.isAccounted rfl) fun l hl => hts.spells hl
  exact ⟨ts, htok, hwritten, by rw [hwritten.length_eq, length_constituents]⟩

/-- Calls, parentheses, a comma in a comment, and zeros in front. -/
theorem Expression.constituents_of_parse_call :
    let source := "f((007 - (truth)), g(/* , */), true)"
    let e : Expression := .call "f" [.binary (.intConstant 7) .sub (.location "truth"),
      .call "g" [], .boolConstant true]
    Expression.parse source = .ok e
      ∧ e.constituents = [.name "f", .int 7, .operator .sub, .name "truth", .name "g", .bool true]
      ∧ ∃ ts, tokenize source = .ok ts
          ∧ List.Forall₂ (fun l c => c.IsWritten l.token (l.text source))
              (ts.filter (·.token.isConstituent)) e.constituents
          ∧ e.nodeCount = (ts.filter (·.token.isConstituent)).length := by
  intro source e
  have hparse : Expression.parse source = .ok e := by decide +kernel
  exact ⟨hparse, by decide, constituents_of_parse source e hparse⟩

end ImpFront
