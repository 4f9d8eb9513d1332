import ImpFront.Proofs.Build.Equations
import ImpFront.Proofs.Grammar.Acceptance
import ImpFront.Proofs.Printing.Items
import Mathlib.Data.List.Forall2

/-!
# Printing an expression and reading it back

The display of an expression, read as a source, is the expression again. Tokens
are settled by `writes_display`, and since the reader accepts exactly the
grammar, it remains to *derive* the tokens and to see that the tree of the
derivation means the expression.

That is an induction on the expression in which every operand is an **atom**: it
is one by nature, or the parentheses around it make it one. An atom is an
operand of every level of operators, so precedence never comes up – which is
what the parentheses are for.
-/

namespace ImpFront

open Ebnf SyntaxTree

variable {source : List Char} {size : Nat}

/-! ## Lexemes that carry items -/

/-- The lexemes have the tokens and the texts of the items. -/
def Carries (source : List Char) (ts : List Lexeme) (items : List Item) : Prop :=
  ts.map (Lexeme.item source) = items

theorem carries_append {ts : List Lexeme} {items others : List Item} :
    Carries source ts (items ++ others)
      ↔ ∃ us vs, ts = us ++ vs ∧ Carries source us items ∧ Carries source vs others :=
  List.map_eq_append_iff

theorem carries_cons {ts : List Lexeme} {t : Token} {text : List Char} {items : List Item} :
    Carries source ts ((t, text) :: items)
      ↔ ∃ span us, ts = ⟨t, span⟩ :: us ∧ slice source span = text
          ∧ Carries source us items := by
  unfold Carries
  rw [List.map_eq_cons_iff]
  constructor
  · rintro ⟨⟨t', span⟩, us, rfl, hitem, hus⟩
    obtain ⟨rfl, rfl⟩ := Prod.mk.inj hitem
    exact ⟨span, us, rfl, rfl, hus⟩
  · rintro ⟨span, us, rfl, rfl, hus⟩
    exact ⟨⟨t, span⟩, us, rfl, rfl, hus⟩

theorem carries_nil {ts : List Lexeme} : Carries source ts [] ↔ ts = [] := List.map_eq_nil_iff

theorem carries_singleton {ts : List Lexeme} {t : Token} {text : List Char} :
    Carries source ts [(t, text)] ↔ ∃ span, ts = [⟨t, span⟩] ∧ slice source span = text := by
  rw [carries_cons]
  constructor
  · rintro ⟨span, us, rfl, hslice, hus⟩
    rw [carries_nil.mp hus]
    exact ⟨span, rfl, hslice⟩
  · rintro ⟨span, rfl, hslice⟩
    exact ⟨span, [], rfl, hslice, rfl⟩

theorem carries_parens {ts : List Lexeme} {items : List Item} :
    Carries source ts (parenItems items)
      ↔ ∃ opening us closing, ts = [⟨.symbol .openParen, opening⟩] ++ us
            ++ [⟨.symbol .closeParen, closing⟩]
          ∧ slice source opening = Symbol.openParen.spelling.toList
          ∧ slice source closing = Symbol.closeParen.spelling.toList
          ∧ Carries source us items := by
  rw [parenItems, Symbol.item, carries_cons]
  constructor
  · rintro ⟨opening, _, rfl, hopening, hmore⟩
    obtain ⟨us, _, rfl, hus, hmark⟩ := carries_append.mp hmore
    rw [Symbol.item] at hmark
    obtain ⟨closing, rfl, hclosing⟩ := carries_singleton.mp hmark
    exact ⟨opening, us, closing, by simp, hopening, hclosing, hus⟩
  · rintro ⟨opening, us, closing, rfl, hopening, hclosing, hus⟩
    refine ⟨opening, us ++ [⟨.symbol .closeParen, closing⟩], by simp, hopening, ?_⟩
    exact carries_append.mpr ⟨us, _, rfl, hus, carries_singleton.mpr ⟨closing, rfl, hclosing⟩⟩

/-- **Items with commas between them are a list with commas**, if those of each
member are derivable. -/
theorem derives_commas {n : Nonterminal} {α : Type} {items : α → List Item}
    {means : TreeShape → α → Prop} {xs : List α} (hne : xs ≠ [])
    (h : ∀ x ∈ xs, ∀ ts, Carries source ts (items x) →
      ∃ t, Derives size (.rule n) ts [t] ∧ means t x)
    {ts : List Lexeme} (hts : Carries source ts (commaItems (xs.map items))) :
    ∃ trees, Derives size (.rule n ++ .repeated (.mark .comma ++ .rule n)) ts trees
      ∧ List.Forall₂ means trees xs := by
  induction xs generalizing ts with
  | nil => exact absurd rfl hne
  | cons x xs ih =>
    cases xs with
    | nil =>
      obtain ⟨t, hder, hmeans⟩ := h x List.mem_cons_self ts hts
      have hlist := hder.sequence (.done (.mark .comma ++ .rule n))
      rw [List.append_nil, List.append_nil] at hlist
      exact ⟨[t], hlist, .cons hmeans .nil⟩
    | cons y ys =>
      rw [List.map_cons, List.map_cons, commaItems] at hts
      obtain ⟨us, _, rfl, hus, hmore⟩ := carries_append.mp hts
      obtain ⟨span, vs, rfl, -, hvs⟩ := carries_cons.mp hmore
      obtain ⟨t, hder, hmeans⟩ := h x List.mem_cons_self us hus
      obtain ⟨trees, htrees, hmeansAll⟩ :=
        ih (by simp) (fun z hz => h z (List.mem_cons_of_mem _ hz)) hvs
      -- The list from the second member on is taken apart again, to put a comma before it.
      obtain ⟨ws, zs, first, others, rfl, rfl, hws, hzs⟩ := derives_append.mp htrees
      have hmark := (Derives.mark .comma span).sequence hws
      refine ⟨t :: (first ++ others), ?_, .cons hmeans hmeansAll⟩
      simpa using hder.sequence (hmark.again hzs)

/-! ## Lexemes that denote an expression -/

/-- **The lexemes denote the expression**: the nonterminal derives them with a
tree that means it. -/
def Denotes (source : List Char) (size : Nat) (n : Nonterminal) (ts : List Lexeme)
    (e : Expression) : Prop :=
  ∃ t, Derives size (.rule n) ts [t] ∧ t.kind.isExpression = true
    ∧ Expression.ofTree (ofShape source t) = .ok e

variable {ts : List Lexeme} {e : Expression}

namespace Denotes

/-- An operand is an expression of its level. -/
theorem level (l : Level) (h : Denotes source size l.operand ts e) :
    Denotes source size (.level l) ts e := by
  obtain ⟨t, hder, hkind, hbuild⟩ := h
  have hlevel := Derives.rule (.level l) (hder.sequence (.done _))
  rw [List.append_nil] at hlevel
  exact ⟨t, hlevel, hkind, hbuild⟩

/-- An atom is an operand of every level. -/
theorem operand (h : Denotes source size .atom ts e) (l : Level) :
    Denotes source size l.operand ts e := by
  have hterm := level .term h
  have hadditive := level .additive hterm
  have hrelational := level .relational hadditive
  have hequality := level .equality hrelational
  cases l with
  | term => exact h
  | additive => exact hterm
  | relational => exact hadditive
  | equality => exact hrelational
  | and => exact hequality
  | or => exact level .and hequality

/-- What is of some level is an expression. -/
theorem expr {l : Level} (h : Denotes source size (.level l) ts e) :
    Denotes source size .expr ts e := by
  -- Each level is the operand of the next looser one.
  have hor : Denotes source size (.level .or) ts e := by
    cases l with
    | or => exact h
    | and => exact level .or h
    | equality => exact level .or (level .and h)
    | relational => exact level .or (level .and (level .equality h))
    | additive => exact level .or (level .and (level .equality (level .relational h)))
    | term =>
      exact level .or (level .and (level .equality (level .relational (level .additive h))))
  obtain ⟨t, hder, hkind, hbuild⟩ := hor
  exact ⟨t, .rule .expr hder, hkind, hbuild⟩

/-- An atom is an expression. -/
theorem expr_of_atom (h : Denotes source size .atom ts e) : Denotes source size .expr ts e :=
  (level .term h).expr

end Denotes

/-- The level of an operator. -/
def Operator.level : Operator → Level
  | .add | .sub => .additive
  | .mul => .term

theorem Operator.symbol_mem_level (op : Operator) : op.symbol ∈ op.level.operators := by
  cases op <;> decide

/-- The leaf of an operator means the operator. -/
theorem Operator.ofTree_leaf {op : Operator} {span : Span}
    (h : slice source span = op.spelling.toList) :
    Operator.ofTree (ofShape source ⟨.operator, span, []⟩) = .ok op := by
  have htext : (ofShape source ⟨.operator, span, []⟩).text = op.spelling := by
    rw [text_ofShape, h, String.ofList_toList]
  exact ofTree_of_some rfl (by rw [htext, ofSpelling?_spelling])

/-- **Two operands with an operator between them denote the operation.** -/
theorem denotes_binary {us vs : List Lexeme} {span : Span} {left right : Expression}
    {op : Operator} (hspan : slice source span = op.spelling.toList)
    (hleft : Denotes source size op.level.operand us left)
    (hright : Denotes source size op.level.operand vs right) :
    Denotes source size .expr (us ++ ([⟨.symbol op.symbol, span⟩] ++ vs))
      (.binary left op right) := by
  obtain ⟨l, hl, -, hbuildLeft⟩ := hleft
  obtain ⟨r, hr, -, hbuildRight⟩ := hright
  have hoperation := Derives.again ((Derives.operator span op.symbol_mem_level).sequence hr)
    (.done _)
  have hlevel := Derives.rule (.level op.level) (hl.sequence hoperation)
  rw [List.append_nil] at hlevel
  refine Denotes.expr ⟨TreeShape.binary l ⟨.operator, span, []⟩ r, hlevel, rfl, ?_⟩
  rw [TreeShape.binary, TreeShape.spanning, ofShape, ofShapes, ofShapes, ofShapes, ofShapes,
    Expression.ofTree_binary, hbuildLeft, Operator.ofTree_leaf hspan, hbuildRight]
  rfl

/-- An expression in parentheses is an atom. -/
theorem denotes_group (opening closing : Span) (h : Denotes source size .expr ts e) :
    Denotes source size .atom ([⟨.symbol .openParen, opening⟩] ++ ts
      ++ [⟨.symbol .closeParen, closing⟩]) e := by
  obtain ⟨t, hder, hkind, hbuild⟩ := h
  have hgroup := Derives.rule .group
    (((Derives.mark .openParen opening).sequence hder).sequence (.mark .closeParen closing))
  refine ⟨_, .rule .atom (.right _ (.right _ (.right _ (.right _ hgroup)))), rfl, ?_⟩
  rw [ofShape, List.append_nil, List.nil_append, ofShapes, ofShapes,
    Expression.ofTree_group (by rw [kind_ofShape, hkind]), hbuild]

/-- A leaf takes its text from the source. -/
theorem ofShape_leaf {kind : NodeKind} {span : Span} {text : String}
    (h : slice source span = text.toList) :
    ofShape source ⟨kind, span, []⟩ = leaf kind span text := by
  rw [ofShape, ofShapes, h, String.ofList_toList]
  rfl

theorem denotes_intConstant {value : Int32} {span : Span} (hvalue : 0 ≤ value.toInt)
    (h : slice source span = (toString value.toInt).toList) :
    Denotes source size .atom [⟨.intLiteral, span⟩] (.intConstant value) := by
  refine ⟨_, .rule .atom (.left _ (.only .intLiteral .intLiteral span)), rfl, ?_⟩
  have hread : intOfTree (leaf .intLiteral span (toString value.toInt)) = .ok value :=
    intOfTree_of_some (Decimal.readInt32?_toString hvalue)
  rw [ofShape_leaf h, Expression.ofTree_intLiteral, hread]
  rfl

theorem denotes_boolConstant {value : Bool} {span : Span} {k : Keyword}
    (hk : k = if value then .trueWord else .falseWord)
    (h : slice source span = k.spelling.toList) :
    Denotes source size .atom [⟨.keyword k, span⟩] (.boolConstant value) := by
  have hmem : Token.keyword k ∈ [Token.keyword .trueWord, Token.keyword .falseWord] := by
    cases value <;> simp [hk]
  refine ⟨_, .rule .atom (.right _ (.left _ (.leaf .boolLiteral span hmem))), rfl, ?_⟩
  rw [ofShape_leaf h, Expression.ofTree_boolLiteral]
  cases value <;> rw [hk] <;> rfl

theorem denotes_location {name : String} {span : Span} (h : slice source span = name.toList) :
    Denotes source size .atom [⟨.ident, span⟩] (.location name) := by
  have hlocation : Derives size (.rule .location) _ _ := .rule .location (.ident span)
  refine ⟨_, .rule .atom (.right _ (.right _ (.right _ (.left _ hlocation)))), rfl, ?_⟩
  rw [ofShape, ofShapes, ofShapes, ofShape_leaf h, Expression.ofTree_location rfl]
  rfl

theorem ofTrees_shapes {trees : List TreeShape} {es : List Expression}
    (h : List.Forall₂ (fun t e => t.kind.isExpression = true
      ∧ Expression.ofTree (ofShape source t) = .ok e) trees es) :
    Expression.ofTrees (ofShapes source trees) = .ok es := by
  induction h with
  | nil => rw [ofShapes, Expression.ofTrees_nil]
  | cons h _ ih =>
    rw [ofShapes, Expression.ofTrees_cons, h.2, ih]
    rfl

/-- **A name with arguments in parentheses denotes a call.** -/
theorem denotes_call {name : String} {span opening closing : Span} {args : List Expression}
    (hspan : slice source span = name.toList)
    (hargs : ∀ a ∈ args, ∀ ts, Carries source ts a.items → Denotes source size .expr ts a)
    (hts : Carries source ts (commaItems (args.map Expression.items))) :
    Denotes source size .atom ([⟨.ident, span⟩] ++ [⟨.symbol .openParen, opening⟩] ++ ts
      ++ [⟨.symbol .closeParen, closing⟩]) (.call name args) := by
  have hopening : Derives size (.ident ++ .mark .openParen) _ _ :=
    (Derives.ident span).sequence (.mark .openParen opening)
  by_cases hne : args = []
  · subst hne
    obtain rfl : ts = [] := carries_nil.mp hts
    have hcall := Derives.rule .call ((hopening.sequence (.absent _)).sequence (.mark _ closing))
    refine ⟨_, .rule .atom (.right _ (.right _ (.left _ hcall))), rfl, ?_⟩
    rw [ofShape]
    simp only [List.append_nil, ofShapes]
    rw [ofShape_leaf hspan, Expression.ofTree_callEmpty rfl]
    rfl
  · obtain ⟨trees, htrees, hmeans⟩ := derives_commas hne hargs hts
    have hlist := Derives.rule .argList htrees
    have hcall := Derives.rule .call
      ((hopening.sequence (.present hlist)).sequence (.mark _ closing))
    refine ⟨_, .rule .atom (.right _ (.right _ (.left _ hcall))), rfl, ?_⟩
    rw [ofShape]
    simp only [List.append_nil, List.nil_append, List.cons_append, ofShapes]
    rw [ofShape_leaf hspan]
    show Expression.ofTree ⟨_, _, _,
      [leaf .ident span name, ofShape source ⟨.argList, _, trees⟩]⟩ = _
    rw [ofShape, Expression.ofTree_call rfl, ofTrees_shapes hmeans]
    rfl

/-! ## Whole expressions -/

namespace Expression

/-- **Lexemes with the items of an expression denote it**, and those with its
items as an operand denote it as an atom. -/
theorem denotes (size : Nat) {e : Expression} (h : e.WellFormed) :
    (∀ ts, Carries source ts e.items → Denotes source size .expr ts e)
      ∧ ∀ ts, Carries source ts (e.operandItems e.items) → Denotes source size .atom ts e := by
  induction h with
  | @binary left right op _ _ ihleft ihright =>
    have hexpr : ∀ ts, Carries source ts (binary left op right).items →
        Denotes source size .expr ts (.binary left op right) := by
      intro ts hts
      rw [items, Symbol.item] at hts
      obtain ⟨us, _, rfl, hus, hmore⟩ := carries_append.mp hts
      obtain ⟨span, vs, rfl, hspan, hvs⟩ := carries_cons.mp hmore
      rw [op.spelling_symbol] at hspan
      exact denotes_binary hspan ((ihleft.2 us hus).operand _) ((ihright.2 vs hvs).operand _)
    -- As an operand it is put in parentheses, and they make an atom of it.
    refine ⟨hexpr, fun ts hts => ?_⟩
    obtain ⟨opening, us, closing, rfl, -, -, hus⟩ := carries_parens.mp hts
    exact denotes_group opening closing (hexpr us hus)
  -- The others are atoms and stand as they are.
  | @intConstant value hvalue =>
    have hatom : ∀ ts, Carries source ts (intConstant value).items →
        Denotes source size .atom ts (.intConstant value) := by
      intro ts hts
      rw [items] at hts
      obtain ⟨span, rfl, hspan⟩ := carries_singleton.mp hts
      exact denotes_intConstant hvalue hspan
    exact ⟨fun ts hts => (hatom ts hts).expr_of_atom, hatom⟩
  | boolConstant value =>
    have hatom : ∀ ts, Carries source ts (boolConstant value).items →
        Denotes source size .atom ts (.boolConstant value) := by
      intro ts hts
      rw [items, ← apply_ite Keyword.item, Keyword.item] at hts
      obtain ⟨span, rfl, hspan⟩ := carries_singleton.mp hts
      exact denotes_boolConstant rfl hspan
    exact ⟨fun ts hts => (hatom ts hts).expr_of_atom, hatom⟩
  | @location name _ =>
    have hatom : ∀ ts, Carries source ts (location name).items →
        Denotes source size .atom ts (.location name) := by
      intro ts hts
      rw [items, nameItem] at hts
      obtain ⟨span, rfl, hspan⟩ := carries_singleton.mp hts
      exact denotes_location hspan
    exact ⟨fun ts hts => (hatom ts hts).expr_of_atom, hatom⟩
  | @call name args _ _ ih =>
    have hatom : ∀ ts, Carries source ts (call name args).items →
        Denotes source size .atom ts (.call name args) := by
      intro ts hts
      rw [items, nameItem, itemsAll_eq_map] at hts
      obtain ⟨span, _, rfl, hspan, hmore⟩ := carries_cons.mp hts
      obtain ⟨opening, us, closing, rfl, -, -, hus⟩ := carries_parens.mp hmore
      simpa using denotes_call hspan (fun a ha => (ih a ha).1) hus
    exact ⟨fun ts hts => (hatom ts hts).expr_of_atom, hatom⟩

end Expression

/-! ## From the source to the value -/

/-- **A source that is written out of items means what a derivation of their
lexemes means.** -/
theorem readSource_of_scans {α : Type} {start : StartSymbol} {source : String}
    {build : SyntaxTree → Except BuildError α} {items : List Item} {a : α}
    (h : Scans source.toList items)
    (hderives : ∀ ts, Carries source.toList ts items →
      ∃ t, Derives (byteLength source.toList) (.rule start.nonterminal) ts [t]
        ∧ build (ofShape source.toList t) = .ok a) :
    readSource start build source = .ok a := by
  obtain ⟨ts, htokens, hts⟩ := tokenize_of_scans h
  obtain ⟨t, hder, hbuild⟩ := hderives ts hts
  have hparse := SyntaxTree.parse_eq_ok.mpr ⟨ts, t, htokens, hder, rfl⟩
  exact readSource_eq_ok.mpr ⟨_, hparse, hbuild⟩

/-- **Printing an expression and reading it back is the identity**, for every
expression that a source can say. -/
theorem Expression.parse_display (e : Expression) (h : e.WellFormed) :
    Expression.parse e.display = .ok e := by
  refine readSource_of_scans (writes_display h).scans_all fun ts hts => ?_
  obtain ⟨t, hder, -, hbuild⟩ := (denotes _ h).1 ts hts
  exact ⟨t, hder, hbuild⟩

/-- Operands that are operations are put in parentheses, arguments are not. -/
theorem Expression.parse_display_call :
    WellFormed (call "f" [binary (binary (intConstant 1) .sub (location "x")) .sub
        (binary (location "_y2") .mul (boolConstant true)), call "g" []])
      ∧ Expression.parse "f((1 - x) - (_y2 * true), g())"
        = .ok (call "f" [binary (binary (intConstant 1) .sub (location "x")) .sub
            (binary (location "_y2") .mul (boolConstant true)), call "g" []]) := by
  have hf : WellFormed (call "f" [binary (binary (intConstant 1) .sub (location "x")) .sub
      (binary (location "_y2") .mul (boolConstant true)), call "g" []]) := by
    refine .call (by decide) (List.forall_mem_cons.mpr ⟨?_, List.forall_mem_singleton.mpr ?_⟩)
    · refine .binary .sub (.binary .sub (.intConstant ?_) (.location ?_))
        (.binary .mul (.location ?_) (.boolConstant true)) <;> decide
    · exact .call (by decide) (by simp)
  have htext : display (call "f" [binary (binary (intConstant 1) .sub (location "x")) .sub
      (binary (location "_y2") .mul (boolConstant true)), call "g" []])
        = "f((1 - x) - (_y2 * true), g())" := by decide +kernel
  exact ⟨hf, htext ▸ parse_display _ hf⟩

end ImpFront
