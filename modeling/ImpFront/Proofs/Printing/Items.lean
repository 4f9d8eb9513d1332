import ImpFront.Proofs.Ast.WellFormed
import ImpFront.Proofs.Number.Decimal
import ImpFront.Proofs.Printing.Written

/-!
# The tokens of a printed expression

`Expression.items` lists the tokens of which the display of an expression is
written, parentheses and commas included; `writes_display` says that it is
written of these tokens and no others.
-/

namespace ImpFront

open Lexer

/-- The symbol of an operator. -/
def Operator.symbol : Operator → Symbol
  | .add => .plus
  | .sub => .minus
  | .mul => .star

theorem Operator.spelling_symbol (op : Operator) : op.symbol.spelling = op.spelling := by
  cases op <;> rfl

/-- Items in turn, with commas between them. -/
def commaItems : List (List Item) → List Item
  | [] => []
  | [items] => items
  | items :: next :: others => items ++ Symbol.comma.item :: commaItems (next :: others)

/-- Items in parentheses. -/
def parenItems (items : List Item) : List Item :=
  Symbol.openParen.item :: (items ++ [Symbol.closeParen.item])

namespace Expression

/-- The items of an operand, in parentheses where the operand is itself an
operation. -/
def operandItems (e : Expression) (items : List Item) : List Item :=
  match e with
  | .binary .. => parenItems items
  | _ => items

mutual
/-- **The items of an expression.** -/
def items : Expression → List Item
  | .binary left op right =>
    left.operandItems left.items ++ op.symbol.item :: right.operandItems right.items
  | .intConstant value => [(.intLiteral, (toString value.toInt).toList)]
  | .boolConstant value => [if value then Keyword.trueWord.item else Keyword.falseWord.item]
  | .location name => [nameItem name]
  | .call name args => nameItem name :: parenItems (commaItems (itemsAll args))

/-- The items of several expressions. -/
def itemsAll : List Expression → List (List Item)
  | [] => []
  | e :: es => e.items :: itemsAll es
end

@[simp] theorem itemsAll_eq_map (es : List Expression) : itemsAll es = es.map items := by
  induction es with
  | nil => rw [itemsAll, List.map_nil]
  | cons e es ih => rw [itemsAll, ih, List.map_cons]

end Expression

/-! ## Names, parentheses and commas -/

theorem writes_parens {text : List Char} {items : List Item} (h : Writes text items) :
    Writes ('(' :: (text ++ [')'])) (parenItems items) := by
  have hend : StartsWithout isWordPart [')'] := startsWithout_cons.mpr (by decide)
  have hclosed := h.append (writes_symbol .closeParen (by decide)) hend
  exact hclosed.symbol_append .openParen (by decide)

theorem writes_name {name : String} (h : IsIdentifier name) :
    Writes name.toList [nameItem name] :=
  writes_token (spells_ident_iff.mpr h) closed_ident

theorem writes_emptyParens : Writes ['(', ')'] (parenItems []) :=
  (writes_symbol .closeParen (by decide)).symbol_append .openParen (by decide)

/-- **Texts with commas between them.** -/
theorem writes_commas {α : Type} {text : α → String} {items : α → List Item} {xs : List α}
    (hne : xs ≠ []) (h : ∀ x ∈ xs, Writes (text x).toList (items x)) :
    Writes (", ".intercalate (xs.map text)).toList (commaItems (xs.map items)) := by
  induction xs with
  | nil => exact absurd rfl hne
  | cons x xs ih =>
    cases xs with
    | nil =>
      rw [List.map_singleton, List.map_singleton, String.intercalate_singleton]
      exact h x List.mem_cons_self
    | cons y ys =>
      have hrest := ih (by simp) fun z hz => h z (List.mem_cons_of_mem _ hz)
      have hcomma := (writes_symbol .comma (by decide)).space hrest
      -- A comma ends whatever stands before it.
      have hstart : StartsWithout isWordPart
          (',' :: ' ' :: (", ".intercalate ((y :: ys).map text)).toList) :=
        startsWithout_cons.mpr (by decide)
      have hall := (h x List.mem_cons_self).append hcomma hstart
      simpa [String.intercalate_cons_cons, commaItems, Symbol.spelling] using hall

/-- Texts with commas between them and parentheses around them. -/
theorem writes_parenthesized {α : Type} {text : α → String} {items : α → List Item} {xs : List α}
    (h : ∀ x ∈ xs, Writes (text x).toList (items x)) :
    Writes ('(' :: ((", ".intercalate (xs.map text)).toList ++ [')']))
      (parenItems (commaItems (xs.map items))) := by
  by_cases hne : xs = []
  · subst hne
    exact writes_emptyParens
  · exact writes_parens (writes_commas hne h)

/-! ## Expressions -/

namespace Expression

theorem writes_operand {e : Expression} (h : Writes e.display.toList e.items) :
    Writes (e.asOperand e.display).toList (e.operandItems e.items) := by
  cases e with
  | binary left op right =>
    have hparens := writes_parens h
    simpa [asOperand, operandItems] using hparens
  | intConstant value => exact h
  | boolConstant value => exact h
  | location name => exact h
  | call name args => exact h

/-- **The display of an expression is written out of its items.** -/
theorem writes_display {e : Expression} (h : e.WellFormed) : Writes e.display.toList e.items := by
  induction h with
  | @binary left right op _ _ ihleft ihright =>
    have hspaced := (writes_operand ihleft).spaced op.symbol (writes_operand ihright)
    rw [op.spelling_symbol] at hspaced
    simpa [display, items] using hspaced
  | @intConstant value h =>
    rw [display, items]
    refine writes_token (t := .intLiteral) ?_ closed_intLiteral
    rw [Decimal.toList_toString_of_nonneg h]
    exact Decimal.toDigits_spec _
  | boolConstant value =>
    rw [display, items]
    cases value with
    | true => exact writes_keyword .trueWord
    | false => exact writes_keyword .falseWord
  | location h =>
    rw [display, items]
    exact writes_name h
  | @call name args hname _ ih =>
    have hcall := (writes_name hname).append (writes_parenthesized ih)
      (startsWithout_cons.mpr (by decide))
    rw [display, items, displayAll_eq_map, itemsAll_eq_map]
    simpa using hcall

end Expression

end ImpFront
