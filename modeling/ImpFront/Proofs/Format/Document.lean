import ImpFront.Format.Document
import Mathlib.Data.List.Basic

/-!
# Documents tell programs

What a program is as a document, it is again as a program
(`Program.ofDocument?_toDocument`). A statement or an expression is known by its kind,
and its parts by their names, so the order of the fields does not matter. Nothing needs
to be known of the names in the program, which are texts like any other.

The decoder of a constant checks that it fits 32 bits; that of a 32-bit constant does.
-/

namespace ImpFront

/-! ## Words and numbers -/

theorem TypeName.ofDocument?_toDocument (t : TypeName) : ofDocument? t.toDocument = some t := by
  cases t <;> rfl

theorem Operator.ofDocument?_documentName (op : Operator) :
    ofDocument? (.text op.documentName) = some op := by
  cases op <;> rfl

theorem Document.int32?_toInt (n : Int32) : (Document.int n.toInt).int32? = some n := by
  rw [int32?, Int32.ofInt_toInt, if_pos rfl]

/-! ## Expressions and variables -/

mutual
/-- **An expression is read back from its document.** -/
theorem Expression.ofDocument?_toDocument (e : Expression) :
    Expression.ofDocument? e.toDocument = some e := by
  rw [Expression.ofDocument?]
  match e with
  | .binary left op right =>
    show (do
      return Expression.binary (← Expression.ofDocument? left.toDocument)
        (← Operator.ofDocument? (.text op.documentName))
        (← Expression.ofDocument? right.toDocument)) = _
    rw [Expression.ofDocument?_toDocument left, Operator.ofDocument?_documentName,
      Expression.ofDocument?_toDocument right]
    rfl
  | .intConstant value =>
    show (do return Expression.intConstant (← (Document.int value.toInt).int32?)) = _
    rw [Document.int32?_toInt]
    rfl
  | .boolConstant _ | .location _ => rfl
  | .call name args =>
    show (do
      return Expression.call name
        (← Expression.ofDocuments? (Expression.toDocuments args))) = _
    rw [Expression.ofDocuments?_toDocuments args]
    rfl

theorem Expression.ofDocuments?_toDocuments (es : List Expression) :
    Expression.ofDocuments? (Expression.toDocuments es) = some es := by
  match es with
  | [] => rw [Expression.toDocuments, Expression.ofDocuments?]
  | e :: es =>
    rw [Expression.toDocuments, Expression.ofDocuments?, Expression.ofDocument?_toDocument e,
      Expression.ofDocuments?_toDocuments es]
    rfl
end

/-- **A variable is read back**, with its initializer or without one. -/
theorem Variable.ofDocument?_toDocument (v : Variable) :
    Variable.ofDocument? v.toDocument = some v := by
  obtain ⟨name, type, initializer⟩ := v
  cases initializer with
  | none =>
    show (do return Variable.mk name (← TypeName.ofDocument? type.toDocument) none) = _
    rw [TypeName.ofDocument?_toDocument]
    rfl
  | some e =>
    show (do
      return Variable.mk name (← TypeName.ofDocument? type.toDocument)
        (some (← Expression.ofDocument? e.toDocument))) = _
    rw [TypeName.ofDocument?_toDocument, Expression.ofDocument?_toDocument]
    rfl

/-- Members that are read back one by one are read back together. -/
theorem mapM_map_eq_some {α β : Type} {f : α → β} {g : β → Option α} (h : ∀ a, g (f a) = some a)
    (as : List α) : (as.map f).mapM g = some as := by
  induction as with
  | nil => rfl
  | cons a as ih => simp [h, ih]

/-- Several variables are read back from a list. -/
theorem Variable.ofList?_toDocument (vs : List Variable) :
    Variable.ofList? (.list (vs.map Variable.toDocument)) = some vs :=
  mapM_map_eq_some Variable.ofDocument?_toDocument vs

/-! ## Statements and blocks -/

mutual
/-- **A statement is read back from its document.** -/
theorem Statement.ofDocument?_toDocument (s : Statement) :
    Statement.ofDocument? s.toDocument = some s := by
  rw [Statement.ofDocument?]
  match s with
  | .assignment target value =>
    show (do return Statement.assignment target (← Expression.ofDocument? value.toDocument)) = _
    rw [Expression.ofDocument?_toDocument]
    rfl
  | .ifElse cond thenBlock elseBlock =>
    show (do
      return Statement.ifElse (← Expression.ofDocument? cond.toDocument)
        (← Block.ofDocument? thenBlock.toDocument)
        (← Block.ofDocument? elseBlock.toDocument)) = _
    rw [Expression.ofDocument?_toDocument, Block.ofDocument?_toDocument thenBlock,
      Block.ofDocument?_toDocument elseBlock]
    rfl
  | .whileLoop cond body =>
    show (do
      return Statement.whileLoop (← Expression.ofDocument? cond.toDocument)
        (← Block.ofDocument? body.toDocument)) = _
    rw [Expression.ofDocument?_toDocument, Block.ofDocument?_toDocument body]
    rfl
  | .returnValue value =>
    show (do return Statement.returnValue (← Expression.ofDocument? value.toDocument)) = _
    rw [Expression.ofDocument?_toDocument]
    rfl
  | .returnVoid | .breakLoop | .continueLoop => rfl

theorem Block.ofDocument?_toDocument (b : Block) : Block.ofDocument? b.toDocument = some b := by
  rw [Block.ofDocument?]
  match b with
  | ⟨locals, statements⟩ =>
    show (do
      return Block.mk (← Variable.ofList? (.list (locals.map Variable.toDocument)))
        (← Statement.ofDocuments? (Statement.toDocuments statements))) = _
    rw [Variable.ofList?_toDocument, Statement.ofDocuments?_toDocuments statements]
    rfl

theorem Statement.ofDocuments?_toDocuments (ss : List Statement) :
    Statement.ofDocuments? (Statement.toDocuments ss) = some ss := by
  match ss with
  | [] => rw [Statement.toDocuments, Statement.ofDocuments?]
  | s :: ss =>
    rw [Statement.toDocuments, Statement.ofDocuments?, Statement.ofDocument?_toDocument s,
      Statement.ofDocuments?_toDocuments ss]
    rfl
end

/-! ## Functions and programs -/

theorem Function.ofDocument?_toDocument (f : Function) :
    Function.ofDocument? f.toDocument = some f := by
  show (do
    return Function.mk (← TypeName.ofDocument? f.returnType.toDocument) f.name
      (← Variable.ofList? (.list (f.params.map Variable.toDocument)))
      (← Block.ofDocument? f.body.toDocument)) = _
  rw [TypeName.ofDocument?_toDocument, Variable.ofList?_toDocument, Block.ofDocument?_toDocument]
  rfl

/-- **A program is read back from its document.** -/
theorem Program.ofDocument?_toDocument (p : Program) :
    Program.ofDocument? p.toDocument = some p := by
  show (do
    return Program.mk (← Variable.ofList? (.list (p.globals.map Variable.toDocument)))
      (← (p.functions.map Function.toDocument).mapM Function.ofDocument?)) = _
  rw [Variable.ofList?_toDocument, mapM_map_eq_some Function.ofDocument?_toDocument]
  rfl

end ImpFront
