import ImpFront.Proofs.Printing.Items
import Mathlib.Data.List.Forall2

/-!
# Programs in full

The display of a statement stops at its blocks, and that of a function is little
more than its name: they are for messages. Here programs are **printed** in
full, in the concrete syntax – globals before functions, locals before
statements, every conditional with its `else`, and on one line each declaration
of a program.

As for expressions, the items of a part are the tokens of which its text is
written; and again each text is written of its items and no others
(`Program.scans_print`).
-/

namespace ImpFront

open Lexer

/-! ## Texts -/

/-- A variable as it is declared. -/
def Variable.print (v : Variable) : String := v.display ++ ";"

mutual
/-- **A statement as it is written**, with its blocks. -/
def Statement.print : Statement → String
  | .assignment target value => target ++ " = " ++ value.display ++ ";"
  | .ifElse cond thenBlock elseBlock =>
    "if (" ++ cond.display ++ ") " ++ thenBlock.print ++ " else " ++ elseBlock.print
  | .whileLoop cond body => "while (" ++ cond.display ++ ") " ++ body.print
  | .returnValue value => "return " ++ value.display ++ ";"
  | .returnVoid => "return;"
  | .breakLoop => "break;"
  | .continueLoop => "continue;"

/-- **A block as it is written**: the locals and then the statements, in
braces. -/
def Block.print : Block → String
  | ⟨locals, statements⟩ =>
    " ".intercalate (Symbol.openBrace.spelling :: (locals.map Variable.print
      ++ (Statement.printAll statements ++ [Symbol.closeBrace.spelling])))

/-- The texts of several statements. -/
def Statement.printAll : List Statement → List String
  | [] => []
  | s :: ss => s.print :: Statement.printAll ss
end

/-- **A function as it is written.** -/
def Function.print (f : Function) : String := f.label ++ " " ++ f.body.print

/-- **A program as it is written**: the globals and then the functions, one on a
line. -/
def Program.print (p : Program) : String :=
  "\n".intercalate (p.globals.map Variable.print ++ p.functions.map Function.print)

/-! ## Items -/

/-- The keyword of a type. -/
def TypeName.keyword : TypeName → Keyword
  | .int => .int
  | .bool => .bool
  | .void => .void

theorem TypeName.spelling_keyword (type : TypeName) : type.keyword.spelling = type.spelling := by
  cases type <;> rfl

/-- The items of what stands behind the name of a variable. -/
def initializerItems : Option Expression → List Item
  | none => []
  | some e => Symbol.assign.item :: e.items

/-- The items of a variable. -/
def Variable.items (v : Variable) : List Item :=
  v.type.keyword.item :: nameItem v.name :: initializerItems v.initializer

/-- The items of the declaration of a variable. -/
def Variable.printItems (v : Variable) : List Item := v.items ++ [Symbol.semicolon.item]

/-- The items of a condition and the block that it governs. -/
def branchItems (k : Keyword) (cond body : List Item) : List Item :=
  k.item :: (parenItems cond ++ body)

mutual
/-- **The items of a statement.** -/
def Statement.items : Statement → List Item
  | .assignment target value =>
    nameItem target :: Symbol.assign.item :: (value.items ++ [Symbol.semicolon.item])
  | .ifElse cond thenBlock elseBlock =>
    branchItems .ifWord cond.items thenBlock.items ++ Keyword.elseWord.item :: elseBlock.items
  | .whileLoop cond body => branchItems .whileWord cond.items body.items
  | .returnValue value => Keyword.returnWord.item :: (value.items ++ [Symbol.semicolon.item])
  | .returnVoid => [Keyword.returnWord.item, Symbol.semicolon.item]
  | .breakLoop => [Keyword.breakWord.item, Symbol.semicolon.item]
  | .continueLoop => [Keyword.continueWord.item, Symbol.semicolon.item]

/-- **The items of a block.** -/
def Block.items : Block → List Item
  | ⟨locals, statements⟩ =>
    Symbol.openBrace.item :: (locals.flatMap Variable.printItems
      ++ ((Statement.itemsAll statements).flatten ++ [Symbol.closeBrace.item]))

/-- The items of several statements. -/
def Statement.itemsAll : List Statement → List (List Item)
  | [] => []
  | s :: ss => s.items :: Statement.itemsAll ss
end

/-- **The items of a function.** -/
def Function.items (f : Function) : List Item :=
  f.returnType.keyword.item :: nameItem f.name ::
    (parenItems (commaItems (f.params.map Variable.items)) ++ f.body.items)

/-- **The items of a program.** -/
def Program.items (p : Program) : List Item :=
  p.globals.flatMap Variable.printItems ++ p.functions.flatMap Function.items

/-! ## Texts are written of their items -/

/-- Several texts, each written of its items. -/
abbrev WritesAll : List String → List (List Item) → Prop :=
  List.Forall₂ fun text items => Writes text.toList items

/-- **Texts with blanks between them.** -/
theorem writes_joined {separator : String} {b : Char} (hseparator : separator.toList = [b])
    (hb : isBlank b = true) {texts : List String} {parts : List (List Item)} (hne : texts ≠ [])
    (h : WritesAll texts parts) : Writes (separator.intercalate texts).toList parts.flatten := by
  induction h with
  | nil => exact absurd rfl hne
  | @cons text items texts parts hfirst hmore ih =>
    cases hmore with
    | nil =>
      rw [String.intercalate_singleton, List.flatten_singleton]
      exact hfirst
    | cons hsecond hmore =>
      have hall := hfirst.blank hb (ih (by simp))
      simpa [String.intercalate_cons_cons, hseparator] using hall

theorem writesAll_map {α : Type} {text : α → String} {items : α → List Item} {xs : List α}
    (h : ∀ x ∈ xs, Writes (text x).toList (items x)) : WritesAll (xs.map text) (xs.map items) := by
  rw [WritesAll, List.forall₂_map_left_iff, List.forall₂_map_right_iff]
  exact List.forall₂_same.mpr h

/-- With a semicolon at the end. -/
theorem Writes.ended {text : List Char} {items : List Item} (h : Writes text items) :
    Writes (text ++ [';']) (items ++ [Symbol.semicolon.item]) :=
  h.append (writes_symbol .semicolon (by decide)) (startsWithout_cons.mpr (by decide))

/-- A condition and the block that it governs. -/
theorem writes_branch (k : Keyword) {cond body : List Char} {items others : List Item}
    (hcond : Writes cond items) (hbody : Writes body others) :
    Writes (k.spelling.toList ++ ' ' :: ('(' :: (cond ++ [')']) ++ ' ' :: body))
      (branchItems k items others) :=
  (writes_keyword k).space ((writes_parens hcond).space hbody)

namespace Variable

variable {v : Variable}

/-- A type and a name. -/
theorem writes_head (type : TypeName) {name : String} (h : IsIdentifier name) :
    Writes (type.spelling ++ " " ++ name).toList [type.keyword.item, nameItem name] := by
  have hhead := (writes_keyword type.keyword).space (writes_name h)
  rw [type.spelling_keyword] at hhead
  simpa using hhead

theorem writes_display (h : v.WellFormed) : Writes v.display.toList v.items := by
  obtain ⟨name, type, initializer⟩ := v
  have hhead := writes_head type h.name
  cases initializer with
  | none => exact hhead
  | some e =>
    have hall := hhead.spaced .assign (Expression.writes_display (h.initializer e rfl))
    simpa [display, items, initializerItems, Symbol.spelling] using hall

theorem writes_print (h : v.WellFormed) : Writes v.print.toList v.printItems := by
  rw [print, printItems, String.toList_append]
  exact (writes_display h).ended

end Variable

mutual
/-- **A statement is written of its items.** -/
theorem Statement.writes_print (s : Statement) (h : s.WellFormed) :
    Writes s.print.toList s.items := by
  match s with
  | .assignment target value =>
    rw [Statement.WellFormed] at h
    have hall := ((writes_name h.1).spaced .assign (Expression.writes_display h.2)).ended
    simpa [Statement.print, Statement.items, Symbol.spelling] using hall
  | .ifElse cond thenBlock elseBlock =>
    rw [Statement.WellFormed] at h
    have hbranch := writes_branch .ifWord (Expression.writes_display h.1)
      (Block.writes_print thenBlock h.2.1)
    have helse := (writes_keyword .elseWord).space (Block.writes_print elseBlock h.2.2)
    have hall := hbranch.space helse
    simpa [Statement.print, Statement.items, Keyword.spelling] using hall
  | .whileLoop cond body =>
    rw [Statement.WellFormed] at h
    have hall := writes_branch .whileWord (Expression.writes_display h.1)
      (Block.writes_print body h.2)
    simpa [Statement.print, Statement.items, Keyword.spelling] using hall
  | .returnValue value =>
    rw [Statement.WellFormed] at h
    have hall := (writes_keyword .returnWord).space (Expression.writes_display h).ended
    simpa [Statement.print, Statement.items, Keyword.spelling] using hall
  | .returnVoid => exact (writes_keyword .returnWord).ended
  | .breakLoop => exact (writes_keyword .breakWord).ended
  | .continueLoop => exact (writes_keyword .continueWord).ended

/-- **A block is written of its items.** -/
theorem Block.writes_print (b : Block) (h : b.WellFormed) : Writes b.print.toList b.items := by
  match b with
  | ⟨locals, statements⟩ =>
    rw [Block.WellFormed] at h
    have hlocals := writesAll_map fun v hv => Variable.writes_print (h.1 v hv)
    have hstatements := Statement.writes_printAll statements h.2
    have hopening := writes_symbol .openBrace (by decide)
    have hclosing : WritesAll [Symbol.closeBrace.spelling] [[Symbol.closeBrace.item]] :=
      .cons (writes_symbol .closeBrace (by decide)) .nil
    have hitems := List.rel_append hlocals (List.rel_append hstatements hclosing)
    have hspace : " ".toList = [' '] := by decide
    have hall := writes_joined hspace (by decide) (by simp) (.cons hopening hitems)
    rw [List.flatten_cons, List.flatten_append, List.flatten_append] at hall
    exact hall

/-- The same for several statements. -/
theorem Statement.writes_printAll (ss : List Statement) (h : Statement.AllWellFormed ss) :
    WritesAll (Statement.printAll ss) (Statement.itemsAll ss) := by
  match ss with
  | [] => exact .nil
  | s :: ss =>
    rw [Statement.AllWellFormed] at h
    exact .cons (Statement.writes_print s h.1) (Statement.writes_printAll ss h.2)
end

/-- The parameters of a well-formed function are well-formed variables. -/
theorem Function.WellFormed.wellFormed_param {f : Function} (h : f.WellFormed) :
    ∀ p ∈ f.params, p.WellFormed := by
  intro p hp
  obtain ⟨hname, hinitializer⟩ := h.params p hp
  refine ⟨hname, fun e he => ?_⟩
  simp [hinitializer] at he

/-- What stands before the body of a function. -/
theorem Function.writes_label {f : Function} (h : f.WellFormed) :
    Writes f.label.toList (f.returnType.keyword.item :: nameItem f.name ::
      parenItems (commaItems (f.params.map Variable.items))) := by
  have hparams := writes_parenthesized fun p hp => Variable.writes_display (h.wellFormed_param p hp)
  have hlabel := (Variable.writes_head f.returnType h.name).append hparams
    (startsWithout_cons.mpr (by decide))
  simpa [label] using hlabel

/-- **A function is written of its items**, however its body is written. -/
theorem Function.writes_body {f : Function} (h : f.WellFormed) {body : List Char}
    (hbody : Writes body f.body.items) : Writes (f.label.toList ++ ' ' :: body) f.items := by
  have hall := (writes_label h).space hbody
  simpa [items] using hall

theorem Function.writes_print {f : Function} (h : f.WellFormed) :
    Writes f.print.toList f.items := by
  have hall := writes_body h (Block.writes_print f.body h.body)
  simpa [print] using hall

/-- **A program is written of its items and no others.** -/
theorem Program.scans_print {p : Program} (h : p.WellFormed) : Scans p.print.toList p.items := by
  obtain ⟨globals, functions⟩ := p
  by_cases hne : globals.map Variable.print ++ functions.map Function.print = []
  · -- Without declarations there is no text either.
    obtain ⟨hglobals, hfunctions⟩ := List.append_eq_nil_iff.mp hne
    obtain rfl := List.map_eq_nil_iff.mp hglobals
    obtain rfl := List.map_eq_nil_iff.mp hfunctions
    exact .nil
  · have hglobals := writesAll_map fun v hv => Variable.writes_print (h.globals v hv)
    have hfunctions := writesAll_map fun f hf => Function.writes_print (h.functions f hf)
    have hline : "\n".toList = ['\n'] := by decide
    have hall := writes_joined hline (by decide) hne (List.rel_append hglobals hfunctions)
    rw [List.flatten_append] at hall
    exact hall.scans_all

end ImpFront
