import ImpFront.Ast.Outline
import ImpFront.Proofs.Number.Decimal
import ImpFront.Proofs.Token.Spelling

/-!
# The names in a program

Trees may be put together by hand, with any texts for names. `Program.names` lists all
of them, so that one can ask for names that a source can contain.

What follows from this for the outline is that no label has a line break in it
(`Program.fitsLine`): all other text in labels is put there by the program's own
displays, and these have none.
-/

namespace ImpFront

/-! ## All names -/

mutual
/-- **The names in an expression.** -/
def Expression.names : Expression → List String
  | .binary left _ right => left.names ++ right.names
  | .intConstant _ | .boolConstant _ => []
  | .location name => [name]
  | .call name args => name :: Expression.namesAll args

/-- The names in several expressions. -/
def Expression.namesAll : List Expression → List String
  | [] => []
  | e :: es => e.names ++ Expression.namesAll es
end

/-- The name of a variable, and those in its initializer. -/
def Variable.names (v : Variable) : List String :=
  v.name :: v.initializer.toList.flatMap Expression.names

mutual
/-- **The names in a statement.** -/
def Statement.names : Statement → List String
  | .assignment target value => target :: value.names
  | .ifElse cond thenBlock elseBlock => cond.names ++ (thenBlock.names ++ elseBlock.names)
  | .whileLoop cond body => cond.names ++ body.names
  | .returnValue value => value.names
  | .returnVoid | .breakLoop | .continueLoop => []

/-- The names in a block. -/
def Block.names : Block → List String
  | ⟨locals, statements⟩ => locals.flatMap Variable.names ++ Statement.namesAll statements

/-- The names in several statements. -/
def Statement.namesAll : List Statement → List String
  | [] => []
  | s :: ss => s.names ++ Statement.namesAll ss
end

/-- The name of a function, and those in it. -/
def Function.names (f : Function) : List String :=
  f.name :: (f.params.flatMap Variable.names ++ f.body.names)

/-- **The names in a program**, of what it declares and of what it uses. -/
def Program.names (p : Program) : List String :=
  p.globals.flatMap Variable.names ++ p.functions.flatMap Function.names

/-! ## Texts on one line -/

/-- **The text has no line break.** -/
def OneLine (s : String) : Prop := '\n' ∉ s.toList

theorem oneLine_append {s t : String} : OneLine (s ++ t) ↔ OneLine s ∧ OneLine t := by
  simp [OneLine, not_or]

/-- A word has no line break. -/
theorem oneLine_of_isWord {name : String} (h : IsWord name.toList) : OneLine name := by
  obtain ⟨c, cs, hname, hstart, hpart⟩ := h
  unfold OneLine
  rw [hname, List.mem_cons, not_or]
  constructor
  · rintro rfl
    simp [Lexer.isWordStart] at hstart
  · intro hmem
    have := List.all_eq_true.mp hpart _ hmem
    simp [Lexer.isWordPart, Lexer.isWordStart] at this

theorem newline_not_mem_toDigits (n : Nat) : '\n' ∉ Nat.toDigits 10 n := by
  intro hmem
  have := List.all_eq_true.mp (Decimal.toDigits_spec n).2 _ hmem
  simp at this

theorem oneLine_nat (n : Nat) : OneLine (toString n) := by
  show '\n' ∉ (Nat.repr n).toList
  rw [Nat.toList_repr]
  exact newline_not_mem_toDigits n

theorem oneLine_int (n : Int) : OneLine (toString n) := by
  cases n with
  | ofNat m => exact oneLine_nat m
  | negSucc m =>
    unfold OneLine
    rw [Decimal.toList_toString_negSucc, List.mem_cons, not_or]
    exact ⟨by decide, newline_not_mem_toDigits (m + 1)⟩

theorem oneLine_commas {texts : List String} (h : ∀ s ∈ texts, OneLine s) :
    OneLine (", ".intercalate texts) := by
  induction texts with
  | nil => simp [OneLine]
  | cons s texts ih =>
    obtain ⟨hs, htexts⟩ := List.forall_mem_cons.mp h
    cases texts with
    | nil => rwa [String.intercalate_singleton]
    | cons t texts =>
      rw [String.intercalate_cons_cons, oneLine_append, oneLine_append]
      exact ⟨⟨hs, by simp [OneLine]⟩, ih htexts⟩

/-! ## Displays on one line -/

theorem Operator.oneLine_spelling (op : Operator) : OneLine op.spelling := by
  cases op <;> simp [OneLine, spelling]

theorem TypeName.oneLine_spelling (type : TypeName) : OneLine type.spelling := by
  cases type <;> simp [OneLine, spelling]

theorem Expression.oneLine_asOperand {text : String} (e : Expression) (h : OneLine text) :
    OneLine (e.asOperand text) := by
  cases e <;> simp_all [OneLine, asOperand]

mutual
/-- **An expression is written on one line.** -/
theorem Expression.oneLine_display (e : Expression) (h : ∀ n ∈ e.names, OneLine n) :
    OneLine e.display := by
  match e with
  | .binary left op right =>
    rw [Expression.names, List.forall_mem_append] at h
    rw [Expression.display]
    simp only [oneLine_append]
    have hspace : OneLine " " := by simp [OneLine]
    exact ⟨⟨⟨⟨left.oneLine_asOperand (Expression.oneLine_display left h.1), hspace⟩,
      op.oneLine_spelling⟩, hspace⟩, right.oneLine_asOperand (Expression.oneLine_display right h.2)⟩
  | .intConstant value =>
    rw [Expression.display]
    exact oneLine_int _
  | .boolConstant value =>
    cases value <;> simp [OneLine, Expression.display]
  | .location name =>
    rw [Expression.display]
    exact h name (by simp [Expression.names])
  | .call name args =>
    rw [Expression.names, List.forall_mem_cons] at h
    rw [Expression.display]
    simp only [oneLine_append]
    exact ⟨⟨⟨h.1, by simp [OneLine]⟩, oneLine_commas (Expression.oneLine_displayAll args h.2)⟩,
      by simp [OneLine]⟩

/-- The same for several expressions. -/
theorem Expression.oneLine_displayAll (es : List Expression)
    (h : ∀ n ∈ Expression.namesAll es, OneLine n) :
    ∀ text ∈ Expression.displayAll es, OneLine text := by
  match es with
  | [] => simp
  | e :: es =>
    rw [Expression.namesAll, List.forall_mem_append] at h
    rw [Expression.displayAll, List.forall_mem_cons]
    exact ⟨Expression.oneLine_display e h.1, Expression.oneLine_displayAll es h.2⟩
end

theorem Variable.oneLine_display {v : Variable} (h : ∀ n ∈ v.names, OneLine n) :
    OneLine v.display := by
  obtain ⟨name, type, initializer⟩ := v
  have htyped : OneLine (type.spelling ++ " " ++ name) := by
    simp only [oneLine_append]
    exact ⟨⟨type.oneLine_spelling, by simp [OneLine]⟩, h name List.mem_cons_self⟩
  cases initializer with
  | none => exact htyped
  | some e =>
    have he : OneLine e.display :=
      e.oneLine_display fun n hn => h n (List.mem_cons_of_mem _ (by simpa using hn))
    show OneLine (type.spelling ++ " " ++ name ++ " = " ++ e.display)
    rw [oneLine_append, oneLine_append]
    exact ⟨⟨htyped, by simp [OneLine]⟩, he⟩

/-! ## Outlines on lines -/

namespace Outline

theorem preorderAll_eq_flatMap (os : List Outline) : preorderAll os = os.flatMap preorder := by
  induction os with
  | nil => rw [preorderAll, List.flatMap_nil]
  | cons o os ih => rw [preorderAll, List.flatMap_cons, ih]

/-- **What a node says fits on a line**, and it is clear where it begins to say more than
what the node is. -/
structure FitsLine (o : Outline) : Prop where
  /-- What the node is has neither a line break nor a colon. -/
  nodeType : ∀ c ∈ o.nodeType.toList, c ≠ '\n' ∧ c ≠ ':'
  /-- The label has no line break. -/
  label : OneLine o.label

variable {nodeType label display : String} {children os : List Outline}

/-- All nodes of an outline fit on lines if the root does and all others do. -/
theorem fitsLine_node (hroot : FitsLine ⟨nodeType, label, display, children⟩)
    (hchildren : ∀ o ∈ preorderAll children, o.FitsLine) :
    ∀ o ∈ preorder ⟨nodeType, label, display, children⟩, o.FitsLine := by
  rw [preorder, List.forall_mem_cons]
  exact ⟨hroot, hchildren⟩

theorem fitsLine_preorderAll (h : ∀ o ∈ os, ∀ n ∈ o.preorder, n.FitsLine) :
    ∀ o ∈ preorderAll os, o.FitsLine := by
  rw [preorderAll_eq_flatMap, List.forall_mem_flatMap]
  exact h

end Outline

open Outline

mutual
theorem Expression.fitsLine (e : Expression) (h : ∀ n ∈ e.names, OneLine n) :
    ∀ o ∈ e.outline.preorder, o.FitsLine := by
  have hdisplay := e.oneLine_display h
  match e with
  | .binary left op right =>
    rw [Expression.names, List.forall_mem_append] at h
    rw [Expression.outline]
    refine fitsLine_node ⟨by simp [Expression.nodeType], op.oneLine_spelling⟩
      (fitsLine_preorderAll ?_)
    simp only [List.forall_mem_cons]
    exact ⟨Expression.fitsLine left h.1, Expression.fitsLine right h.2, by simp⟩
  | .call name args =>
    rw [Expression.names, List.forall_mem_cons] at h
    rw [Expression.outline]
    refine fitsLine_node ⟨by simp [Expression.nodeType], ?_⟩ (Expression.fitsLine_all args h.2)
    show OneLine (name ++ "/" ++ toString args.length)
    rw [oneLine_append, oneLine_append]
    exact ⟨⟨h.1, by simp [OneLine]⟩, oneLine_nat _⟩
  | .intConstant value =>
    exact fitsLine_node ⟨by simp [Expression.nodeType], hdisplay⟩ (by simp [preorderAll])
  | .boolConstant value =>
    exact fitsLine_node ⟨by simp [Expression.nodeType], hdisplay⟩ (by simp [preorderAll])
  | .location name =>
    exact fitsLine_node ⟨by simp [Expression.nodeType], hdisplay⟩ (by simp [preorderAll])

theorem Expression.fitsLine_all (es : List Expression)
    (h : ∀ n ∈ Expression.namesAll es, OneLine n) :
    ∀ o ∈ preorderAll (Expression.outlineAll es), o.FitsLine := by
  match es with
  | [] => simp [Expression.outlineAll, preorderAll]
  | e :: es =>
    rw [Expression.namesAll, List.forall_mem_append] at h
    rw [Expression.outlineAll, preorderAll, List.forall_mem_append]
    exact ⟨Expression.fitsLine e h.1, Expression.fitsLine_all es h.2⟩
end

theorem Variable.fitsLine (v : Variable) (h : ∀ n ∈ v.names, OneLine n) :
    ∀ o ∈ v.outline.preorder, o.FitsLine := by
  refine fitsLine_node ⟨by simp, v.oneLine_display h⟩ (fitsLine_preorderAll fun o ho => ?_)
  obtain ⟨e, he, rfl⟩ := List.mem_map.mp ho
  exact e.fitsLine fun n hn =>
    h n (List.mem_cons_of_mem _ (List.mem_flatMap_of_mem he hn))

/-- The outlines of several variables. -/
theorem Variable.fitsLine_all (vs : List Variable)
    (h : ∀ n ∈ vs.flatMap Variable.names, OneLine n) :
    ∀ o ∈ vs.map Variable.outline, ∀ n ∈ o.preorder, n.FitsLine := by
  intro o ho
  obtain ⟨v, hv, rfl⟩ := List.mem_map.mp ho
  exact v.fitsLine fun n hn => h n (List.mem_flatMap_of_mem hv hn)

mutual
theorem Statement.fitsLine (s : Statement) (h : ∀ n ∈ s.names, OneLine n) :
    ∀ o ∈ s.outline.preorder, o.FitsLine := by
  match s with
  | .assignment target value =>
    rw [Statement.names, List.forall_mem_cons] at h
    rw [Statement.outline]
    refine fitsLine_node ⟨by simp [Statement.nodeType], ?_⟩ (fitsLine_preorderAll ?_)
    · show OneLine (target ++ " = " ++ value.display)
      rw [oneLine_append, oneLine_append]
      exact ⟨⟨h.1, by simp [OneLine]⟩, value.oneLine_display h.2⟩
    · exact List.forall_mem_singleton.mpr (value.fitsLine h.2)
  | .ifElse cond thenBlock elseBlock =>
    simp only [Statement.names, List.forall_mem_append] at h
    rw [Statement.outline]
    refine fitsLine_node ⟨by simp [Statement.nodeType], cond.oneLine_display h.1⟩
      (fitsLine_preorderAll ?_)
    simp only [List.forall_mem_cons]
    exact ⟨cond.fitsLine h.1, Block.fitsLine thenBlock h.2.1, Block.fitsLine elseBlock h.2.2,
      by simp⟩
  | .whileLoop cond body =>
    rw [Statement.names, List.forall_mem_append] at h
    rw [Statement.outline]
    refine fitsLine_node ⟨by simp [Statement.nodeType], cond.oneLine_display h.1⟩
      (fitsLine_preorderAll ?_)
    simp only [List.forall_mem_cons]
    exact ⟨cond.fitsLine h.1, Block.fitsLine body h.2, by simp⟩
  | .returnValue value =>
    rw [Statement.names] at h
    rw [Statement.outline]
    exact fitsLine_node ⟨by simp [Statement.nodeType], value.oneLine_display h⟩
      (fitsLine_preorderAll (List.forall_mem_singleton.mpr (value.fitsLine h)))
  | .returnVoid | .breakLoop | .continueLoop =>
    exact fitsLine_node ⟨by simp [Statement.nodeType], by simp [Statement.label, OneLine]⟩
      (by simp [preorderAll])

theorem Block.fitsLine (b : Block) (h : ∀ n ∈ b.names, OneLine n) :
    ∀ o ∈ b.outline.preorder, o.FitsLine := by
  match b with
  | ⟨locals, statements⟩ =>
    rw [Block.names, List.forall_mem_append] at h
    rw [Block.outline]
    refine fitsLine_node ⟨by simp, ?_⟩ ?_
    · show OneLine (toString locals.length ++ " locals, " ++ toString statements.length
        ++ " statements")
      simp only [oneLine_append]
      exact ⟨⟨⟨oneLine_nat _, by simp [OneLine]⟩, oneLine_nat _⟩, by simp [OneLine]⟩
    · rw [preorderAll_eq_flatMap, List.flatMap_append, List.forall_mem_append,
        ← preorderAll_eq_flatMap, ← preorderAll_eq_flatMap]
      exact ⟨fitsLine_preorderAll (Variable.fitsLine_all locals h.1),
        Statement.fitsLine_all statements h.2⟩

theorem Statement.fitsLine_all (ss : List Statement)
    (h : ∀ n ∈ Statement.namesAll ss, OneLine n) :
    ∀ o ∈ preorderAll (Statement.outlineAll ss), o.FitsLine := by
  match ss with
  | [] => simp [Statement.outlineAll, preorderAll]
  | s :: ss =>
    rw [Statement.namesAll, List.forall_mem_append] at h
    rw [Statement.outlineAll, preorderAll, List.forall_mem_append]
    exact ⟨Statement.fitsLine s h.1, Statement.fitsLine_all ss h.2⟩
end

theorem Function.fitsLine (f : Function) (h : ∀ n ∈ f.names, OneLine n) :
    ∀ o ∈ f.outline.preorder, o.FitsLine := by
  simp only [Function.names, List.forall_mem_cons, List.forall_mem_append] at h
  obtain ⟨hname, hparams, hbody⟩ := h
  refine fitsLine_node ⟨by simp, ?_⟩ (fitsLine_preorderAll ?_)
  · show OneLine (f.returnType.spelling ++ " " ++ f.name
      ++ "(" ++ ", ".intercalate (f.params.map Variable.display) ++ ")")
    have htexts : ∀ s ∈ f.params.map Variable.display, OneLine s := by
      intro s hs
      obtain ⟨v, hv, rfl⟩ := List.mem_map.mp hs
      exact Variable.oneLine_display fun n hn => hparams n (List.mem_flatMap_of_mem hv hn)
    simp only [oneLine_append]
    exact ⟨⟨⟨⟨⟨f.returnType.oneLine_spelling, by simp [OneLine]⟩, hname⟩, by simp [OneLine]⟩,
      oneLine_commas htexts⟩, by simp [OneLine]⟩
  · rw [List.forall_mem_append]
    exact ⟨Variable.fitsLine_all f.params hparams,
      List.forall_mem_singleton.mpr (f.body.fitsLine hbody)⟩

/-- **All nodes below the root of a program fit on lines**, if no name has a line break. -/
theorem Program.fitsLine (p : Program) (h : ∀ n ∈ p.names, OneLine n) :
    ∀ o ∈ preorderAll p.outline.children, o.FitsLine := by
  rw [Program.names, List.forall_mem_append] at h
  refine fitsLine_preorderAll ?_
  show ∀ o ∈ p.globals.map Variable.outline ++ p.functions.map Function.outline, _
  rw [List.forall_mem_append]
  refine ⟨Variable.fitsLine_all p.globals h.1, fun o ho => ?_⟩
  obtain ⟨f, hf, rfl⟩ := List.mem_map.mp ho
  exact f.fitsLine fun n hn => h.2 n (List.mem_flatMap_of_mem hf hn)

end ImpFront
