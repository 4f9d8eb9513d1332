import ImpFront.Ast.Outline
import ImpFront.Proofs.Number.Decimal
import Mathlib.Data.List.Basic

/-!
# What an outline tells

The outline of a program has a node for each of its parts. What the parts are and
their labels tell everything: programs with the same nodes below each other, displays
aside, are the same (`Program.eq_of_plain`). A label by itself may leave out a lot –
that of a call only counts the arguments – but what it leaves out has nodes of its own,
and these are told apart by what they are: locals from statements, the parameters of a
function from its body, a variable with an initializer from one without.

Nothing needs to be known of the names. They stand in labels with other text around
them, but that is always text known from elsewhere.
-/

namespace ImpFront

/-! ## Two parts of a list -/

/-- **A list is parted in one way** into elements of a kind and a rest that begins with
none of them. -/
theorem append_inj_of_forall {α : Type} {P : α → Prop} {as as' bs bs' : List α}
    (has : ∀ a ∈ as, P a) (has' : ∀ a ∈ as', P a) (hbs : ∀ b ∈ bs.head?, ¬ P b)
    (hbs' : ∀ b ∈ bs'.head?, ¬ P b) (h : as ++ bs = as' ++ bs') : as = as' ∧ bs = bs' := by
  rcases List.append_eq_append_iff.mp h with ⟨cs, rfl, rfl⟩ | ⟨cs, rfl, rfl⟩
  · cases cs with
    | nil => simp
    | cons c cs => exact absurd (has' c (by simp)) (hbs c rfl)
  · cases cs with
    | nil => simp
    | cons c cs => exact absurd (has c (by simp)) (hbs' c rfl)

namespace Outline

/-- **Node by node**: what holds of several outlines together, if it holds of what is below
the first and of the others. -/
theorem forest_induction {motive : List Outline → Prop} (nil : motive [])
    (cons : ∀ nodeType label display children os, motive children → motive os →
      motive (⟨nodeType, label, display, children⟩ :: os)) (os : List Outline) : motive os :=
  match os with
  | [] => nil
  | ⟨_, _, _, children⟩ :: os =>
    cons _ _ _ _ _ (forest_induction nil cons children) (forest_induction nil cons os)

/-! ## Outlines without displays -/

mutual
/-- **The outline without the displays**: what its nodes are, and their labels. -/
def plain : Outline → Outline
  | ⟨nodeType, label, _, children⟩ => ⟨nodeType, label, "", plainAll children⟩

/-- The same for several outlines. -/
def plainAll : List Outline → List Outline
  | [] => []
  | o :: os => o.plain :: plainAll os
end

theorem plainAll_eq_map (os : List Outline) : plainAll os = os.map plain := by
  induction os with
  | nil => rw [plainAll, List.map_nil]
  | cons o os ih => rw [plainAll, List.map_cons, ih]

@[simp] theorem nodeType_plain (o : Outline) : o.plain.nodeType = o.nodeType := by
  cases o
  rw [plain]

/-- Outlines are the same without displays if the nodes are and what is below them. -/
theorem plain_inj {nodeType nodeType' label label' display display' : String}
    {children children' : List Outline} :
    plain ⟨nodeType, label, display, children⟩ = plain ⟨nodeType', label', display', children'⟩
      ↔ nodeType = nodeType' ∧ label = label' ∧ children.map plain = children'.map plain := by
  rw [plain, plain, plainAll_eq_map, plainAll_eq_map]
  simp

end Outline

open Outline

/-! ## Expressions -/

theorem Operator.spelling_injective : Function.Injective Operator.spelling := by
  intro op op' h
  have hread := Operator.ofSpelling?_spelling op
  rw [h, Operator.ofSpelling?_spelling] at hread
  exact (Option.some.inj hread).symm

mutual
/-- **Expressions are told apart by their outlines.** -/
theorem Expression.eq_of_plain (e e' : Expression) (h : e.outline.plain = e'.outline.plain) :
    e = e' := by
  match e with
  | .binary left op right =>
    cases e' with
    | binary left' op' right' =>
      simp only [Expression.outline, plain_inj, Expression.label, List.map_cons, List.map_nil,
        List.cons.injEq] at h
      obtain ⟨-, hop, hleft, hright, -⟩ := h
      rw [Expression.eq_of_plain left left' hleft, Operator.spelling_injective hop,
        Expression.eq_of_plain right right' hright]
    | _ => simp [Expression.outline, plain_inj, Expression.nodeType] at h
  | .intConstant value =>
    cases e' with
    | intConstant value' =>
      simp only [Expression.outline, plain_inj, Expression.label, Expression.display] at h
      rw [Int32.toInt_inj.mp (Decimal.toString_injective h.2.1)]
    | _ => simp [Expression.outline, plain_inj, Expression.nodeType] at h
  | .boolConstant value =>
    cases e' with
    | boolConstant value' =>
      cases value <;> cases value' <;>
        simp [Expression.outline, plain_inj, Expression.label, Expression.display] at h ⊢
    | _ => simp [Expression.outline, plain_inj, Expression.nodeType] at h
  | .location name =>
    cases e' with
    | location name' =>
      simp only [Expression.outline, plain_inj, Expression.label, Expression.display] at h
      rw [h.2.1]
    | _ => simp [Expression.outline, plain_inj, Expression.nodeType] at h
  | .call name args =>
    cases e' with
    | call name' args' =>
      simp only [Expression.outline, plain_inj, Expression.label, ← plainAll_eq_map] at h
      obtain ⟨-, hlabel, hargs⟩ := h
      -- The number of the arguments is known, and so is the end of the label.
      obtain rfl := Expression.eq_of_plainAll args args' hargs
      rw [(String.append_left_inj _).mp ((String.append_left_inj _).mp hlabel)]
    | _ => simp [Expression.outline, plain_inj, Expression.nodeType] at h

/-- The same for several expressions. -/
theorem Expression.eq_of_plainAll (es es' : List Expression)
    (h : plainAll (Expression.outlineAll es) = plainAll (Expression.outlineAll es')) :
    es = es' := by
  match es, es' with
  | [], [] => rfl
  | [], e' :: es' => simp [Expression.outlineAll, plainAll] at h
  | e :: es, [] => simp [Expression.outlineAll, plainAll] at h
  | e :: es, e' :: es' =>
    simp only [Expression.outlineAll, plainAll, List.cons.injEq] at h
    rw [Expression.eq_of_plain e e' h.1, Expression.eq_of_plainAll es es' h.2]
end

/-! ## Variables -/

/-- A type and a name, with a blank between them. -/
theorem eq_of_typed {type type' : TypeName} {name name' : String}
    (h : type.spelling ++ " " ++ name = type'.spelling ++ " " ++ name') :
    type = type' ∧ name = name' := by
  have htype : type = type' := by
    cases type <;> cases type' <;>
      first | rfl | simp [TypeName.spelling, ← String.toList_inj] at h
  subst htype
  exact ⟨rfl, (String.append_right_inj _).mp h⟩

/-- **Variables are told apart by their outlines.** -/
theorem Variable.plain_injective : Function.Injective fun v : Variable => v.outline.plain := by
  rintro ⟨name, type, initializer⟩ ⟨name', type', initializer'⟩ h
  obtain ⟨-, hlabel, hchildren⟩ := plain_inj.mp h
  have hinitializer : initializer = initializer' := by
    cases initializer <;> cases initializer' <;> simp at hchildren
    · rfl
    · rw [Expression.eq_of_plain _ _ hchildren]
  subst hinitializer
  have htyped : type.spelling ++ " " ++ name = type'.spelling ++ " " ++ name' := by
    cases initializer with
    | none => exact hlabel
    | some e => exact (String.append_left_inj _).mp ((String.append_left_inj _).mp hlabel)
  obtain ⟨rfl, rfl⟩ := eq_of_typed htyped
  rfl

/-! ## Statements and blocks -/

/-- **Variables come first**: where they are followed by something else, or by nothing,
both parts are told apart. -/
theorem eq_of_variables {vs vs' : List Variable} {os os' : List Outline}
    (hos : ∀ o ∈ os, o.nodeType ≠ "Variable") (hos' : ∀ o ∈ os', o.nodeType ≠ "Variable")
    (h : (vs.map Variable.outline ++ os).map plain = (vs'.map Variable.outline ++ os').map plain) :
    vs = vs' ∧ os.map plain = os'.map plain := by
  have hvariables (vs : List Variable) :
      ∀ o ∈ vs.map fun v => v.outline.plain, o.nodeType = "Variable" := by
    intro o ho
    obtain ⟨v, -, rfl⟩ := List.mem_map.mp ho
    exact nodeType_plain _
  have hothers {os : List Outline} (hos : ∀ o ∈ os, o.nodeType ≠ "Variable") :
      ∀ o ∈ (os.map plain).head?, ¬ o.nodeType = "Variable" := by
    intro o ho
    obtain ⟨o, hmem, rfl⟩ := List.mem_map.mp (List.mem_of_mem_head? ho)
    rw [nodeType_plain]
    exact hos o hmem
  rw [List.map_append, List.map_append, List.map_map, List.map_map] at h
  obtain ⟨hvs, hrest⟩ := append_inj_of_forall (hvariables vs) (hvariables vs') (hothers hos)
    (hothers hos') h
  exact ⟨List.map_injective_iff.mpr Variable.plain_injective hvs, hrest⟩

theorem Statement.nodeType_outline (s : Statement) : s.outline.nodeType = s.nodeType := by
  cases s <;> rfl

/-- A statement is not a variable. -/
theorem Statement.nodeType_ne (ss : List Statement) :
    ∀ o ∈ outlineAll ss, o.nodeType ≠ "Variable" := by
  induction ss with
  | nil => simp [outlineAll]
  | cons s ss ih =>
    rw [outlineAll, List.forall_mem_cons, nodeType_outline]
    exact ⟨by cases s <;> simp [nodeType], ih⟩

mutual
/-- **Statements are told apart by their outlines.** -/
theorem Statement.eq_of_plain (s s' : Statement) (h : s.outline.plain = s'.outline.plain) :
    s = s' := by
  have htype : s.nodeType = s'.nodeType := by
    rw [← s.nodeType_outline, ← s'.nodeType_outline, ← nodeType_plain, h, nodeType_plain]
  match s with
  | .assignment target value =>
    cases s' with
    | assignment target' value' =>
      simp only [Statement.outline, plain_inj, Statement.label, List.map_cons, List.map_nil,
        List.cons.injEq] at h
      obtain ⟨-, hlabel, hvalue, -⟩ := h
      obtain rfl := Expression.eq_of_plain value value' hvalue
      rw [(String.append_left_inj _).mp ((String.append_left_inj _).mp hlabel)]
    | _ => simp [Statement.nodeType] at htype
  | .ifElse cond thenBlock elseBlock =>
    cases s' with
    | ifElse cond' thenBlock' elseBlock' =>
      simp only [Statement.outline, plain_inj, List.map_cons, List.map_nil, List.cons.injEq] at h
      obtain ⟨-, -, hcond, hthen, helse, -⟩ := h
      rw [Expression.eq_of_plain cond cond' hcond, Block.eq_of_plain thenBlock thenBlock' hthen,
        Block.eq_of_plain elseBlock elseBlock' helse]
    | _ => simp [Statement.nodeType] at htype
  | .whileLoop cond body =>
    cases s' with
    | whileLoop cond' body' =>
      simp only [Statement.outline, plain_inj, List.map_cons, List.map_nil, List.cons.injEq] at h
      obtain ⟨-, -, hcond, hbody, -⟩ := h
      rw [Expression.eq_of_plain cond cond' hcond, Block.eq_of_plain body body' hbody]
    | _ => simp [Statement.nodeType] at htype
  | .returnValue value =>
    cases s' with
    | returnValue value' =>
      simp only [Statement.outline, plain_inj, List.map_cons, List.map_nil, List.cons.injEq] at h
      obtain ⟨-, -, hvalue, -⟩ := h
      rw [Expression.eq_of_plain value value' hvalue]
    | _ => simp [Statement.nodeType] at htype
  | .returnVoid => cases s' <;> first | rfl | simp [Statement.nodeType] at htype
  | .breakLoop => cases s' <;> first | rfl | simp [Statement.nodeType] at htype
  | .continueLoop => cases s' <;> first | rfl | simp [Statement.nodeType] at htype

/-- **Blocks are told apart by their outlines.** -/
theorem Block.eq_of_plain (b b' : Block) (h : b.outline.plain = b'.outline.plain) : b = b' := by
  match b, b' with
  | ⟨locals, statements⟩, ⟨locals', statements'⟩ =>
    rw [Block.outline, Block.outline] at h
    obtain ⟨-, -, hchildren⟩ := plain_inj.mp h
    obtain ⟨rfl, hstatements⟩ := eq_of_variables (Statement.nodeType_ne statements)
      (Statement.nodeType_ne statements') hchildren
    rw [← plainAll_eq_map, ← plainAll_eq_map] at hstatements
    rw [Statement.eq_of_plainAll statements statements' hstatements]

/-- The same for several statements. -/
theorem Statement.eq_of_plainAll (ss ss' : List Statement)
    (h : plainAll (Statement.outlineAll ss) = plainAll (Statement.outlineAll ss')) : ss = ss' := by
  match ss, ss' with
  | [], [] => rfl
  | [], s' :: ss' => simp [Statement.outlineAll, plainAll] at h
  | s :: ss, [] => simp [Statement.outlineAll, plainAll] at h
  | s :: ss, s' :: ss' =>
    simp only [Statement.outlineAll, plainAll, List.cons.injEq] at h
    rw [Statement.eq_of_plain s s' h.1, Statement.eq_of_plainAll ss ss' h.2]
end

/-! ## Functions and programs -/

theorem Block.nodeType_outline (b : Block) : b.outline.nodeType = "Block" := by
  cases b
  rw [outline]

/-- **Functions are told apart by their outlines.** -/
theorem Function.plain_injective : Function.Injective fun f : Function => f.outline.plain := by
  rintro ⟨returnType, name, params, body⟩ ⟨returnType', name', params', body'⟩ h
  obtain ⟨-, hlabel, hchildren⟩ := plain_inj.mp h
  have hblock (b : Block) : ∀ o ∈ [b.outline], o.nodeType ≠ "Variable" := by
    simp [Block.nodeType_outline]
  obtain ⟨rfl, hbody⟩ := eq_of_variables (hblock body) (hblock body') hchildren
  obtain rfl := Block.eq_of_plain body body' (List.singleton_inj.mp hbody)
  -- The parameters are known, and so is everything behind the name.
  have htyped := (String.append_left_inj _).mp ((String.append_left_inj _).mp
    ((String.append_left_inj _).mp hlabel))
  obtain ⟨rfl, rfl⟩ := eq_of_typed htyped
  rfl

/-- **Programs are told apart by what is below the roots of their outlines**: what the
nodes there are, and their labels. -/
theorem Program.eq_of_plain {p p' : Program}
    (h : p.outline.children.map plain = p'.outline.children.map plain) : p = p' := by
  obtain ⟨globals, functions⟩ := p
  obtain ⟨globals', functions'⟩ := p'
  have hnot (fs : List Function) : ∀ o ∈ fs.map Function.outline, o.nodeType ≠ "Variable" := by
    simp [Function.outline]
  obtain ⟨rfl, hfunctions⟩ := eq_of_variables (hnot functions) (hnot functions') h
  rw [List.map_map, List.map_map] at hfunctions
  rw [List.map_injective_iff.mpr Function.plain_injective hfunctions]

end ImpFront
