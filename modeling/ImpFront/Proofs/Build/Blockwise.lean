import ImpFront.Proofs.Build.Lookups
import Mathlib.Data.List.Basic

/-!
# Changes inside of blocks

Two sorts of nodes sort their children, blocks and programs; all others look them up. A
change of trees is **blockwise** if it is only there, or only at one of the two, that it does
anything to the list of children: every other node keeps its kind, its span, its text and its
children, each of them changed in its turn. Whatever such a change does, lookups find the
changed children where they found the children before, and what has no blocks in it means the
same (`Blockwise.expression_eq`, `Blockwise.variable_eq`).

What becomes of code depends on what becomes of blocks. How results are compared is left
open, since not every change keeps the errors: all that is needed of a `Comparison` is that
steps which compare, one after another, compare. Under any of them, if the items of each
block compare with what they were, so do statements, blocks and functions
(`Blockwise.code`, `Blockwise.function`).
-/

namespace ImpFront

open SyntaxTree

/-- Whether a node of this kind sorts its children. -/
def NodeKind.sorts : NodeKind → Bool
  | .program | .block => true
  | _ => false

/-- **A change of trees inside of blocks** and programs, at nodes of certain kinds. -/
structure SyntaxTree.Blockwise (changes : NodeKind → Bool) (g : SyntaxTree → SyntaxTree) :
    Prop where
  /-- Nodes that look their children up are not among these. -/
  keeps : ∀ kind : NodeKind, kind.sorts = false → changes kind = false
  kind : ∀ t, (g t).kind = t.kind
  span : ∀ t, (g t).span = t.span
  text : ∀ t, (g t).text = t.text
  /-- Elsewhere, children are changed one by one. -/
  children : ∀ t, changes t.kind = false → (g t).children = t.children.map g

/-- **A way to compare results** that goes along with steps. -/
structure Comparison where
  /-- The results compare. -/
  rel : ∀ {α : Type}, Except BuildError α → Except BuildError α → Prop
  refl : ∀ {α : Type} (x : Except BuildError α), rel x x
  bind : ∀ {α β : Type} {x y : Except BuildError α} {f f' : α → Except BuildError β},
    rel x y → (∀ a, rel (f a) (f' a)) → rel (x >>= f) (y >>= f')

namespace Comparison

/-- Results that are the same, errors included. -/
def exact : Comparison where
  rel := Eq
  refl _ := rfl
  bind h hf := by rw [h, funext hf]

variable (R : Comparison) {α β : Type} {x y : Except BuildError α}

theorem map (h : R.rel x y) (f : α → β) :
    R.rel (do let a ← x; return f a) (do let a ← y; return f a) :=
  R.bind h fun _ => R.refl _

/-- A step that succeeds with the same value first. -/
theorem bind_congr (x : Except BuildError α) {f f' : α → Except BuildError β}
    (h : ∀ a, R.rel (f a) (f' a)) : R.rel (x >>= f) (x >>= f') :=
  R.bind (R.refl x) h

/-- A node is looked at only if it is of the right kind. -/
theorem expectKind {t : SyntaxTree} {kind : NodeKind} {role : NodeRole}
    (h : t.kind = kind → R.rel x y) :
    R.rel (t.expectKind kind role >>= fun _ => x) (t.expectKind kind role >>= fun _ => y) := by
  unfold SyntaxTree.expectKind
  by_cases hkind : t.kind = kind
  · rw [if_pos hkind]
    exact h hkind
  · rw [if_neg hkind]
    exact R.refl _

end Comparison

namespace SyntaxTree.Blockwise

variable {changes : NodeKind → Bool} {g : SyntaxTree → SyntaxTree} (hg : Blockwise changes g)
  {t : SyntaxTree}
include hg

theorem missing (t : SyntaxTree) (role : ChildRole) : (g t).missing role = t.missing role := by
  simp [SyntaxTree.missing, hg.kind, hg.span]

theorem unexpected (t : SyntaxTree) (role : NodeRole) :
    (g t).unexpected role = t.unexpected role := by
  simp [SyntaxTree.unexpected, hg.kind, hg.span, hg.text]

theorem expectKind (t : SyntaxTree) (kind : NodeKind) (role : NodeRole) :
    (g t).expectKind kind role = t.expectKind kind role := by
  simp [SyntaxTree.expectKind, hg.kind, hg.unexpected]

/-! ## Lookups -/

theorem find? (p : NodeKind → Bool) (ts : List SyntaxTree) :
    (ts.map g).find? (fun c => p c.kind) = (ts.find? fun c => p c.kind).map g := by
  rw [List.find?_map]
  congr 2
  funext c
  rw [Function.comp, hg.kind]

theorem child? (h : changes t.kind = false) (kind : NodeKind) :
    (g t).child? kind = (t.child? kind).map g := by
  unfold SyntaxTree.child?
  rw [hg.children t h]
  exact hg.find? (· = kind) t.children

theorem expressionChild? (h : changes t.kind = false) :
    (g t).expressionChild? = t.expressionChild?.map g := by
  unfold SyntaxTree.expressionChild?
  rw [hg.children t h]
  exact hg.find? NodeKind.isExpression t.children

section Steps

variable (R : Comparison) {α : Type} {f f' : SyntaxTree → Except BuildError α}
  (h : changes t.kind = false) (hf : ∀ c ∈ t.children, R.rel (f (g c)) (f' c))
include h hf

/-- What is done with a child that is looked up can be done with the changed child. -/
theorem need (kind : NodeKind) (role : ChildRole) :
    R.rel ((g t).need kind role >>= f) (t.need kind role >>= f') := by
  unfold SyntaxTree.need
  rw [hg.child? h, hg.missing]
  cases hc : t.child? kind with
  | none => exact R.refl _
  | some c => exact hf c (mem_of_child? hc)

theorem needExpression (role : ChildRole) :
    R.rel ((g t).needExpression role >>= f) (t.needExpression role >>= f') := by
  unfold SyntaxTree.needExpression
  rw [hg.expressionChild? h, hg.missing]
  cases hc : t.expressionChild? with
  | none => exact R.refl _
  | some c => exact hf c (mem_of_expressionChild? hc)

theorem needNth (index : Nat) (role : ChildRole) :
    R.rel ((g t).needNth index role >>= f) (t.needNth index role >>= f') := by
  unfold SyntaxTree.needNth
  rw [hg.children t h, List.getElem?_map, hg.missing]
  cases hc : t.children[index]? with
  | none => exact R.refl _
  | some c => exact hf c (List.mem_of_getElem? hc)

end Steps

/-- The children of a list of the tree, which may lack it. -/
theorem childrenIn {kind : NodeKind} (h : changes t.kind = false) (hkind : kind.sorts = false) :
    (g t).childrenIn kind = (t.childrenIn kind).map g := by
  unfold SyntaxTree.childrenIn
  rw [hg.child? h]
  cases hlist : t.child? kind with
  | none => rfl
  | some list => exact hg.children list (hg.keeps _ (by rw [kind_of_child? hlist, hkind]))

/-! ## Expressions and declarations -/

theorem operator_eq (t : SyntaxTree) : Operator.ofTree (g t) = Operator.ofTree t := by
  unfold Operator.ofTree
  simp only [hg.expectKind, hg.text, hg.span]

theorem int_eq (t : SyntaxTree) : intOfTree (g t) = intOfTree t := by
  unfold intOfTree
  simp only [hg.text, hg.span]

theorem bool_eq (t : SyntaxTree) : boolOfTree (g t) = boolOfTree t := by
  unfold boolOfTree
  simp only [hg.text, hg.span]

omit hg in
theorem expressions_eq {ts : List SyntaxTree}
    (h : ∀ t ∈ ts, Expression.ofTree (g t) = Expression.ofTree t) :
    Expression.ofTrees (ts.map g) = Expression.ofTrees ts := by
  induction ts with
  | nil => rfl
  | cons t ts ih =>
    obtain ⟨ht, hts⟩ := List.forall_mem_cons.mp h
    rw [List.map_cons, Expression.ofTrees_cons, Expression.ofTrees_cons, ht, ih hts]

/-- **An expression means the same**, even if there are blocks in it: no builder looks
there. -/
theorem expression_eq (t : SyntaxTree) : Expression.ofTree (g t) = Expression.ofTree t := by
  -- The arguments of a call are found two levels down.
  suffices h : Expression.ofTree (g t) = Expression.ofTree t
      ∧ ∀ c ∈ t.children, Expression.ofTree (g c) = Expression.ofTree c from h.1
  induction t using SyntaxTree.induction with
  | node t ih =>
    refine ⟨?_, fun c hc => (ih c hc).1⟩
    rw [Expression.ofTree_eq, Expression.ofTree_eq, hg.kind]
    split <;> rename_i hkind
    · have hkeeps : changes t.kind = false := hg.keeps _ (by rw [hkind]; rfl)
      refine hg.needNth .exact hkeeps (fun left hleft => ?_) _ _
      rw [(ih left hleft).1]
      refine bind_congr fun _ => hg.needNth .exact hkeeps (fun op _ => ?_) _ _
      rw [hg.operator_eq]
      refine bind_congr fun _ => hg.needNth .exact hkeeps (fun right hright => ?_) _ _
      rw [(ih right hright).1]
      exact Comparison.exact.refl _
    · have hkeeps : changes t.kind = false := hg.keeps _ (by rw [hkind]; rfl)
      have hargs : Expression.ofTrees ((t.childrenIn .argList).map g)
          = Expression.ofTrees (t.childrenIn .argList) := by
        refine expressions_eq fun c hc => ?_
        unfold SyntaxTree.childrenIn at hc
        cases hlist : t.child? .argList with
        | none => simp [hlist] at hc
        | some list => exact (ih list (mem_of_child? hlist)).2 c (by simpa [hlist] using hc)
      rw [hg.childrenIn hkeeps rfl, hargs]
      refine hg.need .exact hkeeps (fun name _ => ?_) _ _
      rw [hg.text]
      exact Comparison.exact.refl _
    · rw [hg.int_eq]
    · rw [hg.bool_eq]
    · exact hg.needExpression .exact (hg.keeps _ (by rw [hkind]; rfl)) (fun c hc => (ih c hc).1) _
    · refine hg.need .exact (hg.keeps _ (by rw [hkind]; rfl)) (fun name _ => ?_) _ _
      rw [hg.text]
      exact Comparison.exact.refl _
    · rw [hg.text]
    · rw [hg.unexpected]

theorem typeName_eq (t : SyntaxTree) : TypeName.ofTree (g t) = TypeName.ofTree t := by
  have hword (word : SyntaxTree) : TypeName.ofWord (g word) = TypeName.ofWord word := by
    unfold TypeName.ofWord
    simp only [hg.kind, hg.text, hg.span]
  rw [TypeName.ofTree_eq, TypeName.ofTree_eq, hg.kind]
  by_cases hkind : t.kind = .type
  · rw [if_pos hkind, if_pos hkind]
    exact hg.needNth .exact (hg.keeps _ (by rw [hkind]; rfl)) (fun word _ => hword word) _ _
  · rw [if_neg hkind, if_neg hkind]
    exact hword t

/-- A type and a name are read off the children. -/
theorem typed (R : Comparison) {α : Type} {f f' : TypeName → SyntaxTree → Except BuildError α}
    (h : changes t.kind = false) (hf : ∀ type name, R.rel (f type (g name)) (f' type name))
    (typeRole nameRole : ChildRole) :
    R.rel
      (do
        let type ← TypeName.ofTree (← (g t).need .type typeRole)
        let name ← (g t).need .ident nameRole
        f type name)
      (do
        let type ← TypeName.ofTree (← t.need .type typeRole)
        let name ← t.need .ident nameRole
        f' type name) := by
  refine hg.need R h (fun type _ => ?_) _ _
  rw [hg.typeName_eq]
  exact R.bind_congr _ fun type => hg.need R h (fun name _ => hf type name) _ _

theorem param_eq (t : SyntaxTree) : Variable.ofParamTree (g t) = Variable.ofParamTree t := by
  unfold Variable.ofParamTree
  rw [hg.expectKind, Variable.headOfTree_eq, Variable.headOfTree_eq]
  refine Comparison.exact.expectKind fun hkind => ?_
  refine hg.typed .exact (hg.keeps _ (by rw [hkind]; rfl)) (fun type name => ?_) _ _
  rw [hg.text]
  exact Comparison.exact.refl _

/-- **A variable** means the same. -/
theorem variable_eq (keep : Bool) (t : SyntaxTree) :
    Variable.ofTree keep (g t) = Variable.ofTree keep t := by
  rw [Variable.ofTree_eq, Variable.ofTree_eq, hg.expectKind]
  refine Comparison.exact.expectKind fun hkind => ?_
  have hkeeps : changes t.kind = false := hg.keeps _ (by rw [hkind]; rfl)
  have hinit : Variable.initializerOfTree (g t) = Variable.initializerOfTree t := by
    unfold Variable.initializerOfTree
    rw [hg.expressionChild? hkeeps]
    cases t.expressionChild? with
    | none => rfl
    | some e => rw [Option.map_some, Option.elim, Option.elim, hg.expression_eq]
  rw [hinit]
  refine hg.typed .exact hkeeps (fun type name => ?_) _ _
  rw [hg.text]
  exact Comparison.exact.refl _

/-! ## Code -/

end SyntaxTree.Blockwise

/-- **The code of a tree compares**: what the builders make of the changed tree, with what
they make of the tree, possibly under another policy. Children are only looked up where they
are not sorted. -/
structure CodeCompares (R : Comparison) (changes : NodeKind → Bool) (g : SyntaxTree → SyntaxTree)
    (policy policy' : LocalInitializers) (t : SyntaxTree) : Prop where
  statement : R.rel (Statement.ofTree policy (g t)) (Statement.ofTree policy' t)
  block : R.rel (Block.ofTree policy (g t)) (Block.ofTree policy' t)
  branch : changes t.kind = false → ∀ role,
    R.rel (Statement.branchOfTree policy role (g t)) (Statement.branchOfTree policy' role t)
  elseBlock : changes t.kind = false →
    R.rel (Block.ofElseTree policy (g t)) (Block.ofElseTree policy' t)

namespace SyntaxTree.Blockwise

variable {R : Comparison} {changes : NodeKind → Bool} {g : SyntaxTree → SyntaxTree}
  {policy policy' : LocalInitializers} (hg : Blockwise changes g)
include hg

theorem clauses {ts : List SyntaxTree} (h : ∀ t ∈ ts, CodeCompares R changes g policy policy' t) :
    R.rel (Statement.clausesOfTrees policy (ts.map g))
      (Statement.clausesOfTrees policy' ts) := by
  induction ts with
  | nil =>
    rw [List.map_nil, Statement.clausesOfTrees_nil, Statement.clausesOfTrees_nil]
    exact R.refl _
  | cons t ts ih =>
    obtain ⟨ht, hts⟩ := List.forall_mem_cons.mp h
    rw [List.map_cons]
    by_cases hkind : t.kind = .elseIfClause
    · rw [Statement.clausesOfTrees_cons_of_eq (by rw [hg.kind, hkind]),
        Statement.clausesOfTrees_cons_of_eq hkind]
      exact R.bind (ht.branch (hg.keeps _ (by rw [hkind]; rfl)) _) fun clause => R.map (ih hts) _
    · rw [Statement.clausesOfTrees_cons_of_ne (by rwa [hg.kind]),
        Statement.clausesOfTrees_cons_of_ne hkind]
      exact ih hts

section Node

variable {t : SyntaxTree} (hkeeps : changes t.kind = false)
  (h : ∀ c ∈ t.children, CodeCompares R changes g policy policy' c)
include hkeeps h

/-- A condition and its block are children. -/
theorem branch (role : ChildRole) :
    R.rel (Statement.branchOfTree policy role (g t))
      (Statement.branchOfTree policy' role t) := by
  rw [Statement.branchOfTree_eq, Statement.branchOfTree_eq]
  refine hg.needExpression R hkeeps (fun cond _ => ?_) _
  rw [hg.expression_eq]
  refine R.bind_congr _ fun cond => hg.need R hkeeps (fun body hbody => ?_) _ _
  exact R.map (h body hbody).block _

/-- The last block of a conditional may be missing. -/
theorem lastBlock :
    R.rel (((g t).child? .elseClause).elim (.ok .empty) (Block.ofElseTree policy))
      ((t.child? .elseClause).elim (.ok .empty) (Block.ofElseTree policy')) := by
  rw [hg.child? hkeeps]
  cases hclause : t.child? .elseClause with
  | none => exact R.refl _
  | some clause =>
    exact (h clause (mem_of_child? hclause)).elseBlock
      (hg.keeps _ (by rw [kind_of_child? hclause]; rfl))

end Node

variable (hitems : ∀ t : SyntaxTree, t.kind = .block →
  (∀ c ∈ t.children, CodeCompares R changes g policy policy' c) →
    R.rel (Block.ofTrees policy (g t).children) (Block.ofTrees policy' t.children))
include hitems

/-- **Code compares if the items of blocks do.** -/
theorem code (t : SyntaxTree) : CodeCompares R changes g policy policy' t := by
  induction t using SyntaxTree.induction with
  | node t ih =>
    refine ⟨?_, ?_, fun hkeeps => hg.branch hkeeps ih, fun hkeeps => ?_⟩
    · rw [Statement.ofTree_eq, Statement.ofTree_eq, hg.kind]
      split <;> rename_i hkind
      · have hkeeps : changes t.kind = false := hg.keeps _ (by rw [hkind]; rfl)
        refine hg.need R hkeeps (fun target _ => ?_) _ _
        rw [hg.text]
        refine hg.needExpression R hkeeps (fun value _ => ?_) _
        rw [hg.expression_eq]
        exact R.refl _
      · have hkeeps : changes t.kind = false := hg.keeps _ (by rw [hkind]; rfl)
        rw [hg.children t hkeeps]
        refine R.bind (hg.branch hkeeps ih _) fun branch => ?_
        exact R.bind (hg.clauses ih) fun clauses => R.map (hg.lastBlock hkeeps ih) _
      · exact R.map (hg.branch (hg.keeps _ (by rw [hkind]; rfl)) ih _) _
      · rw [hg.expressionChild? (hg.keeps _ (by rw [hkind]; rfl))]
        cases t.expressionChild? with
        | none => exact R.refl _
        | some value =>
          rw [Option.map_some, Option.elim, Option.elim, hg.expression_eq]
          exact R.refl _
      · exact R.refl _
      · exact R.refl _
      · rw [hg.unexpected]
        exact R.refl _
    · rw [Block.ofTree_eq, Block.ofTree_eq, hg.expectKind]
      exact R.expectKind fun hkind => hitems t hkind ih
    · exact hg.need R hkeeps (fun body hbody => (ih body hbody).block) _ _

/-- **A function compares** if the items of blocks do. -/
theorem function (t : SyntaxTree) :
    R.rel (Function.ofTree policy (g t)) (Function.ofTree policy' t) := by
  rw [Function.ofTree_eq, Function.ofTree_eq, hg.expectKind]
  refine R.expectKind fun hkind => ?_
  have hkeeps : changes t.kind = false := hg.keeps _ (by rw [hkind]; rfl)
  have hparams : ((g t).childrenIn .paramList).mapM Variable.ofParamTree
      = (t.childrenIn .paramList).mapM Variable.ofParamTree := by
    rw [hg.childrenIn hkeeps rfl, List.mapM_map]
    congr 1
    funext t
    exact hg.param_eq t
  rw [hparams]
  refine hg.typed R hkeeps (fun type name => ?_) _ _
  rw [hg.text]
  refine R.bind_congr _ fun params => hg.need R hkeeps (fun body _ => ?_) _ _
  exact R.map (hg.code hitems body).block _

end SyntaxTree.Blockwise

end ImpFront
