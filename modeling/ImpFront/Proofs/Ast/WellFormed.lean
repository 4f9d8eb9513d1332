import ImpFront.Ast.Display
import ImpFront.Proofs.Token.Spelling

/-!
# Programs that a source can say

Trees put together by hand may hold what no source can say: names that are no
names, negative constants, parameters with initializers. A **well-formed** tree
holds nothing of the kind. There is no further condition: every other tree is
the meaning of some source.
-/

namespace ImpFront

open Lexer

/-- **A name that a source can contain**: a word that is not reserved. -/
def IsIdentifier (name : String) : Prop :=
  IsWord name.toList ∧ ∀ k : Keyword, name ≠ k.spelling

/-- Such names are what identifiers are spelled like. -/
theorem spells_ident_iff {name : String} :
    Token.ident.Spells name.toList ↔ IsIdentifier name := by
  refine and_congr_right fun _ => ?_
  constructor
  · rintro h k rfl
    rw [Keyword.ofSpelling?_spelling] at h
    simp at h
  · intro h
    refine Option.eq_none_iff_forall_ne_some.mpr fun k hk => ?_
    exact h k (String.toList_inj.mp (Keyword.spelling_of_ofSpelling? hk).symm)

instance : DecidablePred IsWord := fun text =>
  match text with
  | [] => .isFalse (by
    rintro ⟨c, cs, h, -⟩
    simp at h)
  | c :: cs =>
    decidable_of_iff (isWordStart c = true ∧ cs.all isWordPart = true)
      ⟨fun h => ⟨c, cs, rfl, h⟩, by
        rintro ⟨_, _, ⟨⟩, h⟩
        exact h⟩

instance : DecidablePred IsIdentifier := fun name =>
  decidable_of_iff (IsWord name.toList ∧ Keyword.ofSpelling? name.toList = none) spells_ident_iff

example : IsIdentifier "_y2" ∧ ¬ IsIdentifier "2y" ∧ ¬ IsIdentifier "while" := by decide

/-- **An expression that a source can say**: its names are names, and its
constants are not negative. -/
inductive Expression.WellFormed : Expression → Prop
  | binary {left right : Expression} (op : Operator) (hleft : left.WellFormed)
      (hright : right.WellFormed) : WellFormed (.binary left op right)
  | intConstant {value : Int32} (h : 0 ≤ value.toInt) : WellFormed (.intConstant value)
  | boolConstant (value : Bool) : WellFormed (.boolConstant value)
  | location {name : String} (h : IsIdentifier name) : WellFormed (.location name)
  | call {name : String} {args : List Expression} (hname : IsIdentifier name)
      (hargs : ∀ a ∈ args, a.WellFormed) : WellFormed (.call name args)

/-- A variable that a source can say. -/
structure Variable.WellFormed (v : Variable) : Prop where
  /-- Its name is a name. -/
  name : IsIdentifier v.name
  /-- What it starts with can be said. -/
  initializer : ∀ e ∈ v.initializer, e.WellFormed

mutual
/-- **A statement that a source can say.** -/
def Statement.WellFormed : Statement → Prop
  | .assignment target value => IsIdentifier target ∧ value.WellFormed
  | .ifElse cond thenBlock elseBlock =>
    cond.WellFormed ∧ thenBlock.WellFormed ∧ elseBlock.WellFormed
  | .whileLoop cond body => cond.WellFormed ∧ body.WellFormed
  | .returnValue value => value.WellFormed
  | .returnVoid | .breakLoop | .continueLoop => True

/-- **A block that a source can say.** -/
def Block.WellFormed : Block → Prop
  | ⟨locals, statements⟩ =>
    (∀ v ∈ locals, v.WellFormed) ∧ Statement.AllWellFormed statements

/-- The same for several statements. -/
def Statement.AllWellFormed : List Statement → Prop
  | [] => True
  | s :: ss => s.WellFormed ∧ Statement.AllWellFormed ss
end

/-- A function that a source can say; parameters have no initializers. -/
structure Function.WellFormed (f : Function) : Prop where
  /-- Its name is a name. -/
  name : IsIdentifier f.name
  /-- So are the names of its parameters. -/
  params : ∀ p ∈ f.params, IsIdentifier p.name ∧ p.initializer = none
  /-- What it does can be said. -/
  body : f.body.WellFormed

/-- **A program that a source can say.** -/
structure Program.WellFormed (p : Program) : Prop where
  /-- Its variables can be said. -/
  globals : ∀ v ∈ p.globals, v.WellFormed
  /-- Its functions can be said. -/
  functions : ∀ f ∈ p.functions, f.WellFormed

end ImpFront
