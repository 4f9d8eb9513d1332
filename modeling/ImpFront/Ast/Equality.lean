import ImpFront.Ast.Basic

/-!
# Equality of programs

Programs are finite trees, so equality is decidable. `same` compares two trees
node by node, and `same_iff` says that it finds exactly the equal ones.
-/

namespace ImpFront

namespace Expression

mutual
/-- Compares two expressions node by node. -/
def same : Expression → Expression → Bool
  | .binary l o r, .binary l' o' r' => l.same l' && decide (o = o') && r.same r'
  | .intConstant n, .intConstant n' => decide (n = n')
  | .boolConstant b, .boolConstant b' => decide (b = b')
  | .location x, .location x' => decide (x = x')
  | .call f args, .call f' args' => decide (f = f') && sameAll args args'
  | _, _ => false

/-- Compares two lists of expressions. -/
def sameAll : List Expression → List Expression → Bool
  | [], [] => true
  | e :: es, e' :: es' => e.same e' && sameAll es es'
  | _, _ => false
end

mutual
theorem same_iff (a b : Expression) : a.same b = true ↔ a = b := by
  match a, b with
  | .binary l o r, b => cases b <;> simp [same, same_iff l, same_iff r, and_assoc]
  | .intConstant n, b => cases b <;> simp [same]
  | .boolConstant n, b => cases b <;> simp [same]
  | .location x, b => cases b <;> simp [same]
  | .call f args, b => cases b <;> simp [same, sameAll_iff args]

theorem sameAll_iff (as bs : List Expression) : sameAll as bs = true ↔ as = bs := by
  match as, bs with
  | [], bs => cases bs <;> simp [sameAll]
  | a :: as, bs => cases bs <;> simp [sameAll, same_iff a, sameAll_iff as]
end

end Expression

instance : DecidableEq Expression := fun a b =>
  decidable_of_iff (a.same b = true) (Expression.same_iff a b)

deriving instance DecidableEq for Variable

mutual
/-- Compares two statements node by node. -/
def Statement.same : Statement → Statement → Bool
  | .assignment x v, .assignment x' v' => decide (x = x') && decide (v = v')
  | .ifElse c a b, .ifElse c' a' b' => decide (c = c') && a.same a' && b.same b'
  | .whileLoop c b, .whileLoop c' b' => decide (c = c') && b.same b'
  | .returnValue v, .returnValue v' => decide (v = v')
  | .returnVoid, .returnVoid => true
  | .breakLoop, .breakLoop => true
  | .continueLoop, .continueLoop => true
  | _, _ => false

/-- Compares two blocks. -/
def Block.same : Block → Block → Bool
  | ⟨ls, ss⟩, ⟨ls', ss'⟩ => decide (ls = ls') && Statement.sameAll ss ss'

/-- Compares two lists of statements. -/
def Statement.sameAll : List Statement → List Statement → Bool
  | [], [] => true
  | s :: ss, s' :: ss' => s.same s' && Statement.sameAll ss ss'
  | _, _ => false
end

mutual
theorem Statement.same_iff (a b : Statement) : a.same b = true ↔ a = b := by
  match a, b with
  | .assignment x v, b => cases b <;> simp [Statement.same]
  | .ifElse c t e, b =>
    cases b <;> simp [Statement.same, Block.same_iff t, Block.same_iff e, and_assoc]
  | .whileLoop c t, b => cases b <;> simp [Statement.same, Block.same_iff t]
  | .returnValue v, b => cases b <;> simp [Statement.same]
  | .returnVoid, b => cases b <;> simp [Statement.same]
  | .breakLoop, b => cases b <;> simp [Statement.same]
  | .continueLoop, b => cases b <;> simp [Statement.same]

theorem Block.same_iff (a b : Block) : a.same b = true ↔ a = b := by
  match a, b with
  | ⟨ls, ss⟩, ⟨ls', ss'⟩ => simp [Block.same, Statement.sameAll_iff ss]

theorem Statement.sameAll_iff (as bs : List Statement) :
    Statement.sameAll as bs = true ↔ as = bs := by
  match as, bs with
  | [], bs => cases bs <;> simp [Statement.sameAll]
  | a :: as, bs =>
    cases bs <;> simp [Statement.sameAll, Statement.same_iff a, Statement.sameAll_iff as]
end

instance : DecidableEq Statement := fun a b =>
  decidable_of_iff (a.same b = true) (Statement.same_iff a b)

instance : DecidableEq Block := fun a b =>
  decidable_of_iff (a.same b = true) (Block.same_iff a b)

deriving instance DecidableEq for Function, Program

end ImpFront
