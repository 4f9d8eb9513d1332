import ImpFront.Build.Statement

/-!
# The meaning of program trees

Functions and whole programs. A program sorts its children into variables and
functions, each in the order of the source. Global variables always keep their
initializers.
-/

namespace ImpFront

/-- The variable of a parameter. -/
def Variable.ofParamTree (t : SyntaxTree) : Except BuildError Variable := do
  t.expectKind .param .parameter
  headOfTree t

/-- **The function of a declaration.** -/
def Function.ofTree (policy : LocalInitializers) (t : SyntaxTree) :
    Except BuildError Function := do
  t.expectKind .funcDecl .functionDeclaration
  let returnType ← TypeName.ofTree (← t.requireChild .type .returnType).1
  let name ← t.requireChild .ident .name
  let params ← ((t.child? .paramList).elim [] SyntaxTree.children).mapM Variable.ofParamTree
  let body ← Block.ofTree policy (← t.requireChild .block .body).1
  return { returnType, name := name.1.text, params, body }

namespace Program

/-- A program with one more variable in front. -/
def addVariable (v : Variable) (p : Program) : Program := ⟨v :: p.globals, p.functions⟩

/-- A program with one more function in front. -/
def addFunction (f : Function) (p : Program) : Program := ⟨p.globals, f :: p.functions⟩

/-- The program that several trees make up. -/
def ofTrees (policy : LocalInitializers) : List SyntaxTree → Except BuildError Program
  | [] => return ⟨[], []⟩
  | t :: ts =>
    match t.kind with
    | .varDecl => return addVariable (← Variable.ofTree true t) (← ofTrees policy ts)
    | .funcDecl => return addFunction (← Function.ofTree policy t) (← ofTrees policy ts)
    | _ => throw (t.unexpected .declaration)

/-- **The program of a tree.** -/
def ofTree (policy : LocalInitializers) (t : SyntaxTree) : Except BuildError Program := do
  t.expectKind .program .program
  ofTrees policy t.children

end Program

end ImpFront
