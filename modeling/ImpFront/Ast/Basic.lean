/-!
# Abstract syntax

What a program *means* as far as this front end goes: global variables and
functions, blocks of local variables and statements, expressions over three
operators. There is no trace of how it was written – no spans, no parentheses,
no `else if` – and of the operators of the grammar only those with a meaning
here are left.

Constants are 32-bit integers, names are arbitrary texts: trees may be put
together by hand, with names that no source could contain.
-/

namespace ImpFront

/-- **A type**, by its name. -/
inductive TypeName
  | int | bool | void
  deriving DecidableEq

/-- How the type is written. -/
def TypeName.spelling : TypeName → String
  | .int => "int"
  | .bool => "bool"
  | .void => "void"

/-- **The operators** that expressions may use. -/
inductive Operator
  | add | sub | mul
  deriving DecidableEq

namespace Operator

/-- How the operator is written. -/
def spelling : Operator → String
  | .add => "+"
  | .sub => "-"
  | .mul => "*"

/-- The operator with a given spelling, if there is one. -/
def ofSpelling? : String → Option Operator
  | "+" => some .add
  | "-" => some .sub
  | "*" => some .mul
  | _ => none

@[simp] theorem ofSpelling?_spelling (op : Operator) : ofSpelling? op.spelling = some op := by
  cases op <;> rfl

end Operator

/-- **An expression.** -/
inductive Expression
  /-- An operator with its operands. -/
  | binary (left : Expression) (op : Operator) (right : Expression)
  /-- An integer. -/
  | intConstant (value : Int32)
  /-- A truth value. -/
  | boolConstant (value : Bool)
  /-- The variable with this name. -/
  | location (name : String)
  /-- A call of the function with this name. -/
  | call (name : String) (args : List Expression)

/-- **A variable**: global, local, or a parameter. -/
structure Variable where
  /-- Its name. -/
  name : String
  /-- Its type. -/
  type : TypeName
  /-- The expression it starts with, if it has one. -/
  initializer : Option Expression := none

mutual

/-- **A block**: local variables first, statements after them. -/
structure Block where
  /-- The local variables, in order. -/
  locals : List Variable
  /-- The statements, in order. -/
  statements : List Statement

/-- **A statement.** -/
inductive Statement
  /-- Gives the variable with this name a value. -/
  | assignment (target : String) (value : Expression)
  /-- One of two blocks; a missing `else` is an empty block. -/
  | ifElse (cond : Expression) (thenBlock elseBlock : Block)
  /-- A loop. -/
  | whileLoop (cond : Expression) (body : Block)
  /-- Leaves the function with a value. -/
  | returnValue (value : Expression)
  /-- Leaves the function without a value. -/
  | returnVoid
  /-- Leaves the loop. -/
  | breakLoop
  /-- Starts the next round of the loop. -/
  | continueLoop

end

/-- **A function.** -/
structure Function where
  /-- The type of its value. -/
  returnType : TypeName
  /-- Its name. -/
  name : String
  /-- Its parameters, in order. -/
  params : List Variable
  /-- What it does. -/
  body : Block

/-- **A program.** -/
structure Program where
  /-- The global variables, in order. -/
  globals : List Variable
  /-- The functions, in order. -/
  functions : List Function

/-! ## Small questions about programs -/

namespace Block

/-- The block that does nothing. -/
def empty : Block := ⟨[], []⟩

/-- Whether a block holds nothing at all. -/
def isEmpty (b : Block) : Bool := b.locals.isEmpty && b.statements.isEmpty

end Block

/-- How many parameters a function takes. -/
def Function.arity (f : Function) : Nat := f.params.length

namespace Program

/-- The first function with a given name. -/
def functionNamed? (p : Program) (name : String) : Option Function :=
  p.functions.find? (·.name = name)

/-- The first global variable with a given name. -/
def variableNamed? (p : Program) (name : String) : Option Variable :=
  p.globals.find? (·.name = name)

end Program

namespace Expression

mutual
/-- **How many nodes** an expression has. -/
def nodeCount : Expression → Nat
  | .binary left _ right => 1 + left.nodeCount + right.nodeCount
  | .call _ args => 1 + nodeCountAll args
  | .intConstant _ | .boolConstant _ | .location _ => 1

/-- The number of nodes of several expressions together. -/
def nodeCountAll : List Expression → Nat
  | [] => 0
  | e :: es => e.nodeCount + nodeCountAll es
end

end Expression

end ImpFront
