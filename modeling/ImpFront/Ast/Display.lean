import ImpFront.Ast.Basic

/-!
# Programs in words

Every part of a program has a **node type** (`Block`, `Return`, …), a **label**
– a short text for listings – and a **display**, the text that messages quote.
For an expression the display is the expression as it would be written: operands
that are themselves operations stand in parentheses, and nothing else does. The
display of a block or a function only counts what is in it.
-/

namespace ImpFront

namespace Expression

/-- What kind of expression it is. -/
def nodeType : Expression → String
  | .binary .. => "Binary"
  | .intConstant _ => "IntConstant"
  | .boolConstant _ => "BoolConstant"
  | .location _ => "Location"
  | .call .. => "FunctionCall"

/-- The text of an operand, in parentheses where the operand is itself an
operation. -/
def asOperand (e : Expression) (text : String) : String :=
  match e with
  | .binary .. => "(" ++ text ++ ")"
  | _ => text

mutual
/-- **The expression as it is written.** -/
def display : Expression → String
  | .binary left op right =>
    left.asOperand left.display ++ " " ++ op.spelling ++ " " ++ right.asOperand right.display
  | .intConstant value => toString value.toInt
  | .boolConstant value => if value then "true" else "false"
  | .location name => name
  | .call name args => name ++ "(" ++ ", ".intercalate (displayAll args) ++ ")"

/-- The texts of several expressions. -/
def displayAll : List Expression → List String
  | [] => []
  | e :: es => e.display :: displayAll es
end

@[simp] theorem displayAll_eq_map (es : List Expression) :
    displayAll es = es.map display := by
  induction es with
  | nil => simp [displayAll]
  | cons e es ih => simp [displayAll, ih]

/-- The operator of an operation, the name and the number of arguments of a
call, and otherwise the whole expression. -/
def label : Expression → String
  | .binary _ op _ => op.spelling
  | .call name args => name ++ "/" ++ toString args.length
  | e => e.display

end Expression

namespace Variable

/-- The declaration without its semicolon. -/
def display (v : Variable) : String :=
  match v.initializer with
  | some e => v.type.spelling ++ " " ++ v.name ++ " = " ++ e.display
  | none => v.type.spelling ++ " " ++ v.name

/-- The declaration itself. -/
def label (v : Variable) : String := v.display

end Variable

namespace Block

/-- How much a block holds. -/
def label (b : Block) : String :=
  toString b.locals.length ++ " locals, " ++ toString b.statements.length ++ " statements"

/-- The label, as that of a block. -/
def display (b : Block) : String := "Block(" ++ b.label ++ ")"

end Block

namespace Statement

/-- What kind of statement it is. -/
def nodeType : Statement → String
  | .assignment .. => "Assignment"
  | .ifElse .. => "IfElse"
  | .whileLoop .. => "While"
  | .returnValue _ => "Return"
  | .returnVoid => "ReturnVoid"
  | .breakLoop => "Break"
  | .continueLoop => "Continue"

/-- What a statement says beyond its kind. -/
def label : Statement → String
  | .assignment target value => target ++ " = " ++ value.display
  | .ifElse cond _ _ => cond.display
  | .whileLoop cond _ => cond.display
  | .returnValue value => value.display
  | .returnVoid | .breakLoop | .continueLoop => ""

/-- **The statement as it is written**, but for its blocks. -/
def display : Statement → String
  | .assignment target value => target ++ " = " ++ value.display ++ ";"
  | .ifElse cond thenBlock elseBlock =>
    "if (" ++ cond.display ++ ") " ++ thenBlock.display ++ " else " ++ elseBlock.display
  | .whileLoop cond body => "while (" ++ cond.display ++ ") " ++ body.display
  | .returnValue value => "return " ++ value.display ++ ";"
  | .returnVoid => "return;"
  | .breakLoop => "break;"
  | .continueLoop => "continue;"

end Statement

namespace Function

/-- The function as it is written, up to its body. -/
def label (f : Function) : String :=
  f.returnType.spelling ++ " " ++ f.name ++
    "(" ++ ", ".intercalate (f.params.map Variable.display) ++ ")"

/-- The name of the function and how many parameters it has. -/
def display (f : Function) : String :=
  "Function('" ++ f.name ++ "', " ++ toString f.params.length ++ " params)"

end Function

namespace Program

/-- How much a program declares. -/
def label (p : Program) : String :=
  toString p.globals.length ++ " variables, " ++
    toString p.functions.length ++ " functions"

/-- The label, as that of a program. -/
def display (p : Program) : String := "Program(" ++ p.label ++ ")"

end Program

end ImpFront
