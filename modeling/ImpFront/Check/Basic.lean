import ImpFront.Ast.Equality
import ImpFront.Check.Failure

/-!
# Checks of programs

A check is a list of steps. Some steps test the part they are made on – a count,
a name, a type – and others go to one of its parts and check that. Steps are made
in order, and the first one that fails ends the check.

Checks are data, so that they can be written down, generated and reasoned about;
`ProgramStep.checkAll` makes them.
-/

namespace ImpFront.Check

mutual

/-- **A step on an expression.** -/
inductive ExpressionStep
  /-- It reads like this. -/
  | text (expected : String)
  /-- It is this integer. -/
  | int (expected : Int32)
  /-- It is this truth value. -/
  | bool (expected : Bool)
  /-- It is the variable with this name. -/
  | location (expected : String)
  /-- It is an operation of this operator; the steps go on from it. -/
  | binary (expected : Operator) (steps : List OperandStep)
  /-- It is a call of this function; the steps go on from it. -/
  | call (expected : String) (steps : List CallStep)

/-- **A step on an operation.** -/
inductive OperandStep
  /-- Checks the left operand. -/
  | left (steps : List ExpressionStep)
  /-- Checks the right operand. -/
  | right (steps : List ExpressionStep)

/-- **A step on a call.** -/
inductive CallStep
  /-- It has this many arguments. -/
  | argCount (expected : Nat)
  /-- Checks an argument. -/
  | arg (index : Nat) (steps : List ExpressionStep)

end

/-- **A step on a variable.** -/
inductive VariableStep
  /-- It has this name. -/
  | name (expected : String)
  /-- It has this type. -/
  | type (expected : TypeName)
  /-- It has no initializer. -/
  | noInitializer
  /-- Checks the initializer, which has to be there. -/
  | initializer (steps : List ExpressionStep)

/-- **A step on an assignment.** -/
inductive AssignmentStep
  /-- It has this target. -/
  | target (expected : String)
  /-- Checks the value. -/
  | value (steps : List ExpressionStep)

mutual

/-- **A step on a block.** -/
inductive BlockStep
  /-- It holds nothing. -/
  | isEmpty
  /-- It has this many locals. -/
  | localCount (expected : Nat)
  /-- It has this many statements. -/
  | statementCount (expected : Nat)
  /-- Checks a local. -/
  | localVariable (index : Nat) (steps : List VariableStep)
  /-- Checks a statement. -/
  | statement (index : Nat) (steps : List StatementStep)

/-- **A step on a statement.** -/
inductive StatementStep
  /-- It is an assignment; the steps go on from it. -/
  | assignment (steps : List AssignmentStep)
  /-- It is a conditional; the steps go on from it. -/
  | ifElse (steps : List ConditionalStep)
  /-- It is a loop; the steps go on from it. -/
  | whileLoop (steps : List ConditionalStep)
  /-- It returns a value, which the steps check. -/
  | returnValue (steps : List ExpressionStep)
  /-- It returns without a value. -/
  | returnVoid
  /-- It leaves the loop. -/
  | breakLoop
  /-- It starts the next round. -/
  | continueLoop

/-- **A step on a conditional or a loop.** -/
inductive ConditionalStep
  /-- Checks the condition. -/
  | cond (steps : List ExpressionStep)
  /-- Checks the block that the condition governs. -/
  | body (steps : List BlockStep)
  /-- Checks the other block, which a loop does not have. -/
  | elseBlock (steps : List BlockStep)

end

/-- **A step on a function.** -/
inductive FunctionStep
  /-- It has this name. -/
  | name (expected : String)
  /-- It has this return type. -/
  | returnType (expected : TypeName)
  /-- It has this many parameters. -/
  | paramCount (expected : Nat)
  /-- Checks a parameter. -/
  | param (index : Nat) (steps : List VariableStep)
  /-- Checks the body. -/
  | body (steps : List BlockStep)

/-- **A step on a program.** -/
inductive ProgramStep
  /-- It has this many global variables. -/
  | variableCount (expected : Nat)
  /-- It has this many functions. -/
  | functionCount (expected : Nat)
  /-- Checks a global variable. -/
  | variable (index : Nat) (steps : List VariableStep)
  /-- Checks a function. -/
  | function (index : Nat) (steps : List FunctionStep)
  /-- Checks the first function with this name. -/
  | functionNamed (name : String) (steps : List FunctionStep)

/-! ## What steps have in common -/

/-- What comes of a check: nothing, or the first failure. -/
abbrev Result : Type := Except Failure Unit

/-- Insists on a condition. -/
def require (path : Path) (fault : Fault) (condition : Prop) [Decidable condition] : Result :=
  if condition then .ok () else .error ⟨path, fault⟩

/-- Insists on the length of a list, whose members are described by
`describe`. -/
def requireCount {α : Type} (path : Path) (list : PartList) (describe : α → String)
    (expected : Nat) (items : List α) : Result :=
  require path (.count list expected (items.map describe)) (items.length = expected)

/-- The member of a list at an index, which has to be there. -/
def requireAt {α : Type} (path : Path) (list : PartList) (describe : α → String)
    (index : Nat) (items : List α) : Except Failure α :=
  match items[index]? with
  | some item => .ok item
  | none => .error ⟨path, .outOfBounds list index (items.map describe)⟩

/-- A part in a listing: what it is, and its label. -/
def description (nodeType label : String) : String := nodeType ++ "(" ++ label ++ ")"

/-- A variable in a listing. -/
def describeVariable (v : Variable) : String := description "Variable" v.label

/-- A function in a listing. -/
def describeFunction (f : Function) : String := description "Function" f.label

/-- A statement in a listing. -/
def describeStatement (s : Statement) : String := description s.nodeType s.label

/-- An expression in a listing. -/
def describeExpression (e : Expression) : String := description e.nodeType e.label

/-! ## Making the steps -/

mutual
/-- **Makes a step on an expression.** -/
def ExpressionStep.check (path : Path) (e : Expression) : ExpressionStep → Result
  | .text expected => require path (.text expected e.display) (e.display = expected)
  | .int expected =>
    require path (.expression (.int expected) e) (e = .intConstant expected)
  | .bool expected =>
    require path (.expression (.bool expected) e) (e = .boolConstant expected)
  | .location expected =>
    require path (.expression (.location expected) e) (e = .location expected)
  | .binary expected steps =>
    match e with
    | .binary left op right =>
      if op = expected then OperandStep.checkAll path left right steps
      else .error ⟨path, .expression (.binary expected) e⟩
    | _ => .error ⟨path, .expression (.binary expected) e⟩
  | .call expected steps =>
    match e with
    | .call name args =>
      if name = expected then CallStep.checkAll path args steps
      else .error ⟨path, .expression (.call expected) e⟩
    | _ => .error ⟨path, .expression (.call expected) e⟩

/-- Makes several steps on an expression. -/
def ExpressionStep.checkAll (path : Path) (e : Expression) : List ExpressionStep → Result
  | [] => .ok ()
  | s :: ss => do
    s.check path e
    ExpressionStep.checkAll path e ss

/-- Makes a step on an operation. -/
def OperandStep.check (path : Path) (left right : Expression) : OperandStep → Result
  | .left steps => ExpressionStep.checkAll (path ++ [.left]) left steps
  | .right steps => ExpressionStep.checkAll (path ++ [.right]) right steps

/-- Makes several steps on an operation. -/
def OperandStep.checkAll (path : Path) (left right : Expression) : List OperandStep → Result
  | [] => .ok ()
  | s :: ss => do
    s.check path left right
    OperandStep.checkAll path left right ss

/-- Makes a step on a call. -/
def CallStep.check (path : Path) (args : List Expression) : CallStep → Result
  | .argCount expected => requireCount path .arguments describeExpression expected args
  | .arg index steps => do
    let arg ← requireAt path .arguments describeExpression index args
    ExpressionStep.checkAll (path ++ [.arg index]) arg steps

/-- Makes several steps on a call. -/
def CallStep.checkAll (path : Path) (args : List Expression) : List CallStep → Result
  | [] => .ok ()
  | s :: ss => do
    s.check path args
    CallStep.checkAll path args ss
end

/-- **Makes a step on a variable.** -/
def VariableStep.check (path : Path) (v : Variable) : VariableStep → Result
  | .name expected => require path (.name expected v.name) (v.name = expected)
  | .type expected => require path (.type expected v.type) (v.type = expected)
  | .noInitializer => require path (.hasInitializer v) (v.initializer = none)
  | .initializer steps =>
    match v.initializer with
    | some e => ExpressionStep.checkAll (path ++ [.initializer]) e steps
    | none => .error ⟨path, .lacksInitializer v⟩

/-- Makes several steps on a variable. -/
def VariableStep.checkAll (path : Path) (v : Variable) (steps : List VariableStep) : Result :=
  steps.forM (VariableStep.check path v)

/-- **Makes a step on an assignment.** -/
def AssignmentStep.check (path : Path) (target : String) (value : Expression) :
    AssignmentStep → Result
  | .target expected => require path (.target expected target) (target = expected)
  | .value steps => ExpressionStep.checkAll (path ++ [.value]) value steps

/-- Makes several steps on an assignment. -/
def AssignmentStep.checkAll (path : Path) (target : String) (value : Expression)
    (steps : List AssignmentStep) : Result :=
  steps.forM (AssignmentStep.check path target value)

mutual
/-- **Makes a step on a block.** -/
def BlockStep.check (path : Path) (b : Block) : BlockStep → Result
  | .isEmpty => require path (.notEmpty b) (b.isEmpty = true)
  | .localCount expected => requireCount path .locals describeVariable expected b.locals
  | .statementCount expected =>
    requireCount path .statements describeStatement expected b.statements
  | .localVariable index steps => do
    let v ← requireAt path .locals describeVariable index b.locals
    VariableStep.checkAll (path ++ [.localVariable index]) v steps
  | .statement index steps => do
    let s ← requireAt path .statements describeStatement index b.statements
    StatementStep.checkAll (path ++ [.statement index]) s steps

/-- Makes several steps on a block. -/
def BlockStep.checkAll (path : Path) (b : Block) : List BlockStep → Result
  | [] => .ok ()
  | s :: ss => do
    s.check path b
    BlockStep.checkAll path b ss

/-- **Makes a step on a statement.** -/
def StatementStep.check (path : Path) (s : Statement) : StatementStep → Result
  | .assignment steps =>
    match s with
    | .assignment target value => AssignmentStep.checkAll path target value steps
    | _ => .error ⟨path, .statement .assignment s⟩
  | .ifElse steps =>
    match s with
    | .ifElse cond thenBlock elseBlock =>
      ConditionalStep.checkAll path cond thenBlock (some elseBlock) steps
    | _ => .error ⟨path, .statement .ifElse s⟩
  | .whileLoop steps =>
    match s with
    | .whileLoop cond body => ConditionalStep.checkAll path cond body none steps
    | _ => .error ⟨path, .statement .whileLoop s⟩
  | .returnValue steps =>
    match s with
    | .returnValue value => ExpressionStep.checkAll (path ++ [.value]) value steps
    | _ => .error ⟨path, .statement .returnValue s⟩
  | .returnVoid => require path (.statement .returnVoid s) (s = .returnVoid)
  | .breakLoop => require path (.statement .breakLoop s) (s = .breakLoop)
  | .continueLoop => require path (.statement .continueLoop s) (s = .continueLoop)

/-- Makes several steps on a statement. -/
def StatementStep.checkAll (path : Path) (s : Statement) : List StatementStep → Result
  | [] => .ok ()
  | step :: steps => do
    step.check path s
    StatementStep.checkAll path s steps

/-- Makes a step on a conditional, or on a loop, which has no other block. -/
def ConditionalStep.check (path : Path) (cond : Expression) (body : Block)
    (elseBlock : Option Block) : ConditionalStep → Result
  | .cond steps => ExpressionStep.checkAll (path ++ [.cond]) cond steps
  | .body steps => BlockStep.checkAll (path ++ [.body]) body steps
  | .elseBlock steps =>
    match elseBlock with
    | some b => BlockStep.checkAll (path ++ [.elseBlock]) b steps
    | none => .error ⟨path, .noElseBlock⟩

/-- Makes several steps on a conditional or a loop. -/
def ConditionalStep.checkAll (path : Path) (cond : Expression) (body : Block)
    (elseBlock : Option Block) : List ConditionalStep → Result
  | [] => .ok ()
  | s :: ss => do
    s.check path cond body elseBlock
    ConditionalStep.checkAll path cond body elseBlock ss
end

/-- **Makes a step on a function.** -/
def FunctionStep.check (path : Path) (f : Function) : FunctionStep → Result
  | .name expected => require path (.name expected f.name) (f.name = expected)
  | .returnType expected =>
    require path (.returnType expected f.returnType) (f.returnType = expected)
  | .paramCount expected => requireCount path .params describeVariable expected f.params
  | .param index steps => do
    let v ← requireAt path .params describeVariable index f.params
    VariableStep.checkAll (path ++ [.param index]) v steps
  | .body steps => BlockStep.checkAll (path ++ [.body]) f.body steps

/-- Makes several steps on a function. -/
def FunctionStep.checkAll (path : Path) (f : Function) (steps : List FunctionStep) : Result :=
  steps.forM (FunctionStep.check path f)

/-- **Makes a step on a program.** -/
def ProgramStep.check (p : Program) : ProgramStep → Result
  | .variableCount expected => requireCount [] .globals describeVariable expected p.globals
  | .functionCount expected => requireCount [] .functions describeFunction expected p.functions
  | .variable index steps => do
    let v ← requireAt [] .globals describeVariable index p.globals
    VariableStep.checkAll [.variable index] v steps
  | .function index steps => do
    let f ← requireAt [] .functions describeFunction index p.functions
    FunctionStep.checkAll [.function index] f steps
  | .functionNamed name steps =>
    match p.functionNamed? name with
    | some f => FunctionStep.checkAll [.functionNamed name] f steps
    | none => .error ⟨[], .noFunctionNamed name (p.functions.map describeFunction)⟩

/-- **Checks a program**: makes the steps in order, up to the first that
fails. -/
def ProgramStep.checkAll (p : Program) (steps : List ProgramStep) : Result :=
  steps.forM (ProgramStep.check p)

end ImpFront.Check
