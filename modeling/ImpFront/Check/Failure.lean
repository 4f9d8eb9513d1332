import ImpFront.Ast.Display
import ImpFront.Text.Quoted

/-!
# Failed checks

A check that fails says where and why. The place is a **path** from the program
to the part that was looked at, written like an access to it; a check of the
program itself has the empty path. The reason keeps what was expected and what
was found.
-/

namespace ImpFront.Check

/-- **One step of a path** into a program. -/
inductive PathStep
  | variable (index : Nat)
  | function (index : Nat)
  | functionNamed (name : String)
  | param (index : Nat)
  | body
  | localVariable (index : Nat)
  | statement (index : Nat)
  | initializer
  | value
  | cond
  | elseBlock
  | left
  | right
  | arg (index : Nat)
  deriving DecidableEq

/-- An indexed access. -/
def indexed (list : String) (index : Nat) : String :=
  list ++ "[" ++ toString index ++ "]"

/-- How a step is written. -/
def PathStep.display : PathStep → String
  | .variable index => indexed "variables" index
  | .function index => indexed "functions" index
  | .functionNamed name => "function '" ++ name ++ "'"
  | .param index => indexed "params" index
  | .body => "body"
  | .localVariable index => indexed "locals" index
  | .statement index => indexed "statements" index
  | .initializer => "initializer"
  | .value => "value"
  | .cond => "cond"
  | .elseBlock => "else"
  | .left => "left"
  | .right => "right"
  | .arg index => indexed "args" index

/-- **A path into a program**, from the program inwards. -/
abbrev Path : Type := List PathStep

/-- How a path is written; the program itself is called so. -/
def Path.display (path : Path) : String :=
  match path with
  | [] => "program"
  | _ => ".".intercalate (path.map PathStep.display)

/-- **The lists of parts** that a program is made of. -/
inductive PartList
  | globals | functions | params | locals | statements | arguments
  deriving DecidableEq

/-- What the members of a list are called together. -/
def PartList.plural : PartList → String
  | .globals => "globals"
  | .functions => "functions"
  | .params => "params"
  | .locals => "locals"
  | .statements => "statements"
  | .arguments => "arguments"

/-- What a member of a list is called. -/
def PartList.singular : PartList → String
  | .globals => "Variable"
  | .functions => "Function"
  | .params => "Param"
  | .locals => "Local"
  | .statements => "Statement"
  | .arguments => "Argument"

/-- **What an expression was expected to be.** -/
inductive ExpressionShape
  | int (value : Int32)
  | bool (value : Bool)
  | location (name : String)
  | binary (op : Operator)
  | call (name : String)
  deriving DecidableEq

/-- How an expected expression is described. -/
def ExpressionShape.display : ExpressionShape → String
  | .int value => "IntConstant " ++ toString value.toInt
  | .bool value => "BoolConstant " ++ if value then "true" else "false"
  | .location name => "Location " ++ name
  | .binary op => "Binary " ++ op.spelling
  | .call name => "call to " ++ name

/-- **What a statement was expected to be.** -/
inductive StatementShape
  | assignment | ifElse | whileLoop | returnValue | returnVoid | breakLoop | continueLoop
  deriving DecidableEq

/-- How an expected statement is described. -/
def StatementShape.display : StatementShape → String
  | .assignment => "Assignment"
  | .ifElse => "IfElse"
  | .whileLoop => "While"
  | .returnValue => "Return"
  | .returnVoid => "ReturnVoid"
  | .breakLoop => "Break"
  | .continueLoop => "Continue"

/-- **Why a check failed.** Lists of parts are kept as their descriptions. -/
inductive Fault
  /-- A list has another length. -/
  | count (list : PartList) (expected : Nat) (present : List String)
  /-- A list has no member at an index. -/
  | outOfBounds (list : PartList) (index : Nat) (present : List String)
  /-- No function has a name. -/
  | noFunctionNamed (name : String) (present : List String)
  /-- A variable or function has another name. -/
  | name (expected found : String)
  /-- A variable has another type. -/
  | type (expected found : TypeName)
  /-- A function has another return type. -/
  | returnType (expected found : TypeName)
  /-- A variable has an initializer. -/
  | hasInitializer (found : Variable)
  /-- A variable has no initializer. -/
  | lacksInitializer (found : Variable)
  /-- A block is not empty. -/
  | notEmpty (found : Block)
  /-- A statement is of another kind. -/
  | statement (expected : StatementShape) (found : Statement)
  /-- An assignment has another target. -/
  | target (expected found : String)
  /-- A loop has no other block. -/
  | noElseBlock
  /-- An expression reads differently. -/
  | text (expected found : String)
  /-- An expression is of another kind, or has another value or name. -/
  | expression (expected : ExpressionShape) (found : Expression)

/-- **A failed check**: where and why. -/
structure Failure where
  /-- The part that the check was made on. -/
  path : Path
  /-- What is wrong with it. -/
  fault : Fault

/-! ## Messages -/

/-- The name of a type in comparisons. -/
def typeWord : TypeName → String
  | .int => "Int"
  | .bool => "Bool"
  | .void => "Void"

/-- The report that two values which should be equal are not. -/
def unequal (message left right : String) : String :=
  "assertion `left == right` failed: " ++ message
    ++ "\n  left: " ++ left ++ "\n right: " ++ right

/-- A list of descriptions. -/
def listing (present : List String) : String := "[" ++ ", ".intercalate present ++ "]"

/-- **The message of a failed check.** A wrong number of globals or functions,
and a function that is not there, are reported without a place. -/
def Failure.message (f : Failure) : String :=
  let place := f.path.display ++ ": "
  match f.fault with
  | .count list expected present =>
    let found := toString present.length
    let wanted := toString expected
    let text := match list with
      | .arguments => place ++ "Expected " ++ wanted ++ " arguments, found " ++ listing present
      | _ =>
        (if f.path.isEmpty then "" else place) ++ "Expected " ++ wanted ++ " " ++ list.plural
          ++ ", found " ++ found ++ ": " ++ listing present
    unequal text found wanted
  | .outOfBounds list index present =>
    place ++ list.singular ++ " index " ++ toString index ++ " out of bounds ("
      ++ toString present.length ++ " present: " ++ listing present ++ ")"
  | .noFunctionNamed name present =>
    "No function named '" ++ name ++ "' in " ++ listing present
  | .name expected found =>
    unequal (place ++ "Expected name '" ++ expected ++ "', found '" ++ found ++ "'")
      (Quoted.quote found) (Quoted.quote expected)
  | .type expected found =>
    unequal (place ++ "Expected type " ++ expected.spelling ++ ", found " ++ found.spelling)
      (typeWord found) (typeWord expected)
  | .returnType expected found =>
    unequal
      (place ++ "Expected return type " ++ expected.spelling ++ ", found " ++ found.spelling)
      (typeWord found) (typeWord expected)
  | .hasInitializer found => place ++ "Expected no initializer, found " ++ found.display
  | .lacksInitializer found => place ++ "Expected an initializer on " ++ found.display
  | .notEmpty found => place ++ "Expected empty block, found " ++ found.display
  | .statement expected found =>
    place ++ "Expected " ++ expected.display ++ ", found " ++ found.nodeType
      ++ "(" ++ found.label ++ ")"
  | .target expected found =>
    unequal (place ++ "Expected target '" ++ expected ++ "', found '" ++ found ++ "'")
      (Quoted.quote found) (Quoted.quote expected)
  | .noElseBlock => place ++ "While has no else block"
  | .text expected found =>
    unequal (place ++ "Expected `" ++ expected ++ "`, found `" ++ found ++ "`")
      (Quoted.quote found) (Quoted.quote expected)
  | .expression expected found =>
    place ++ "Expected " ++ expected.display ++ ", found " ++ found.nodeType
      ++ " `" ++ found.display ++ "`"

end ImpFront.Check
