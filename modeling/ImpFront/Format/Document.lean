import ImpFront.Ast.Basic

/-!
# Documents

A `Document` is the common form in which programs leave for a data format:
texts, integers, truth values, lists, and records whose fields have an order. A
program becomes a document by naming its parts; a statement or an expression is
a record whose first field, `kind`, says which one it is. A variable without an
initializer has no such field.

`Program.ofDocument?` reads the document back, by the names of the fields.
-/

namespace ImpFront

mutual

/-- **A tree of data.** -/
inductive Document
  | text (s : String)
  | int (n : Int)
  | bool (b : Bool)
  | list (items : List Document)
  | record (fields : List Field)

/-- **A named part** of a record. -/
structure Field where
  /-- The name of the part. -/
  key : String
  /-- The part. -/
  value : Document

end

namespace Document

/-- A record of a kind. -/
def tagged (kind : String) (fields : List Field) : Document :=
  .record (⟨"kind", .text kind⟩ :: fields)

/-! ## Taking documents apart -/

/-- The text that a document is. -/
def text? : Document → Option String
  | .text s => some s
  | _ => none

/-- The truth value that a document is. -/
def bool? : Document → Option Bool
  | .bool b => some b
  | _ => none

/-- The 32-bit integer that a document is. -/
def int32? : Document → Option Int32
  | .int n => if (Int32.ofInt n).toInt = n then some (Int32.ofInt n) else none
  | _ => none

/-- The first part of a name in a record. -/
def field? (key : String) : (d : Document) → Option { v : Document // sizeOf v < sizeOf d }
  | .record fields =>
    match h : fields.find? (·.key = key) with
    | some f => some ⟨f.value, by
        have h := List.sizeOf_lt_of_mem (List.mem_of_find?_eq_some h)
        cases f
        simp only [Field.mk.sizeOf_spec, record.sizeOf_spec] at *
        omega⟩
    | none => none
  | _ => none

/-- The members of the list that a document is. -/
def list? : (d : Document) → Option { items : List Document // sizeOf items < sizeOf d }
  | .list items => some ⟨items, by simp⟩
  | _ => none

/-- The text of a part. -/
def textField? (key : String) (d : Document) : Option String :=
  (d.field? key).bind fun v => v.1.text?

end Document

/-! ## Programs as documents -/

/-- The name of a type in documents. -/
def TypeName.toDocument (t : TypeName) : Document := .text t.spelling

/-- The name of an operator in documents. -/
def Operator.documentName : Operator → String
  | .add => "add"
  | .sub => "sub"
  | .mul => "mul"

mutual
/-- An expression as a document. -/
def Expression.toDocument : Expression → Document
  | .binary left op right =>
    .tagged "Binary"
      [⟨"left", left.toDocument⟩, ⟨"op", .text op.documentName⟩, ⟨"right", right.toDocument⟩]
  | .intConstant value => .tagged "IntConstant" [⟨"value", .int value.toInt⟩]
  | .boolConstant value => .tagged "BoolConstant" [⟨"value", .bool value⟩]
  | .location name => .tagged "Location" [⟨"name", .text name⟩]
  | .call name args =>
    .tagged "FunctionCall" [⟨"name", .text name⟩, ⟨"args", .list (Expression.toDocuments args)⟩]

/-- Several expressions as documents. -/
def Expression.toDocuments : List Expression → List Document
  | [] => []
  | e :: es => e.toDocument :: Expression.toDocuments es
end

/-- A variable as a document. -/
def Variable.toDocument (v : Variable) : Document :=
  .record (⟨"name", .text v.name⟩ :: ⟨"type", v.type.toDocument⟩ ::
    v.initializer.toList.map fun e => ⟨"initializer", e.toDocument⟩)

mutual
/-- A statement as a document. -/
def Statement.toDocument : Statement → Document
  | .assignment target value =>
    .tagged "Assignment"
      [⟨"target", .record [⟨"name", .text target⟩]⟩, ⟨"value", value.toDocument⟩]
  | .ifElse cond thenBlock elseBlock =>
    .tagged "IfElse"
      [⟨"cond", cond.toDocument⟩, ⟨"then_block", thenBlock.toDocument⟩,
        ⟨"else_block", elseBlock.toDocument⟩]
  | .whileLoop cond body =>
    .tagged "While" [⟨"cond", cond.toDocument⟩, ⟨"body", body.toDocument⟩]
  | .returnValue value => .tagged "Return" [⟨"value", value.toDocument⟩]
  | .returnVoid => .tagged "ReturnVoid" []
  | .breakLoop => .tagged "Break" []
  | .continueLoop => .tagged "Continue" []

/-- A block as a document. -/
def Block.toDocument : Block → Document
  | ⟨locals, statements⟩ =>
    .record [⟨"locals", .list (locals.map Variable.toDocument)⟩,
      ⟨"statements", .list (Statement.toDocuments statements)⟩]

/-- Several statements as documents. -/
def Statement.toDocuments : List Statement → List Document
  | [] => []
  | s :: ss => s.toDocument :: Statement.toDocuments ss
end

/-- A function as a document. -/
def Function.toDocument (f : Function) : Document :=
  .record [⟨"return_type", f.returnType.toDocument⟩, ⟨"name", .text f.name⟩,
    ⟨"params", .list (f.params.map Variable.toDocument)⟩, ⟨"body", f.body.toDocument⟩]

/-- **A program as a document.** -/
def Program.toDocument (p : Program) : Document :=
  .record [⟨"variables", .list (p.globals.map Variable.toDocument)⟩,
    ⟨"functions", .list (p.functions.map Function.toDocument)⟩]

/-! ## Documents as programs -/

/-- The type of a name in a document. -/
def TypeName.ofDocument? (d : Document) : Option TypeName :=
  match d.text? with
  | some "int" => some .int
  | some "bool" => some .bool
  | some "void" => some .void
  | _ => none

/-- The operator of a name in a document. -/
def Operator.ofDocument? (d : Document) : Option Operator :=
  match d.text? with
  | some "add" => some .add
  | some "sub" => some .sub
  | some "mul" => some .mul
  | _ => none

mutual
/-- **The expression of a document.** -/
def Expression.ofDocument? (d : Document) : Option Expression :=
  match d.textField? "kind" with
  | some "Binary" => do
    let left ← d.field? "left"
    let op ← d.field? "op"
    let right ← d.field? "right"
    return .binary (← Expression.ofDocument? left.1) (← Operator.ofDocument? op.1)
      (← Expression.ofDocument? right.1)
  | some "IntConstant" => do
    let value ← d.field? "value"
    return .intConstant (← value.1.int32?)
  | some "BoolConstant" => do
    let value ← d.field? "value"
    return .boolConstant (← value.1.bool?)
  | some "Location" => return .location (← d.textField? "name")
  | some "FunctionCall" => do
    let name ← d.textField? "name"
    let args ← d.field? "args"
    let items ← args.1.list?
    return .call name (← Expression.ofDocuments? items.1)
  | _ => none
termination_by sizeOf d
decreasing_by
  · exact left.2
  · exact right.2
  · exact Nat.lt_trans items.2 args.2

/-- The expressions of several documents. -/
def Expression.ofDocuments? : List Document → Option (List Expression)
  | [] => some []
  | d :: ds => return (← Expression.ofDocument? d) :: (← Expression.ofDocuments? ds)
termination_by ds => sizeOf ds
end

/-- **The variable of a document.** -/
def Variable.ofDocument? (d : Document) : Option Variable := do
  let name ← d.textField? "name"
  let type ← TypeName.ofDocument? (← d.field? "type").1
  match d.field? "initializer" with
  | some e => return ⟨name, type, some (← Expression.ofDocument? e.1)⟩
  | none => return ⟨name, type, none⟩

/-- The variables of a list in a document. -/
def Variable.ofList? (d : Document) : Option (List Variable) := do
  (← d.list?).1.mapM Variable.ofDocument?

mutual
/-- **The statement of a document.** -/
def Statement.ofDocument? (d : Document) : Option Statement :=
  match d.textField? "kind" with
  | some "Assignment" => do
    let target ← (← d.field? "target").1.textField? "name"
    let value ← d.field? "value"
    return .assignment target (← Expression.ofDocument? value.1)
  | some "IfElse" => do
    let cond ← d.field? "cond"
    let thenBlock ← d.field? "then_block"
    let elseBlock ← d.field? "else_block"
    return .ifElse (← Expression.ofDocument? cond.1) (← Block.ofDocument? thenBlock.1)
      (← Block.ofDocument? elseBlock.1)
  | some "While" => do
    let cond ← d.field? "cond"
    let body ← d.field? "body"
    return .whileLoop (← Expression.ofDocument? cond.1) (← Block.ofDocument? body.1)
  | some "Return" => do
    let value ← d.field? "value"
    return .returnValue (← Expression.ofDocument? value.1)
  | some "ReturnVoid" => some .returnVoid
  | some "Break" => some .breakLoop
  | some "Continue" => some .continueLoop
  | _ => none
termination_by sizeOf d
decreasing_by
  · exact thenBlock.2
  · exact elseBlock.2
  · exact body.2

/-- **The block of a document.** -/
def Block.ofDocument? (d : Document) : Option Block := do
  let locals ← Variable.ofList? (← d.field? "locals").1
  let statements ← d.field? "statements"
  let items ← statements.1.list?
  return ⟨locals, ← Statement.ofDocuments? items.1⟩
termination_by sizeOf d
decreasing_by exact Nat.lt_trans items.2 statements.2

/-- The statements of several documents. -/
def Statement.ofDocuments? : List Document → Option (List Statement)
  | [] => some []
  | d :: ds => return (← Statement.ofDocument? d) :: (← Statement.ofDocuments? ds)
termination_by ds => sizeOf ds
end

/-- **The function of a document.** -/
def Function.ofDocument? (d : Document) : Option Function := do
  let returnType ← TypeName.ofDocument? (← d.field? "return_type").1
  let name ← d.textField? "name"
  let params ← Variable.ofList? (← d.field? "params").1
  let body ← Block.ofDocument? (← d.field? "body").1
  return { returnType, name, params, body }

/-- **The program of a document.** -/
def Program.ofDocument? (d : Document) : Option Program := do
  let globals ← Variable.ofList? (← d.field? "variables").1
  let functions ← (← (← d.field? "functions").1.list?).1.mapM Function.ofDocument?
  return ⟨globals, functions⟩

end ImpFront
