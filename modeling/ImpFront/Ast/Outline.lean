import ImpFront.Ast.Display

/-!
# Outlines

An `Outline` is a program seen as one plain tree: every part of it is a node
with a node type, a label and a display, and its parts are below it – a variable
has its initializer, a function its parameters and its body, a block its locals
and then its statements, a condition comes before the blocks it governs, and
operands and arguments keep their order.

Listings and drawings of programs are functions of the outline.
-/

namespace ImpFront

/-- **A program, or a part of one, as a plain tree of texts.** -/
structure Outline where
  /-- What the part is. -/
  nodeType : String
  /-- The short text of the part. -/
  label : String
  /-- The text of the part in messages. -/
  display : String
  /-- The parts of the part, in order. -/
  children : List Outline

namespace Outline

mutual
/-- **The nodes of an outline**, each before those below it. -/
def preorder : Outline → List Outline
  | ⟨nodeType, label, display, children⟩ =>
    ⟨nodeType, label, display, children⟩ :: preorderAll children

/-- The nodes of several outlines, one after another. -/
def preorderAll : List Outline → List Outline
  | [] => []
  | o :: os => o.preorder ++ preorderAll os
end

end Outline

namespace Expression

mutual
/-- The outline of an expression. -/
def outline : Expression → Outline
  | .binary left op right =>
    let e := Expression.binary left op right
    ⟨e.nodeType, e.label, e.display, [left.outline, right.outline]⟩
  | .call name args =>
    let e := Expression.call name args
    ⟨e.nodeType, e.label, e.display, outlineAll args⟩
  | e => ⟨e.nodeType, e.label, e.display, []⟩

/-- The outlines of several expressions. -/
def outlineAll : List Expression → List Outline
  | [] => []
  | e :: es => e.outline :: outlineAll es
end

end Expression

/-- The outline of a variable. -/
def Variable.outline (v : Variable) : Outline :=
  ⟨"Variable", v.label, v.display, v.initializer.toList.map Expression.outline⟩

mutual
/-- The outline of a statement. -/
def Statement.outline : Statement → Outline
  | .assignment target value =>
    let s := Statement.assignment target value
    ⟨s.nodeType, s.label, s.display, [value.outline]⟩
  | .ifElse cond thenBlock elseBlock =>
    let s := Statement.ifElse cond thenBlock elseBlock
    ⟨s.nodeType, s.label, s.display,
      [cond.outline, thenBlock.outline, elseBlock.outline]⟩
  | .whileLoop cond body =>
    let s := Statement.whileLoop cond body
    ⟨s.nodeType, s.label, s.display, [cond.outline, body.outline]⟩
  | .returnValue value =>
    let s := Statement.returnValue value
    ⟨s.nodeType, s.label, s.display, [value.outline]⟩
  | s => ⟨s.nodeType, s.label, s.display, []⟩

/-- The outline of a block. -/
def Block.outline : Block → Outline
  | ⟨locals, statements⟩ =>
    let b : Block := ⟨locals, statements⟩
    ⟨"Block", b.label, b.display,
      locals.map Variable.outline ++ Statement.outlineAll statements⟩

/-- The outlines of several statements. -/
def Statement.outlineAll : List Statement → List Outline
  | [] => []
  | s :: ss => s.outline :: Statement.outlineAll ss
end

/-- The outline of a function. -/
def Function.outline (f : Function) : Outline :=
  ⟨"Function", f.label, f.display, f.params.map Variable.outline ++ [f.body.outline]⟩

/-- **The outline of a program.** -/
def Program.outline (p : Program) : Outline :=
  ⟨"Program", p.label, p.display,
    p.globals.map Variable.outline ++ p.functions.map Function.outline⟩

end ImpFront
