import ImpFront.Ast.Outline

/-!
# Drawings

A drawing shows the outline of a program as a tree of lines: one line per node
below the root, each behind the rails of the nodes above it and a connector. A
label that is wider than allowed is cut and ends in dots.
-/

namespace ImpFront.Drawing

/-- The label width that is used when none is given. -/
def defaultWidth : Nat := 30

/-- At most the first `width` characters of a label, with dots if that is not
all of it. -/
def shorten (width : Nat) (label : String) : String :=
  if width < label.toList.length then String.ofList (label.toList.take width) ++ "..."
  else label

/-- What connects a node to its parent. -/
def connector (isLast : Bool) : String := if isLast then "└─" else "├─"

/-- What stands below a connector, in front of the lines of the nodes further
down. -/
def rail (isLast : Bool) : String := if isLast then "  " else "│ "

/-- The words of a node: what it is, and its label if it has one. -/
def caption (width : Nat) (nodeType label : String) : String :=
  let label := shorten width label
  if label = "" then nodeType else nodeType ++ ": " ++ label

mutual
/-- **The lines of a node** and all nodes below it. -/
def lines (width : Nat) (rails : String) (isLast : Bool) : Outline → List String
  | ⟨nodeType, label, _, children⟩ =>
    (rails ++ connector isLast ++ " " ++ caption width nodeType label)
      :: linesAll width (rails ++ rail isLast) children

/-- The lines of several nodes, the last of which is the last of its parent. -/
def linesAll (width : Nat) (rails : String) : List Outline → List String
  | [] => []
  | o :: os => lines width rails os.isEmpty o ++ linesAll width rails os
end

/-- **The drawing of an outline**: the lines of all nodes below its root. -/
def draw (width : Nat) (o : Outline) : String :=
  String.join ((linesAll width "" o.children).map (· ++ "\n"))

end ImpFront.Drawing
