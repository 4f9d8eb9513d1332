import ImpFront.Grammar.Statement

/-!
# The grammar of programs

A program is a sequence of functions and global variables. Both start with a
type and a name; the function is tried first.
-/

namespace ImpFront.Grammar

open Rule

/-- `param ::= type IDENT` -/
def param : Rule TreeShape := do
  let type ← typeName
  let name ← ident
  return .spanning .param type.span name.span [type, name]

/-- `param_list ::= param (',' param)*` -/
def paramList : Rule TreeShape := do
  let (first, others) ← separatedBy param (symbol .comma)
  return .listing .paramList first others

/-- `func_decl ::= type IDENT '(' param_list? ')' block` -/
def funcDecl : Rule TreeShape := do
  let type ← typeName
  let name ← ident
  let (_, params, _) ← parenthesized (optional paramList)
  let body ← block
  return .spanning .funcDecl type.span body.span
    (type :: name :: params.toList ++ [body])

/-- `decl ::= func_decl | var_decl` -/
def declaration : Rule TreeShape := funcDecl <|> varDecl

/-- The node of a program; one without declarations stands at the end of the
source, which has `size` bytes. -/
def programNode (size : Nat) : List TreeShape → TreeShape
  | [] => ⟨.program, .emptyAt size, []⟩
  | first :: others => .listing .program first others

/-- **A program**: `program ::= decl*`. -/
def program (size : Nat) : Rule TreeShape := do
  let declarations ← many declaration
  return programNode size declarations

end ImpFront.Grammar
