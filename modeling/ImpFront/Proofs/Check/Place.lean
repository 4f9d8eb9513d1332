import ImpFront.Proofs.Check.Execution
import Mathlib.Data.List.Induction

/-!
# Where a path leads

A path is an access to a program, from one node to the next, and `Program.follow?` makes this
access. It knows nothing of checks. An attempt is **located** if its path leads to the node
that it is made on. A check starts at the program, which is located, and what is attempted
inside of a located attempt is located again, whether its path goes on or stays where it is
(`Attempt.Located.inner`). So all attempts of a check are (`located_of_mem_attempted`).
-/

namespace ImpFront

open Check

/-! ## Following a path -/

/-- **A node of a program**: what a step can be made on. -/
inductive Check.Node
  | program (p : Program)
  | variable (v : Variable)
  | function (f : Function)
  | block (b : Block)
  | statement (s : Statement)
  | expression (e : Expression)

/-- **Where one step of a path leads**, if it leads anywhere. -/
def Check.Node.go? : Node → PathStep → Option Node
  | .program p, .variable index => p.globals[index]?.map .variable
  | .program p, .function index => p.functions[index]?.map .function
  | .program p, .functionNamed name => (p.functionNamed? name).map .function
  | .variable v, .initializer => v.initializer.map .expression
  | .function f, .param index => f.params[index]?.map .variable
  | .function f, .body => some (.block f.body)
  | .block b, .localVariable index => b.locals[index]?.map .variable
  | .block b, .statement index => b.statements[index]?.map .statement
  | .statement (.assignment _ value), .value => some (.expression value)
  | .statement (.returnValue value), .value => some (.expression value)
  | .statement (.ifElse cond _ _), .cond => some (.expression cond)
  | .statement (.ifElse _ thenBlock _), .body => some (.block thenBlock)
  | .statement (.ifElse _ _ elseBlock), .elseBlock => some (.block elseBlock)
  | .statement (.whileLoop cond _), .cond => some (.expression cond)
  | .statement (.whileLoop _ body), .body => some (.block body)
  | .expression (.binary left _ _), .left => some (.expression left)
  | .expression (.binary _ _ right), .right => some (.expression right)
  | .expression (.call _ args), .arg index => args[index]?.map .expression
  | _, _ => none

/-- **Where a path leads**, from the program on. -/
def Program.follow? (p : Program) (path : Path) : Option Node :=
  path.foldlM Node.go? (.program p)

theorem Program.follow?_nil (p : Program) : p.follow? [] = some (.program p) := rfl

theorem Program.follow?_concat (p : Program) (path : Path) (step : PathStep) :
    p.follow? (path ++ [step]) = (p.follow? path).bind (·.go? step) := by
  simp [Program.follow?, List.foldlM_append]

namespace Check

/-- No step leads back to a program. -/
theorem Node.go?_ne_program {node : Node} {step : PathStep} {p : Program} :
    node.go? step ≠ some (.program p) := by
  unfold Node.go?
  split <;> simp

end Check

/-- Only the root is a program. -/
theorem Program.eq_of_follow? {p q : Program} {path : Path}
    (h : p.follow? path = some (.program q)) : q = p := by
  induction path using List.reverseRecOn with
  | nil => simpa [Program.follow?_nil, eq_comm] using h
  | append_singleton path step _ =>
    rw [Program.follow?_concat, Option.bind_eq_some_iff] at h
    obtain ⟨node, -, hgo⟩ := h
    exact absurd hgo Node.go?_ne_program

/-! ## Where attempts are -/

namespace Check

/-- **The node that a step is made on.** Steps on assignments and the like are made on the
statement or expression. -/
def Attempt.node : Attempt → Node
  | .onProgram p _ => .program p
  | .onVariable _ v _ => .variable v
  | .onFunction _ f _ => .function f
  | .onBlock _ b _ => .block b
  | .onStatement _ s _ => .statement s
  | .onAssignment _ target value _ => .statement (.assignment target value)
  | .onConditional _ cond body elseBlock _ =>
    .statement (elseBlock.elim (.whileLoop cond body) (.ifElse cond body))
  | .onExpression _ e _ => .expression e
  | .onOperands _ left op right _ => .expression (.binary left op right)
  | .onCall _ name args _ => .expression (.call name args)

/-- **The path of an attempt leads to its node.** -/
def Attempt.Located (p : Program) (a : Attempt) : Prop := p.follow? a.path = some a.node

section Located

variable {α σ : Type} {p : Program} {a : Attempt} {steps : List σ}

/-- Steps that go on from where a step was made. -/
theorem located_stay {on : σ → Attempt} (h : a.Located p) (hpath : ∀ s, (on s).path = a.path)
    (hnode : ∀ s, (on s).node = a.node) : ∀ b ∈ steps.map on, b.Located p := by
  rw [List.forall_mem_map]
  intro s _
  rw [Attempt.Located, hpath, hnode]
  exact h

/-- Steps on what one step of a path leads to. -/
theorem located_go {on : σ → Attempt} {step : PathStep} {node : Node} (h : a.Located p)
    (hgo : a.node.go? step = some node) (hpath : ∀ s, (on s).path = a.path ++ [step])
    (hnode : ∀ s, (on s).node = node) : ∀ b ∈ steps.map on, b.Located p := by
  rw [List.forall_mem_map]
  intro s _
  rw [Attempt.Located, hpath, hnode, Program.follow?_concat, h]
  exact hgo

/-- The same where it may lead nowhere. -/
theorem located_go? {on : α → σ → Attempt} {step : PathStep} {part : Option α}
    {toNode : α → Node} (h : a.Located p) (hgo : a.node.go? step = part.map toNode)
    (hpath : ∀ x s, (on x s).path = a.path ++ [step])
    (hnode : ∀ x s, (on x s).node = toNode x) :
    ∀ b ∈ part.elim [] fun x => steps.map (on x), b.Located p := by
  cases part with
  | none => exact fun _ hb => nomatch hb
  | some x => exact located_go h hgo (hpath x) (hnode x)

end Located

/-- **What is attempted inside of a located attempt is located.** -/
theorem Attempt.Located.inner {p : Program} {a : Attempt} (h : a.Located p) :
    ∀ b ∈ a.inner, b.Located p := by
  cases a with
  | onProgram q step =>
    cases step with
    | variableCount | functionCount => exact fun _ hb => nomatch hb
    | «variable» | function | functionNamed =>
      exact located_go? h rfl (fun _ _ => rfl) fun _ _ => rfl
  | onVariable path v step =>
    cases step with
    | name | type | noInitializer => exact fun _ hb => nomatch hb
    | initializer => exact located_go? h rfl (fun _ _ => rfl) fun _ _ => rfl
  | onFunction path f step =>
    cases step with
    | name | returnType | paramCount => exact fun _ hb => nomatch hb
    | param => exact located_go? h rfl (fun _ _ => rfl) fun _ _ => rfl
    | body => exact located_go h rfl (fun _ => rfl) fun _ => rfl
  | onBlock path b step =>
    cases step with
    | isEmpty | localCount | statementCount => exact fun _ hb => nomatch hb
    | localVariable | statement => exact located_go? h rfl (fun _ _ => rfl) fun _ _ => rfl
  | onStatement path s step =>
    cases step with
    | assignment =>
      cases s with
      | assignment target value => exact located_stay h (fun _ => rfl) fun _ => rfl
      | _ => exact fun _ hb => nomatch hb
    | ifElse =>
      cases s with
      | ifElse cond thenBlock elseBlock => exact located_stay h (fun _ => rfl) fun _ => rfl
      | _ => exact fun _ hb => nomatch hb
    | whileLoop =>
      cases s with
      | whileLoop cond body => exact located_stay h (fun _ => rfl) fun _ => rfl
      | _ => exact fun _ hb => nomatch hb
    | returnValue =>
      cases s with
      | returnValue value => exact located_go h rfl (fun _ => rfl) fun _ => rfl
      | _ => exact fun _ hb => nomatch hb
    | returnVoid | breakLoop | continueLoop => exact fun _ hb => nomatch hb
  | onAssignment path target value step =>
    cases step with
    | target => exact fun _ hb => nomatch hb
    | value => exact located_go h rfl (fun _ => rfl) fun _ => rfl
  | onConditional path cond body elseBlock step =>
    cases step with
    | cond | body => cases elseBlock <;> exact located_go h rfl (fun _ => rfl) fun _ => rfl
    | elseBlock =>
      cases elseBlock with
      | none => exact fun _ hb => nomatch hb
      | some b => exact located_go h rfl (fun _ => rfl) fun _ => rfl
  | onExpression path e step =>
    cases step with
    | text | int | bool | location => exact fun _ hb => nomatch hb
    | binary =>
      cases e with
      | binary left op right => exact located_stay h (fun _ => rfl) fun _ => rfl
      | _ => exact fun _ hb => nomatch hb
    | call =>
      cases e with
      | call name args => exact located_stay h (fun _ => rfl) fun _ => rfl
      | _ => exact fun _ hb => nomatch hb
  | onOperands path left op right step =>
    cases step with
    | left | right => exact located_go h rfl (fun _ => rfl) fun _ => rfl
  | onCall path name args step =>
    cases step with
    | argCount => exact fun _ hb => nomatch hb
    | arg => exact located_go? h rfl (fun _ _ => rfl) fun _ _ => rfl

/-- So everything that is attempted is located. -/
theorem located_of_mem_attempted {p : Program} {as : List Attempt}
    (h : ∀ a ∈ as, a.Located p) : ∀ a ∈ attempted as, a.Located p := by
  induction as using attempted.induct with
  | case1 => simp [attempted_nil]
  | case2 a as ih =>
    rw [List.forall_mem_cons] at h
    rw [attempted_cons, List.forall_mem_cons]
    exact ⟨h.1, ih (List.forall_mem_append.mpr ⟨h.1.inner, h.2⟩)⟩

end Check

end ImpFront
