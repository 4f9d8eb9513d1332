import ImpFront.Check.Basic
import ImpFront.Proofs.Outcome
import Mathlib.Data.List.Basic

/-!
# What a step asks

A check is made of steps of ten sorts, each with a function of its own that makes it. This
module says once what all of them do. An `Attempt` is a step together with what it is made
on and the path to that. It asks one thing of the part (`Attempt.Holds`); if the part is
not as it should be, the check fails there, with a reason that depends on the attempt alone
(`Attempt.failure`); and otherwise the steps inside of it are attempted, on what they are
about and with the path that leads to it (`Attempt.inner`). That is all that a step can do
(`Attempt.check_of_holds`, `Attempt.check_of_not_holds`), and what follows about checks is
said in terms of attempts.

Steps on assignments, conditionals, operands and calls are not made on a part of their own.
They go on from the step that has made sure what the statement or expression is, and keep
its path.
-/

namespace ImpFront.Check

/-- **A step, what it is made on, and the path to that.** -/
inductive Attempt
  | onProgram (p : Program) (step : ProgramStep)
  | onVariable (path : Path) (v : Variable) (step : VariableStep)
  | onFunction (path : Path) (f : Function) (step : FunctionStep)
  | onBlock (path : Path) (b : Block) (step : BlockStep)
  | onStatement (path : Path) (s : Statement) (step : StatementStep)
  /-- On an assignment. -/
  | onAssignment (path : Path) (target : String) (value : Expression) (step : AssignmentStep)
  /-- On a conditional, or on a loop, which has no other block. -/
  | onConditional (path : Path) (cond : Expression) (body : Block) (elseBlock : Option Block)
      (step : ConditionalStep)
  | onExpression (path : Path) (e : Expression) (step : ExpressionStep)
  /-- On an operation. -/
  | onOperands (path : Path) (left : Expression) (op : Operator) (right : Expression)
      (step : OperandStep)
  /-- On a call. -/
  | onCall (path : Path) (name : String) (args : List Expression) (step : CallStep)

namespace Attempt

/-- The path to what the step is made on. -/
def path : Attempt → Path
  | .onProgram .. => []
  | .onVariable path .. | .onFunction path .. | .onBlock path .. | .onStatement path ..
  | .onAssignment path .. | .onConditional path .. | .onExpression path ..
  | .onOperands path .. | .onCall path .. => path

/-- **What the step asks** of what it is made on. -/
def Holds : Attempt → Prop
  | .onProgram p (.variableCount expected) => p.globals.length = expected
  | .onProgram p (.functionCount expected) => p.functions.length = expected
  | .onProgram p (.variable index _) => index < p.globals.length
  | .onProgram p (.function index _) => index < p.functions.length
  | .onProgram p (.functionNamed name _) => ∃ f ∈ p.functions, f.name = name
  | .onVariable _ v (.name expected) => v.name = expected
  | .onVariable _ v (.type expected) => v.type = expected
  | .onVariable _ v .noInitializer => v.initializer = none
  | .onVariable _ v (.initializer _) => v.initializer ≠ none
  | .onFunction _ f (.name expected) => f.name = expected
  | .onFunction _ f (.returnType expected) => f.returnType = expected
  | .onFunction _ f (.paramCount expected) => f.params.length = expected
  | .onFunction _ f (.param index _) => index < f.params.length
  | .onFunction _ _ (.body _) => True
  | .onBlock _ b .isEmpty => b.locals = [] ∧ b.statements = []
  | .onBlock _ b (.localCount expected) => b.locals.length = expected
  | .onBlock _ b (.statementCount expected) => b.statements.length = expected
  | .onBlock _ b (.localVariable index _) => index < b.locals.length
  | .onBlock _ b (.statement index _) => index < b.statements.length
  | .onStatement _ s (.assignment _) => ∃ target value, s = .assignment target value
  | .onStatement _ s (.ifElse _) =>
    ∃ cond thenBlock elseBlock, s = .ifElse cond thenBlock elseBlock
  | .onStatement _ s (.whileLoop _) => ∃ cond body, s = .whileLoop cond body
  | .onStatement _ s (.returnValue _) => ∃ value, s = .returnValue value
  | .onStatement _ s .returnVoid => s = .returnVoid
  | .onStatement _ s .breakLoop => s = .breakLoop
  | .onStatement _ s .continueLoop => s = .continueLoop
  | .onAssignment _ target _ (.target expected) => target = expected
  | .onAssignment _ _ _ (.value _) => True
  | .onConditional _ _ _ _ (.cond _) => True
  | .onConditional _ _ _ _ (.body _) => True
  | .onConditional _ _ _ elseBlock (.elseBlock _) => elseBlock ≠ none
  | .onExpression _ e (.text expected) => e.display = expected
  | .onExpression _ e (.int expected) => e = .intConstant expected
  | .onExpression _ e (.bool expected) => e = .boolConstant expected
  | .onExpression _ e (.location expected) => e = .location expected
  | .onExpression _ e (.binary expected _) => ∃ left right, e = .binary left expected right
  | .onExpression _ e (.call expected _) => ∃ args, e = .call expected args
  | .onOperands .. => True
  | .onCall _ _ args (.argCount expected) => args.length = expected
  | .onCall _ _ args (.arg index _) => index < args.length

/-- **Why the check fails** if it does not hold. Steps that ask nothing never fail, and have
an arbitrary reason here. -/
def fault : Attempt → Fault
  | .onProgram p (.variableCount expected) =>
    .count .globals expected (p.globals.map describeVariable)
  | .onProgram p (.functionCount expected) =>
    .count .functions expected (p.functions.map describeFunction)
  | .onProgram p (.variable index _) =>
    .outOfBounds .globals index (p.globals.map describeVariable)
  | .onProgram p (.function index _) =>
    .outOfBounds .functions index (p.functions.map describeFunction)
  | .onProgram p (.functionNamed name _) =>
    .noFunctionNamed name (p.functions.map describeFunction)
  | .onVariable _ v (.name expected) => .name expected v.name
  | .onVariable _ v (.type expected) => .type expected v.type
  | .onVariable _ v .noInitializer => .hasInitializer v
  | .onVariable _ v (.initializer _) => .lacksInitializer v
  | .onFunction _ f (.name expected) => .name expected f.name
  | .onFunction _ f (.returnType expected) => .returnType expected f.returnType
  | .onFunction _ f (.paramCount expected) =>
    .count .params expected (f.params.map describeVariable)
  | .onFunction _ f (.param index _) =>
    .outOfBounds .params index (f.params.map describeVariable)
  | .onBlock _ b .isEmpty => .notEmpty b
  | .onBlock _ b (.localCount expected) =>
    .count .locals expected (b.locals.map describeVariable)
  | .onBlock _ b (.statementCount expected) =>
    .count .statements expected (b.statements.map describeStatement)
  | .onBlock _ b (.localVariable index _) =>
    .outOfBounds .locals index (b.locals.map describeVariable)
  | .onBlock _ b (.statement index _) =>
    .outOfBounds .statements index (b.statements.map describeStatement)
  | .onStatement _ s (.assignment _) => .statement .assignment s
  | .onStatement _ s (.ifElse _) => .statement .ifElse s
  | .onStatement _ s (.whileLoop _) => .statement .whileLoop s
  | .onStatement _ s (.returnValue _) => .statement .returnValue s
  | .onStatement _ s .returnVoid => .statement .returnVoid s
  | .onStatement _ s .breakLoop => .statement .breakLoop s
  | .onStatement _ s .continueLoop => .statement .continueLoop s
  | .onAssignment _ target _ (.target expected) => .target expected target
  | .onExpression _ e (.text expected) => .text expected e.display
  | .onExpression _ e (.int expected) => .expression (.int expected) e
  | .onExpression _ e (.bool expected) => .expression (.bool expected) e
  | .onExpression _ e (.location expected) => .expression (.location expected) e
  | .onExpression _ e (.binary expected _) => .expression (.binary expected) e
  | .onExpression _ e (.call expected _) => .expression (.call expected) e
  | .onCall _ _ args (.argCount expected) =>
    .count .arguments expected (args.map describeExpression)
  | .onCall _ _ args (.arg index _) =>
    .outOfBounds .arguments index (args.map describeExpression)
  | _ => .noElseBlock

/-- How it fails, if it does not hold. -/
def failure (a : Attempt) : Failure := ⟨a.path, a.fault⟩

/-- **Makes the step.** -/
def check : Attempt → Result
  | .onProgram p step => step.check p
  | .onVariable path v step => step.check path v
  | .onFunction path f step => step.check path f
  | .onBlock path b step => step.check path b
  | .onStatement path s step => step.check path s
  | .onAssignment path target value step => step.check path target value
  | .onConditional path cond body elseBlock step => step.check path cond body elseBlock
  | .onExpression path e step => step.check path e
  | .onOperands path left _ right step => step.check path left right
  | .onCall path _ args step => step.check path args

/-- **What is attempted inside of it**, in order. -/
def inner : Attempt → List Attempt
  | .onProgram p (.variable index steps) =>
    p.globals[index]?.elim [] fun v => steps.map (.onVariable [.variable index] v)
  | .onProgram p (.function index steps) =>
    p.functions[index]?.elim [] fun f => steps.map (.onFunction [.function index] f)
  | .onProgram p (.functionNamed name steps) =>
    (p.functionNamed? name).elim [] fun f => steps.map (.onFunction [.functionNamed name] f)
  | .onVariable path v (.initializer steps) =>
    v.initializer.elim [] fun e => steps.map (.onExpression (path ++ [.initializer]) e)
  | .onFunction path f (.param index steps) =>
    f.params[index]?.elim [] fun v => steps.map (.onVariable (path ++ [.param index]) v)
  | .onFunction path f (.body steps) => steps.map (.onBlock (path ++ [.body]) f.body)
  | .onBlock path b (.localVariable index steps) =>
    b.locals[index]?.elim [] fun v => steps.map (.onVariable (path ++ [.localVariable index]) v)
  | .onBlock path b (.statement index steps) =>
    b.statements[index]?.elim [] fun s => steps.map (.onStatement (path ++ [.statement index]) s)
  | .onStatement path s (.assignment steps) =>
    match s with
    | .assignment target value => steps.map (.onAssignment path target value)
    | _ => []
  | .onStatement path s (.ifElse steps) =>
    match s with
    | .ifElse cond thenBlock elseBlock =>
      steps.map (.onConditional path cond thenBlock (some elseBlock))
    | _ => []
  | .onStatement path s (.whileLoop steps) =>
    match s with
    | .whileLoop cond body => steps.map (.onConditional path cond body none)
    | _ => []
  | .onStatement path s (.returnValue steps) =>
    match s with
    | .returnValue value => steps.map (.onExpression (path ++ [.value]) value)
    | _ => []
  | .onAssignment path _ value (.value steps) => steps.map (.onExpression (path ++ [.value]) value)
  | .onConditional path cond _ _ (.cond steps) => steps.map (.onExpression (path ++ [.cond]) cond)
  | .onConditional path _ body _ (.body steps) => steps.map (.onBlock (path ++ [.body]) body)
  | .onConditional path _ _ elseBlock (.elseBlock steps) =>
    elseBlock.elim [] fun b => steps.map (.onBlock (path ++ [.elseBlock]) b)
  | .onExpression path e (.binary _ steps) =>
    match e with
    | .binary left op right => steps.map (.onOperands path left op right)
    | _ => []
  | .onExpression path e (.call _ steps) =>
    match e with
    | .call name args => steps.map (.onCall path name args)
    | _ => []
  | .onOperands path left _ _ (.left steps) => steps.map (.onExpression (path ++ [.left]) left)
  | .onOperands path _ _ right (.right steps) => steps.map (.onExpression (path ++ [.right]) right)
  | .onCall path _ args (.arg index steps) =>
    args[index]?.elim [] fun e => steps.map (.onExpression (path ++ [.arg index]) e)
  | _ => []

end Attempt

/-! ## Several steps -/

/-- Makes several steps in order. -/
def checkEach (as : List Attempt) : Result := as.forM Attempt.check

theorem checkEach_nil : checkEach [] = .ok () := rfl

theorem checkEach_cons (a : Attempt) (as : List Attempt) :
    checkEach (a :: as) = a.check >>= fun _ => checkEach as := rfl

theorem checkEach_append (as bs : List Attempt) :
    checkEach (as ++ bs) = checkEach as >>= fun _ => checkEach bs := by
  induction as with
  | nil => rfl
  | cons a as ih => rw [List.cons_append, checkEach_cons, checkEach_cons, ih, bind_assoc]

/-- They succeed together if each of them does. -/
theorem checkEach_eq_ok_iff {as : List Attempt} :
    checkEach as = .ok () ↔ ∀ a ∈ as, a.check = .ok () := by
  induction as with
  | nil => simp [checkEach_nil]
  | cons a as ih =>
    rw [checkEach_cons, bind_eq_ok_iff, Unique.exists_iff, List.forall_mem_cons, ← ih]

/-- What makes several steps of one sort makes several attempts. -/
theorem checkAll_eq {σ : Type} {on : σ → Attempt} {checkAll : List σ → Result}
    (hnil : checkAll [] = .ok ())
    (hcons : ∀ s ss, checkAll (s :: ss) = (on s).check >>= fun _ => checkAll ss)
    (steps : List σ) : checkAll steps = checkEach (steps.map on) := by
  induction steps with
  | nil => exact hnil
  | cons s ss ih =>
    rw [hcons, ih]
    rfl

theorem ProgramStep.checkAll_eq (p : Program) (steps : List ProgramStep) :
    ProgramStep.checkAll p steps = checkEach (steps.map (.onProgram p)) :=
  Check.checkAll_eq rfl (fun _ _ => rfl) steps

/-! ## What a step can do -/

/-- **An attempt does what it is said to do**: it goes on with the steps inside of it, or it
fails for its reason. -/
structure Attempt.Plain (a : Attempt) : Prop where
  of_holds : a.Holds → a.check = checkEach a.inner
  of_not_holds : ¬ a.Holds → a.check = .error a.failure

section Plain

variable {a : Attempt}

/-- A step that asks nothing. -/
theorem plain_of_holds (hholds : a.Holds) (hcheck : a.check = checkEach a.inner) : a.Plain :=
  ⟨fun _ => hcheck, fun h => absurd hholds h⟩

/-- A step that insists on a condition and has no steps inside of it. -/
theorem plain_of_require {condition : Prop} [Decidable condition]
    (hcheck : a.check = require a.path a.fault condition) (hholds : a.Holds ↔ condition)
    (hinner : a.inner = []) : a.Plain := by
  unfold require at hcheck
  constructor
  · intro h
    rw [hcheck, if_pos (hholds.mp h), hinner]
    rfl
  · intro h
    rw [hcheck, if_neg (h ∘ hholds.mpr)]
    rfl

/-- A step that goes to a member of a list. -/
theorem plain_of_requireAt {α : Type} {list : PartList} {describe : α → String} {index : Nat}
    {items : List α} {next : α → Result} {inner : α → List Attempt}
    (hcheck : a.check = requireAt a.path list describe index items >>= next)
    (hholds : a.Holds ↔ index < items.length)
    (hfault : a.fault = .outOfBounds list index (items.map describe))
    (hinner : a.inner = items[index]?.elim [] inner)
    (hnext : ∀ item, next item = checkEach (inner item)) : a.Plain := by
  unfold requireAt at hcheck
  constructor
  · intro h
    rw [hcheck, hinner, List.getElem?_eq_getElem (hholds.mp h)]
    exact hnext _
  · intro h
    rw [hcheck, List.getElem?_eq_none (Nat.le_of_not_lt (h ∘ hholds.mpr)), Attempt.failure, hfault]
    rfl

end Plain

section Sorts

variable (path : Path)

theorem plain_onExpression (e : Expression) (step : ExpressionStep) :
    (Attempt.onExpression path e step).Plain := by
  cases step with
  | text | int | bool | location => exact plain_of_require rfl Iff.rfl rfl
  | binary expected steps =>
    constructor
    · rintro ⟨left, right, rfl⟩
      show (if expected = expected then OperandStep.checkAll path left right steps else _) = _
      rw [if_pos rfl]
      exact checkAll_eq rfl (fun _ _ => rfl) steps
    · intro h
      cases e with
      | binary left op right =>
        refine if_neg fun hop => h ⟨left, right, ?_⟩
        rw [hop]
      | _ => rfl
  | call expected steps =>
    constructor
    · rintro ⟨args, rfl⟩
      show (if expected = expected then CallStep.checkAll path args steps else _) = _
      rw [if_pos rfl]
      exact checkAll_eq rfl (fun _ _ => rfl) steps
    · intro h
      cases e with
      | call name args =>
        refine if_neg fun hname => h ⟨args, ?_⟩
        rw [hname]
      | _ => rfl

theorem plain_onOperands (left : Expression) (op : Operator) (right : Expression)
    (step : OperandStep) : (Attempt.onOperands path left op right step).Plain := by
  cases step with
  | left steps | right steps =>
    exact plain_of_holds trivial (checkAll_eq rfl (fun _ _ => rfl) steps)

theorem plain_onCall (name : String) (args : List Expression) (step : CallStep) :
    (Attempt.onCall path name args step).Plain := by
  cases step with
  | argCount expected => exact plain_of_require rfl Iff.rfl rfl
  | arg index steps =>
    exact plain_of_requireAt rfl Iff.rfl rfl rfl fun e => checkAll_eq rfl (fun _ _ => rfl) steps

theorem plain_onVariable (v : Variable) (step : VariableStep) :
    (Attempt.onVariable path v step).Plain := by
  cases step with
  | name | type | noInitializer => exact plain_of_require rfl Iff.rfl rfl
  | initializer steps =>
    obtain ⟨name, type, initializer⟩ := v
    cases initializer with
    | none => exact ⟨fun h => absurd rfl h, fun _ => rfl⟩
    | some e => exact plain_of_holds nofun (checkAll_eq rfl (fun _ _ => rfl) steps)

theorem plain_onAssignment (target : String) (value : Expression) (step : AssignmentStep) :
    (Attempt.onAssignment path target value step).Plain := by
  cases step with
  | target expected => exact plain_of_require rfl Iff.rfl rfl
  | value steps => exact plain_of_holds trivial (checkAll_eq rfl (fun _ _ => rfl) steps)

theorem plain_onBlock (b : Block) (step : BlockStep) :
    (Attempt.onBlock path b step).Plain := by
  cases step with
  | isEmpty =>
    refine plain_of_require rfl ?_ rfl
    simp [Attempt.Holds, Block.isEmpty]
  | localCount expected | statementCount expected => exact plain_of_require rfl Iff.rfl rfl
  | localVariable index steps =>
    exact plain_of_requireAt rfl Iff.rfl rfl rfl fun v => checkAll_eq rfl (fun _ _ => rfl) steps
  | statement index steps =>
    exact plain_of_requireAt rfl Iff.rfl rfl rfl fun s => checkAll_eq rfl (fun _ _ => rfl) steps

theorem plain_onConditional (cond : Expression) (body : Block) (elseBlock : Option Block)
    (step : ConditionalStep) : (Attempt.onConditional path cond body elseBlock step).Plain := by
  cases step with
  | cond steps | body steps =>
    exact plain_of_holds trivial (checkAll_eq rfl (fun _ _ => rfl) steps)
  | elseBlock steps =>
    cases elseBlock with
    | none => exact ⟨fun h => absurd rfl h, fun _ => rfl⟩
    | some b => exact plain_of_holds nofun (checkAll_eq rfl (fun _ _ => rfl) steps)

theorem plain_onStatement (s : Statement) (step : StatementStep) :
    (Attempt.onStatement path s step).Plain := by
  cases step with
  | assignment steps =>
    cases s with
    | assignment target value =>
      have hcheck : AssignmentStep.checkAll path target value steps
          = checkEach (steps.map (.onAssignment path target value)) :=
        checkAll_eq rfl (fun _ _ => rfl) steps
      exact plain_of_holds ⟨target, value, rfl⟩ hcheck
    | _ => exact ⟨fun ⟨_, _, h⟩ => (nomatch h), fun _ => rfl⟩
  | ifElse steps =>
    cases s with
    | ifElse cond thenBlock elseBlock =>
      exact plain_of_holds ⟨cond, thenBlock, elseBlock, rfl⟩
        (checkAll_eq rfl (fun _ _ => rfl) steps)
    | _ => exact ⟨fun ⟨_, _, _, h⟩ => (nomatch h), fun _ => rfl⟩
  | whileLoop steps =>
    cases s with
    | whileLoop cond body =>
      exact plain_of_holds ⟨cond, body, rfl⟩ (checkAll_eq rfl (fun _ _ => rfl) steps)
    | _ => exact ⟨fun ⟨_, _, h⟩ => (nomatch h), fun _ => rfl⟩
  | returnValue steps =>
    cases s with
    | returnValue value =>
      exact plain_of_holds ⟨value, rfl⟩ (checkAll_eq rfl (fun _ _ => rfl) steps)
    | _ => exact ⟨fun ⟨_, h⟩ => (nomatch h), fun _ => rfl⟩
  | returnVoid | breakLoop | continueLoop => exact plain_of_require rfl Iff.rfl rfl

theorem plain_onFunction (f : Function) (step : FunctionStep) :
    (Attempt.onFunction path f step).Plain := by
  cases step with
  | name | returnType | paramCount => exact plain_of_require rfl Iff.rfl rfl
  | param index steps =>
    exact plain_of_requireAt rfl Iff.rfl rfl rfl fun v => checkAll_eq rfl (fun _ _ => rfl) steps
  | body steps => exact plain_of_holds trivial (checkAll_eq rfl (fun _ _ => rfl) steps)

theorem plain_onProgram (p : Program) (step : ProgramStep) :
    (Attempt.onProgram p step).Plain := by
  cases step with
  | variableCount | functionCount => exact plain_of_require rfl Iff.rfl rfl
  | «variable» index steps =>
    exact plain_of_requireAt rfl Iff.rfl rfl rfl fun v => checkAll_eq rfl (fun _ _ => rfl) steps
  | function index steps =>
    exact plain_of_requireAt rfl Iff.rfl rfl rfl fun f => checkAll_eq rfl (fun _ _ => rfl) steps
  | functionNamed name steps =>
    -- The function is looked for, and it is found if there is one.
    have hfound : (∃ f ∈ p.functions, f.name = name) ↔ (p.functionNamed? name).isSome := by
      simp [Program.functionNamed?]
    constructor
    · intro h
      obtain ⟨f, hf⟩ := Option.isSome_iff_exists.mp (hfound.mp h)
      have hcheck : FunctionStep.checkAll [.functionNamed name] f steps
          = checkEach (steps.map (.onFunction [.functionNamed name] f)) :=
        checkAll_eq rfl (fun _ _ => rfl) steps
      simpa only [Attempt.check, ProgramStep.check, Attempt.inner, hf, Option.elim] using hcheck
    · intro h
      have hnone : p.functionNamed? name = none := by
        simpa using mt hfound.mpr h
      simp only [Attempt.check, ProgramStep.check, hnone]
      rfl

end Sorts

namespace Attempt

variable {a : Attempt}

/-- **All attempts do what they are said to do.** -/
theorem plain (a : Attempt) : a.Plain :=
  match a with
  | .onProgram p step => plain_onProgram p step
  | .onVariable path v step => plain_onVariable path v step
  | .onFunction path f step => plain_onFunction path f step
  | .onBlock path b step => plain_onBlock path b step
  | .onStatement path s step => plain_onStatement path s step
  | .onAssignment path target value step => plain_onAssignment path target value step
  | .onConditional path cond body elseBlock step =>
    plain_onConditional path cond body elseBlock step
  | .onExpression path e step => plain_onExpression path e step
  | .onOperands path left op right step => plain_onOperands path left op right step
  | .onCall path name args step => plain_onCall path name args step

theorem check_of_holds (h : a.Holds) : a.check = checkEach a.inner := a.plain.of_holds h

theorem check_of_not_holds (h : ¬ a.Holds) : a.check = .error a.failure :=
  a.plain.of_not_holds h

theorem check_eq_ok_iff : a.check = .ok () ↔ a.Holds ∧ checkEach a.inner = .ok () := by
  by_cases h : a.Holds
  · simp [check_of_holds h, h]
  · simp [check_of_not_holds h, h]

/-- With no steps inside of it, only what it asks counts. -/
theorem check_eq_ok_iff_holds (hinner : a.inner = []) : a.check = .ok () ↔ a.Holds := by
  rw [check_eq_ok_iff, hinner, checkEach_nil]
  exact and_iff_left rfl

/-- If it asks nothing, only the steps inside of it count. -/
theorem check_eq_ok_iff_inner (h : a.Holds) :
    a.check = .ok () ↔ checkEach a.inner = .ok () := by
  rw [check_eq_ok_iff]
  exact and_iff_right h

end Attempt

end ImpFront.Check
