import ImpFront.Proofs.Check.Attempt

/-!
# Full checks

The **full check** of a program asks for all that there is to ask for: the counts, the
names and the types, whether there is an initializer, and at every statement and every
expression for its kind. It goes to every part, at every depth. So it tells any two
programs apart: it passes on the program it is made from and on no other
(`Program.fullCheck_passes_iff`).

The same holds of the full check of each part, on whatever path it is made, and the proof
is by induction on the part. Members of lists are checked at their indices. That the list
has no further members is for the count to say (`passes_counted_iff`).
-/

namespace ImpFront

open Check

/-! ## The checks -/

section FullCheck

variable {α σ : Type}

/-- Goes to the members of a list, each at its index. -/
def Check.members (step : Nat → α → σ) (items : List α) : List σ :=
  items.zipIdx.map fun x => step x.2 x.1

mutual
/-- **The full check of an expression.** -/
def Expression.fullCheck : Expression → List ExpressionStep
  | .binary left op right => [.binary op [.left left.fullCheck, .right right.fullCheck]]
  | .intConstant value => [.int value]
  | .boolConstant value => [.bool value]
  | .location name => [.location name]
  | .call name args => [.call name (.argCount args.length :: Expression.fullCheckFrom 0 args)]

/-- Full checks of arguments; the first of them has this index. -/
def Expression.fullCheckFrom (index : Nat) : List Expression → List CallStep
  | [] => []
  | e :: es => .arg index e.fullCheck :: Expression.fullCheckFrom (index + 1) es
end

/-- **The full check of a variable.** -/
def Variable.fullCheck (v : Variable) : List VariableStep :=
  [.name v.name, .type v.type,
    v.initializer.elim .noInitializer fun e => .initializer e.fullCheck]

mutual
/-- **The full check of a statement.** -/
def Statement.fullCheck : Statement → List StatementStep
  | .assignment target value => [.assignment [.target target, .value value.fullCheck]]
  | .ifElse cond thenBlock elseBlock =>
    [.ifElse [.cond cond.fullCheck, .body thenBlock.fullCheck, .elseBlock elseBlock.fullCheck]]
  | .whileLoop cond body => [.whileLoop [.cond cond.fullCheck, .body body.fullCheck]]
  | .returnValue value => [.returnValue value.fullCheck]
  | .returnVoid => [.returnVoid]
  | .breakLoop => [.breakLoop]
  | .continueLoop => [.continueLoop]

/-- **The full check of a block.** -/
def Block.fullCheck : Block → List BlockStep
  | ⟨locals, statements⟩ =>
    (.localCount locals.length :: members (fun i v => .localVariable i v.fullCheck) locals)
      ++ .statementCount statements.length :: Statement.fullCheckFrom 0 statements

/-- Full checks of statements; the first of them has this index. -/
def Statement.fullCheckFrom (index : Nat) : List Statement → List BlockStep
  | [] => []
  | s :: ss => .statement index s.fullCheck :: Statement.fullCheckFrom (index + 1) ss
end

/-- **The full check of a function.** -/
def Function.fullCheck (f : Function) : List FunctionStep :=
  .returnType f.returnType :: .name f.name
    :: ((.paramCount f.params.length :: members (fun i v => .param i v.fullCheck) f.params)
      ++ [.body f.body.fullCheck])

/-- **The full check of a program.** -/
def Program.fullCheck (p : Program) : List ProgramStep :=
  (.variableCount p.globals.length :: members (fun i v => .variable i v.fullCheck) p.globals)
    ++ .functionCount p.functions.length
      :: members (fun i f => .function i f.fullCheck) p.functions

/-- What goes through a list and counts along goes to its members. -/
theorem Check.eq_members {walk : Nat → List α → List σ} {step : Nat → α → σ}
    (hnil : ∀ i, walk i [] = [])
    (hcons : ∀ i x xs, walk i (x :: xs) = step i x :: walk (i + 1) xs) (items : List α) :
    walk 0 items = members step items := by
  have hwalk (index : Nat) : walk index items = (items.zipIdx index).map fun x => step x.2 x.1 := by
    induction items generalizing index with
    | nil => exact hnil index
    | cons x xs ih => rw [hcons, ih, List.zipIdx_cons, List.map_cons]
  exact hwalk 0

theorem Expression.fullCheckFrom_zero (es : List Expression) :
    Expression.fullCheckFrom 0 es = members (fun i e => .arg i e.fullCheck) es :=
  eq_members (fun _ => rfl) (fun _ _ _ => rfl) es

theorem Statement.fullCheckFrom_zero (ss : List Statement) :
    Statement.fullCheckFrom 0 ss = members (fun i s => .statement i s.fullCheck) ss :=
  eq_members (fun _ => rfl) (fun _ _ _ => rfl) ss

end FullCheck

namespace Check

/-! ## Passing -/

section Passes

variable {α σ τ : Type} {on : σ → Attempt}

/-- **The steps succeed.** -/
def Passes (on : σ → Attempt) (steps : List σ) : Prop := checkEach (steps.map on) = .ok ()

theorem passes_iff {steps : List σ} : Passes on steps ↔ ∀ s ∈ steps, (on s).check = .ok () := by
  rw [Passes, checkEach_eq_ok_iff, List.forall_mem_map]

theorem passes_cons {s : σ} {ss : List σ} :
    Passes on (s :: ss) ↔ (on s).check = .ok () ∧ Passes on ss := by
  simp [passes_iff]

theorem passes_singleton {s : σ} : Passes on [s] ↔ (on s).check = .ok () := by
  simp [passes_iff]

theorem passes_append {ss ss' : List σ} :
    Passes on (ss ++ ss') ↔ Passes on ss ∧ Passes on ss' := by
  simp [passes_iff, or_imp, forall_and]

/-- A step that only goes to a part succeeds if the steps on that part do. -/
theorem check_iff_of_part {a : Attempt} {ss : List σ} {P : Prop} (hholds : a.Holds)
    (hinner : a.inner = ss.map on) (hpart : Passes on ss ↔ P) : a.check = .ok () ↔ P := by
  rw [Attempt.check_eq_ok_iff_inner hholds, hinner]
  exact hpart

/-- A list with the right count and the right members at their indices is the right list. -/
theorem eq_iff_length_and_getElem? {xs ys : List α} :
    xs = ys ↔ xs.length = ys.length ∧ ∀ (i : Nat) y, ys[i]? = some y → xs[i]? = some y := by
  constructor
  · rintro rfl
    exact ⟨rfl, fun _ _ h => h⟩
  · rintro ⟨hlength, hmember⟩
    refine List.ext_getElem hlength fun i hx hy => ?_
    have h := hmember i ys[i] (List.getElem?_eq_getElem hy)
    exact Option.some.inj ((List.getElem?_eq_getElem hx).symm.trans h)

/-- **The count, and checks of all members.** They pass on one list only if the check of each
member passes on that member only. -/
theorem passes_counted_iff {items expected : List α} {count : Nat → σ} {step : Nat → α → σ}
    {full : α → List τ} {onMember : Path → α → τ → Attempt} (place : Nat → Path)
    (hcount : ∀ n, (on (count n)).check = .ok () ↔ items.length = n)
    (hholds : ∀ i x, (on (step i x)).Holds ↔ i < items.length)
    (hinner : ∀ i x, (on (step i x)).inner
      = items[i]?.elim [] fun y => (full x).map (onMember (place i) y))
    (hfull : ∀ x ∈ expected, ∀ path y, Passes (onMember path y) (full x) ↔ y = x) :
    Passes on (count expected.length :: members step expected) ↔ items = expected := by
  rw [eq_iff_length_and_getElem?, passes_cons, hcount, passes_iff, members, List.forall_mem_map]
  simp only [Prod.forall, List.mk_mem_zipIdx_iff_getElem?]
  refine and_congr_right fun _ => ⟨fun h i x hx => ?_, fun h x i hx => ?_⟩
  all_goals
    have hmem : x ∈ expected := List.mem_of_getElem? hx
  · obtain ⟨hlt, hpass⟩ := Attempt.check_eq_ok_iff.mp (h x i hx)
    obtain ⟨y, hy⟩ : ∃ y, items[i]? = some y :=
      ⟨_, List.getElem?_eq_getElem ((hholds i x).mp hlt)⟩
    rw [hinner, hy] at hpass
    rw [hy, (hfull x hmem _ y).mp hpass]
  · have hy := h i x hx
    refine Attempt.check_eq_ok_iff.mpr ⟨?_, ?_⟩
    · exact (hholds i x).mpr (List.getElem?_eq_some_iff.mp hy).1
    · rw [hinner, hy]
      exact (hfull x hmem _ x).mpr rfl

end Passes

/-! ## When a step succeeds -/

section Steps

variable {path : Path} {e : Expression} {s : Statement}

theorem check_binary {op : Operator} {steps : List OperandStep} :
    (Attempt.onExpression path e (.binary op steps)).check = .ok ()
      ↔ ∃ left right, e = .binary left op right
        ∧ Passes (.onOperands path left op right) steps := by
  rw [Attempt.check_eq_ok_iff]
  constructor
  · rintro ⟨⟨left, right, rfl⟩, h⟩
    exact ⟨left, right, rfl, h⟩
  · rintro ⟨left, right, rfl, h⟩
    exact ⟨⟨left, right, rfl⟩, h⟩

theorem check_call {name : String} {steps : List CallStep} :
    (Attempt.onExpression path e (.call name steps)).check = .ok ()
      ↔ ∃ args, e = .call name args ∧ Passes (.onCall path name args) steps := by
  rw [Attempt.check_eq_ok_iff]
  constructor
  · rintro ⟨⟨args, rfl⟩, h⟩
    exact ⟨args, rfl, h⟩
  · rintro ⟨args, rfl, h⟩
    exact ⟨⟨args, rfl⟩, h⟩

theorem check_initializer {v : Variable} {steps : List ExpressionStep} :
    (Attempt.onVariable path v (.initializer steps)).check = .ok ()
      ↔ ∃ e, v.initializer = some e
        ∧ Passes (.onExpression (path ++ [.initializer]) e) steps := by
  obtain ⟨name, type, initializer⟩ := v
  rw [Attempt.check_eq_ok_iff]
  cases initializer with
  | none => simp [Attempt.Holds]
  | some e =>
    simp only [Option.some.injEq, exists_eq_left']
    exact and_iff_right (Option.some_ne_none e)

theorem check_assignment {steps : List AssignmentStep} :
    (Attempt.onStatement path s (.assignment steps)).check = .ok ()
      ↔ ∃ target value, s = .assignment target value
        ∧ Passes (.onAssignment path target value) steps := by
  rw [Attempt.check_eq_ok_iff]
  constructor
  · rintro ⟨⟨target, value, rfl⟩, h⟩
    exact ⟨target, value, rfl, h⟩
  · rintro ⟨target, value, rfl, h⟩
    exact ⟨⟨target, value, rfl⟩, h⟩

theorem check_ifElse {steps : List ConditionalStep} :
    (Attempt.onStatement path s (.ifElse steps)).check = .ok ()
      ↔ ∃ cond thenBlock elseBlock, s = .ifElse cond thenBlock elseBlock
        ∧ Passes (.onConditional path cond thenBlock (some elseBlock)) steps := by
  rw [Attempt.check_eq_ok_iff]
  constructor
  · rintro ⟨⟨cond, thenBlock, elseBlock, rfl⟩, h⟩
    exact ⟨cond, thenBlock, elseBlock, rfl, h⟩
  · rintro ⟨cond, thenBlock, elseBlock, rfl, h⟩
    exact ⟨⟨cond, thenBlock, elseBlock, rfl⟩, h⟩

theorem check_whileLoop {steps : List ConditionalStep} :
    (Attempt.onStatement path s (.whileLoop steps)).check = .ok ()
      ↔ ∃ cond body, s = .whileLoop cond body
        ∧ Passes (.onConditional path cond body none) steps := by
  rw [Attempt.check_eq_ok_iff]
  constructor
  · rintro ⟨⟨cond, body, rfl⟩, h⟩
    exact ⟨cond, body, rfl, h⟩
  · rintro ⟨cond, body, rfl, h⟩
    exact ⟨⟨cond, body, rfl⟩, h⟩

theorem check_returnValue {steps : List ExpressionStep} :
    (Attempt.onStatement path s (.returnValue steps)).check = .ok ()
      ↔ ∃ value, s = .returnValue value
        ∧ Passes (.onExpression (path ++ [.value]) value) steps := by
  rw [Attempt.check_eq_ok_iff]
  constructor
  · rintro ⟨⟨value, rfl⟩, h⟩
    exact ⟨value, rfl, h⟩
  · rintro ⟨value, rfl, h⟩
    exact ⟨⟨value, rfl⟩, h⟩

end Steps

/-! ## What the full checks pass on -/

mutual
/-- The full check of an expression passes on that expression only. -/
theorem passes_expression_iff (e : Expression) (path : Path) (e' : Expression) :
    Passes (.onExpression path e') e.fullCheck ↔ e' = e := by
  match e with
  | .intConstant value | .boolConstant value | .location name =>
    exact passes_singleton.trans (Attempt.check_eq_ok_iff_holds rfl)
  | .binary left op right =>
    have hoperands (l r : Expression) : Passes (.onOperands path l op r)
        [.left left.fullCheck, .right right.fullCheck] ↔ l = left ∧ r = right := by
      rw [passes_cons, passes_singleton]
      exact and_congr (check_iff_of_part trivial rfl (passes_expression_iff left _ l))
        (check_iff_of_part trivial rfl (passes_expression_iff right _ r))
    rw [Expression.fullCheck, passes_singleton, check_binary]
    simp [hoperands]
  | .call name args =>
    have hargs (args' : List Expression) : Passes (.onCall path name args')
        (.argCount args.length :: members (fun i e => .arg i e.fullCheck) args)
          ↔ args' = args :=
      passes_counted_iff (fun i => path ++ [.arg i]) (fun _ => Attempt.check_eq_ok_iff_holds rfl)
        (fun _ _ => Iff.rfl) (fun _ _ => rfl) (passes_expressions_iff args)
    rw [Expression.fullCheck, Expression.fullCheckFrom_zero, passes_singleton, check_call]
    simp [hargs]

/-- So for each of several expressions. -/
theorem passes_expressions_iff (es : List Expression) :
    ∀ e ∈ es, ∀ path e', Passes (.onExpression path e') e.fullCheck ↔ e' = e := by
  match es with
  | [] => simp
  | e :: es =>
    rw [List.forall_mem_cons]
    exact ⟨passes_expression_iff e, passes_expressions_iff es⟩
end

/-- The full check of a variable passes on that variable only. -/
theorem passes_variable_iff (v : Variable) (path : Path) (v' : Variable) :
    Passes (.onVariable path v') v.fullCheck ↔ v' = v := by
  obtain ⟨name, type, initializer⟩ := v
  obtain ⟨name', type', initializer'⟩ := v'
  rw [Variable.mk.injEq, Variable.fullCheck, passes_cons, passes_cons, passes_singleton,
    Attempt.check_eq_ok_iff_holds rfl, Attempt.check_eq_ok_iff_holds rfl]
  refine and_congr_right fun _ => and_congr_right fun _ => ?_
  cases initializer with
  | none => exact Attempt.check_eq_ok_iff_holds rfl
  | some e =>
    refine check_initializer.trans ?_
    simp [passes_expression_iff]

mutual
/-- The full check of a statement passes on that statement only. -/
theorem passes_statement_iff (s : Statement) (path : Path) (s' : Statement) :
    Passes (.onStatement path s') s.fullCheck ↔ s' = s := by
  match s with
  | .assignment target value =>
    have hparts (t : String) (v : Expression) : Passes (.onAssignment path t v)
        [.target target, .value value.fullCheck] ↔ t = target ∧ v = value := by
      rw [passes_cons, passes_singleton]
      exact and_congr (Attempt.check_eq_ok_iff_holds rfl)
        (check_iff_of_part trivial rfl (passes_expression_iff value _ v))
    rw [Statement.fullCheck, passes_singleton, check_assignment]
    simp [hparts]
  | .ifElse cond thenBlock elseBlock =>
    have hparts (c : Expression) (a b : Block) : Passes (.onConditional path c a (some b))
        [.cond cond.fullCheck, .body thenBlock.fullCheck, .elseBlock elseBlock.fullCheck]
          ↔ c = cond ∧ a = thenBlock ∧ b = elseBlock := by
      rw [passes_cons, passes_cons, passes_singleton]
      exact and_congr (check_iff_of_part trivial rfl (passes_expression_iff cond _ c))
        (and_congr (check_iff_of_part trivial rfl (passes_block_iff thenBlock _ a))
          (check_iff_of_part nofun rfl (passes_block_iff elseBlock _ b)))
    rw [Statement.fullCheck, passes_singleton, check_ifElse]
    simp [hparts]
  | .whileLoop cond body =>
    have hparts (c : Expression) (b : Block) : Passes (.onConditional path c b none)
        [.cond cond.fullCheck, .body body.fullCheck] ↔ c = cond ∧ b = body := by
      rw [passes_cons, passes_singleton]
      exact and_congr (check_iff_of_part trivial rfl (passes_expression_iff cond _ c))
        (check_iff_of_part trivial rfl (passes_block_iff body _ b))
    rw [Statement.fullCheck, passes_singleton, check_whileLoop]
    simp [hparts]
  | .returnValue value =>
    rw [Statement.fullCheck, passes_singleton, check_returnValue]
    simp [passes_expression_iff]
  | .returnVoid | .breakLoop | .continueLoop =>
    exact passes_singleton.trans (Attempt.check_eq_ok_iff_holds rfl)

/-- The full check of a block passes on that block only. -/
theorem passes_block_iff (b : Block) (path : Path) (b' : Block) :
    Passes (.onBlock path b') b.fullCheck ↔ b' = b := by
  match b, b' with
  | ⟨locals, statements⟩, ⟨locals', statements'⟩ =>
    rw [Block.fullCheck, Statement.fullCheckFrom_zero, passes_append, Block.mk.injEq]
    refine and_congr ?_ ?_
    · exact passes_counted_iff (fun i => path ++ [.localVariable i])
        (fun _ => Attempt.check_eq_ok_iff_holds rfl) (fun _ _ => Iff.rfl) (fun _ _ => rfl)
        fun v _ => passes_variable_iff v
    · exact passes_counted_iff (fun i => path ++ [.statement i])
        (fun _ => Attempt.check_eq_ok_iff_holds rfl) (fun _ _ => Iff.rfl) (fun _ _ => rfl)
        (passes_statements_iff statements)

/-- So for each of several statements. -/
theorem passes_statements_iff (ss : List Statement) :
    ∀ s ∈ ss, ∀ path s', Passes (.onStatement path s') s.fullCheck ↔ s' = s := by
  match ss with
  | [] => simp
  | s :: ss =>
    rw [List.forall_mem_cons]
    exact ⟨passes_statement_iff s, passes_statements_iff ss⟩
end

/-- The full check of a function passes on that function only. -/
theorem passes_function_iff (f : Function) (path : Path) (f' : Function) :
    Passes (.onFunction path f') f.fullCheck ↔ f' = f := by
  obtain ⟨returnType, name, params, body⟩ := f
  obtain ⟨returnType', name', params', body'⟩ := f'
  rw [Function.mk.injEq, Function.fullCheck, passes_cons, passes_cons, passes_append,
    passes_singleton, Attempt.check_eq_ok_iff_holds rfl, Attempt.check_eq_ok_iff_holds rfl]
  refine and_congr_right fun _ => and_congr_right fun _ => and_congr ?_ ?_
  · exact passes_counted_iff (fun i => path ++ [.param i])
      (fun _ => Attempt.check_eq_ok_iff_holds rfl) (fun _ _ => Iff.rfl) (fun _ _ => rfl)
      fun v _ => passes_variable_iff v
  · exact check_iff_of_part trivial rfl (passes_block_iff body _ body')

/-- The full check of a program passes on that program only. -/
theorem passes_program_iff (p p' : Program) :
    Passes (.onProgram p') p.fullCheck ↔ p' = p := by
  obtain ⟨globals, functions⟩ := p
  obtain ⟨globals', functions'⟩ := p'
  rw [Program.fullCheck, passes_append, Program.mk.injEq]
  refine and_congr ?_ ?_
  · exact passes_counted_iff (fun i => [.variable i])
      (fun _ => Attempt.check_eq_ok_iff_holds rfl) (fun _ _ => Iff.rfl) (fun _ _ => rfl)
      fun v _ => passes_variable_iff v
  · exact passes_counted_iff (fun i => [.function i])
      (fun _ => Attempt.check_eq_ok_iff_holds rfl) (fun _ _ => Iff.rfl) (fun _ _ => rfl)
      fun f _ => passes_function_iff f

end Check

/-- **A full check passes on one program only**, the one that it is made from. -/
theorem Program.fullCheck_passes_iff (p q : Program) :
    ProgramStep.checkAll q p.fullCheck = .ok () ↔ q = p := by
  rw [ProgramStep.checkAll_eq]
  exact passes_program_iff p q

end ImpFront
