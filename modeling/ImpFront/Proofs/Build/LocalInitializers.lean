import ImpFront.Proofs.Build.Blockwise
import ImpFront.Proofs.Build.Offence

/-!
# Discarding the initializers of locals

What becomes of the initializers of local variables is a switch, and the builders
pass it on through every block of every statement. This module says that it does
nothing else, for any tree at all.

To discard is to cut: the builders make of a tree, initializers discarded, just
what they make of the tree without them, initializers kept – value or error
(`discardIsCut`). So nothing that stands in such an initializer has any
influence. The delicate point is what the cut leaves alone: a tree put together by
hand may have variables outside of blocks and blocks inside of expressions, and no
lookup may find a different child afterwards. The cut is a change inside of blocks
(`blockwise_withoutLocalInitializers`), so none does.

And where everything is fine with the initializers, to discard them is to forget
them: the value is the one with them, less the initializers of its locals
(`discardForgets`).
-/

namespace ImpFront

open SyntaxTree

/-! ## The cut tree -/

namespace SyntaxTree

@[simp] theorem kind_withoutLocalInitializers (t : SyntaxTree) :
    t.withoutLocalInitializers.kind = t.kind := by
  cases t
  rw [withoutLocalInitializers]

@[simp] theorem span_withoutLocalInitializers (t : SyntaxTree) :
    t.withoutLocalInitializers.span = t.span := by
  cases t
  rw [withoutLocalInitializers]

@[simp] theorem text_withoutLocalInitializers (t : SyntaxTree) :
    t.withoutLocalInitializers.text = t.text := by
  cases t
  rw [withoutLocalInitializers]

/-- Only in a block are children cut. -/
theorem children_withoutLocalInitializers {t : SyntaxTree} (h : t.kind ≠ .block) :
    t.withoutLocalInitializers.children = t.children.map withoutLocalInitializers := by
  obtain ⟨kind, span, text, children⟩ := t
  rw [withoutLocalInitializers_node h]

/-- **The cut is inside of blocks.** Programs keep their children. -/
theorem blockwise_withoutLocalInitializers :
    Blockwise (fun kind => decide (kind = .block)) withoutLocalInitializers where
  keeps kind h := by
    refine decide_eq_false ?_
    rintro rfl
    simp [NodeKind.sorts] at h
  kind := kind_withoutLocalInitializers
  span := span_withoutLocalInitializers
  text := text_withoutLocalInitializers
  children _ h := children_withoutLocalInitializers (of_decide_eq_false h)

end SyntaxTree

/-! ## What is cut -/

namespace SyntaxTree

theorem child?_withoutExpressions {kind : NodeKind} (h : kind.isExpression = false)
    (t : SyntaxTree) : t.withoutExpressions.child? kind = t.child? kind := by
  unfold child? withoutExpressions
  rw [List.find?_filter]
  congr 1
  funext c
  by_cases hc : c.kind = kind
  · simp [hc, h]
  · simp [hc]

theorem expressionChild?_withoutExpressions (t : SyntaxTree) :
    t.withoutExpressions.expressionChild? = none := by
  unfold expressionChild? withoutExpressions
  rw [List.find?_filter, List.find?_eq_none]
  simp

theorem need_withoutExpressions {kind : NodeKind} (h : kind.isExpression = false)
    (t : SyntaxTree) (role : ChildRole) :
    t.withoutExpressions.need kind role = t.need kind role := by
  unfold need
  rw [child?_withoutExpressions h]
  rfl

end SyntaxTree

/-- **A variable without its expressions** is the variable without its initializer. -/
theorem Variable.ofTree_withoutExpressions (t : SyntaxTree) :
    Variable.ofTree true t.withoutExpressions = Variable.ofTree false t := by
  have hinit : Variable.initializerOfTree t.withoutExpressions = .ok none := by
    rw [Variable.initializerOfTree, expressionChild?_withoutExpressions]
    rfl
  rw [Variable.ofTree_eq, Variable.ofTree_eq, need_withoutExpressions rfl,
    need_withoutExpressions rfl, hinit]
  rfl

/-! ## To discard is to cut -/

/-- **To discard is to cut**, for what the builders of code make of the tree. That the tree
is not itself a block matters where its children are looked up. -/
structure SyntaxTree.DiscardIsCut (t : SyntaxTree) : Prop where
  statement : Statement.ofTree .keep t.withoutLocalInitializers = Statement.ofTree .discard t
  block : Block.ofTree .keep t.withoutLocalInitializers = Block.ofTree .discard t
  branch : t.kind ≠ .block → ∀ role, Statement.branchOfTree .keep role t.withoutLocalInitializers
    = Statement.branchOfTree .discard role t
  elseBlock : t.kind ≠ .block →
    Block.ofElseTree .keep t.withoutLocalInitializers = Block.ofElseTree .discard t

theorem Block.ofTrees_cut {ts : List SyntaxTree} (h : ∀ t ∈ ts, t.DiscardIsCut) :
    Block.ofTrees .keep (ts.map itemWithoutInitializer) = Block.ofTrees .discard ts := by
  induction ts with
  | nil =>
    rw [List.map_nil, Block.ofTrees_nil, Block.ofTrees_nil]
  | cons t ts ih =>
    obtain ⟨ht, hts⟩ := List.forall_mem_cons.mp h
    rw [List.map_cons, Block.ofTrees_cons, Block.ofTrees_cons, ih hts, itemWithoutInitializer]
    by_cases hkind : t.kind = .varDecl
    · have hvar : Variable.ofTree true t.withoutLocalInitializers.withoutExpressions
          = Variable.ofTree false t := by
        rw [Variable.ofTree_withoutExpressions, blockwise_withoutLocalInitializers.variable_eq]
      rw [if_pos hkind, if_pos hkind, if_pos (by simpa [withoutExpressions] using hkind)]
      exact congrArg (· >>= _) hvar
    · rw [if_neg hkind, if_neg hkind, kind_withoutLocalInitializers, if_neg hkind, ht.statement,
        blockwise_withoutLocalInitializers.unexpected]

section Code

variable {t : SyntaxTree}

/-- It is a comparison of code, with the errors. -/
theorem CodeCompares.discardIsCut (h : CodeCompares .exact (fun kind => decide (kind = .block))
    withoutLocalInitializers .keep .discard t) : t.DiscardIsCut where
  statement := h.statement
  block := h.block
  branch hblock := h.branch (decide_eq_false hblock)
  elseBlock hblock := h.elseBlock (decide_eq_false hblock)

/-- The items of a block that is cut are cut. -/
theorem Block.ofTrees_children_cut (hkind : t.kind = .block)
    (h : ∀ c ∈ t.children, CodeCompares .exact (fun kind => decide (kind = .block))
      withoutLocalInitializers .keep .discard c) :
    Block.ofTrees .keep t.withoutLocalInitializers.children = Block.ofTrees .discard t.children := by
  obtain ⟨kind, span, text, items⟩ := t
  obtain rfl : kind = .block := hkind
  rw [withoutLocalInitializers_block]
  exact Block.ofTrees_cut fun c hc => (h c hc).discardIsCut

end Code

/-- **To discard is to cut, in any tree.** -/
theorem discardIsCut (t : SyntaxTree) : t.DiscardIsCut :=
  (blockwise_withoutLocalInitializers.code (fun _ => Block.ofTrees_children_cut) t).discardIsCut

theorem Function.ofTree_cut (t : SyntaxTree) :
    Function.ofTree .keep t.withoutLocalInitializers = Function.ofTree .discard t :=
  blockwise_withoutLocalInitializers.function (R := .exact)
    (fun _ => Block.ofTrees_children_cut) t

theorem Program.ofTrees_cut (ts : List SyntaxTree) :
    Program.ofTrees .keep (ts.map withoutLocalInitializers) = Program.ofTrees .discard ts := by
  induction ts with
  | nil => rfl
  | cons t ts ih =>
    rw [List.map_cons, Program.ofTrees, Program.ofTrees, kind_withoutLocalInitializers, ih,
      blockwise_withoutLocalInitializers.variable_eq, Function.ofTree_cut,
      blockwise_withoutLocalInitializers.unexpected]

theorem Program.ofTree_cut (t : SyntaxTree) :
    Program.ofTree .keep t.withoutLocalInitializers = Program.ofTree .discard t := by
  unfold Program.ofTree
  rw [blockwise_withoutLocalInitializers.expectKind]
  refine Comparison.exact.expectKind fun hkind => ?_
  show Program.ofTrees .keep t.withoutLocalInitializers.children = _
  rw [children_withoutLocalInitializers (by simp [hkind]), Program.ofTrees_cut]

/-! ## Programs without the initializers of locals -/

/-- The variable without its initializer. -/
def Variable.uninitialized (v : Variable) : Variable := { v with initializer := none }

mutual
/-- The statement with no local variable initialized. -/
def Statement.withoutLocalInitializers : Statement → Statement
  | .ifElse cond thenBlock elseBlock =>
    .ifElse cond thenBlock.withoutLocalInitializers elseBlock.withoutLocalInitializers
  | .whileLoop cond body => .whileLoop cond body.withoutLocalInitializers
  | s => s

/-- **The block with no local variable initialized**, at any depth. -/
def Block.withoutLocalInitializers : Block → Block
  | ⟨locals, statements⟩ =>
    ⟨locals.map Variable.uninitialized, Statement.withoutLocalInitializersAll statements⟩

/-- Several statements with no local variable initialized. -/
def Statement.withoutLocalInitializersAll : List Statement → List Statement
  | [] => []
  | s :: ss => s.withoutLocalInitializers :: Statement.withoutLocalInitializersAll ss
end

/-- The function with no local variable initialized. -/
def Function.withoutLocalInitializers (f : Function) : Function :=
  { f with body := f.body.withoutLocalInitializers }

/-- **The program with no local variable initialized**; its globals are as they were. -/
def Program.withoutLocalInitializers (p : Program) : Program :=
  { p with functions := p.functions.map Function.withoutLocalInitializers }

theorem Block.withoutLocalInitializers_empty : empty.withoutLocalInitializers = empty := by
  rw [empty, withoutLocalInitializers, Statement.withoutLocalInitializersAll]
  rfl

theorem Block.withoutLocalInitializers_addLocal (v : Variable) (b : Block) :
    (b.addLocal v).withoutLocalInitializers
      = b.withoutLocalInitializers.addLocal v.uninitialized := by
  cases b
  rw [addLocal, withoutLocalInitializers, withoutLocalInitializers]
  rfl

theorem Block.withoutLocalInitializers_addStatement (s : Statement) (b : Block) :
    (b.addStatement s).withoutLocalInitializers
      = b.withoutLocalInitializers.addStatement s.withoutLocalInitializers := by
  cases b
  rw [addStatement, withoutLocalInitializers, withoutLocalInitializers,
    Statement.withoutLocalInitializersAll]
  rfl

/-- A condition and its block, with no local variable initialized. -/
def Statement.branchWithoutLocalInitializers (b : Expression × Block) : Expression × Block :=
  (b.1, b.2.withoutLocalInitializers)

/-- The clauses of a conditional keep their places. -/
theorem Statement.withoutLocalInitializers_ifChain (cond : Expression) (body last : Block)
    (clauses : List (Expression × Block)) :
    (ifChain cond body clauses last).withoutLocalInitializers
      = ifChain cond body.withoutLocalInitializers
          (clauses.map branchWithoutLocalInitializers) last.withoutLocalInitializers := by
  induction clauses generalizing cond body with
  | nil => rw [ifChain, withoutLocalInitializers]; rfl
  | cons clause clauses ih =>
    have hrest : (ifChain clause.1 clause.2 clauses last).withoutLocalInitializers = _ :=
      ih clause.1 clause.2
    show (Statement.ifElse cond body ⟨[], [ifChain clause.1 clause.2 clauses last]⟩
      |>.withoutLocalInitializers) = _
    rw [withoutLocalInitializers, Block.withoutLocalInitializers, withoutLocalInitializersAll,
      withoutLocalInitializersAll, hrest]
    rfl

/-! ## To discard is to forget -/

/-- **If all is well with the initializers, to discard them is to forget them**: a value of
the first result is, without them, the value of the second. -/
def Forgets {α : Type} (forget : α → α) (kept discarded : Except BuildError α) : Prop :=
  ∀ a, kept = .ok a → discarded = .ok (forget a)

section Forgets

variable {α β : Type} {forget : α → α} {forget' : β → β} {r s : Except BuildError α}

theorem forgets_ok {a b : α} (h : forget a = b) : Forgets forget (.ok a) (.ok b) := by
  rintro _ ⟨⟩
  rw [h]

theorem forgets_error (e : BuildError) : Forgets forget (.error e) s := by
  rintro _ ⟨⟩

/-- One step after another. -/
theorem Forgets.bind {f g : α → Except BuildError β} (h : Forgets forget r s)
    (hfg : ∀ a, Forgets forget' (f a) (g (forget a))) :
    Forgets forget' (r >>= f) (s >>= g) := by
  intro b hb
  cases r with
  | error e => cases hb
  | ok a =>
    rw [h a rfl]
    exact hfg a b hb

theorem Forgets.map {f g : α → β} (h : Forgets forget r s)
    (hfg : ∀ a, forget' (f a) = g (forget a)) :
    Forgets forget' (do let a ← r; return f a) (do let a ← s; return g a) :=
  h.bind fun a => forgets_ok (hfg a)

/-- After a step that does not depend on the policy. -/
theorem forgets_bind {f g : α → Except BuildError β} (hfg : ∀ a, Forgets forget' (f a) (g a)) :
    Forgets forget' (r >>= f) (r >>= g) :=
  (show Forgets id r r from fun _ h => h).bind hfg

end Forgets

/-- After a child was looked up. -/
theorem forgets_need {β : Type} {forget : β → β} {t : SyntaxTree} {kind : NodeKind}
    {role : ChildRole} {f g : SyntaxTree → Except BuildError β}
    (h : ∀ c ∈ t.children, Forgets forget (f c) (g c)) :
    Forgets forget (t.need kind role >>= f) (t.need kind role >>= g) := by
  unfold need
  cases hc : t.child? kind with
  | none => exact forgets_error _
  | some c => exact h c (mem_of_child? hc)

theorem Variable.forgets_ofTree (t : SyntaxTree) :
    Forgets uninitialized (ofTree true t) (ofTree false t) := by
  rw [ofTree_eq, ofTree_eq]
  refine forgets_bind fun _ => forgets_bind fun word => forgets_bind fun type => ?_
  refine forgets_bind fun name => ?_
  exact (show Forgets (fun _ => none) _ _ from fun _ _ => rfl).map fun _ => rfl

/-- **What the builders of code make of a tree** is, initializers discarded, what they make
of it otherwise less these initializers. -/
structure SyntaxTree.DiscardForgets (t : SyntaxTree) : Prop where
  statement : Forgets Statement.withoutLocalInitializers
    (Statement.ofTree .keep t) (Statement.ofTree .discard t)
  block : Forgets Block.withoutLocalInitializers (Block.ofTree .keep t) (Block.ofTree .discard t)
  branch : ∀ role, Forgets Statement.branchWithoutLocalInitializers
    (Statement.branchOfTree .keep role t) (Statement.branchOfTree .discard role t)
  elseBlock : Forgets Block.withoutLocalInitializers
    (Block.ofElseTree .keep t) (Block.ofElseTree .discard t)

theorem Statement.forgets_clausesOfTrees {ts : List SyntaxTree}
    (h : ∀ t ∈ ts, t.DiscardForgets) :
    Forgets (List.map branchWithoutLocalInitializers) (clausesOfTrees .keep ts)
      (clausesOfTrees .discard ts) := by
  induction ts with
  | nil =>
    rw [clausesOfTrees_nil, clausesOfTrees_nil]
    exact forgets_ok rfl
  | cons t ts ih =>
    obtain ⟨ht, hts⟩ := List.forall_mem_cons.mp h
    by_cases hkind : t.kind = .elseIfClause
    · rw [clausesOfTrees_cons_of_eq hkind, clausesOfTrees_cons_of_eq hkind]
      exact (ht.branch .block).bind fun clause => (ih hts).map fun clauses => rfl
    · rw [clausesOfTrees_cons_of_ne hkind, clausesOfTrees_cons_of_ne hkind]
      exact ih hts

theorem Block.forgets_ofTrees {ts : List SyntaxTree} (h : ∀ t ∈ ts, t.DiscardForgets) :
    Forgets withoutLocalInitializers (ofTrees .keep ts) (ofTrees .discard ts) := by
  induction ts with
  | nil =>
    rw [ofTrees_nil, ofTrees_nil]
    exact forgets_ok withoutLocalInitializers_empty
  | cons t ts ih =>
    obtain ⟨ht, hts⟩ := List.forall_mem_cons.mp h
    rw [ofTrees_cons, ofTrees_cons]
    by_cases hvar : t.kind = .varDecl
    · rw [if_pos hvar, if_pos hvar]
      exact (Variable.forgets_ofTree t).bind fun v =>
        (ih hts).map fun b => withoutLocalInitializers_addLocal v b
    rw [if_neg hvar, if_neg hvar]
    split
    · exact ht.statement.bind fun s =>
        (ih hts).map fun b => withoutLocalInitializers_addStatement s b
    · exact forgets_error _

section Children

variable {t : SyntaxTree} (h : ∀ c ∈ t.children, c.DiscardForgets)

include h

theorem Statement.forgets_branchOfTree (role : ChildRole) :
    Forgets branchWithoutLocalInitializers (branchOfTree .keep role t)
      (branchOfTree .discard role t) := by
  rw [branchOfTree_eq, branchOfTree_eq]
  refine forgets_bind fun _ => forgets_bind fun cond => forgets_need fun body hbody => ?_
  exact (h body hbody).block.map fun body => rfl

theorem Block.forgets_ofElse :
    Forgets withoutLocalInitializers
      ((t.child? .elseClause).elim (.ok .empty) (ofElseTree .keep))
      ((t.child? .elseClause).elim (.ok .empty) (ofElseTree .discard)) := by
  cases hclause : t.child? .elseClause with
  | none => exact forgets_ok withoutLocalInitializers_empty
  | some clause => exact (h clause (mem_of_child? hclause)).elseBlock

end Children

/-- **To discard is to forget, in any tree.** -/
theorem discardForgets (t : SyntaxTree) : t.DiscardForgets := by
  induction t using SyntaxTree.induction with
  | node t ih =>
    refine ⟨?_, ?_, Statement.forgets_branchOfTree ih,
      forgets_need fun body hbody => (ih body hbody).block⟩
    · rw [Statement.ofTree_eq, Statement.ofTree_eq]
      split
      · refine forgets_bind fun target => forgets_bind fun _ => forgets_bind fun value => ?_
        exact forgets_ok (by simp [Statement.withoutLocalInitializers])
      · refine (Statement.forgets_branchOfTree ih .block).bind fun branch => ?_
        refine (Statement.forgets_clausesOfTrees ih).bind fun clauses => ?_
        exact (Block.forgets_ofElse ih).map fun last =>
          Statement.withoutLocalInitializers_ifChain _ _ _ _
      · refine (Statement.forgets_branchOfTree ih .body).map fun branch => ?_
        rw [Statement.withoutLocalInitializers]
        rfl
      · cases t.expressionChild? with
        | none => exact forgets_ok (by simp [Statement.withoutLocalInitializers])
        | some value =>
          exact forgets_bind fun value => forgets_ok (by simp [Statement.withoutLocalInitializers])
      · exact forgets_ok (by simp [Statement.withoutLocalInitializers])
      · exact forgets_ok (by simp [Statement.withoutLocalInitializers])
      · exact forgets_error _
    · rw [Block.ofTree_eq, Block.ofTree_eq]
      exact forgets_bind fun _ => Block.forgets_ofTrees ih

theorem Function.forgets_ofTree (t : SyntaxTree) :
    Forgets withoutLocalInitializers (ofTree .keep t) (ofTree .discard t) := by
  rw [ofTree_eq, ofTree_eq]
  refine forgets_bind fun _ => forgets_bind fun _ => forgets_bind fun returnType => ?_
  refine forgets_bind fun name => forgets_bind fun params => forgets_bind fun body => ?_
  exact (discardForgets body).block.map fun body => rfl

theorem Program.forgets_ofTrees (ts : List SyntaxTree) :
    Forgets withoutLocalInitializers (ofTrees .keep ts) (ofTrees .discard ts) := by
  induction ts with
  | nil => exact forgets_ok rfl
  | cons t ts ih =>
    rw [ofTrees, ofTrees]
    split
    · exact forgets_bind fun v => ih.map fun p => rfl
    · exact (Function.forgets_ofTree t).bind fun f => ih.map fun p => rfl
    · exact forgets_error _

/-! ## The switch -/

/-- **A builder for which the policy is a clean switch.** -/
structure CleanSwitch {α : Type} (build : LocalInitializers → SyntaxTree → Except BuildError α)
    (forget : α → α) : Prop where
  /-- To discard the initializers of locals is to build the tree without them. -/
  discard_eq : ∀ t, build .discard t = build .keep t.withoutLocalInitializers
  /-- Trees that differ in nothing else are not told apart. -/
  discard_congr : ∀ t t', t.withoutLocalInitializers = t'.withoutLocalInitializers →
    build .discard t = build .discard t'
  /-- Where all is well with the initializers, to discard them is to forget them. -/
  discard_of_keep : ∀ t a, build .keep t = .ok a → build .discard t = .ok (forget a)

theorem cleanSwitch_of_cut {α : Type}
    {build : LocalInitializers → SyntaxTree → Except BuildError α} {forget : α → α}
    (hcut : ∀ t, build .keep t.withoutLocalInitializers = build .discard t)
    (hforget : ∀ t, Forgets forget (build .keep t) (build .discard t)) :
    CleanSwitch build forget where
  discard_eq t := (hcut t).symm
  discard_congr t t' h := by rw [← hcut, ← hcut, h]
  discard_of_keep t := hforget t

/-- **What becomes of the initializers of locals is a clean switch**, for programs,
functions, blocks and statements, and for every tree: it decides whether these initializers
are built, and nothing else. -/
theorem localInitializers_cleanSwitch :
    CleanSwitch Program.ofTree Program.withoutLocalInitializers
      ∧ CleanSwitch Function.ofTree Function.withoutLocalInitializers
      ∧ CleanSwitch Block.ofTree Block.withoutLocalInitializers
      ∧ CleanSwitch Statement.ofTree Statement.withoutLocalInitializers := by
  refine ⟨cleanSwitch_of_cut Program.ofTree_cut fun t => ?_,
    cleanSwitch_of_cut Function.ofTree_cut Function.forgets_ofTree,
    cleanSwitch_of_cut (fun t => (discardIsCut t).block) fun t => (discardForgets t).block,
    cleanSwitch_of_cut (fun t => (discardIsCut t).statement) fun t => (discardForgets t).statement⟩
  unfold Program.ofTree
  exact forgets_bind fun _ => Program.forgets_ofTrees _

/-- A local in a loop: with an initializer that has a meaning, and with one that has
none. The global keeps its own. -/
theorem localInitializers_cleanSwitch_loop :
    let program (initializer : Option Expression) : Program :=
      ⟨[⟨"n", .int, some (.intConstant 1)⟩],
        [⟨.void, "f", [], ⟨[], [.whileLoop (.location "n") ⟨[⟨"a", .int, initializer⟩], []⟩]⟩⟩]⟩
    (∃ tree, SyntaxTree.parse .program "int n=1;void f(){while(n){int a=2;}}" = .ok tree
        ∧ Program.ofTree .keep tree = .ok (program (some (.intConstant 2)))
        ∧ Program.ofTree .discard tree = .ok (program none))
      ∧ ∃ tree, SyntaxTree.parse .program "int n=1;void f(){while(n){int a=2/1;}}" = .ok tree
        ∧ Program.ofTree .keep tree = .error ⟨⟨33, 34⟩, .unsupportedOperator "/"⟩
        ∧ Program.ofTree .discard tree = .ok (program none) := by
  intro program
  obtain ⟨hswitch, -, -, -⟩ := localInitializers_cleanSwitch
  constructor
  · have hkeep : ((SyntaxTree.parse .program "int n=1;void f(){while(n){int a=2;}}").toOption.map
        (Program.ofTree .keep)) = some (.ok (program (some (.intConstant 2)))) := by decide +kernel
    obtain ⟨tree, hparse, hkeep⟩ := exists_of_toOption_map hkeep
    have hforget : (program (some (.intConstant 2))).withoutLocalInitializers = program none := by
      decide
    exact ⟨tree, hparse, hkeep, hforget ▸ hswitch.discard_of_keep tree _ hkeep⟩
  · have hbuilt : ((SyntaxTree.parse .program "int n=1;void f(){while(n){int a=2/1;}}").toOption.map
        fun t => (Program.ofTree .keep t, Program.ofTree .keep t.withoutLocalInitializers))
          = some (.error ⟨⟨33, 34⟩, .unsupportedOperator "/"⟩, .ok (program none)) := by
      decide +kernel
    obtain ⟨tree, hparse, hbuilt⟩ := exists_of_toOption_map hbuilt
    obtain ⟨hkeep, hcut⟩ := Prod.ext_iff.mp hbuilt
    exact ⟨tree, hparse, hkeep, (hswitch.discard_eq tree).trans hcut⟩

end ImpFront
