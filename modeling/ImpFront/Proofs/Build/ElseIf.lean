import ImpFront.Proofs.Build.Lookups
import Mathlib.Data.List.Forall2

/-!
# What a chain of clauses means

A conditional with `else if` clauses means the same as one that holds the rest of the
chain in its `else` block: a block with nothing in it but the conditional that the first
clause begins (`elseIf_nested`). The builder does not build it so. It builds all clauses
first, from left to right, and puts them together from right to left, when nothing can
fail any more. The two ways agree, also in the error, because both of them come to the
same nodes in the same order.

What a chain means is a nest, one conditional for each condition (`Nested`).
-/

namespace ImpFront

open SyntaxTree

namespace SyntaxTree

/-- **The parts of a conditional** that the builder looks at: a condition, a block, the
`else if` clauses, and the `else` clause, if there is one. -/
structure IsIf (t cond body : SyntaxTree) (clauses : List SyntaxTree)
    (last : Option SyntaxTree) : Prop where
  /-- It is a conditional. -/
  kind : t.kind = .ifStmt
  /-- Its first child that is an expression. -/
  condition : t.expressionChild? = some cond
  /-- Its first child that is a block. -/
  block : t.child? .block = some body
  /-- Its `else if` clauses, wherever they stand. -/
  clauses : t.childrenOf .elseIfClause = clauses
  /-- Its first `else` clause. -/
  last : t.child? .elseClause = last

/-- **A conditional with another one behind it**: its `else` block holds the other one and
nothing else. There are no clauses in between. -/
def IsIfElseIf (t cond body inner : SyntaxTree) : Prop :=
  ∃ clause block, t.IsIf cond body [] (some clause) ∧ clause.child? .block = some block
    ∧ block.children = [inner]

end SyntaxTree

/-- A node with a condition and a block, and what these mean. -/
def IsBranch (policy : LocalInitializers) (t : SyntaxTree) (branch : Expression × Block) : Prop :=
  ∃ cond body, t.expressionChild? = some cond ∧ t.child? .block = some body
    ∧ Expression.ofTree cond = .ok branch.1 ∧ Block.ofTree policy body = .ok branch.2

/-- **A nest of conditionals**: each is all there is in the `else` block of the one before,
and the last one has the last block. -/
inductive Nested : List (Expression × Block) → Block → Statement → Prop
  | last (cond : Expression) (body last : Block) :
      Nested [(cond, body)] last (.ifElse cond body last)
  | next {branches : List (Expression × Block)} {last : Block} {s : Statement}
      (cond : Expression) (body : Block) (h : Nested branches last s) :
      Nested ((cond, body) :: branches) last (.ifElse cond body ⟨[], [s]⟩)

/-- The block of an `else` clause, or the empty one. -/
def Block.ofElse (policy : LocalInitializers) (last : Option SyntaxTree) :
    Except BuildError Block :=
  last.elim (.ok .empty) (Block.ofElseTree policy)

variable {policy : LocalInitializers} {t cond body clause c b : SyntaxTree}
  {clauses : List SyntaxTree} {last : Option SyntaxTree}

/-! ## Building the parts -/

/-- A node with a condition and a block. -/
theorem Statement.branchOfTree_of_some (hcond : t.expressionChild? = some cond)
    (hbody : t.child? .block = some body) :
    Statement.branchOfTree policy .block t = (do
      let cond ← Expression.ofTree cond
      let body ← Block.ofTree policy body
      return (cond, body)) := by
  rw [Statement.branchOfTree_eq, needExpression, need, hcond, hbody]
  rfl

theorem Statement.branchOfTree_eq_ok_iff {branch : Expression × Block} :
    Statement.branchOfTree policy .block t = .ok branch ↔ IsBranch policy t branch := by
  rw [Statement.branchOfTree_eq]
  constructor
  · intro h
    obtain ⟨cond, hcond, h⟩ := bind_eq_ok_iff.mp h
    obtain ⟨e, he, h⟩ := bind_eq_ok_iff.mp h
    obtain ⟨body, hbody, h⟩ := bind_eq_ok_iff.mp h
    obtain ⟨b, hb, h⟩ := bind_eq_ok_iff.mp h
    obtain rfl := Except.ok.inj h
    exact ⟨cond, body, eq_of_needExpression hcond, eq_of_need hbody, he, hb⟩
  · rintro ⟨cond, body, hcond, hbody, he, hb⟩
    rw [needExpression, need, hcond, hbody]
    exact bind_eq_ok_iff.mpr ⟨cond, rfl, bind_eq_ok_iff.mpr ⟨_, he,
      bind_eq_ok_iff.mpr ⟨body, rfl, bind_eq_ok_iff.mpr ⟨_, hb, rfl⟩⟩⟩⟩

/-- **The clauses are built** if each is. -/
theorem Statement.clausesOfTrees_eq_ok_iff (hkind : ∀ c ∈ clauses, c.kind = .elseIfClause)
    {branches : List (Expression × Block)} :
    Statement.clausesOfTrees policy clauses = .ok branches
      ↔ List.Forall₂ (IsBranch policy) clauses branches := by
  induction clauses generalizing branches with
  | nil =>
    rw [Statement.clausesOfTrees_nil, Except.ok.injEq, List.forall₂_nil_left_iff]
    exact eq_comm
  | cons c clauses ih =>
    rw [List.forall_mem_cons] at hkind
    rw [Statement.clausesOfTrees_cons_of_eq hkind.1, List.forall₂_cons_left_iff, bind_eq_ok_iff]
    constructor
    · rintro ⟨branch, hbranch, h⟩
      obtain ⟨others, hothers, h⟩ := bind_eq_ok_iff.mp h
      exact ⟨branch, others, Statement.branchOfTree_eq_ok_iff.mp hbranch, (ih hkind.2).mp hothers,
        (Except.ok.inj h).symm⟩
    · rintro ⟨branch, others, hbranch, hothers, rfl⟩
      exact ⟨branch, Statement.branchOfTree_eq_ok_iff.mpr hbranch,
        bind_eq_ok_iff.mpr ⟨others, (ih hkind.2).mpr hothers, rfl⟩⟩

theorem SyntaxTree.IsIf.kind_of_mem (h : t.IsIf cond body clauses last) (hc : c ∈ clauses) :
    c.kind = .elseIfClause := by
  rw [← h.clauses] at hc
  simpa using (List.mem_filter.mp hc).2

/-- **A conditional is built** part by part. -/
theorem SyntaxTree.IsIf.ofTree_eq (h : t.IsIf cond body clauses last) :
    Statement.ofTree policy t = (do
      let branch ← Statement.branchOfTree policy .block t
      let clauses ← Statement.clausesOfTrees policy clauses
      let last ← Block.ofElse policy last
      return .ifChain branch.1 branch.2 clauses last) := by
  rw [Statement.ofTree_eq, h.kind]
  dsimp only
  rw [h.last, ← Statement.clausesOfTrees_filter, ← childrenOf, h.clauses]
  rfl

/-- An `else` clause with a conditional in it. -/
theorem Block.ofElse_of_isIf {block inner : SyntaxTree} (hblock : clause.child? .block = some block)
    (hinner : block.children = [inner]) (hkind : inner.kind = .ifStmt) :
    Block.ofElse policy (some clause) = (do
      let s ← Statement.ofTree policy inner
      return ⟨[], [s]⟩) := by
  rw [Block.ofElse, Option.elim, Block.ofElseTree, need, hblock]
  show Block.ofTree policy block = _
  rw [Block.ofTree_eq, expectKind, if_pos (kind_of_child? hblock), hinner,
    Block.ofTrees_cons_statement (by rw [hkind]; rfl), Block.ofTrees_nil]
  rfl

/-! ## Nests -/

/-- **What is put together from the right is a nest**, and the only one. -/
theorem nested_iff {cond : Expression} {body : Block} {branches : List (Expression × Block)}
    {last : Block} {s : Statement} :
    Nested ((cond, body) :: branches) last s ↔ s = .ifChain cond body branches last := by
  induction branches generalizing cond body s with
  | nil =>
    constructor
    · intro h
      cases h with
      | last => rfl
      | next _ _ h => cases h
    · rintro rfl
      exact .last cond body last
  | cons branch branches ih =>
    constructor
    · intro h
      cases h with
      | next _ _ h =>
        obtain rfl := ih.mp h
        rfl
    · rintro rfl
      exact .next cond body (ih.mpr rfl)

/-- **A conditional is built into a nest** if each of its parts is built. -/
theorem SyntaxTree.IsIf.ofTree_eq_ok_iff (h : t.IsIf cond body clauses last) {s : Statement} :
    Statement.ofTree policy t = .ok s ↔ ∃ branches lastBlock,
      List.Forall₂ (IsBranch policy) (t :: clauses) branches
        ∧ Block.ofElse policy last = .ok lastBlock ∧ Nested branches lastBlock s := by
  have hclauses {branches : List (Expression × Block)} :
      Statement.clausesOfTrees policy clauses = .ok branches
        ↔ List.Forall₂ (IsBranch policy) clauses branches :=
    Statement.clausesOfTrees_eq_ok_iff fun _ hc => h.kind_of_mem hc
  rw [h.ofTree_eq]
  constructor
  · intro h
    obtain ⟨branch, hbranch, h⟩ := bind_eq_ok_iff.mp h
    obtain ⟨branches, hbranches, h⟩ := bind_eq_ok_iff.mp h
    obtain ⟨lastBlock, hlast, h⟩ := bind_eq_ok_iff.mp h
    obtain rfl := Except.ok.inj h
    exact ⟨branch :: branches, lastBlock, .cons (Statement.branchOfTree_eq_ok_iff.mp hbranch)
      (hclauses.mp hbranches), hlast, nested_iff.mpr rfl⟩
  · rintro ⟨_, lastBlock, hall, hlast, hnested⟩
    obtain ⟨branch, branches, hbranch, hbranches, rfl⟩ := List.forall₂_cons_left_iff.mp hall
    obtain rfl := nested_iff.mp hnested
    exact bind_eq_ok_iff.mpr ⟨branch, Statement.branchOfTree_eq_ok_iff.mpr hbranch,
      bind_eq_ok_iff.mpr ⟨branches, hclauses.mpr hbranches,
        bind_eq_ok_iff.mpr ⟨lastBlock, hlast, rfl⟩⟩⟩

/-- **The first clause begins the conditional in the `else` block.** -/
theorem SyntaxTree.IsIf.ofTree_eq_nested {u inner : SyntaxTree}
    (ht : t.IsIf cond body (clause :: clauses) last) (hcond : clause.expressionChild? = some c)
    (hbody : clause.child? .block = some b) (hu : u.IsIfElseIf cond body inner)
    (hinner : inner.IsIf c b clauses last) :
    Statement.ofTree policy t = Statement.ofTree policy u := by
  obtain ⟨last', block, hu, hblock, hchildren⟩ := hu
  -- Either way, the builder comes to the parts of the conditional and then to those of the clause.
  rw [ht.ofTree_eq, hu.ofTree_eq, Block.ofElse_of_isIf hblock hchildren hinner.kind,
    hinner.ofTree_eq, Statement.clausesOfTrees_cons_of_eq (ht.kind_of_mem List.mem_cons_self),
    Statement.branchOfTree_of_some ht.condition ht.block,
    Statement.branchOfTree_of_some hu.condition hu.block,
    Statement.branchOfTree_of_some hcond hbody,
    Statement.branchOfTree_of_some hinner.condition hinner.block, Statement.clausesOfTrees_nil]
  simp only [bind_assoc, pure_bind, ok_bind]
  rfl

/-- **A chain of clauses means a nest.** It gives the same result as the conditional that has
the rest of the chain in its `else` block, also if the result is an error. If all parts are
built, there is one conditional for each condition, in order, and the last one ends with the
block of the `else` clause, or with the empty one. -/
theorem elseIf_nested (ht : t.IsIf cond body (clause :: clauses) last)
    (hcond : clause.expressionChild? = some c) (hbody : clause.child? .block = some b)
    (policy : LocalInitializers) :
    (∀ u inner : SyntaxTree, u.IsIfElseIf cond body inner → inner.IsIf c b clauses last →
        Statement.ofTree policy t = Statement.ofTree policy u)
      ∧ ∀ s, Statement.ofTree policy t = .ok s ↔ ∃ branches lastBlock,
          List.Forall₂ (IsBranch policy) (t :: clause :: clauses) branches
            ∧ Block.ofElse policy last = .ok lastBlock ∧ Nested branches lastBlock s :=
  ⟨fun _ _ hu hinner => ht.ofTree_eq_nested hcond hbody hu hinner,
    fun _ => ht.ofTree_eq_ok_iff⟩

/-- A chain of two clauses without `else`, the chain in the `else` block, and what both
mean. -/
theorem elseIf_nested_twice :
    let number (text : String) : SyntaxTree := leaf .intLiteral ⟨0, 1⟩ text
    let block : SyntaxTree := ⟨.block, ⟨2, 4⟩, "\x7b\x7d", []⟩
    let clause (text : String) : SyntaxTree :=
      ⟨.elseIfClause, ⟨0, 4⟩, "", [number text, block]⟩
    let chain : SyntaxTree :=
      ⟨.ifStmt, ⟨0, 9⟩, "", [number "1", block, clause "2", clause "3"]⟩
    let inner : SyntaxTree := ⟨.ifStmt, ⟨0, 9⟩, "", [number "2", block, clause "3"]⟩
    let nested : SyntaxTree := ⟨.ifStmt, ⟨0, 9⟩, "", [number "1", block,
      ⟨.elseClause, ⟨0, 9⟩, "", [⟨.block, ⟨0, 9⟩, "", [inner]⟩]⟩]⟩
    chain.IsIf (number "1") block [clause "2", clause "3"] none
      ∧ Statement.ofTree .keep chain = Statement.ofTree .keep nested
      ∧ Statement.ofTree .keep chain = .ok (.ifElse (.intConstant 1) .empty
          ⟨[], [.ifElse (.intConstant 2) .empty
            ⟨[], [.ifElse (.intConstant 3) .empty .empty]⟩]⟩) := by
  intro number block clause chain inner nested
  have hchain : chain.IsIf (number "1") block [clause "2", clause "3"] none :=
    ⟨rfl, rfl, rfl, rfl, rfl⟩
  have hnested : nested.IsIfElseIf (number "1") block inner :=
    ⟨_, _, ⟨rfl, rfl, rfl, rfl, rfl⟩, rfl, rfl⟩
  have hinner : inner.IsIf (number "2") block [clause "3"] none := ⟨rfl, rfl, rfl, rfl, rfl⟩
  obtain ⟨hsame, hmeaning⟩ := elseIf_nested hchain rfl rfl .keep
  refine ⟨hchain, hsame nested inner hnested hinner, (hmeaning _).mpr ?_⟩
  have hblock : Block.ofTree .keep block = .ok .empty := by
    rw [Block.ofTree_block, Block.ofTrees_nil]
  have hnumber (text : String) {n : Int32} (h : intOfTree (number text) = .ok n) :
      Expression.ofTree (number text) = .ok (.intConstant n) := by
    rw [Expression.ofTree_intLiteral, h]
    rfl
  exact ⟨_, _, .cons ⟨_, _, rfl, rfl, hnumber "1" (by decide +kernel), hblock⟩
    (.cons ⟨_, _, rfl, rfl, hnumber "2" (by decide +kernel), hblock⟩
      (.cons ⟨_, _, rfl, rfl, hnumber "3" (by decide +kernel), hblock⟩ .nil)), rfl,
    .next _ _ (.next _ _ (.last _ _ _))⟩

end ImpFront
