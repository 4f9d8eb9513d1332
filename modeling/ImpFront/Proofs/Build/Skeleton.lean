import ImpFront.Proofs.Build.Lookups
import Mathlib.Data.List.Forall2
import Mathlib.Data.List.Basic

/-!
# What the builders read

A builder decides by the kinds of nodes, by where they stand among their siblings, and by
the texts of four sorts of leaves. That is the **skeleton** of a tree. Places in the source,
and the texts of all other nodes, are only passed on: into the error, if there is one, and
always from the node that the error is about.

So two trees with one skeleton are built alike (`builders_readSkeleton`): into the same
value, or into errors that say the same of nodes at the same place, each with the span and
the text that the node has in its own tree. Nothing is asked of the trees, which need not
come from a source.

A tree agrees with another one step by step, in the order of the builder. A lookup finds
children at one place in both, since it goes by kinds; what is said of these children is said
of the trees (`ChildPair.agree`).
-/

namespace ImpFront

/-! ## Skeletons -/

/-- The kinds of the leaves whose texts matter. -/
def NodeKind.isRead : NodeKind → Bool
  | .ident | .intLiteral | .boolLiteral | .operator => true
  | _ => false

namespace SyntaxTree

mutual
/-- **The skeleton of a tree**: kinds, children, and the texts that matter. -/
def skeleton : SyntaxTree → SyntaxTree
  | ⟨kind, _, text, children⟩ =>
    ⟨kind, .emptyAt 0, if kind.isRead then text else "", skeletonAll children⟩

/-- The skeletons of several trees. -/
def skeletonAll : List SyntaxTree → List SyntaxTree
  | [] => []
  | t :: ts => t.skeleton :: skeletonAll ts
end

/-- **The node at a place**: the numbers of the children on the way to it. -/
def at? : SyntaxTree → List Nat → Option SyntaxTree
  | t, [] => some t
  | t, i :: place => t.children[i]?.bind fun c => c.at? place

end SyntaxTree

/-! ## Errors as complaints -/

/-- **What an error says of a node**, apart from what it takes from the node. -/
inductive Complaint
  | unrecognizedType
  | unsupportedOperator
  | malformedLiteral (kind : LiteralKind)
  | unexpectedNode (expected : NodeRole)
  | missingChild (child : ChildRole)

/-- **The error that says this of the node**: with its span, and with its text and its kind
where the error has one. -/
def SyntaxTree.errorOf (n : SyntaxTree) : Complaint → BuildError
  | .unrecognizedType => ⟨n.span, .unrecognizedType n.text⟩
  | .unsupportedOperator => ⟨n.span, .unsupportedOperator n.text⟩
  | .malformedLiteral kind => ⟨n.span, .malformedLiteral kind n.text⟩
  | .unexpectedNode expected => ⟨n.span, .unexpectedNode expected n.kind n.text⟩
  | .missingChild child => ⟨n.span, .missingChild n.kind child⟩

/-- **The results agree** on two trees: they are the same value, or errors that say the same
of nodes of one kind at one place. -/
inductive Agree {α : Type} (t t' : SyntaxTree) :
    Except BuildError α → Except BuildError α → Prop
  | value (a : α) : Agree t t' (.ok a) (.ok a)
  | error {place : List Nat} {n n' : SyntaxTree} (hn : t.at? place = some n)
      (hn' : t'.at? place = some n') (hkind : n.kind = n'.kind) (c : Complaint) :
      Agree t t' (.error (n.errorOf c)) (.error (n'.errorOf c))

/-- **A builder that reads skeletons**: where these are the same, the results agree. -/
def ReadsSkeleton {α : Type} (build : SyntaxTree → Except BuildError α) : Prop :=
  ∀ t t' : SyntaxTree, t.skeleton = t'.skeleton → Agree t t' (build t) (build t')

open SyntaxTree

/-! ## Trees with one skeleton -/

namespace SyntaxTree

theorem skeletonAll_eq_map (ts : List SyntaxTree) : skeletonAll ts = ts.map skeleton := by
  induction ts with
  | nil => rw [skeletonAll, List.map_nil]
  | cons t ts ih => rw [skeletonAll, List.map_cons, ih]

/-- **Trees have one skeleton** if they have one kind, one text where it matters, and
children with one skeleton. -/
theorem skeleton_eq_iff {t t' : SyntaxTree} :
    t.skeleton = t'.skeleton ↔ t.kind = t'.kind ∧ (t.kind.isRead = true → t.text = t'.text)
      ∧ t.children.map skeleton = t'.children.map skeleton := by
  obtain ⟨kind, span, text, children⟩ := t
  obtain ⟨kind', span', text', children'⟩ := t'
  simp only [skeleton, skeletonAll_eq_map, mk.injEq, true_and]
  refine and_congr_right ?_
  rintro rfl
  cases kind.isRead <;> simp

end SyntaxTree

/-- **A child of each tree, at one place**, and with one skeleton. -/
structure ChildPair (t t' c c' : SyntaxTree) : Prop where
  /-- The place is the same. -/
  place : ∃ i : Nat, t.children[i]? = some c ∧ t'.children[i]? = some c'
  /-- So is the skeleton. -/
  skeleton : c.skeleton = c'.skeleton

namespace ChildPair

variable {t t' c c' : SyntaxTree}

theorem mem (h : ChildPair t t' c c') : c ∈ t.children := by
  obtain ⟨i, hc, -⟩ := h.place
  exact List.mem_of_getElem? hc

theorem kind (h : ChildPair t t' c c') : c.kind = c'.kind := (skeleton_eq_iff.mp h.skeleton).1

theorem text (h : ChildPair t t' c c') (hread : c.kind.isRead = true) : c.text = c'.text :=
  (skeleton_eq_iff.mp h.skeleton).2.1 hread

/-- **What agrees on two children** agrees on the trees. -/
theorem agree {α : Type} {r r' : Except BuildError α} (h : ChildPair t t' c c')
    (hr : Agree c c' r r') : Agree t t' r r' := by
  obtain ⟨i, hc, hc'⟩ := h.place
  cases hr with
  | value a => exact .value a
  | @error place _ _ hn hn' hkind complaint =>
    have hdown {u d m : SyntaxTree} (hd : u.children[i]? = some d) (hm : d.at? place = some m) :
        u.at? (i :: place) = some m := by
      rw [at?, hd, Option.bind_some, hm]
    exact .error (hdown hc hn) (hdown hc' hn') hkind complaint

end ChildPair

/-- What a builder that reads skeletons makes of a child. -/
theorem ReadsSkeleton.child {α : Type} {build : SyntaxTree → Except BuildError α}
    {t t' c c' : SyntaxTree} (h : ReadsSkeleton build) (hpair : ChildPair t t' c c') :
    Agree t t' (build c) (build c') :=
  hpair.agree (h c c' hpair.skeleton)

/-- Children in the same order are paired. -/
theorem childPairs {t t' : SyntaxTree} (h : t.skeleton = t'.skeleton) :
    List.Forall₂ (ChildPair t t') t.children t'.children := by
  have hmap := (skeleton_eq_iff.mp h).2.2
  have hlength : t.children.length = t'.children.length := by
    simpa using congrArg List.length hmap
  refine List.forall₂_iff_get.mpr ⟨hlength, fun i hi hi' => ⟨⟨i, ?_, ?_⟩, ?_⟩⟩
  · exact List.getElem?_eq_getElem hi
  · exact List.getElem?_eq_getElem hi'
  · have := congrArg (·[i]?) hmap
    simpa [hi, hi'] using this

/-! ## Steps that agree -/

section Steps

variable {α β : Type} {t t' : SyntaxTree}

theorem Agree.bind {r r' : Except BuildError α} {f f' : α → Except BuildError β}
    (h : Agree t t' r r') (hf : ∀ a, Agree t t' (f a) (f' a)) :
    Agree t t' (r >>= f) (r' >>= f') := by
  cases h with
  | value a => exact hf a
  | error hn hn' hkind c => exact .error hn hn' hkind c

theorem Agree.map {r r' : Except BuildError α} (h : Agree t t' r r') (f : α → β) :
    Agree t t' (do let a ← r; return f a) (do let a ← r'; return f a) :=
  h.bind fun a => .value (f a)

/-- What is said of the trees themselves. -/
theorem agree_error (hkind : t.kind = t'.kind) (c : Complaint) :
    Agree (α := α) t t' (.error (t.errorOf c)) (.error (t'.errorOf c)) := by
  have hroot (u : SyntaxTree) : u.at? [] = some u := rfl
  exact .error (hroot t) (hroot t') hkind c

end Steps

/-! ## Lookups that agree -/

section Lookups

variable {α : Type} {t t' : SyntaxTree}

/-- **A child that is looked up**: if both trees have it, what is done with it has to agree, and
if both lack it, the same is said of them. -/
theorem agree_lookup {o o' : Option SyntaxTree} (ho : Option.Rel (ChildPair t t') o o')
    (hkind : t.kind = t'.kind) (role : ChildRole) {f f' : SyntaxTree → Except BuildError α}
    (hf : ∀ c c', o = some c → ChildPair t t' c c' → Agree t t' (f c) (f' c')) :
    Agree t t' (o.elim (.error (t.missing role)) .ok >>= f)
      (o'.elim (.error (t'.missing role)) .ok >>= f') := by
  cases ho with
  | none => exact agree_error hkind (.missingChild role)
  | some hpair => exact hf _ _ rfl hpair

/-- **A child that may be missing**: then nothing is said of the trees. -/
theorem agree_optional {o o' : Option SyntaxTree} (ho : Option.Rel (ChildPair t t') o o') (a : α)
    {f f' : SyntaxTree → Except BuildError α}
    (hf : ∀ c c', ChildPair t t' c c' → Agree t t' (f c) (f' c')) :
    Agree t t' (o.elim (.ok a) f) (o'.elim (.ok a) f') := by
  cases ho with
  | none => exact .value a
  | some hpair => exact hf _ _ hpair

variable (h : t.skeleton = t'.skeleton)
include h

/-- **The first child that fits** is at one place, if fitting goes by kinds. -/
theorem rel_find? (p : NodeKind → Bool) :
    Option.Rel (ChildPair t t') (t.children.find? fun c => p c.kind)
      (t'.children.find? fun c => p c.kind) := by
  have hpairs := childPairs h
  generalize t.children = cs at hpairs
  generalize t'.children = cs' at hpairs
  induction hpairs with
  | nil => exact .none
  | @cons c c' cs cs' hpair _ ih =>
    cases hp : p c.kind with
    | true =>
      simp only [List.find?_cons, ← hpair.kind, hp]
      exact .some hpair
    | false =>
      simp only [List.find?_cons, ← hpair.kind, hp]
      exact ih

theorem rel_child? (kind : NodeKind) :
    Option.Rel (ChildPair t t') (t.child? kind) (t'.child? kind) := rel_find? h fun k => k = kind

theorem rel_expressionChild? :
    Option.Rel (ChildPair t t') t.expressionChild? t'.expressionChild? :=
  rel_find? h NodeKind.isExpression

theorem rel_getElem? (i : Nat) :
    Option.Rel (ChildPair t t') t.children[i]? t'.children[i]? := by
  have hpairs := childPairs h
  by_cases hi : i < t.children.length
  · have hi' : i < t'.children.length := by rwa [← hpairs.length_eq]
    rw [List.getElem?_eq_getElem hi, List.getElem?_eq_getElem hi']
    exact .some ((List.forall₂_iff_get.mp hpairs).2 i hi hi')
  · rw [List.getElem?_eq_none (by omega),
      List.getElem?_eq_none (by rw [← hpairs.length_eq]; omega)]
    exact .none

variable {f f' : SyntaxTree → Except BuildError α}

theorem agree_need (kind : NodeKind) (role : ChildRole)
    (hf : ∀ c c', c.kind = kind → ChildPair t t' c c' → Agree t t' (f c) (f' c')) :
    Agree t t' (t.need kind role >>= f) (t'.need kind role >>= f') :=
  agree_lookup (rel_child? h kind) (skeleton_eq_iff.mp h).1 role
    fun c c' hc => hf c c' (kind_of_child? hc)

theorem agree_needExpression (role : ChildRole)
    (hf : ∀ c c', ChildPair t t' c c' → Agree t t' (f c) (f' c')) :
    Agree t t' (t.needExpression role >>= f) (t'.needExpression role >>= f') :=
  agree_lookup (rel_expressionChild? h) (skeleton_eq_iff.mp h).1 role fun c c' _ => hf c c'

theorem agree_needNth (i : Nat) (role : ChildRole)
    (hf : ∀ c c', ChildPair t t' c c' → Agree t t' (f c) (f' c')) :
    Agree t t' (t.needNth i role >>= f) (t'.needNth i role >>= f') :=
  agree_lookup (rel_getElem? h i) (skeleton_eq_iff.mp h).1 role fun c c' _ => hf c c'

/-- A name is read off the identifier that is found. -/
theorem agree_name (role : ChildRole)
    (hf : ∀ name name', name.text = name'.text → Agree t t' (f name) (f' name')) :
    Agree t t' (t.need .ident role >>= f) (t'.need .ident role >>= f') := by
  refine agree_need h .ident role fun name name' hkind hpair => ?_
  exact hf name name' (hpair.text (by rw [hkind]; rfl))

/-- A node of the wrong kind is refused in both trees. -/
theorem agree_expectKind {kind : NodeKind} (role : NodeRole) {x x' : Except BuildError α}
    (hx : t.kind = kind → Agree t t' x x') :
    Agree t t' (t.expectKind kind role >>= fun _ => x)
      (t'.expectKind kind role >>= fun _ => x') := by
  have hkind := (skeleton_eq_iff.mp h).1
  unfold expectKind
  by_cases hexpected : t.kind = kind
  · rw [if_pos hexpected, if_pos (by rw [← hkind, hexpected])]
    exact hx hexpected
  · rw [if_neg hexpected, if_neg (by rwa [← hkind])]
    exact agree_error hkind (.unexpectedNode role)

/-- A list is built alike in both trees if each of its steps is. -/
theorem agree_children {build : List SyntaxTree → Except BuildError α}
    (hnil : ∃ a, build [] = .ok a)
    (hcons : ∀ c c' cs cs', ChildPair t t' c c' → Agree t t' (build cs) (build cs') →
      Agree t t' (build (c :: cs)) (build (c' :: cs'))) :
    Agree t t' (build t.children) (build t'.children) := by
  have hpairs := childPairs h
  generalize t.children = cs at hpairs
  generalize t'.children = cs' at hpairs
  induction hpairs with
  | nil =>
    obtain ⟨a, ha⟩ := hnil
    rw [ha]
    exact .value a
  | cons hpair _ ih => exact hcons _ _ _ _ hpair ih

/-- The children of a list of the trees, which may lack it. -/
theorem agree_childrenIn (kind : NodeKind) {build : List SyntaxTree → Except BuildError α}
    (hnil : ∃ a, build [] = .ok a)
    (hlist : ∀ c c', ChildPair t t' c c' → Agree c c' (build c.children) (build c'.children)) :
    Agree t t' (build (t.childrenIn kind)) (build (t'.childrenIn kind)) := by
  obtain ⟨a, ha⟩ := hnil
  have hoptional (u : SyntaxTree) : build (u.childrenIn kind)
      = (u.child? kind).elim (.ok a) fun list => build list.children := by
    unfold childrenIn
    cases u.child? kind with
    | none => exact ha
    | some list => rfl
  rw [hoptional, hoptional]
  exact agree_optional (rel_child? h kind) a fun c c' hpair => hpair.agree (hlist c c' hpair)

end Lookups

/-! ## Expressions -/

section Expressions

variable {t t' : SyntaxTree}

theorem Operator.readsSkeleton : ReadsSkeleton Operator.ofTree := by
  intro t t' h
  refine agree_expectKind h _ fun hkind => ?_
  obtain ⟨hkinds, htext, -⟩ := skeleton_eq_iff.mp h
  have hspelling : Operator.ofSpelling? t'.text = Operator.ofSpelling? t.text := by
    rw [htext (by rw [hkind]; rfl)]
  rw [hspelling]
  cases Operator.ofSpelling? t.text with
  | some op => exact .value op
  | none => exact agree_error hkinds .unsupportedOperator

/-- The value of an integer literal is read off its text. -/
theorem agree_int (h : t.skeleton = t'.skeleton) (hkind : t.kind = .intLiteral) :
    Agree t t' (intOfTree t) (intOfTree t') := by
  obtain ⟨hkinds, htext, -⟩ := skeleton_eq_iff.mp h
  have hvalue : Decimal.readInt32? t'.text.toList = Decimal.readInt32? t.text.toList := by
    rw [htext (by rw [hkind]; rfl)]
  unfold intOfTree
  rw [hvalue]
  cases Decimal.readInt32? t.text.toList with
  | some n => exact .value n
  | none => exact agree_error hkinds (.malformedLiteral .int)

/-- So is the value of a boolean literal. -/
theorem agree_bool (h : t.skeleton = t'.skeleton) (hkind : t.kind = .boolLiteral) :
    Agree t t' (boolOfTree t) (boolOfTree t') := by
  obtain ⟨hkinds, htext, -⟩ := skeleton_eq_iff.mp h
  have htrue : (t'.text = "true") = (t.text = "true") := by
    rw [htext (by rw [hkind]; rfl)]
  have hfalse : (t'.text = "false") = (t.text = "false") := by
    rw [htext (by rw [hkind]; rfl)]
  unfold boolOfTree
  simp only [htrue, hfalse]
  split
  · exact .value true
  · split
    · exact .value false
    · exact agree_error hkinds (.malformedLiteral .bool)

/-- Expressions in a row are built one after another. -/
theorem agree_expressions (h : t.skeleton = t'.skeleton)
    (hbuild : ∀ c c', ChildPair t t' c c' →
      Agree c c' (Expression.ofTree c) (Expression.ofTree c')) :
    Agree t t' (Expression.ofTrees t.children) (Expression.ofTrees t'.children) := by
  refine agree_children h ⟨_, Expression.ofTrees_nil⟩ fun c c' cs cs' hpair ih => ?_
  rw [Expression.ofTrees_cons, Expression.ofTrees_cons]
  exact (hpair.agree (hbuild c c' hpair)).bind fun e => ih.map _

theorem Expression.readsSkeleton : ReadsSkeleton Expression.ofTree := by
  -- The arguments of a call are found two levels down.
  suffices hboth : ∀ t t' : SyntaxTree, t.skeleton = t'.skeleton →
      Agree t t' (Expression.ofTree t) (Expression.ofTree t')
        ∧ Agree t t' (Expression.ofTrees t.children) (Expression.ofTrees t'.children) from
    fun t t' h => (hboth t t' h).1
  intro t
  induction t using SyntaxTree.induction with
  | node t ih =>
    intro t' h
    have hchild (c c' : SyntaxTree) (hpair : ChildPair t t' c c') :
        Agree c c' (Expression.ofTree c) (Expression.ofTree c') :=
      (ih c hpair.mem c' hpair.skeleton).1
    refine ⟨?_, agree_expressions h hchild⟩
    have hkinds : t.kind = t'.kind := (skeleton_eq_iff.mp h).1
    rw [Expression.ofTree_eq, Expression.ofTree_eq, ← hkinds]
    split <;> rename_i hkind
    · refine agree_needNth h 0 _ fun left left' hleft => ?_
      refine (hleft.agree (hchild left left' hleft)).bind fun left => ?_
      refine agree_needNth h 1 _ fun op op' hop => ?_
      refine (Operator.readsSkeleton.child hop).bind fun op => ?_
      refine agree_needNth h 2 _ fun right right' hright => ?_
      exact (hright.agree (hchild right right' hright)).map _
    · refine agree_name h _ fun name name' hname => ?_
      rw [hname]
      refine Agree.map (agree_childrenIn h .argList ⟨_, Expression.ofTrees_nil⟩ ?_) _
      exact fun list list' hlist => (ih list hlist.mem list' hlist.skeleton).2
    · exact (agree_int h hkind).map _
    · exact (agree_bool h hkind).map _
    · exact agree_needExpression h _ fun c c' hpair => hpair.agree (hchild c c' hpair)
    · refine agree_name h _ fun name name' hname => ?_
      rw [hname]
      exact .value _
    · rw [(skeleton_eq_iff.mp h).2.1 (by rw [hkind]; rfl)]
      exact .value _
    · exact agree_error hkinds (.unexpectedNode .expression)

/-- What is made of an expression that is looked up, if there is one. -/
theorem agree_optionalExpression {α : Type} (h : t.skeleton = t'.skeleton) (none : α)
    (some : Expression → α) :
    Agree t t'
      (t.expressionChild?.elim (.ok none) fun e => do return some (← Expression.ofTree e))
      (t'.expressionChild?.elim (.ok none) fun e => do return some (← Expression.ofTree e)) := by
  refine agree_optional (rel_expressionChild? h) none fun e e' he => ?_
  exact (Expression.readsSkeleton.child he).map some

end Expressions

/-! ## Declarations -/

theorem TypeName.readsSkeleton_ofWord : ReadsSkeleton TypeName.ofWord := by
  intro t t' h
  have hkinds : t.kind = t'.kind := (skeleton_eq_iff.mp h).1
  unfold TypeName.ofWord
  rw [← hkinds]
  split
  · exact .value _
  · exact .value _
  · exact .value _
  · exact agree_error hkinds .unrecognizedType

theorem TypeName.readsSkeleton : ReadsSkeleton TypeName.ofTree := by
  intro t t' h
  rw [TypeName.ofTree_eq, TypeName.ofTree_eq, ← (skeleton_eq_iff.mp h).1]
  by_cases hkind : t.kind = .type
  · rw [if_pos hkind, if_pos hkind]
    refine agree_needNth h 0 _ fun word word' hword => ?_
    exact TypeName.readsSkeleton_ofWord.child hword
  · rw [if_neg hkind, if_neg hkind]
    exact TypeName.readsSkeleton_ofWord t t' h

section Declarations

variable {α : Type} {t t' : SyntaxTree} (h : t.skeleton = t'.skeleton)
include h

/-- A type and a name are read off the children. -/
theorem agree_typed (typeRole nameRole : ChildRole)
    {f f' : TypeName → SyntaxTree → Except BuildError α}
    (hf : ∀ type name name', name.text = name'.text →
      Agree t t' (f type name) (f' type name')) :
    Agree t t'
      (do
        let type ← TypeName.ofTree (← t.need .type typeRole)
        let name ← t.need .ident nameRole
        f type name)
      (do
        let type ← TypeName.ofTree (← t'.need .type typeRole)
        let name ← t'.need .ident nameRole
        f' type name) := by
  refine agree_need h .type typeRole fun type type' _ htype => ?_
  refine (TypeName.readsSkeleton.child htype).bind fun type => ?_
  exact agree_name h nameRole (hf type)

end Declarations

theorem Variable.readsSkeleton_ofParamTree : ReadsSkeleton Variable.ofParamTree := by
  intro t t' h
  unfold Variable.ofParamTree
  refine agree_expectKind h _ fun _ => ?_
  rw [Variable.headOfTree_eq, Variable.headOfTree_eq]
  refine agree_typed h _ _ fun type name name' hname => ?_
  rw [hname]
  exact .value _

theorem Variable.readsSkeleton (keep : Bool) : ReadsSkeleton (Variable.ofTree keep) := by
  intro t t' h
  rw [Variable.ofTree_eq, Variable.ofTree_eq]
  refine agree_expectKind h _ fun _ => agree_typed h _ _ fun type name name' hname => ?_
  rw [hname]
  cases keep with
  | false => exact .value _
  | true => exact (agree_optionalExpression h none some).map _

/-! ## Code -/

variable {policy : LocalInitializers}

/-- **What the builders of code make of a tree** agrees with what they make of any other
tree with this skeleton. -/
structure SyntaxTree.CodeAgrees (policy : LocalInitializers) (t : SyntaxTree) : Prop where
  statement : ∀ t', t.skeleton = t'.skeleton →
    Agree t t' (Statement.ofTree policy t) (Statement.ofTree policy t')
  block : ∀ t', t.skeleton = t'.skeleton →
    Agree t t' (Block.ofTree policy t) (Block.ofTree policy t')
  branch : ∀ t', t.skeleton = t'.skeleton → ∀ role,
    Agree t t' (Statement.branchOfTree policy role t) (Statement.branchOfTree policy role t')
  elseBlock : ∀ t', t.skeleton = t'.skeleton →
    Agree t t' (Block.ofElseTree policy t) (Block.ofElseTree policy t')

section Code

variable {t t' : SyntaxTree} (hchildren : ∀ c ∈ t.children, c.CodeAgrees policy)
  (h : t.skeleton = t'.skeleton)
include hchildren h

theorem agree_branch (role : ChildRole) :
    Agree t t' (Statement.branchOfTree policy role t) (Statement.branchOfTree policy role t') := by
  rw [Statement.branchOfTree_eq, Statement.branchOfTree_eq]
  refine agree_needExpression h _ fun cond cond' hcond => ?_
  refine (Expression.readsSkeleton.child hcond).bind fun cond => ?_
  refine agree_need h .block role fun body body' _ hbody => ?_
  exact (hbody.agree ((hchildren body hbody.mem).block body' hbody.skeleton)).map _

theorem agree_clauses :
    Agree t t' (Statement.clausesOfTrees policy t.children)
      (Statement.clausesOfTrees policy t'.children) := by
  refine agree_children h ⟨_, Statement.clausesOfTrees_nil⟩ fun c c' cs cs' hpair ih => ?_
  by_cases hkind : c.kind = .elseIfClause
  · rw [Statement.clausesOfTrees_cons_of_eq hkind,
      Statement.clausesOfTrees_cons_of_eq (by rw [← hpair.kind, hkind])]
    have hclause := (hchildren c hpair.mem).branch c' hpair.skeleton .block
    exact (hpair.agree hclause).bind fun clause => ih.map _
  · rw [Statement.clausesOfTrees_cons_of_ne hkind,
      Statement.clausesOfTrees_cons_of_ne (by rwa [← hpair.kind])]
    exact ih

/-- The last block of a conditional may be missing. -/
theorem agree_else :
    Agree t t' ((t.child? .elseClause).elim (.ok .empty) (Block.ofElseTree policy))
      ((t'.child? .elseClause).elim (.ok .empty) (Block.ofElseTree policy)) := by
  refine agree_optional (rel_child? h .elseClause) _ fun clause clause' hclause => ?_
  exact hclause.agree ((hchildren clause hclause.mem).elseBlock clause' hclause.skeleton)

theorem agree_statement :
    Agree t t' (Statement.ofTree policy t) (Statement.ofTree policy t') := by
  have hkinds : t.kind = t'.kind := (skeleton_eq_iff.mp h).1
  rw [Statement.ofTree_eq, Statement.ofTree_eq, ← hkinds]
  split
  · refine agree_name h _ fun target target' htarget => ?_
    rw [htarget]
    refine agree_needExpression h _ fun value value' hvalue => ?_
    exact (Expression.readsSkeleton.child hvalue).map _
  · refine (agree_branch hchildren h _).bind fun branch => ?_
    exact (agree_clauses hchildren h).bind fun clauses => (agree_else hchildren h).map _
  · exact (agree_branch hchildren h _).map _
  · exact agree_optionalExpression h Statement.returnVoid Statement.returnValue
  · exact .value _
  · exact .value _
  · exact agree_error hkinds (.unexpectedNode .statement)

theorem agree_items :
    Agree t t' (Block.ofTrees policy t.children) (Block.ofTrees policy t'.children) := by
  refine agree_children h ⟨_, Block.ofTrees_nil⟩ fun c c' cs cs' hpair ih => ?_
  rw [Block.ofTrees_cons, Block.ofTrees_cons, ← hpair.kind]
  split
  · exact ((Variable.readsSkeleton _).child hpair).bind fun v => ih.map _
  · split
    · have hstatement := (hchildren c hpair.mem).statement c' hpair.skeleton
      exact (hpair.agree hstatement).bind fun s => ih.map _
    · exact hpair.agree (agree_error hpair.kind (.unexpectedNode .declarationOrStatement))

end Code

theorem codeAgrees (t : SyntaxTree) : t.CodeAgrees policy := by
  induction t using SyntaxTree.induction with
  | node t ih =>
    refine ⟨fun t' h => agree_statement ih h, fun t' h => ?_, fun t' h => agree_branch ih h,
      fun t' h => ?_⟩
    · rw [Block.ofTree_eq, Block.ofTree_eq]
      exact agree_expectKind h _ fun _ => agree_items ih h
    · refine agree_need h .block _ fun body body' _ hbody => ?_
      exact hbody.agree ((ih body hbody.mem).block body' hbody.skeleton)

theorem Statement.readsSkeleton : ReadsSkeleton (Statement.ofTree policy) :=
  fun t => (codeAgrees t).statement

theorem Block.readsSkeleton : ReadsSkeleton (Block.ofTree policy) := fun t => (codeAgrees t).block

/-! ## Functions and programs -/

theorem Function.readsSkeleton : ReadsSkeleton (Function.ofTree policy) := by
  intro t t' h
  rw [Function.ofTree_eq, Function.ofTree_eq]
  refine agree_expectKind h _ fun _ => agree_typed h _ _ fun type name name' hname => ?_
  rw [hname]
  refine Agree.bind (agree_childrenIn h .paramList ⟨[], rfl⟩ fun list list' hlist => ?_)
    fun params => ?_
  · refine agree_children hlist.skeleton ⟨[], rfl⟩ fun c c' cs cs' hpair ih => ?_
    rw [List.mapM_cons, List.mapM_cons]
    exact (Variable.readsSkeleton_ofParamTree.child hpair).bind fun param => ih.map _
  · refine agree_need h .block _ fun body body' _ hbody => ?_
    exact (Block.readsSkeleton.child hbody).map _

theorem Program.readsSkeleton : ReadsSkeleton (Program.ofTree policy) := by
  intro t t' h
  refine agree_expectKind h _ fun _ => ?_
  refine agree_children h ⟨_, Program.ofTrees_nil⟩ fun c c' cs cs' hpair ih => ?_
  rw [Program.ofTrees, Program.ofTrees, ← hpair.kind]
  split
  · exact ((Variable.readsSkeleton true).child hpair).bind fun v => ih.map _
  · exact (Function.readsSkeleton.child hpair).bind fun f => ih.map _
  · exact hpair.agree (agree_error hpair.kind (.unexpectedNode .declaration))

/-- **The builders read skeletons**, all of them, with initializers kept or discarded. -/
theorem builders_readSkeleton (policy : LocalInitializers) (keep : Bool) :
    ReadsSkeleton (Program.ofTree policy) ∧ ReadsSkeleton (Function.ofTree policy)
      ∧ ReadsSkeleton (Block.ofTree policy) ∧ ReadsSkeleton (Statement.ofTree policy)
      ∧ ReadsSkeleton (Variable.ofTree keep) ∧ ReadsSkeleton Expression.ofTree
      ∧ ReadsSkeleton TypeName.ofTree ∧ ReadsSkeleton Operator.ofTree :=
  ⟨Program.readsSkeleton, Function.readsSkeleton, Block.readsSkeleton, Statement.readsSkeleton,
    Variable.readsSkeleton keep, Expression.readsSkeleton, TypeName.readsSkeleton,
    Operator.readsSkeleton⟩

/-- A division, and a tree with this skeleton that no source has. Both are refused for the
operator, each with the span in its own tree. -/
theorem builders_readSkeleton_division :
    let t : SyntaxTree := ⟨.returnStmt, ⟨0, 11⟩, "return x/1;", [⟨.binaryExpr, ⟨7, 10⟩, "x/1",
      [⟨.locationExpr, ⟨7, 8⟩, "x", [leaf .ident ⟨7, 8⟩ "x"]⟩, leaf .operator ⟨8, 9⟩ "/",
        leaf .intLiteral ⟨9, 10⟩ "1"]⟩]⟩
    let t' : SyntaxTree := ⟨.returnStmt, ⟨5, 2⟩, "break", [⟨.binaryExpr, ⟨0, 0⟩, "",
      [⟨.locationExpr, ⟨3, 9⟩, "y", [leaf .ident ⟨1, 1⟩ "x"]⟩, leaf .operator ⟨40, 41⟩ "/",
        leaf .intLiteral ⟨6, 6⟩ "1"]⟩]⟩
    t.skeleton = t'.skeleton
      ∧ Agree t t' (Statement.ofTree .keep t) (Statement.ofTree .keep t')
      ∧ Statement.ofTree .keep t = .error ⟨⟨8, 9⟩, .unsupportedOperator "/"⟩
      ∧ Statement.ofTree .keep t' = .error ⟨⟨40, 41⟩, .unsupportedOperator "/"⟩ := by
  intro t t'
  obtain ⟨-, -, -, hstatement, -⟩ := builders_readSkeleton .keep true
  have hskeleton : t.skeleton = t'.skeleton := by decide
  exact ⟨hskeleton, hstatement t t' hskeleton, by cbv, by cbv⟩

end ImpFront
