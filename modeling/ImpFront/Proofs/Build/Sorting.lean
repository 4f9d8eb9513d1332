import ImpFront.Ast.Equality
import ImpFront.Proofs.Build.Blockwise
import Mathlib.Data.List.Forall2
import Mathlib.Data.List.Basic

/-!
# Sorted children

A program sorts its children into variables and functions, a block sorts its own into
variables and statements. Both do it in one way, `sortOut`, and what comes of it can be said
without the order in which they do it: every child is of one of two sorts, and the values of
each sort are those of the children of that sort, one by one (`SortedInto`). A child of no
sort is refused.

So it does not matter how declarations stand among the others (`SortedInto.congr`). It does not
matter in any block of a tree either, however deep: trees that differ only by such
rearrangements, in as many blocks as one likes, have one meaning (`sortedInto_stable`). The
proof goes through the tree with all declarations first, everywhere at once. That is a
change inside of blocks, so all that needs a look is what a block makes of its items. Only
values are compared: of several errors in a tree, the one that comes first is reported, and
which one that is depends on the order.
-/

namespace ImpFront

open SyntaxTree

/-! ## Sorting -/

section Sorting

variable {β : Type} (declare : SyntaxTree → Except BuildError Variable)
  (isOther : NodeKind → Bool) (other : SyntaxTree → Except BuildError β)

/-- **Trees are sorted** into variables and others. -/
structure SortedInto (ts : List SyntaxTree) (vs : List Variable) (bs : List β) : Prop where
  /-- Every tree is of one of the two sorts. -/
  known : ∀ t ∈ ts, t.kind = .varDecl ∨ isOther t.kind = true
  /-- The variables are those that the declarations declare, one by one. -/
  declared : List.Forall₂ (fun t v => declare t = .ok v) (ts.filter (·.kind = .varDecl)) vs
  /-- The others are what the others mean, one by one. -/
  others : List.Forall₂ (fun t b => other t = .ok b) (ts.filter (isOther ·.kind)) bs
  /-- No tree is left out, and none is on both sides. -/
  length_add : vs.length + bs.length = ts.length

/-- Sorts trees, in their order, up to the first that has no meaning or is of no sort. -/
def sortOut (role : NodeRole) : List SyntaxTree → Except BuildError (List Variable × List β)
  | [] => .ok ([], [])
  | t :: ts =>
    if t.kind = .varDecl then do
      let v ← declare t
      let rest ← sortOut role ts
      return (v :: rest.1, rest.2)
    else if isOther t.kind then do
      let b ← other t
      let rest ← sortOut role ts
      return (rest.1, b :: rest.2)
    else .error (t.unexpected role)

variable {declare isOther other} {t : SyntaxTree} {ts : List SyntaxTree} {vs : List Variable}
  {bs : List β}

theorem sortedInto_nil_iff : SortedInto declare isOther other [] vs bs ↔ vs = [] ∧ bs = [] := by
  constructor
  · intro h
    exact ⟨List.forall₂_nil_left_iff.mp h.declared, List.forall₂_nil_left_iff.mp h.others⟩
  · rintro ⟨rfl, rfl⟩
    exact ⟨nofun, .nil, .nil, rfl⟩

section Cons

variable (hother : isOther .varDecl = false)
include hother

/-- A declaration in front is the first variable. -/
theorem sortedInto_cons_variable_iff (ht : t.kind = .varDecl) :
    SortedInto declare isOther other (t :: ts) vs bs
      ↔ ∃ v vs', declare t = .ok v ∧ SortedInto declare isOther other ts vs' bs
        ∧ vs = v :: vs' := by
  have hfirst : (t :: ts).filter (·.kind = .varDecl) = t :: ts.filter (·.kind = .varDecl) :=
    List.filter_cons_of_pos (by simpa using ht)
  have hsecond : (t :: ts).filter (isOther ·.kind) = ts.filter (isOther ·.kind) :=
    List.filter_cons_of_neg (by simp [ht, hother])
  constructor
  · intro h
    have hdeclared := h.declared
    rw [hfirst] at hdeclared
    obtain ⟨v, vs', hv, hvs', rfl⟩ := List.forall₂_cons_left_iff.mp hdeclared
    refine ⟨v, vs', hv, ⟨fun c hc => h.known c (.tail t hc), hvs', hsecond ▸ h.others, ?_⟩, rfl⟩
    simpa [Nat.add_right_comm] using h.length_add
  · rintro ⟨v, vs', hv, h, rfl⟩
    refine ⟨List.forall_mem_cons.mpr ⟨.inl ht, h.known⟩, ?_, ?_, ?_⟩
    · rw [hfirst]
      exact .cons hv h.declared
    · rw [hsecond]
      exact h.others
    · simpa [Nat.add_right_comm] using h.length_add

/-- Another tree in front is the first of the others. -/
theorem sortedInto_cons_other_iff (ht : isOther t.kind = true) :
    SortedInto declare isOther other (t :: ts) vs bs
      ↔ ∃ b bs', other t = .ok b ∧ SortedInto declare isOther other ts vs bs'
        ∧ bs = b :: bs' := by
  have hne : t.kind ≠ .varDecl := by
    rintro hkind
    simp [hkind, hother] at ht
  have hfirst : (t :: ts).filter (·.kind = .varDecl) = ts.filter (·.kind = .varDecl) :=
    List.filter_cons_of_neg (by simpa using hne)
  have hsecond : (t :: ts).filter (isOther ·.kind) = t :: ts.filter (isOther ·.kind) :=
    List.filter_cons_of_pos ht
  constructor
  · intro h
    have hothers := h.others
    rw [hsecond] at hothers
    obtain ⟨b, bs', hb, hbs', rfl⟩ := List.forall₂_cons_left_iff.mp hothers
    refine ⟨b, bs', hb, ⟨fun c hc => h.known c (.tail t hc), hfirst ▸ h.declared, hbs', ?_⟩, rfl⟩
    simpa [← Nat.add_assoc] using h.length_add
  · rintro ⟨b, bs', hb, h, rfl⟩
    refine ⟨List.forall_mem_cons.mpr ⟨.inr ht, h.known⟩, ?_, ?_, ?_⟩
    · rw [hfirst]
      exact h.declared
    · rw [hsecond]
      exact .cons hb h.others
    · simpa [← Nat.add_assoc] using h.length_add

/-- **What sorting gives**, and when it gives anything. -/
theorem sortOut_eq_ok_iff (role : NodeRole) :
    sortOut declare isOther other role ts = .ok (vs, bs)
      ↔ SortedInto declare isOther other ts vs bs := by
  induction ts generalizing vs bs with
  | nil =>
    rw [sortedInto_nil_iff, sortOut, Except.ok.injEq, Prod.mk.injEq, eq_comm, @eq_comm _ bs]
  | cons t ts ih =>
    rw [sortOut]
    by_cases hvariable : t.kind = .varDecl
    · rw [if_pos hvariable, sortedInto_cons_variable_iff hother hvariable]
      constructor
      · intro h
        obtain ⟨v, hv, h⟩ := bind_eq_ok_iff.mp h
        obtain ⟨⟨vs', bs'⟩, hrest, h⟩ := bind_eq_ok_iff.mp h
        cases h
        exact ⟨v, vs', hv, ih.mp hrest, rfl⟩
      · rintro ⟨v, vs', hv, h, rfl⟩
        rw [hv, ok_bind, ih.mpr h]
        rfl
    · rw [if_neg hvariable]
      by_cases ht : isOther t.kind = true
      · rw [if_pos ht, sortedInto_cons_other_iff hother ht]
        constructor
        · intro h
          obtain ⟨b, hb, h⟩ := bind_eq_ok_iff.mp h
          obtain ⟨⟨vs', bs'⟩, hrest, h⟩ := bind_eq_ok_iff.mp h
          cases h
          exact ⟨b, bs', hb, ih.mp hrest, rfl⟩
        · rintro ⟨b, bs', hb, h, rfl⟩
          rw [hb, ok_bind, ih.mpr h]
          rfl
      · rw [if_neg ht]
        refine ⟨nofun, fun h => ?_⟩
        rcases h.known t List.mem_cons_self with hkind | hkind
        · exact absurd hkind hvariable
        · exact absurd hkind ht

end Cons

end Sorting

/-! ## Blocks and programs -/

section Nodes

variable {policy : LocalInitializers} {t : SyntaxTree} {ts : List SyntaxTree}

/-- **The items of a block are sorted.** -/
def Block.Sorts (policy : LocalInitializers) (ts : List SyntaxTree) (b : Block) : Prop :=
  SortedInto (Variable.ofTree (policy = .keep)) NodeKind.isStatement (Statement.ofTree policy)
    ts b.locals b.statements

/-- **The declarations of a program are sorted.** Initializers of globals are always kept. -/
def Program.Sorts (policy : LocalInitializers) (ts : List SyntaxTree) (p : Program) : Prop :=
  SortedInto (Variable.ofTree true) (· = .funcDecl) (Function.ofTree policy)
    ts p.globals p.functions

theorem Block.ofTrees_eq_sortOut (ts : List SyntaxTree) :
    Block.ofTrees policy ts = (do
      let r ← sortOut (Variable.ofTree (policy = .keep)) NodeKind.isStatement
        (Statement.ofTree policy) .declarationOrStatement ts
      return ⟨r.1, r.2⟩) := by
  induction ts with
  | nil => exact Block.ofTrees_nil
  | cons t ts ih =>
    rw [Block.ofTrees_cons, sortOut, ih]
    split
    · simp only [bind_assoc, pure_bind, Block.addLocal]
    · split
      · simp only [bind_assoc, pure_bind, Block.addStatement]
      · rfl

theorem Program.ofTrees_eq_sortOut (ts : List SyntaxTree) :
    Program.ofTrees policy ts = (do
      let r ← sortOut (Variable.ofTree true) (· = .funcDecl) (Function.ofTree policy)
        .declaration ts
      return ⟨r.1, r.2⟩) := by
  induction ts with
  | nil => rfl
  | cons t ts ih =>
    rw [Program.ofTrees, sortOut, ih]
    split
    · next hkind =>
      rw [if_pos hkind]
      simp only [bind_assoc, pure_bind, Program.addVariable]
    · next hkind =>
      rw [if_neg (by simp [hkind]), if_pos (by simpa using hkind)]
      simp only [bind_assoc, pure_bind, Program.addFunction]
    · next hvariable hfunction =>
      rw [if_neg hvariable, if_neg (by simpa using hfunction)]
      rfl

/-- **The block of several trees** is what they are sorted into. -/
theorem Block.ofTrees_eq_ok_iff {b : Block} :
    Block.ofTrees policy ts = .ok b ↔ b.Sorts policy ts := by
  rw [Block.ofTrees_eq_sortOut, bind_eq_ok_iff]
  unfold Block.Sorts
  rw [← sortOut_eq_ok_iff rfl .declarationOrStatement]
  cases b
  constructor
  · rintro ⟨r, hr, ⟨⟩⟩
    exact hr
  · intro h
    exact ⟨_, h, rfl⟩

/-- **The program of several trees** is what they are sorted into. -/
theorem Program.ofTrees_eq_ok_iff {p : Program} :
    Program.ofTrees policy ts = .ok p ↔ p.Sorts policy ts := by
  rw [Program.ofTrees_eq_sortOut, bind_eq_ok_iff]
  unfold Program.Sorts
  rw [← sortOut_eq_ok_iff rfl .declaration]
  constructor
  · rintro ⟨r, hr, ⟨⟩⟩
    exact hr
  · intro h
    exact ⟨_, h, rfl⟩

/-- A node is of the right kind if it is built. -/
theorem SyntaxTree.expectKind_bind_eq_ok_iff {α : Type} {kind : NodeKind} {role : NodeRole}
    {x : Except BuildError α} {a : α} :
    (t.expectKind kind role >>= fun _ => x) = .ok a ↔ t.kind = kind ∧ x = .ok a := by
  unfold expectKind
  by_cases hkind : t.kind = kind
  · rw [if_pos hkind, ok_bind, and_iff_right hkind]
  · rw [if_neg hkind]
    exact ⟨nofun, fun h => absurd h.1 hkind⟩

theorem Block.ofTree_eq_ok_iff {b : Block} :
    Block.ofTree policy t = .ok b ↔ t.kind = .block ∧ b.Sorts policy t.children := by
  rw [Block.ofTree_eq, expectKind_bind_eq_ok_iff, Block.ofTrees_eq_ok_iff]

theorem Program.ofTree_eq_ok_iff {p : Program} :
    Program.ofTree policy t = .ok p ↔ t.kind = .program ∧ p.Sorts policy t.children := by
  unfold Program.ofTree
  rw [expectKind_bind_eq_ok_iff, Program.ofTrees_eq_ok_iff]

end Nodes

/-! ## Rearranged trees -/

/-- **The same declarations, and the same others**, each in the same order. How they stand
among each other may differ. -/
def SameSides (ts ts' : List SyntaxTree) : Prop :=
  ts.filter (·.kind = .varDecl) = ts'.filter (·.kind = .varDecl)
    ∧ ts.filter (·.kind ≠ .varDecl) = ts'.filter (·.kind ≠ .varDecl)

/-- **Trees that are rearranged**: the children of blocks and programs, anywhere in them, and
as often as one likes. -/
inductive SyntaxTree.Rearranged : SyntaxTree → SyntaxTree → Prop
  /-- The children of one node. -/
  | sides {kind : NodeKind} (hkind : kind.sorts = true) (span : Span) (text : String)
      {ts ts' : List SyntaxTree} (h : SameSides ts ts') :
      Rearranged ⟨kind, span, text, ts⟩ ⟨kind, span, text, ts'⟩
  /-- Something in a child. -/
  | child (kind : NodeKind) (span : Span) (text : String) (before after : List SyntaxTree)
      {t t' : SyntaxTree} (h : Rearranged t t') :
      Rearranged ⟨kind, span, text, before ++ t :: after⟩ ⟨kind, span, text, before ++ t' :: after⟩
  | refl (t : SyntaxTree) : Rearranged t t
  | trans {t t' t'' : SyntaxTree} (h : Rearranged t t') (h' : Rearranged t' t'') :
      Rearranged t t''

/-- The trees with the declarations in front. -/
def declarationsFirst (ts : List SyntaxTree) : List SyntaxTree :=
  ts.filter (·.kind = .varDecl) ++ ts.filter (·.kind ≠ .varDecl)

theorem sameSides_declarationsFirst (ts : List SyntaxTree) :
    SameSides (declarationsFirst ts) ts := by
  unfold SameSides declarationsFirst
  constructor <;> simp [List.filter_append, List.filter_filter]

/-- **Sorting does not depend on how the sides stand among each other.** -/
theorem SortedInto.congr {β : Type} {declare : SyntaxTree → Except BuildError Variable}
    {isOther : NodeKind → Bool} {other : SyntaxTree → Except BuildError β}
    {ts ts' : List SyntaxTree} {vs : List Variable} {bs : List β}
    (hother : isOther .varDecl = false) (hsides : SameSides ts ts')
    (h : SortedInto declare isOther other ts vs bs) :
    SortedInto declare isOther other ts' vs bs := by
  obtain ⟨hfirst, hsecond⟩ := hsides
  -- The others of the second sort are none of the declarations.
  have hfilter (us : List SyntaxTree) : us.filter (isOther ·.kind)
      = (us.filter (·.kind ≠ .varDecl)).filter (isOther ·.kind) := by
    rw [List.filter_filter]
    refine List.filter_congr fun u _ => ?_
    by_cases hkind : u.kind = .varDecl <;> simp [hkind, hother]
  have hperm (us : List SyntaxTree) : (declarationsFirst us).Perm us := by
    have := List.filter_append_perm (fun u : SyntaxTree => decide (u.kind = .varDecl)) us
    simpa [declarationsFirst] using this
  have hsame : ts.Perm ts' := by
    refine (hperm ts).symm.trans (.trans (.of_eq ?_) (hperm ts'))
    rw [declarationsFirst, hfirst, hsecond]
    rfl
  refine ⟨fun t ht => h.known t (hsame.mem_iff.mpr ht), hfirst ▸ h.declared, ?_, ?_⟩
  · rw [hfilter, ← hsecond, ← hfilter]
    exact h.others
  · rw [h.length_add, hsame.length_eq]

/-! ## Declarations first, everywhere -/

namespace SyntaxTree

mutual
/-- **The tree with all declarations first**: in every block, and in every program. -/
def gathered : SyntaxTree → SyntaxTree
  | ⟨kind, span, text, children⟩ =>
    ⟨kind, span, text,
      if kind.sorts then declarationsFirst (gatheredAll children) else gatheredAll children⟩

/-- The same for several trees. -/
def gatheredAll : List SyntaxTree → List SyntaxTree
  | [] => []
  | t :: ts => t.gathered :: gatheredAll ts
end

theorem gatheredAll_eq_map (ts : List SyntaxTree) : gatheredAll ts = ts.map gathered := by
  induction ts with
  | nil => rw [gatheredAll, List.map_nil]
  | cons t ts ih => rw [gatheredAll, List.map_cons, ih]

theorem gathered_mk (kind : NodeKind) (span : Span) (text : String) (ts : List SyntaxTree) :
    gathered ⟨kind, span, text, ts⟩ = ⟨kind, span, text,
      if kind.sorts then declarationsFirst (ts.map gathered) else ts.map gathered⟩ := by
  rw [gathered, gatheredAll_eq_map]

theorem children_gathered {t : SyntaxTree} (h : t.kind.sorts = true) :
    t.gathered.children = declarationsFirst (t.children.map gathered) := by
  obtain ⟨kind, span, text, ts⟩ := t
  rw [gathered_mk]
  exact if_pos h

/-- To put declarations first is a change inside of blocks. -/
theorem blockwise_gathered : Blockwise NodeKind.sorts gathered where
  keeps _ h := h
  kind := by
    rintro ⟨kind, span, text, ts⟩
    rw [gathered_mk]
  span := by
    rintro ⟨kind, span, text, ts⟩
    rw [gathered_mk]
  text := by
    rintro ⟨kind, span, text, ts⟩
    rw [gathered_mk]
  children := by
    rintro ⟨kind, span, text, ts⟩ h
    rw [gathered_mk]
    exact if_neg (by simpa using h)

/-- Trees with the same sides have the same order with the declarations first. -/
theorem declarationsFirst_map_gathered {ts ts' : List SyntaxTree} (h : SameSides ts ts') :
    declarationsFirst (ts.map gathered) = declarationsFirst (ts'.map gathered) := by
  have hfilter (p : NodeKind → Bool) (us : List SyntaxTree) :
      (us.map gathered).filter (p ·.kind) = (us.filter (p ·.kind)).map gathered := by
    rw [List.filter_map]
    congr 2
    funext u
    rw [Function.comp, blockwise_gathered.kind]
  unfold declarationsFirst
  rw [hfilter (· = .varDecl), hfilter (· = .varDecl), hfilter (· ≠ .varDecl),
    hfilter (· ≠ .varDecl), h.1, h.2]

/-- **Rearranged trees are the same with the declarations first.** -/
theorem Rearranged.gathered_eq {t t' : SyntaxTree} (h : t.Rearranged t') :
    t.gathered = t'.gathered := by
  induction h with
  | sides hkind span text h =>
    rw [gathered_mk, gathered_mk, if_pos hkind, if_pos hkind, declarationsFirst_map_gathered h]
  | child kind span text before after _ ih =>
    simp only [gathered_mk, List.map_append, List.map_cons, ih]
  | refl t => rfl
  | trans _ _ ih ih' => rw [ih, ih']

/-- Children may be rearranged one by one, all of them. -/
theorem Rearranged.children (kind : NodeKind) (span : Span) (text : String)
    {ts ts' : List SyntaxTree} (h : List.Forall₂ Rearranged ts ts') :
    Rearranged ⟨kind, span, text, ts⟩ ⟨kind, span, text, ts'⟩ := by
  suffices hbehind : ∀ before : List SyntaxTree,
      Rearranged ⟨kind, span, text, before ++ ts⟩ ⟨kind, span, text, before ++ ts'⟩ from
    hbehind []
  induction h with
  | nil => exact fun before => .refl _
  | @cons t t' ts ts' ht _ ih =>
    intro before
    have hrest := ih (before ++ [t'])
    rw [List.append_assoc, List.append_assoc] at hrest
    exact .trans (.child kind span text before ts ht) hrest

end SyntaxTree

/-! ## Builders -/

/-- **Results with the same value**, if there is one. The errors may differ. -/
def SameValue {α : Type} (x y : Except BuildError α) : Prop := ∀ a, x = .ok a ↔ y = .ok a

/-- Results that have the same value. -/
def Comparison.values : Comparison where
  rel := SameValue
  refl _ _ := Iff.rfl
  bind h hf b := by
    rw [bind_eq_ok_iff, bind_eq_ok_iff]
    exact exists_congr fun a => and_congr (h a) (hf a b)

section Gathered

variable {policy : LocalInitializers}

theorem Block.sameValue_declarationsFirst (ts : List SyntaxTree) :
    SameValue (Block.ofTrees policy (declarationsFirst ts)) (Block.ofTrees policy ts) := by
  have hsides := sameSides_declarationsFirst ts
  intro b
  rw [Block.ofTrees_eq_ok_iff, Block.ofTrees_eq_ok_iff]
  exact ⟨SortedInto.congr rfl hsides, SortedInto.congr rfl ⟨hsides.1.symm, hsides.2.symm⟩⟩

theorem Program.sameValue_declarationsFirst (ts : List SyntaxTree) :
    SameValue (Program.ofTrees policy (declarationsFirst ts)) (Program.ofTrees policy ts) := by
  have hsides := sameSides_declarationsFirst ts
  intro p
  rw [Program.ofTrees_eq_ok_iff, Program.ofTrees_eq_ok_iff]
  exact ⟨SortedInto.congr rfl hsides, SortedInto.congr rfl ⟨hsides.1.symm, hsides.2.symm⟩⟩

/-- The items of a block, each of them gathered. -/
theorem Block.sameValue_gathered_items {ts : List SyntaxTree}
    (h : ∀ t ∈ ts, CodeCompares .values NodeKind.sorts gathered policy policy t) :
    SameValue (Block.ofTrees policy (ts.map gathered)) (Block.ofTrees policy ts) := by
  induction ts with
  | nil => exact Comparison.values.refl _
  | cons t ts ih =>
    obtain ⟨ht, hts⟩ := List.forall_mem_cons.mp h
    rw [List.map_cons, Block.ofTrees_cons, Block.ofTrees_cons, blockwise_gathered.kind,
      blockwise_gathered.variable_eq, blockwise_gathered.unexpected]
    split
    · exact Comparison.values.bind_congr _ fun v => Comparison.values.map (ih hts) _
    · split
      · exact Comparison.values.bind ht.statement fun s => Comparison.values.map (ih hts) _
      · exact Comparison.values.refl _

/-- **A block has the same value with the declarations first**, if its items have. -/
theorem Block.sameValue_gathered_children (t : SyntaxTree) (hkind : t.kind = .block)
    (h : ∀ c ∈ t.children, CodeCompares .values NodeKind.sorts gathered policy policy c) :
    SameValue (Block.ofTrees policy t.gathered.children) (Block.ofTrees policy t.children) := by
  rw [children_gathered (by rw [hkind]; rfl)]
  exact fun b => (Block.sameValue_declarationsFirst _ b).trans (Block.sameValue_gathered_items h b)

theorem SyntaxTree.sameValue_code (t : SyntaxTree) :
    CodeCompares .values NodeKind.sorts gathered policy policy t :=
  blockwise_gathered.code Block.sameValue_gathered_children t

theorem Function.sameValue_gathered (t : SyntaxTree) :
    SameValue (Function.ofTree policy t.gathered) (Function.ofTree policy t) :=
  blockwise_gathered.function (R := .values) Block.sameValue_gathered_children t

theorem Program.sameValue_gathered (t : SyntaxTree) :
    SameValue (Program.ofTree policy t.gathered) (Program.ofTree policy t) := by
  have hitems (ts : List SyntaxTree) :
      SameValue (Program.ofTrees policy (ts.map gathered)) (Program.ofTrees policy ts) := by
    induction ts with
    | nil => exact Comparison.values.refl _
    | cons t ts ih =>
      rw [List.map_cons, Program.ofTrees, Program.ofTrees, blockwise_gathered.kind,
        blockwise_gathered.variable_eq, blockwise_gathered.unexpected]
      split
      · exact Comparison.values.bind_congr _ fun v => Comparison.values.map ih _
      · exact Comparison.values.bind (Function.sameValue_gathered t) fun f =>
          Comparison.values.map ih _
      · exact Comparison.values.refl _
  unfold Program.ofTree
  rw [blockwise_gathered.expectKind]
  refine Comparison.values.expectKind fun hkind => ?_
  rw [children_gathered (by rw [hkind]; rfl)]
  exact fun p => (Program.sameValue_declarationsFirst _ p).trans (hitems t.children p)

end Gathered

/-- Trees that are the same with the declarations first have the same value. -/
theorem SyntaxTree.Rearranged.sameValue {α : Type} {build : SyntaxTree → Except BuildError α}
    (hbuild : ∀ t, SameValue (build t.gathered) (build t)) {t t' : SyntaxTree}
    (h : t.Rearranged t') : SameValue (build t) (build t') := by
  intro a
  rw [← hbuild t a, ← hbuild t' a, h.gathered_eq]

/-- **Declarations and others are sorted, and nothing depends on how they stand among each
other.** A block or program has a value exactly if its children are sorted into its two lists;
a child of no sort makes it fail; and trees with a value keep it when the children of blocks
and programs in them are rearranged, at any depth. -/
theorem sortedInto_stable (policy : LocalInitializers) :
    (∀ (t : SyntaxTree) (b : Block),
      Block.ofTree policy t = .ok b ↔ t.kind = .block ∧ b.Sorts policy t.children)
    ∧ (∀ (t : SyntaxTree) (p : Program),
      Program.ofTree policy t = .ok p ↔ t.kind = .program ∧ p.Sorts policy t.children)
    ∧ (∀ t t' : SyntaxTree, t.Rearranged t' →
      SameValue (Program.ofTree policy t) (Program.ofTree policy t')
      ∧ SameValue (Function.ofTree policy t) (Function.ofTree policy t')
      ∧ SameValue (Block.ofTree policy t) (Block.ofTree policy t')
      ∧ SameValue (Statement.ofTree policy t) (Statement.ofTree policy t')
      ∧ (∀ keep, SameValue (Variable.ofTree keep t) (Variable.ofTree keep t'))
      ∧ SameValue (Expression.ofTree t) (Expression.ofTree t'))
    ∧ (∀ t c : SyntaxTree, c ∈ t.children → c.kind ≠ .varDecl →
      (c.kind.isStatement = false → ∃ e, Block.ofTree policy t = .error e)
      ∧ (c.kind ≠ .funcDecl → ∃ e, Program.ofTree policy t = .error e)) := by
  refine ⟨fun t b => Block.ofTree_eq_ok_iff, fun t p => Program.ofTree_eq_ok_iff,
    fun t t' h => ⟨?_, ?_, ?_, ?_, fun keep => ?_, ?_⟩, fun t c hc hvariable => ⟨?_, ?_⟩⟩
  · exact h.sameValue Program.sameValue_gathered
  · exact h.sameValue Function.sameValue_gathered
  · exact h.sameValue fun t => t.sameValue_code.block
  · exact h.sameValue fun t => t.sameValue_code.statement
  · refine h.sameValue fun t a => ?_
    rw [blockwise_gathered.variable_eq]
  · refine h.sameValue fun t a => ?_
    rw [blockwise_gathered.expression_eq]
  · intro hforeign
    cases hb : Block.ofTree policy t with
    | error e => exact ⟨e, rfl⟩
    | ok b =>
      rcases (Block.ofTree_eq_ok_iff.mp hb).2.known c hc with hkind | hkind
      · exact absurd hkind hvariable
      · simp [hforeign] at hkind
  · intro hforeign
    cases hp : Program.ofTree policy t with
    | error e => exact ⟨e, rfl⟩
    | ok p =>
      rcases (Program.ofTree_eq_ok_iff.mp hp).2.known c hc with hkind | hkind
      · exact absurd hkind hvariable
      · exact absurd (by simpa using hkind) hforeign

/-- A block with a loop in it, both of them rearranged. -/
theorem sortedInto_stable_loop :
    let declaration (name : String) : SyntaxTree := ⟨.varDecl, ⟨0, 0⟩, "",
      [⟨.type, ⟨0, 0⟩, "", [leaf .intKeyword ⟨0, 0⟩ "int"]⟩, leaf .ident ⟨0, 0⟩ name]⟩
    let loop (items : List SyntaxTree) : SyntaxTree := ⟨.whileStmt, ⟨0, 0⟩, "",
      [leaf .boolLiteral ⟨0, 0⟩ "true", ⟨.block, ⟨0, 0⟩, "", items⟩]⟩
    let stop : SyntaxTree := leaf .breakStmt ⟨0, 0⟩ ""
    let t : SyntaxTree :=
      ⟨.block, ⟨0, 0⟩, "", [loop [stop, declaration "b"], declaration "a", stop]⟩
    let t' : SyntaxTree :=
      ⟨.block, ⟨0, 0⟩, "", [declaration "a", loop [declaration "b", stop], stop]⟩
    let b : Block := ⟨[{ name := "a", type := .int }],
      [.whileLoop (.boolConstant true) ⟨[{ name := "b", type := .int }], [.breakLoop]⟩, .breakLoop]⟩
    t.Rearranged t' ∧ Block.ofTree .keep t = .ok b ∧ Block.ofTree .keep t' = .ok b := by
  intro declaration loop stop t t' b
  have hloop : (loop [stop, declaration "b"]).Rearranged (loop [declaration "b", stop]) :=
    .child .whileStmt ⟨0, 0⟩ "" [leaf .boolLiteral ⟨0, 0⟩ "true"] []
      (.sides rfl ⟨0, 0⟩ "" ⟨rfl, rfl⟩)
  have hrearranged : t.Rearranged t' :=
    .trans (.children .block ⟨0, 0⟩ "" (.cons hloop (.cons (.refl _) (.cons (.refl _) .nil))))
      (.sides rfl ⟨0, 0⟩ "" ⟨rfl, rfl⟩)
  have hvalue : Block.ofTree .keep t = .ok b := by cbv
  obtain ⟨-, -, hblock, -⟩ := (sortedInto_stable .keep).2.2.1 t t' hrearranged
  exact ⟨hrearranged, hvalue, (hblock b).mp hvalue⟩

end ImpFront
