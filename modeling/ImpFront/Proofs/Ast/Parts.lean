import ImpFront.Proofs.Ast.Outline
import Mathlib.Data.List.Sort

/-!
# The parts of a program and their places

A `Part` is something that a program consists of, and has parts itself: a global has its
initializer, a function its parameters and its body, and so on down to names and numbers.
The **place** of a part says how to get there from the program: the first number counts
the parts of the program, the next one those of the part found, until the part is reached
(`Part.at?`).

Places are compared number by number, like words in a dictionary (`Precedes`). So a place
comes before those below it, and all of these come before the next place beside it. A list
of all parts in this order is their **listing** (`IsListing`): it has each part before its
own parts, and these in their order. There is only one (`IsListing.unique`). It begins with
the first part and a listing of what is below it, and goes on with a listing of the others
(`IsListing.cons`).
-/

namespace ImpFront

/-- **A part of a program.** -/
inductive Part
  | ofVariable (v : Variable)
  | ofFunction (f : Function)
  | ofBlock (b : Block)
  | ofStatement (s : Statement)
  | ofExpression (e : Expression)

namespace Part

/-- What a part is. -/
def nodeType : Part → String
  | .ofVariable _ => "Variable"
  | .ofFunction _ => "Function"
  | .ofBlock _ => "Block"
  | .ofStatement s => s.nodeType
  | .ofExpression e => e.nodeType

/-- The short text of a part. -/
def label : Part → String
  | .ofVariable v => v.label
  | .ofFunction f => f.label
  | .ofBlock b => b.label
  | .ofStatement s => s.label
  | .ofExpression e => e.label

/-- **The parts of a part**, in order. -/
def children : Part → List Part
  | .ofVariable v => v.initializer.toList.map .ofExpression
  | .ofFunction f => f.params.map .ofVariable ++ [.ofBlock f.body]
  | .ofBlock b => b.locals.map .ofVariable ++ b.statements.map .ofStatement
  | .ofStatement (.assignment _ value) => [.ofExpression value]
  | .ofStatement (.ifElse cond thenBlock elseBlock) =>
    [.ofExpression cond, .ofBlock thenBlock, .ofBlock elseBlock]
  | .ofStatement (.whileLoop cond body) => [.ofExpression cond, .ofBlock body]
  | .ofStatement (.returnValue value) => [.ofExpression value]
  | .ofStatement .returnVoid | .ofStatement .breakLoop | .ofStatement .continueLoop => []
  | .ofExpression (.binary left _ right) => [.ofExpression left, .ofExpression right]
  | .ofExpression (.call _ args) => args.map .ofExpression
  | .ofExpression (.intConstant _) | .ofExpression (.boolConstant _)
  | .ofExpression (.location _) => []

/-- The outline of a part. -/
def outline : Part → Outline
  | .ofVariable v => v.outline
  | .ofFunction f => f.outline
  | .ofBlock b => b.outline
  | .ofStatement s => s.outline
  | .ofExpression e => e.outline

end Part

/-- **The parts of a program**: its globals, and then its functions. -/
def Program.parts (p : Program) : List Part :=
  p.globals.map .ofVariable ++ p.functions.map .ofFunction

/-! ## Parts in outlines -/

theorem Expression.outlineAll_eq_map (es : List Expression) :
    outlineAll es = es.map outline := by
  induction es with
  | nil => rfl
  | cons e es ih => rw [outlineAll, ih, List.map_cons]

theorem Statement.outlineAll_eq_map (ss : List Statement) : outlineAll ss = ss.map outline := by
  induction ss with
  | nil => rfl
  | cons s ss ih => rw [outlineAll, ih, List.map_cons]

namespace Part

theorem nodeType_outline (p : Part) : p.outline.nodeType = p.nodeType := by
  cases p with
  | ofVariable v => rfl
  | ofFunction f => rfl
  | ofBlock b => exact b.nodeType_outline
  | ofStatement s => exact s.nodeType_outline
  | ofExpression e => cases e <;> rfl

theorem label_outline (p : Part) : p.outline.label = p.label := by
  cases p with
  | ofVariable v => rfl
  | ofFunction f => rfl
  | ofBlock b =>
    cases b
    rw [outline, Block.outline]
    rfl
  | ofStatement s => cases s <;> rfl
  | ofExpression e => cases e <;> rfl

/-- **What is below the outline of a part** are the outlines of its parts. -/
theorem children_outline (p : Part) : p.outline.children = p.children.map outline := by
  cases p with
  | ofVariable v =>
    rw [children, List.map_map]
    rfl
  | ofFunction f =>
    rw [children, List.map_append, List.map_map]
    rfl
  | ofBlock b =>
    cases b
    rw [children, List.map_append, List.map_map, List.map_map, outline, Block.outline,
      Statement.outlineAll_eq_map]
    rfl
  | ofStatement s => cases s <;> rfl
  | ofExpression e =>
    cases e with
    | call name args =>
      rw [children, List.map_map, outline, Expression.outline, Expression.outlineAll_eq_map]
      rfl
    | _ => rfl

theorem outline_eq (p : Part) :
    p.outline = ⟨p.nodeType, p.label, p.outline.display, p.children.map outline⟩ := by
  rw [← nodeType_outline, ← label_outline, ← children_outline]
  cases p.outline
  rfl

/-- **Part by part**: what holds of several parts together, if it holds of the parts of the
first and of the others. -/
theorem forest_induction {motive : List Part → Prop} (nil : motive [])
    (cons : ∀ p ps, motive p.children → motive ps → motive (p :: ps)) (ps : List Part) :
    motive ps := by
  generalize hos : ps.map outline = os
  induction os using Outline.forest_induction generalizing ps with
  | nil =>
    rw [List.map_eq_nil_iff.mp hos]
    exact nil
  | cons nodeType label display children os ihChildren ihOthers =>
    obtain ⟨p, qs, rfl, hp, hqs⟩ := List.map_eq_cons_iff.mp hos
    refine cons p qs (ihChildren p.children ?_) (ihOthers qs hqs)
    rw [← children_outline, hp]

end Part

theorem Program.children_outline (p : Program) :
    p.outline.children = p.parts.map Part.outline := by
  rw [parts, List.map_append, List.map_map, List.map_map]
  rfl

/-! ## Places -/

namespace Part

/-- **The part at a place.** The first number counts the given parts. -/
def at? : List Part → List Nat → Option Part
  | _, [] => none
  | ps, [i] => ps[i]?
  | ps, i :: j :: place => ps[i]?.bind fun p => at? p.children (j :: place)

/-- **The part at the place is the last** of the parts among which it stands. -/
def isLastAt : List Part → List Nat → Bool
  | _, [] => false
  | ps, [i] => i + 1 == ps.length
  | ps, i :: j :: place => ps[i]?.any fun p => isLastAt p.children (j :: place)

variable {p : Part} {ps : List Part}

/-! ### Below the first part -/

theorem at?_below {place : List Nat} (h : place ≠ []) :
    at? (p :: ps) (0 :: place) = at? p.children place := by
  obtain ⟨j, place, rfl⟩ := List.exists_cons_of_ne_nil h
  rfl

theorem isLastAt_zero : isLastAt (p :: ps) [0] = ps.isEmpty := by
  cases ps <;> rfl

theorem isLastAt_below {place : List Nat} (h : place ≠ []) :
    isLastAt (p :: ps) (0 :: place) = isLastAt p.children place := by
  obtain ⟨j, place, rfl⟩ := List.exists_cons_of_ne_nil h
  rfl

/-! ### Behind the first part -/

/-- The place with one more part in front. -/
def behind : List Nat → List Nat
  | [] => []
  | i :: place => (i + 1) :: place

theorem at?_behind (place : List Nat) : at? (p :: ps) (behind place) = at? ps place := by
  match place with
  | [] => rfl
  | [i] => rfl
  | i :: j :: place => rfl

theorem isLastAt_behind (place : List Nat) :
    isLastAt (p :: ps) (behind place) = isLastAt ps place := by
  match place with
  | [] => rfl
  | [i] =>
    rw [behind, isLastAt, isLastAt, List.length_cons]
    exact Bool.eq_iff_iff.mpr (by simp)
  | i :: j :: place => rfl

/-! ## Listings -/

/-- **A place precedes another** if that is below it, or if the first number that differs is
smaller. -/
inductive Precedes : List Nat → List Nat → Prop
  | under (i : Nat) (place : List Nat) : Precedes [] (i :: place)
  | earlier {i j : Nat} (h : i < j) (place place' : List Nat) : Precedes (i :: place) (j :: place')
  | inside (i : Nat) {place place' : List Nat} (h : Precedes place place') :
      Precedes (i :: place) (i :: place')

theorem Precedes.asymm {place place' : List Nat} (h : Precedes place place') :
    ¬ Precedes place' place := by
  induction h with
  | under i place => exact fun h => nomatch h
  | earlier hlt place place' =>
    intro h
    cases h with
    | earlier hlt' _ _ => exact Nat.lt_asymm hlt hlt'
    | inside _ _ => exact Nat.lt_irrefl _ hlt
  | inside i _ ih =>
    intro h
    cases h with
    | earlier hlt _ _ => exact Nat.lt_irrefl _ hlt
    | inside _ h => exact ih h

/-- **All parts, with their places**: those given, those that they consist of, and so on. -/
structure IsListing (ps : List Part) (nodes : List (List Nat × Part)) : Prop where
  /-- The places are in order. -/
  ordered : nodes.Pairwise fun m n => Precedes m.1 n.1
  /-- Each part stands with its place, and nothing else is there. -/
  complete : ∀ place p, (place, p) ∈ nodes ↔ at? ps place = some p

variable {nodes others : List (List Nat × Part)}

theorem IsListing.ne_nil (h : IsListing ps nodes) {n : List Nat × Part} (hn : n ∈ nodes) :
    n.1 ≠ [] := by
  intro hnil
  have hat := (h.complete n.1 n.2).mp hn
  rw [hnil] at hat
  cases hat

/-- **There is only one listing.** -/
theorem IsListing.unique (h : IsListing ps nodes) (h' : IsListing ps others) : nodes = others := by
  have : Std.Irrefl fun m n : List Nat × Part => Precedes m.1 n.1 := ⟨fun _ h => h.asymm h⟩
  have : Std.Antisymm fun m n : List Nat × Part => Precedes m.1 n.1 :=
    ⟨fun _ _ h h' => absurd h' h.asymm⟩
  refine h.ordered.eq_of_mem_iff h'.ordered fun n => ?_
  rw [h.complete n.1 n.2, h'.complete n.1 n.2]

theorem isListing_nil : IsListing [] [] := by
  refine ⟨.nil, fun place p => ?_⟩
  match place with
  | [] => simp [at?]
  | [i] => simp [at?]
  | i :: j :: place => simp [at?]

theorem Precedes.behind {place place' : List Nat} (h : Precedes place place')
    (hne : place ≠ []) : Precedes (behind place) (behind place') := by
  cases h with
  | under i place => exact absurd rfl hne
  | earlier h place place' => exact .earlier (Nat.succ_lt_succ h) _ _
  | inside i h => exact .inside _ h

/-- The listing of a part and others, put together from a listing of what is below the part
and a listing of the others. -/
def consListing (p : Part) (nodes others : List (List Nat × Part)) : List (List Nat × Part) :=
  ([0], p) :: (nodes.map fun n => (0 :: n.1, n.2)) ++ others.map fun n => (behind n.1, n.2)

theorem IsListing.ordered_cons (hnodes : IsListing p.children nodes)
    (hothers : IsListing ps others) :
    (consListing p nodes others).Pairwise fun m n => Precedes m.1 n.1 := by
  have hbelow {n : List Nat × Part} (hn : n ∈ nodes) : Precedes [0] (0 :: n.1) := by
    obtain ⟨j, place, hplace⟩ := List.exists_cons_of_ne_nil (hnodes.ne_nil hn)
    rw [hplace]
    exact .inside 0 (.under j place)
  have hbehind {n : List Nat × Part} (hn : n ∈ others) (place : List Nat) :
      Precedes (0 :: place) (behind n.1) := by
    obtain ⟨j, place', hplace⟩ := List.exists_cons_of_ne_nil (hothers.ne_nil hn)
    rw [hplace]
    exact .earlier (Nat.succ_pos j) _ _
  rw [consListing, List.cons_append, List.pairwise_cons, List.pairwise_append, List.pairwise_map,
    List.pairwise_map, List.forall_mem_append, List.forall_mem_map, List.forall_mem_map]
  refine ⟨⟨fun n hn => hbelow hn, fun n hn => hbehind hn []⟩,
    hnodes.ordered.imp fun h => .inside 0 h, ?_, ?_⟩
  · exact hothers.ordered.imp_of_mem fun hm _ h => h.behind (hothers.ne_nil hm)
  · rw [List.forall_mem_map]
    intro m _
    rw [List.forall_mem_map]
    exact fun n hn => hbehind hn m.1

/-- **A listing begins with the first part** and what is below it, and goes on with the
others. -/
theorem IsListing.cons (hnodes : IsListing p.children nodes) (hothers : IsListing ps others) :
    IsListing (p :: ps) (consListing p nodes others) := by
  refine ⟨hnodes.ordered_cons hothers, fun place q => ?_⟩
  rw [consListing, List.cons_append, List.mem_cons, List.mem_append, List.mem_map, List.mem_map]
  constructor
  · rintro (hfirst | ⟨n, hn, hbelow⟩ | ⟨n, hn, hbehind⟩)
    · obtain ⟨rfl, rfl⟩ := Prod.mk.inj hfirst
      rfl
    · obtain ⟨rfl, rfl⟩ := Prod.mk.inj hbelow
      rw [at?_below (hnodes.ne_nil hn)]
      exact (hnodes.complete _ _).mp hn
    · obtain ⟨rfl, rfl⟩ := Prod.mk.inj hbehind
      rw [at?_behind]
      exact (hothers.complete _ _).mp hn
  · intro hat
    match place with
    | [] => cases hat
    | [0] => exact .inl (Prod.ext rfl (Option.some.inj hat).symm)
    | 0 :: j :: place => exact .inr (.inl ⟨_, (hnodes.complete (j :: place) q).mpr hat, rfl⟩)
    | (i + 1) :: place =>
      rw [← behind, at?_behind] at hat
      exact .inr (.inr ⟨_, (hothers.complete (i :: place) q).mpr hat, rfl⟩)

end Part

end ImpFront
