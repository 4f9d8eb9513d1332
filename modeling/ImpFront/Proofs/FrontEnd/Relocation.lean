import ImpFront.Proofs.Build.Core
import ImpFront.Proofs.SyntaxTree.Faithful

/-!
# Sources with the same tokens in other places

When the tokens of one source stand in another source as well, moved but with
the same texts, their trees have one core (`core_relocate_of_derives`). And
trees with one core mean the same: the builders make the same of both, or find
the same fault in them, at a place that has moved along
(`RespectsCore.build_eq`).
-/

namespace ImpFront

open Ebnf SyntaxTree Relocatable

/-! ## Staying in place -/

/-- Everything stays where it is. -/
def Relocation.stay : Relocation := ⟨fun n => n, fun n => n⟩

@[simp] theorem relocate_stay_span (s : Span) : relocate Relocation.stay s = s := rfl

theorem relocate_stay_shape (s : TreeShape) : relocate .stay s = s := by
  induction s using TreeShape.induction with
  | node kind span children ih =>
    have hchildren : relocate Relocation.stay children = children :=
      (List.map_congr_left ih).trans (List.map_id children)
    rw [relocate_shape, hchildren]
    rfl

theorem mapError_relocate_stay {α : Type} (r : Except BuildError α) :
    r.mapError (relocate Relocation.stay) = r := by
  cases r <;> rfl

variable {source source' : List Char} {m : Relocation} {size : Nat} {f : Form} {ts : List Lexeme}
  {parts : List TreeShape}

/-- **What parsing makes of the tokens** of a source. -/
theorem SyntaxTree.parse_of_tokenize (start : StartSymbol) {source : String} {ts : List Lexeme}
    (h : tokenize source = .ok ts) :
    SyntaxTree.parse start source
      = match (start.rule (byteLength source.toList)).readAll ts with
        | .ok shape => .ok (ofShape source.toList shape)
        | .error e => .error [.ofFailure (byteLength source.toList) e] := by
  unfold SyntaxTree.parse StartSymbol.readShape
  simp only [h]
  cases (start.rule (byteLength source.toList)).readAll ts <;> rfl

/-! ## Trees with one core -/

/-- **The token has the same text in the other source**, where it was moved
to. -/
def Lexeme.SameText (source source' : List Char) (m : Relocation) (l : Lexeme) : Prop :=
  slice source' (relocate m l.span) = slice source l.span

/-- What is no token leaves neither place nor text in a core. -/
theorem SyntaxTree.coreNode_congr {kind : NodeKind} {span span' : Span} {text text' : String}
    {children : List SyntaxTree} (h : kind.isToken = true → span = span' ∧ text = text') :
    coreNode kind span text children = coreNode kind span' text' children := by
  by_cases htoken : kind.isToken = true
  · obtain ⟨rfl, rfl⟩ := h htoken
    rfl
  · unfold coreNode
    split
    · rfl
    · rw [if_neg htoken, if_neg htoken]

/-- **A moved shape has the moved core**, if the leaves keep their texts. -/
theorem core_relocate (s : TreeShape)
    (h : ∀ n, s.Has n → n.kind.isToken = true →
      slice source' (relocate m n.span) = slice source n.span) :
    core .stay (ofShape source' (relocate m s)) = core m (ofShape source s) := by
  induction s using TreeShape.induction with
  | node kind span children ih =>
    have hchildren : (relocate m children).map (fun c => core .stay (ofShape source' c))
        = children.map fun c => core m (ofShape source c) := by
      show (children.map (relocate m)).map _ = _
      rw [List.map_map]
      exact List.map_congr_left fun c hc => ih c hc fun n hn => h n (.child hc hn)
    rw [relocate_shape, ofShape, ofShape, core_mk, core_mk, ofShapes_eq_map, ofShapes_eq_map,
      List.map_map, List.map_map]
    show coreNode _ _ _ ((relocate m children).map fun c => core .stay (ofShape source' c)) = _
    rw [hchildren]
    refine coreNode_congr fun htoken => ⟨rfl, ?_⟩
    rw [h _ (.self _) htoken]

/-- A node that stands for a token stands where one of the tokens does. -/
theorem Ebnf.NodeOf.exists_lexeme {n : TreeShape} (h : NodeOf size ts n)
    (htoken : n.kind.isToken = true) : ∃ l ∈ ts, n.span = l.span := by
  obtain ⟨us, f, hus, hf, hder, -⟩ := h.matched
  generalize hkind : n.kind = kind at hf htoken
  cases hf with
  | leaf _ =>
    obtain ⟨t, -, span, rfl, hn⟩ := derives_leaf.mp hder
    refine ⟨_, hus.subset (List.mem_singleton_self _), ?_⟩
    rw [List.singleton_inj.mp hn]
  | rule h => simp [isToken_of_nodeKind? h] at htoken
  | level l => simp [NodeKind.isToken] at htoken

/-- **Parts of derivations have the moved cores** if their tokens were moved. -/
theorem core_relocate_of_derives (h : Derives size f ts parts) (hf : f.proper = true)
    (hts : StandIn source ts) (hsame : ∀ l ∈ ts, l.SameText source source' m) :
    ∀ s ∈ parts, core .stay (ofShape source' (relocate m s)) = core m (ofShape source s) := by
  intro s hs
  refine core_relocate s fun n hn htoken => ?_
  obtain ⟨l, hl, hspan⟩ := (h.nodeOf hf hts s hs n hn).exists_lexeme htoken
  rw [hspan]
  exact hsame l hl

theorem core_relocate_of_start {start : StartSymbol} {shape : TreeShape}
    (h : Derives size (.rule start.nonterminal) ts [shape]) (hts : StandIn source ts)
    (hsame : ∀ l ∈ ts, l.SameText source source' m) :
    core .stay (ofShape source' (relocate m shape)) = core m (ofShape source shape) := by
  refine core_relocate shape fun n hn htoken => ?_
  rcases (StartSymbol.nodeOf_of_derives hts h).1 n hn with hnode | ⟨-, rfl⟩
  · obtain ⟨l, hl, hspan⟩ := hnode.exists_lexeme htoken
    rw [hspan]
    exact hsame l hl
  · simp [NodeKind.isToken] at htoken

/-! ## Trees with one core mean the same -/

/-- **The builder does not look beyond the core** of a tree that comes from a
source. -/
def RespectsCore {α : Type} (start : StartSymbol) (build : SyntaxTree → Except BuildError α) :
    Prop :=
  ∀ (m : Relocation) (t : SyntaxTree), start.nonterminal.IsTree t →
    build (t.core m) = (build t).mapError (relocate m)

theorem Program.respectsCore (policy : LocalInitializers) :
    RespectsCore .program (Program.ofTree policy) := fun _ _ => Program.ofTree_core

theorem Statement.respectsCore (policy : LocalInitializers) :
    RespectsCore .statement (Statement.ofTree policy) := fun _ _ => Statement.ofTree_core

theorem Expression.respectsCore : RespectsCore .expression Expression.ofTree :=
  fun _ _ => Expression.ofTree_core

/-- **Of trees with one core the builder makes the same.** -/
theorem RespectsCore.build_eq {α : Type} {start : StartSymbol}
    {build : SyntaxTree → Except BuildError α} (hbuild : RespectsCore start build)
    {t t' : SyntaxTree} (ht : start.nonterminal.IsTree t) (ht' : start.nonterminal.IsTree t')
    (hcore : t'.core .stay = t.core m) : build t' = (build t).mapError (relocate m) := by
  rw [← mapError_relocate_stay (build t'), ← hbuild .stay t' ht', hcore, hbuild m t ht]

/-- What a nonterminal derives from tokens of a source is one of its trees. -/
theorem isTree_of_derives {n : Nonterminal} {shape : TreeShape}
    (h : Derives size (.rule n) ts [shape]) (hts : StandIn source ts) :
    n.IsTree (ofShape source shape) := by
  obtain ⟨s, hs, htree⟩ := h.leaves fun l hl => hts.spells hl
  rwa [List.singleton_inj.mp hs]

end ImpFront
