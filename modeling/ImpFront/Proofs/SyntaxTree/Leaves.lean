import ImpFront.Proofs.Grammar.Trees
import ImpFront.Proofs.Grammar.Acceptance
import ImpFront.Build.Statement
import Mathlib.Data.List.Flatten

/-!
# The leaves that need a meaning

Two sorts of leaves may have no meaning: an operator that the abstract syntax
does not know, and an integer that is too large. `checkedLeaves` lists the
leaves of these sorts, in the order of the nodes.

If the initializers of local variables are not looked at, the leaves in them do
not count. `withoutLocalInitializers` cuts these initializers out of a tree, and
`LocalInitializers.view` is the tree as a policy sees it.

For a tree that comes from a source, the order of the nodes is the order of the
source, and every leaf has the text under its span.
-/

namespace ImpFront

open Ebnf

namespace SyntaxTree

/-- Whether a node is one that may have no meaning. -/
def isChecked (t : SyntaxTree) : Bool := t.kind = .operator || t.kind = .intLiteral

/-- **The operators and the integers** of a tree, in the order of the nodes. -/
def checkedLeaves (t : SyntaxTree) : List SyntaxTree := t.preorder.filter isChecked

theorem preorderAll_eq_flatMap (ts : List SyntaxTree) :
    preorderAll ts = ts.flatMap preorder := by
  induction ts with
  | nil => rw [preorderAll, List.flatMap_nil]
  | cons t ts ih => rw [preorderAll, List.flatMap_cons, ih]

theorem checkedLeaves_mk (kind : NodeKind) (span : Span) (text : String)
    (cs : List SyntaxTree) :
    checkedLeaves ⟨kind, span, text, cs⟩
      = [(⟨kind, span, text, cs⟩ : SyntaxTree)].filter isChecked ++ cs.flatMap checkedLeaves := by
  rw [checkedLeaves, preorder, preorderAll_eq_flatMap, ← List.singleton_append,
    List.filter_append, List.filter_flatMap]
  rfl

/-- A node of another kind passes on the leaves of its children. -/
theorem checkedLeaves_node {kind : NodeKind} (hkind : kind ∉ [.operator, .intLiteral])
    (span : Span) (text : String) (cs : List SyntaxTree) :
    checkedLeaves ⟨kind, span, text, cs⟩ = cs.flatMap checkedLeaves := by
  have hnot : ¬ isChecked ⟨kind, span, text, cs⟩ = true := by
    simpa [isChecked] using hkind
  rw [checkedLeaves_mk, List.filter_cons_of_neg hnot]
  rfl

/-! ## Trees without the initializers of local variables -/

/-- A node without those of its children that are expressions. -/
def withoutExpressions (t : SyntaxTree) : SyntaxTree :=
  { t with children := t.children.filter (!·.kind.isExpression) }

mutual
/-- **The tree without the initializers of local variables**: the variables that
stand directly in a block lose their expressions. -/
def withoutLocalInitializers : SyntaxTree → SyntaxTree
  | ⟨kind, span, text, children⟩ =>
    ⟨kind, span, text, withoutLocalInitializersAll (kind = .block) children⟩

/-- The same for trees that stand side by side, in a block or elsewhere. -/
def withoutLocalInitializersAll (inBlock : Bool) : List SyntaxTree → List SyntaxTree
  | [] => []
  | t :: ts =>
    let rest := t.withoutLocalInitializers
    (if inBlock && t.kind = .varDecl then rest.withoutExpressions else rest)
      :: withoutLocalInitializersAll inBlock ts
end

/-- A tree in a block, without its initializer if it is a variable. -/
def itemWithoutInitializer (t : SyntaxTree) : SyntaxTree :=
  if t.kind = .varDecl then t.withoutLocalInitializers.withoutExpressions
  else t.withoutLocalInitializers

theorem withoutLocalInitializersAll_false (ts : List SyntaxTree) :
    withoutLocalInitializersAll false ts = ts.map withoutLocalInitializers := by
  induction ts with
  | nil => rw [withoutLocalInitializersAll, List.map_nil]
  | cons t ts ih =>
    rw [withoutLocalInitializersAll, ih]
    rfl

theorem withoutLocalInitializersAll_true (ts : List SyntaxTree) :
    withoutLocalInitializersAll true ts = ts.map itemWithoutInitializer := by
  induction ts with
  | nil => rw [withoutLocalInitializersAll, List.map_nil]
  | cons t ts ih =>
    rw [withoutLocalInitializersAll, ih, List.map_cons, itemWithoutInitializer]
    simp only [Bool.true_and, decide_eq_true_eq]

theorem withoutLocalInitializers_block (span : Span) (text : String) (items : List SyntaxTree) :
    withoutLocalInitializers ⟨.block, span, text, items⟩
      = ⟨.block, span, text, items.map itemWithoutInitializer⟩ := by
  rw [withoutLocalInitializers, ← withoutLocalInitializersAll_true]
  rfl

theorem withoutLocalInitializers_node {kind : NodeKind} (hkind : kind ≠ .block) (span : Span)
    (text : String) (cs : List SyntaxTree) :
    withoutLocalInitializers ⟨kind, span, text, cs⟩
      = ⟨kind, span, text, cs.map withoutLocalInitializers⟩ := by
  rw [withoutLocalInitializers, decide_eq_false hkind, withoutLocalInitializersAll_false]

theorem IsLeaf.withoutLocalInitializers_eq {kind : NodeKind} {tokens : List Token}
    {t : SyntaxTree} (h : IsLeaf kind tokens t) : t.withoutLocalInitializers = t := by
  obtain ⟨span, text, -, -⟩ := h
  rfl

theorem IsType.withoutLocalInitializers_eq {t : SyntaxTree} (h : IsType t) :
    t.withoutLocalInitializers = t := by
  cases h with
  | int span text h =>
    rw [withoutLocalInitializers_node (by decide), List.map_singleton,
      h.withoutLocalInitializers_eq]
  | bool span text h =>
    rw [withoutLocalInitializers_node (by decide), List.map_singleton,
      h.withoutLocalInitializers_eq]
  | void span text h =>
    rw [withoutLocalInitializers_node (by decide), List.map_singleton,
      h.withoutLocalInitializers_eq]

/-- An expression has no blocks in it, so nothing is cut. -/
theorem IsExpression.withoutLocalInitializers_eq {t : SyntaxTree} (h : IsExpression t) :
    t.withoutLocalInitializers = t := by
  induction h with
  | intLiteral h => exact h.withoutLocalInitializers_eq
  | boolLiteral h => exact h.withoutLocalInitializers_eq
  | location span text hname =>
    rw [withoutLocalInitializers_node (by decide), List.map_singleton,
      hname.withoutLocalInitializers_eq]
  | callEmpty span text hname =>
    rw [withoutLocalInitializers_node (by decide), List.map_singleton,
      hname.withoutLocalInitializers_eq]
  | call span text listSpan listText hname _ ih =>
    rw [withoutLocalInitializers_node (by decide), List.map_cons, List.map_singleton,
      hname.withoutLocalInitializers_eq, withoutLocalInitializers_node (by decide),
      List.map_congr_left ih, List.map_id']
  | group span text _ ih =>
    rw [withoutLocalInitializers_node (by decide), List.map_singleton, ih]
  | binary span text l _ hoperator _ ihleft ihright =>
    rw [withoutLocalInitializers_node (by decide), List.map_cons, List.map_cons,
      List.map_singleton, ihleft, hoperator.withoutLocalInitializers_eq, ihright]

/-- A local variable keeps its type and its name. -/
theorem IsVariable.itemWithoutInitializer_eq {t : SyntaxTree} (h : IsVariable t) :
    ∃ span text type name, IsType type ∧ IsName name
      ∧ t.itemWithoutInitializer = ⟨.varDecl, span, text, [type, name]⟩ := by
  rw [itemWithoutInitializer, if_pos h.kind_eq]
  cases h with
  | @plain span text type name htype hname =>
    refine ⟨span, text, type, name, htype, hname, ?_⟩
    rw [withoutLocalInitializers_node (by decide), List.map_cons, List.map_singleton,
      htype.withoutLocalInitializers_eq, hname.withoutLocalInitializers_eq]
    simp [withoutExpressions, htype.kind_eq, hname.kind_eq, NodeKind.isExpression]
  | @initialized span text type name value htype hname hvalue =>
    refine ⟨span, text, type, name, htype, hname, ?_⟩
    rw [withoutLocalInitializers_node (by decide), List.map_cons, List.map_cons,
      List.map_singleton, htype.withoutLocalInitializers_eq, hname.withoutLocalInitializers_eq,
      hvalue.withoutLocalInitializers_eq]
    -- The value is the only child that is an expression.
    have hkinds : type.kind.isExpression = false ∧ name.kind.isExpression = false := by
      rw [htype.kind_eq, hname.kind_eq]
      exact ⟨rfl, rfl⟩
    simp [withoutExpressions, hkinds, hvalue.isExpression_kind]

end SyntaxTree

/-- **The tree as a policy sees it.** -/
def LocalInitializers.view : LocalInitializers → SyntaxTree → SyntaxTree
  | .keep, t => t
  | .discard, t => t.withoutLocalInitializers

namespace SyntaxTree

/-! ## What a node says of itself -/

/-- Kind, place and text of a node. -/
def label (t : SyntaxTree) : NodeKind × Span × String := (t.kind, t.span, t.text)

theorem map_label_preorder_mk (kind : NodeKind) (span : Span) (text : String)
    (cs : List SyntaxTree) :
    (preorder ⟨kind, span, text, cs⟩).map label
      = (kind, span, text) :: cs.flatMap fun c => c.preorder.map label := by
  rw [preorder, List.map_cons, preorderAll_eq_flatMap, List.map_flatMap]
  rfl

theorem sublist_withoutExpressions (t : SyntaxTree) :
    (t.withoutExpressions.preorder.map label).Sublist (t.preorder.map label) := by
  obtain ⟨kind, span, text, cs⟩ := t
  rw [withoutExpressions, map_label_preorder_mk, map_label_preorder_mk]
  exact (List.filter_sublist.flatMap _).cons_cons _

mutual
/-- **Cutting initializers only removes nodes**; those that stay say the same. -/
theorem sublist_withoutLocalInitializers (t : SyntaxTree) :
    (t.withoutLocalInitializers.preorder.map label).Sublist (t.preorder.map label) := by
  match t with
  | ⟨kind, span, text, cs⟩ =>
    rw [withoutLocalInitializers, map_label_preorder_mk, map_label_preorder_mk]
    exact (sublist_withoutLocalInitializersAll _ cs).cons_cons _

theorem sublist_withoutLocalInitializersAll (inBlock : Bool) (ts : List SyntaxTree) :
    ((withoutLocalInitializersAll inBlock ts).flatMap fun t => t.preorder.map label).Sublist
      (ts.flatMap fun t => t.preorder.map label) := by
  match ts with
  | [] =>
    rw [withoutLocalInitializersAll]
  | t :: ts =>
    rw [withoutLocalInitializersAll, List.flatMap_cons, List.flatMap_cons]
    refine List.Sublist.append ?_ (sublist_withoutLocalInitializersAll inBlock ts)
    split
    · exact (sublist_withoutExpressions _).trans (sublist_withoutLocalInitializers t)
    · exact sublist_withoutLocalInitializers t
end

theorem sublist_view (policy : LocalInitializers) (t : SyntaxTree) :
    ((policy.view t).preorder.map label).Sublist (t.preorder.map label) := by
  cases policy with
  | keep => exact List.Sublist.refl _
  | discard => exact sublist_withoutLocalInitializers t

/-- What a policy sees of the leaves is some of them. -/
theorem sublist_checkedLeaves_view (policy : LocalInitializers) (t : SyntaxTree) :
    ((policy.view t).checkedLeaves.map label).Sublist (t.checkedLeaves.map label) := by
  -- Whether a node counts is read off its label, so the labels can be filtered instead.
  have hfilter : ∀ ns : List SyntaxTree, (ns.filter isChecked).map label
      = (ns.map label).filter fun l => l.1 = .operator || l.1 = .intLiteral := by
    intro ns
    rw [List.filter_map]
    rfl
  rw [checkedLeaves, checkedLeaves, hfilter, hfilter]
  exact (sublist_view policy t).filter _

/-! ## Leaves that come from a source -/

mutual
/-- **A node has the text under its span.** -/
theorem text_of_mem_preorder {source : List Char} {n : SyntaxTree} (s : TreeShape)
    (h : n ∈ (ofShape source s).preorder) : n.text = String.ofList (slice source n.span) := by
  match s with
  | ⟨kind, span, children⟩ =>
    rw [ofShape, preorder] at h
    rcases List.mem_cons.mp h with rfl | h
    · rfl
    · exact text_of_mem_preorderAll children h

theorem text_of_mem_preorderAll {source : List Char} {n : SyntaxTree} (ss : List TreeShape)
    (h : n ∈ preorderAll (ofShapes source ss)) :
    n.text = String.ofList (slice source n.span) := by
  match ss with
  | [] => simp [ofShapes, preorderAll] at h
  | s :: ss =>
    rw [ofShapes, preorderAll] at h
    rcases List.mem_append.mp h with h | h
    · exact text_of_mem_preorder s h
    · exact text_of_mem_preorderAll ss h
end

end SyntaxTree

namespace Ebnf

open SyntaxTree

/-- The spans of the checked leaves of several trees. -/
def leafSpans (source : List Char) (parts : List TreeShape) : List Span :=
  (parts.flatMap fun s => (ofShape source s).checkedLeaves).map SyntaxTree.span

theorem leafSpans_append (source : List Char) (parts others : List TreeShape) :
    leafSpans source (parts ++ others) = leafSpans source parts ++ leafSpans source others := by
  rw [leafSpans, List.flatMap_append, List.map_append]
  rfl

theorem leafSpans_node {source : List Char} {kind : NodeKind}
    (hkind : kind ∉ [.operator, .intLiteral]) (span : Span) (parts : List TreeShape) :
    leafSpans source [⟨kind, span, parts⟩] = leafSpans source parts := by
  rw [leafSpans, List.flatMap_singleton, ofShape, checkedLeaves_node hkind, ofShapes_eq_map,
    List.flatMap_map]
  rfl

/-- Nesting operations to the left leaves the order of their leaves. -/
theorem sublist_leafSpans_nestLeft (source : List Char) (left : TreeShape)
    (parts : List TreeShape) :
    (leafSpans source [nestLeft left parts]).Sublist (leafSpans source (left :: parts)) := by
  fun_induction nestLeft left parts with
  | case1 left operator right more ih =>
    refine ih.trans ?_
    rw [← List.singleton_append, leafSpans_append, TreeShape.binary, TreeShape.spanning,
      leafSpans_node (by decide), ← leafSpans_append]
    exact List.Sublist.refl _
  | case2 parts left _ =>
    show (leafSpans source [left]).Sublist (leafSpans source ([left] ++ parts))
    rw [leafSpans_append]
    exact List.sublist_append_left _ _

/-- **The leaves of a derivation stand where its tokens do**, in the same
order. -/
theorem Derives.sublist_leafSpans {source : List Char} {size : Nat} {f : Form}
    {ts : List Lexeme} {parts : List TreeShape} (h : Derives size f ts parts) :
    (leafSpans source parts).Sublist (ts.map Lexeme.span) := by
  induction h with
  | nothing => exact .slnil
  | token t span => exact .cons _ .slnil
  | leaf kind span ht =>
    rw [leafSpans, List.flatMap_singleton, ofShape, ofShapes, checkedLeaves_mk,
      List.flatMap_nil, List.append_nil]
    exact List.filter_sublist.map _
  | rule n _ ih =>
    refine List.Sublist.trans ?_ ih
    unfold Nonterminal.assemble
    split
    · rename_i kind hkind
      -- No nonterminal makes a node of the kind of a leaf.
      have hinner : kind ∉ [NodeKind.operator, .intLiteral] := by
        simp only [List.mem_cons, List.not_mem_nil, or_false, not_or]
        constructor <;> rintro rfl <;> cases n <;> simp [Nonterminal.nodeKind?] at hkind
      rw [leafSpans_node hinner]
    · split
      · exact sublist_leafSpans_nestLeft source _ _
      · exact List.Sublist.refl _
  | sequence _ _ ihf ihg =>
    rw [leafSpans_append, List.map_append]
    exact ihf.append ihg
  | left g _ ih => exact ih
  | right f _ ih => exact ih
  | done f => exact .slnil
  | again _ _ ihf ihfs =>
    rw [leafSpans_append, List.map_append]
    exact ihf.append ihfs

end Ebnf

/-- **The leaves are cut from the source**: each has the text under its span,
and they stand one after another. -/
def CutFrom (source : String) (leaves : List SyntaxTree) : Prop :=
  (∀ l ∈ leaves, l.text = String.ofList (slice source.toList l.span))
    ∧ (leaves.map SyntaxTree.span).Pairwise Span.Before

namespace SyntaxTree

/-- A source makes trees of what it is to be read as. -/
theorem isTree_of_parse {start : StartSymbol} {source : String} {tree : SyntaxTree}
    (h : SyntaxTree.parse start source = .ok tree) : start.nonterminal.IsTree tree := by
  obtain ⟨ts, shape, hts, hder, rfl⟩ := parse_eq_ok.mp h
  obtain ⟨s, hs, htree⟩ := hder.leaves (spells_of_tokenize hts)
  rwa [List.singleton_inj.mp hs]

/-- **The leaves that a policy sees in a derived tree stand where tokens do.** -/
theorem sublist_spans_view {source : List Char} {size : Nat} {n : Nonterminal} {ts : List Lexeme}
    {shape : TreeShape} (policy : LocalInitializers) (h : Derives size (.rule n) ts [shape]) :
    ((policy.view (ofShape source shape)).checkedLeaves.map span).Sublist
      (ts.map Lexeme.span) := by
  have hmap := (sublist_checkedLeaves_view policy (ofShape source shape)).map fun l => l.2.1
  rw [List.map_map, List.map_map] at hmap
  have hspans : ((policy.view (ofShape source shape)).checkedLeaves.map span).Sublist
      (leafSpans source [shape]) := by
    rw [leafSpans, List.flatMap_singleton]
    exact hmap
  exact hspans.trans h.sublist_leafSpans

/-- **The leaves that a policy sees in the tree of a source are cut from it.** -/
theorem cutFrom_of_parse {start : StartSymbol} {source : String} {tree : SyntaxTree}
    (policy : LocalInitializers) (h : SyntaxTree.parse start source = .ok tree) :
    CutFrom source (policy.view tree).checkedLeaves := by
  obtain ⟨ts, shape, hts, hder, rfl⟩ := parse_eq_ok.mp h
  have hsub := sublist_checkedLeaves_view policy (ofShape source.toList shape)
  constructor
  · intro l hl
    obtain ⟨l', hl', heq⟩ := List.mem_map.mp (hsub.subset (List.mem_map_of_mem hl))
    obtain ⟨-, hspan, htext⟩ : l'.kind = l.kind ∧ l'.span = l.span ∧ l'.text = l.text := by
      simpa [label] using heq
    rw [← hspan, ← htext]
    exact text_of_mem_preorder shape (List.mem_of_mem_filter hl')
  · exact (pairwise_of_tokenize hts).sublist (sublist_spans_view policy hder)

end SyntaxTree

end ImpFront
