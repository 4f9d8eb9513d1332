import ImpFront.Proofs.Grammar.Nodes

/-!
# A tree of a source is faithful to it

What can be read off the tree of a source is what stands in the source. Every
node stands for tokens that stand next to each other: it starts where the first
of them does, stops where the last of them does, and its text is all of the
source in between, blanks and comments included (`SyntaxTree.FaithfulTo`). Its
children lie inside it, in order. The leaves that stand for tokens are the
tokens of the source, in order, but for those that leave no node.

A program without tokens is the one tree to which its rule alone gives no place;
it stands at the end of the source, and its text is empty.
-/

namespace ImpFront

open Ebnf SyntaxTree

mutual
/-- The nodes of a tree are made of the nodes of its shape. -/
theorem SyntaxTree.exists_has_of_mem_preorder {source : List Char} {n : SyntaxTree}
    (s : TreeShape) (h : n ∈ (ofShape source s).preorder) :
    ∃ m, s.Has m ∧ n = ofShape source m := by
  match s with
  | ⟨kind, span, children⟩ =>
    rw [ofShape, preorder] at h
    rcases List.mem_cons.mp h with rfl | h
    · exact ⟨_, .self _, by rw [ofShape]⟩
    · obtain ⟨c, hc, m, hm, rfl⟩ := exists_has_of_mem_preorderAll children h
      exact ⟨m, .child hc hm, rfl⟩

theorem SyntaxTree.exists_has_of_mem_preorderAll {source : List Char} {n : SyntaxTree}
    (ss : List TreeShape) (h : n ∈ preorderAll (ofShapes source ss)) :
    ∃ s ∈ ss, ∃ m, s.Has m ∧ n = ofShape source m := by
  match ss with
  | [] => simp [ofShapes, preorderAll] at h
  | s :: ss =>
    rw [ofShapes, preorderAll] at h
    rcases List.mem_append.mp h with h | h
    · exact ⟨s, List.mem_cons_self, exists_has_of_mem_preorder s h⟩
    · obtain ⟨c, hc, hm⟩ := exists_has_of_mem_preorderAll ss h
      exact ⟨c, List.mem_cons_of_mem _ hc, hm⟩
end

/-- **A node is faithful to the source and its tokens.** -/
structure SyntaxTree.FaithfulTo (source : String) (ts : List Lexeme) (n : SyntaxTree) : Prop where
  /-- A token or a nonterminal of the node's kind has matched some tokens that
  stand next to each other, and the node reaches from the start of the first to
  the stop of the last. Only a program may have matched none. -/
  matched : ∃ us f shape, us <:+: ts ∧ (us = [] → ts = [] ∧ n.kind = .program)
    ∧ f.Makes n.kind ∧ Derives (byteLength source.toList) f us [shape]
    ∧ n = ofShape source.toList shape ∧ n.span = extent (byteLength source.toList) us
  /-- The span begins and ends between characters of the source, and the text is
  all that is between. -/
  cuts : n.span.Cuts source.toList n.text.toList
  /-- The children lie inside the node. -/
  inside : ∀ c ∈ n.children, n.span.start ≤ c.span.start ∧ c.span.stop ≤ n.span.stop
  /-- The children stand one after another. -/
  ordered : (n.children.map span).Pairwise Span.Before
  /-- A node without text is a program without tokens, and stands at the end of
  the source. -/
  empty_iff : n.text = "" ↔ ts = [] ∧ n.kind = .program

/-- **A derived node is faithful.** -/
theorem Ebnf.NodeOf.faithfulTo {source : String} {ts : List Lexeme} {n : TreeShape}
    (hts : StandIn source.toList ts) (h : NodeOf (byteLength source.toList) ts n) :
    (SyntaxTree.ofShape source.toList n).FaithfulTo source ts := by
  obtain ⟨us, f, hus, hf, hder, hcov⟩ := h.matched
  have hsub := hts.sublist hus.sublist
  -- The first token and the last one cut, and so does what they enclose.
  obtain ⟨⟨a, ha, hstart⟩, ⟨b, hb, hstop⟩, hroom⟩ := within_of_covers hsub hcov
  obtain ⟨_, -, hcutsFirst⟩ := hsub.cuts a ha
  obtain ⟨_, -, hcutsLast⟩ := hsub.cuts b hb
  obtain ⟨text, hcuts⟩ := hcutsFirst.join hcutsLast (by omega)
  have hspan : a.span.join b.span = n.span := by rw [Span.join, ← hstart, ← hstop]
  rw [hspan] at hcuts
  have hne : text ≠ [] := by
    rintro rfl
    obtain ⟨before, after, -, hspan⟩ := hcuts
    rw [hspan] at hroom
    simp at hroom
  have hus_ne : ts ≠ [] := by
    rintro rfl
    exact hcov.ne_nil (List.infix_nil.mp hus)
  constructor
  case matched =>
    refine ⟨us, f, n, hus, fun hnil => absurd hnil hcov.ne_nil, ?_, hder, rfl, ?_⟩
    · rwa [SyntaxTree.kind_ofShape]
    · rw [SyntaxTree.span_ofShape, extent_eq_of_covers _ hcov]
  case cuts =>
    rw [SyntaxTree.span_ofShape, SyntaxTree.text_ofShape, String.toList_ofList, hcuts.slice_eq]
    exact hcuts
  case inside => simpa using h.inside
  case ordered => simpa [Function.comp_def] using h.ordered
  case empty_iff =>
    rw [SyntaxTree.text_ofShape, hcuts.slice_eq]
    refine ⟨fun hempty => absurd ?_ hne, fun hnil => absurd hnil.1 hus_ne⟩
    simpa using hempty

/-- The nodes of what a start symbol derives, and the leaves among them. -/
theorem StartSymbol.nodeOf_of_derives {start : StartSymbol} {source : List Char} {size : Nat}
    {ts : List Lexeme} {shape : TreeShape} (hts : StandIn source ts)
    (h : Derives size (.rule start.nonterminal) ts [shape]) :
    (∀ n, shape.Has n → NodeOf size ts n ∨ ts = [] ∧ n = ⟨.program, .emptyAt size, []⟩)
      ∧ leavesOf source [shape] = ts.filterMap (Lexeme.leaf? source) := by
  cases start with
  | statement =>
    exact ⟨fun n hn => .inl (h.nodeOf rfl hts _ (List.mem_singleton_self _) n hn),
      h.leavesOf_eq rfl hts⟩
  | expression =>
    exact ⟨fun n hn => .inl (h.nodeOf rfl hts _ (List.mem_singleton_self _) n hn),
      h.leavesOf_eq rfl hts⟩
  | program =>
    obtain ⟨children, hchildren, hshape⟩ := derives_node rfl h
    obtain rfl := List.singleton_inj.mp hshape
    have hproper := proper_production .program
    refine ⟨fun n hn => ?_, ?_⟩
    · have hplaced := hchildren.placed hproper hts
      cases hn with
      | child hc hn => exact .inl (hchildren.nodeOf hproper hts _ hc n hn)
      | self =>
        by_cases hnil : ts = []
        · subst hnil
          -- No declaration stands among no tokens.
          have hnone : children = [] := by
            refine List.eq_nil_iff_forall_not_mem.mpr fun c hc => ?_
            obtain ⟨⟨a, ha, -⟩, -, -⟩ := hplaced.within c hc
            exact List.not_mem_nil ha
          exact .inr ⟨rfl, by rw [hnone]; rfl⟩
        · exact .inl (nodeOf_of_placed hts (.rule rfl) h (covers_extent size hnil) hplaced)
    · rw [leavesOf_node source rfl]
      exact hchildren.leavesOf_eq hproper hts

/-- A program without tokens is faithful to a source without tokens. -/
theorem SyntaxTree.faithfulTo_empty (source : String) :
    (ofShape source.toList ⟨.program, .emptyAt (byteLength source.toList), []⟩).FaithfulTo
      source [] := by
  have hcuts : (Span.emptyAt (byteLength source.toList)).Cuts source.toList [] :=
    ⟨source.toList, [], by simp, rfl⟩
  have hnode : ofShape source.toList ⟨.program, .emptyAt (byteLength source.toList), []⟩
      = leaf .program (.emptyAt (byteLength source.toList)) "" := by
    rw [ofShape, hcuts.slice_eq]
    rfl
  constructor
  case matched =>
    exact ⟨[], .rule .program, _, List.infix_rfl, fun _ => ⟨rfl, kind_ofShape _ _⟩, .rule rfl,
      .rule .program (.done _), rfl, span_ofShape _ _⟩
  case cuts =>
    rw [hnode]
    exact hcuts
  case inside => simp
  case ordered => simp
  case empty_iff =>
    rw [hnode]
    exact ⟨fun _ => ⟨rfl, rfl⟩, fun _ => rfl⟩

/-- **The tree of a source is faithful to it**: each of its nodes is, and its
leaves are the tokens that leave one, none lost and none twice. -/
theorem SyntaxTree.faithful_of_parse (start : StartSymbol) (source : String) (tree : SyntaxTree)
    (h : SyntaxTree.parse start source = .ok tree) :
    ∃ ts, tokenize source = .ok ts ∧ (∀ n ∈ tree.preorder, n.FaithfulTo source ts)
      ∧ tree.tokenLeaves = ts.filterMap (Lexeme.leaf? source.toList) := by
  obtain ⟨ts, shape, htok, hder, rfl⟩ := parse_eq_ok.mp h
  have hts := standIn_of_tokenize htok
  obtain ⟨hnodes, hleaves⟩ := StartSymbol.nodeOf_of_derives hts hder
  refine ⟨ts, htok, fun n hn => ?_, ?_⟩
  · obtain ⟨m, hm, rfl⟩ := exists_has_of_mem_preorder shape hn
    rcases hnodes m hm with hnode | ⟨rfl, rfl⟩
    · exact hnode.faithfulTo hts
    · exact faithfulTo_empty source
  · rwa [leavesOf, List.flatMap_singleton] at hleaves

/-- A returned difference, with a comment in it. -/
theorem SyntaxTree.faithful_of_parse_return :
    SyntaxTree.parse .statement "return a -/* one */1;" = .ok
        ⟨.returnStmt, ⟨0, 21⟩, "return a -/* one */1;",
          [⟨.binaryExpr, ⟨7, 20⟩, "a -/* one */1",
            [⟨.locationExpr, ⟨7, 8⟩, "a", [leaf .ident ⟨7, 8⟩ "a"]⟩,
              leaf .operator ⟨9, 10⟩ "-", leaf .intLiteral ⟨19, 20⟩ "1"]⟩]⟩
      ∧ ∃ ts, tokenize "return a -/* one */1;" = .ok ts
          ∧ (∀ n ∈ preorder ⟨.returnStmt, ⟨0, 21⟩, "return a -/* one */1;",
                [⟨.binaryExpr, ⟨7, 20⟩, "a -/* one */1",
                  [⟨.locationExpr, ⟨7, 8⟩, "a", [leaf .ident ⟨7, 8⟩ "a"]⟩,
                    leaf .operator ⟨9, 10⟩ "-", leaf .intLiteral ⟨19, 20⟩ "1"]⟩]⟩,
              n.FaithfulTo "return a -/* one */1;" ts)
          ∧ [leaf .ident ⟨7, 8⟩ "a", leaf .operator ⟨9, 10⟩ "-", leaf .intLiteral ⟨19, 20⟩ "1"]
            = ts.filterMap (Lexeme.leaf? "return a -/* one */1;".toList) :=
  ⟨by decide +kernel, faithful_of_parse .statement _ _ (by decide +kernel)⟩

end ImpFront
