import ImpFront.Proofs.FrontEnd.Replacement
import ImpFront.Proofs.Token.Insertion

/-!
# Parentheses around an expression mean nothing

Any expression of a source, however deep in its tree, can be put in parentheses.
The new source is read as what the old one was read as, and it means the same –
or has the same fault, at the place that it has moved to
(`SyntaxTree.parse_parenthesize`).

The tokens are the old ones, moved, and the parentheses (`CutAround.tokenize_eq`).
Among them a group stands where the expression stood. A group is an atom, so the
grammar takes it there (`Derives.replaceable`), and it leaves no trace in the core
of the tree, which is all that the builders look at.
-/

namespace ImpFront

open Ebnf SyntaxTree Relocatable

/-! ## Places -/

/-- **How places move when a span is put in parentheses.** What starts in the span or
behind it moves by the opening parenthesis, what starts behind it by the closing one as
well. A stop moves as the last byte before it does. -/
def Relocation.around (s : Span) : Relocation where
  start o := o + (if s.start ≤ o then 1 else 0) + (if s.stop ≤ o then 1 else 0)
  stop o := o + (if s.start < o then 1 else 0) + (if s.stop < o then 1 else 0)

variable {source : List Char} {s t : Span} {left us right : List Lexeme}

theorem relocate_around_before (hs : s.start ≤ s.stop) (ht : t.start < t.stop)
    (h : t.stop ≤ s.start) : relocate (.around s) t = t := by
  show (⟨_ + _ + _, _ + _ + _⟩ : Span) = ⟨_, _⟩
  rw [if_neg (by omega), if_neg (by omega), if_neg (by omega), if_neg (by omega)]
  rfl

theorem relocate_around_inside (ht : t.start < t.stop) (hstart : s.start ≤ t.start)
    (hstop : t.stop ≤ s.stop) : relocate (.around s) t = t.shift 1 := by
  show (⟨_ + _ + _, _ + _ + _⟩ : Span) = ⟨_, _⟩
  rw [if_pos (by omega), if_neg (by omega), if_pos (by omega), if_neg (by omega)]

theorem relocate_around_behind (hs : s.start ≤ s.stop) (ht : t.start < t.stop)
    (h : s.stop ≤ t.start) : relocate (.around s) t = t.shift 2 := by
  show (⟨_ + _ + _, _ + _ + _⟩ : Span) = ⟨_, _⟩
  rw [if_pos (by omega), if_pos (by omega), if_pos (by omega), if_pos (by omega)]

/-- **The tokens around a span and in it** are not moved, by one parenthesis, and by
both. -/
theorem relocate_around (hts : StandIn source (left ++ us ++ right)) (hs : Covers us s) :
    (∀ l ∈ left, relocate (.around s) l.span = l.span)
      ∧ (∀ l ∈ us, relocate (.around s) l.span = l.span.shift 1)
      ∧ ∀ l ∈ right, relocate (.around s) l.span = l.span.shift 2 := by
  obtain ⟨u, hu, hstart⟩ := Option.map_eq_some_iff.mp hs.1
  obtain ⟨v, hv, hstop⟩ := Option.map_eq_some_iff.mp hs.2
  have hmem := List.mem_of_mem_head? hu
  have hmem' := List.mem_of_getLast? hv
  have hle := stop_le_of_stopsAt hts.left.right hs.2 hmem
  have hroom := hts.left.right.start_lt_stop hmem
  refine ⟨fun l hl => ?_, fun l hl => ?_, fun l hl => ?_⟩
  · have hbefore : l.span.stop ≤ u.span.start := hts.left.before hl hmem
    exact relocate_around_before (by omega) (hts.left.left.start_lt_stop hl) (by omega)
  · exact relocate_around_inside (hts.left.right.start_lt_stop hl)
      (le_start_of_startsAt hts.left.right hs.1 hl) (stop_le_of_stopsAt hts.left.right hs.2 hl)
  · have hbehind : v.span.stop ≤ l.span.start := hts.before (List.mem_append_right _ hmem') hl
    exact relocate_around_behind (by omega) (hts.right.start_lt_stop hl) (by omega)

/-- Tokens are moved as their spans are. -/
theorem relocate_congr {m m' : Relocation} {ts : List Lexeme}
    (h : ∀ l ∈ ts, relocate m l.span = relocate m' l.span) : relocate m ts = relocate m' ts := by
  refine List.map_congr_left fun l hl => ?_
  show (⟨_, relocate m l.span⟩ : Lexeme) = ⟨_, relocate m' l.span⟩
  rw [h l hl]

/-- **The tokens of the source with parentheses**: the old ones, moved and with their texts,
and a group where the span is. -/
theorem tokenize_parenthesize {source : String}
    (hok : tokenize source = .ok (left ++ us ++ right)) (hs : Covers us s) :
    tokenize (parenthesize source s) = .ok (relocate (.around s) left
        ++ ⟨.symbol .openParen, ⟨s.start, s.start + 1⟩⟩ :: (relocate (.around s) us
          ++ [⟨.symbol .closeParen, ⟨s.stop + 1, s.stop + 2⟩⟩])
        ++ relocate (.around s) right)
      ∧ ∀ l ∈ left ++ us ++ right,
        l.SameText source.toList (parenthesize source s).toList (.around s) := by
  obtain ⟨as, bs, cs, hcut⟩ := exists_cutAround hok hs
  obtain ⟨hleft, hmiddle, hright⟩ := relocate_around (standIn_of_tokenize hok) hs
  obtain ⟨hleftText, hmiddleText, hrightText⟩ := hcut.slice_eq
  constructor
  · have hstay : relocate (.around s) left = relocate .stay left := relocate_congr hleft
    have hone : relocate (.around s) us = relocate (.shift 1) us := relocate_congr hmiddle
    have htwo : relocate (.around s) right = relocate (.shift 2) right := relocate_congr hright
    have hsame : relocate .stay left = left := List.map_id left
    rw [hcut.tokenize_eq hok, hstay, hsame, hone, htwo]
    simp
  · intro l hl
    unfold Lexeme.SameText
    rcases List.mem_append.mp hl with hl | hl
    · rcases List.mem_append.mp hl with hl | hl
      · rw [hleft l hl, hleftText l hl]
      · rw [hmiddle l hl, hmiddleText l hl]
    · rw [hright l hl, hrightText l hl]

/-! ## The group in the place of the expression -/

/-- An expression in what a start symbol derives can be replaced by an atom. -/
theorem replaceable_start {source' : List Char} {m : Relocation} {size size' : Nat}
    {start : StartSymbol} {ts : List Lexeme} {shape n : TreeShape}
    (h : Derives size (.rule start.nonterminal) ts [shape]) (hts : StandIn source ts)
    (hsame : ∀ l ∈ ts, l.SameText source source' m) (hn : shape.Has n)
    (hexpr : n.kind.isExpression = true) :
    Replaceable source source' m size size' (.rule start.nonterminal) ts [shape] n := by
  cases start with
  | program =>
    obtain ⟨children, hchildren, hshape⟩ := derives_node rfl h
    obtain rfl := List.singleton_inj.mp hshape
    cases hn with
    | self => cases hexpr
    | child hc hn =>
      exact (hchildren.replaceable (proper_production .program) hts hsame hc hn hexpr
        (.inl rfl)).node rfl _
  | statement => exact h.replaceable rfl hts hsame List.mem_cons_self hn hexpr (.inl rfl)
  | expression => exact h.replaceable rfl hts hsame List.mem_cons_self hn hexpr (.inl rfl)

/-- **The second tree means what the first means**, as what it is read as and with every
policy; an error has moved. -/
def StartSymbol.SameMeaning (m : Relocation) (t t' : SyntaxTree) : StartSymbol → Prop
  | .program => ∀ policy,
    Program.ofTree policy t' = (Program.ofTree policy t).mapError (relocate m)
  | .statement => ∀ policy,
    Statement.ofTree policy t' = (Statement.ofTree policy t).mapError (relocate m)
  | .expression => Expression.ofTree t' = (Expression.ofTree t).mapError (relocate m)

/-- Trees with one core mean the same. -/
theorem StartSymbol.sameMeaning_of_core {start : StartSymbol} {m : Relocation}
    {t t' : SyntaxTree} (ht : start.nonterminal.IsTree t) (ht' : start.nonterminal.IsTree t')
    (hcore : t'.core .stay = t.core m) : start.SameMeaning m t t' := by
  cases start with
  | program => exact fun policy => (Program.respectsCore policy).build_eq ht ht' hcore
  | statement => exact fun policy => (Statement.respectsCore policy).build_eq ht ht' hcore
  | expression => exact Expression.respectsCore.build_eq ht ht' hcore

/-- **Parentheses around an expression mean nothing.** Around any expression in the tree of
a source they can be added, and the tree of the new source means what the old one means – or
has the same fault, at the place that has moved. -/
theorem SyntaxTree.parse_parenthesize {start : StartSymbol} {source : String}
    {tree n : SyntaxTree} (h : SyntaxTree.parse start source = .ok tree) (hn : n ∈ tree.preorder)
    (hexpr : n.kind.isExpression = true) :
    ∃ tree', SyntaxTree.parse start (parenthesize source n.span) = .ok tree'
      ∧ start.SameMeaning (.around n.span) tree tree' := by
  obtain ⟨ts, shape, hok, hder, rfl⟩ := parse_eq_ok.mp h
  obtain ⟨n, hhas, rfl⟩ := exists_has_of_mem_preorder shape hn
  rw [kind_ofShape] at hexpr
  rw [span_ofShape]
  have hts := standIn_of_tokenize hok
  -- The tokens of the node tell what becomes of all tokens.
  have hsame : ∀ l ∈ ts,
      l.SameText source.toList (parenthesize source n.span).toList (.around n.span) := by
    rcases (StartSymbol.nodeOf_of_derives hts hder).1 n hhas with hnode | ⟨-, rfl⟩
    · obtain ⟨us, -, ⟨left, right, rfl⟩, -, -, hcov⟩ := hnode.matched
      exact (tokenize_parenthesize hok hcov).2
    · cases hexpr
  obtain ⟨left, us, right, rfl, hinner, hput⟩ : Replaceable source.toList
      (parenthesize source n.span).toList (.around n.span) _
      (byteLength (parenthesize source n.span).toList) _ ts [shape] n :=
    replaceable_start hder hts hsame hhas hexpr
  have hus := hts.left.right
  have hcov : Covers us n.span := tight_of_ne_program (n := .expr) nofun hus hinner
  have hgroup := atom_of_group ⟨n.span.start, n.span.start + 1⟩ ⟨n.span.stop + 1, n.span.stop + 2⟩
    (hinner.relocate (.around n.span) (byteLength (parenthesize source n.span).toList) rfl)
  obtain ⟨parts, hparts, hcores⟩ := hput _ _ hgroup (by
    rw [ofShape, ofShapes, ofShapes, core_group]
    exact core_relocate_of_derives hinner rfl hus (fun l hl => hsame l (by simp [hl])) n
      List.mem_cons_self)
  obtain ⟨shape', rfl, -⟩ := reads_start_of_derives hparts
  have hparse := parse_eq_ok.mpr ⟨_, shape', (tokenize_parenthesize hok hcov).1, hparts, rfl⟩
  exact ⟨_, hparse, StartSymbol.sameMeaning_of_core (isTree_of_parse h) (isTree_of_parse hparse)
    (List.singleton_inj.mp hcores)⟩

/-- The left operand of a difference, in parentheses. -/
theorem SyntaxTree.parse_parenthesize_operand :
    ∃ tree n, SyntaxTree.parse .expression "a-b-c" = .ok tree ∧ n ∈ tree.preorder
      ∧ n.kind.isExpression = true ∧ n.span = ⟨0, 3⟩
      ∧ ∃ tree', SyntaxTree.parse .expression "(a-b)-c" = .ok tree'
        ∧ Expression.ofTree tree' = (Expression.ofTree tree).mapError (relocate (.around ⟨0, 3⟩)) := by
  let n : SyntaxTree := ⟨.binaryExpr, ⟨0, 3⟩, "a-b",
    [⟨.locationExpr, ⟨0, 1⟩, "a", [leaf .ident ⟨0, 1⟩ "a"]⟩, leaf .operator ⟨1, 2⟩ "-",
      ⟨.locationExpr, ⟨2, 3⟩, "b", [leaf .ident ⟨2, 3⟩ "b"]⟩]⟩
  let tree : SyntaxTree := ⟨.binaryExpr, ⟨0, 5⟩, "a-b-c",
    [n, leaf .operator ⟨3, 4⟩ "-", ⟨.locationExpr, ⟨4, 5⟩, "c", [leaf .ident ⟨4, 5⟩ "c"]⟩]⟩
  have hparse : SyntaxTree.parse .expression "a-b-c" = .ok tree := by decide +kernel
  have hn : n ∈ tree.preorder := by decide +kernel
  have htext : parenthesize "a-b-c" n.span = "(a-b)-c" := by decide +kernel
  obtain ⟨tree', hparse', hsame⟩ := SyntaxTree.parse_parenthesize hparse hn rfl
  rw [htext] at hparse'
  exact ⟨tree, n, hparse, hn, rfl, rfl, tree', hparse', hsame⟩

end ImpFront
