import ImpFront.FrontEnd
import ImpFront.Proofs.Grammar.Completeness.Program
import ImpFront.Proofs.Outcome

/-!
# The reader accepts exactly the grammar

Soundness and completeness meet here, at the three start symbols. A source that
has been cut into tokens is accepted if and only if the grammar derives all of
them, and the tree that comes out is the one the derivation makes. Since the
reader returns one tree at most, the grammar is unambiguous
(`derives_start_unique`).
-/

namespace ImpFront

open Ebnf Rule

variable {size : Nat} {ts : List Lexeme}

/-- What a start symbol is called in the grammar. -/
def StartSymbol.nonterminal : StartSymbol → Nonterminal
  | .program => .program
  | .statement => .statement
  | .expression => .expr

/-- What the rule of a start symbol reads is derivable from its nonterminal. -/
theorem derives_of_reads_start {start : StartSymbol} {rest : List Lexeme} {t : TreeShape}
    (h : (start.rule size).Reads ts t rest) :
    ∃ us, ts = us ++ rest ∧ Derives size (.rule start.nonterminal) us [t] := by
  cases start with
  | program => exact Grammar.derives_of_reads_program h
  | statement => exact (Grammar.statement_yields size).derives h
  | expression => exact (Grammar.expression_yields size).derives h

/-- What is derivable from the nonterminal of a start symbol its rule reads. -/
theorem reads_start_of_derives {start : StartSymbol} {parts : List TreeShape}
    (h : Derives size (.rule start.nonterminal) ts parts) :
    ∃ t, parts = [t] ∧ (start.rule size).Reads ts t [] := by
  cases start with
  | program => exact Grammar.reads_program_of_derives h
  | statement =>
    have hend : nextToken [] ≠ some (.keyword .elseWord) := by simp
    obtain ⟨t, rfl, ht⟩ := Grammar.statement_accepts size _ (Nat.lt_succ_self _) h
      hend
    rw [List.append_nil] at ht
    exact ⟨t, rfl, ht⟩
  | expression =>
    obtain ⟨t, rfl, ht⟩ := Grammar.expression_accepts size _ (Nat.lt_succ_self _) h (ends_nil _)
    rw [List.append_nil] at ht
    exact ⟨t, rfl, ht⟩

/-- A start symbol reads all the tokens just if the grammar derives them. -/
theorem reads_start_iff {start : StartSymbol} {t : TreeShape} :
    (start.rule size).Reads ts t [] ↔ Derives size (.rule start.nonterminal) ts [t] := by
  constructor
  · intro h
    obtain ⟨us, rfl, hus⟩ := derives_of_reads_start h
    rwa [List.append_nil]
  · intro h
    obtain ⟨t', ht', hread⟩ := reads_start_of_derives h
    rwa [List.singleton_inj.mp ht']

/-- **The grammar is unambiguous**: all the tokens make one tree at most. -/
theorem derives_start_unique {start : StartSymbol} {parts parts' : List TreeShape}
    (h : Derives size (.rule start.nonterminal) ts parts)
    (h' : Derives size (.rule start.nonterminal) ts parts') : parts = parts' := by
  obtain ⟨t, rfl, ht⟩ := reads_start_of_derives h
  obtain ⟨t', rfl, ht'⟩ := reads_start_of_derives h'
  rw [(ht.unique ht').1]

/-! ## From tokens to sources -/

/-- A rule that has to use up all tokens reads them and leaves nothing. -/
theorem readAll_eq_ok {α : Type} {p : Rule α} {a : α} :
    p.readAll ts = .ok a ↔ p.Reads ts a [] := by
  -- Reading on to the end is reading with nothing left.
  have hwhole : ∀ rest, (do let a ← p; endOfInput; return a : Rule α).Reads ts a rest
      ↔ p.Reads ts a [] ∧ rest = [] := by
    intro rest
    simp only [reads_bind, reads_endOfInput, reads_pure]
    constructor
    · rintro ⟨_, _, h, -, _, ⟨rfl, rfl⟩, rfl, rfl⟩
      exact ⟨h, rfl⟩
    · rintro ⟨h, rfl⟩
      exact ⟨a, [], h, (), [], ⟨rfl, rfl⟩, rfl, rfl⟩
  unfold readAll
  dsimp only
  cases hrun : (do let a ← p; endOfInput; return a : Rule α) ts with
  | ok b rest s =>
    constructor
    · intro h
      obtain rfl : b = a := by simpa using h
      exact ((hwhole rest).mp ⟨s, hrun⟩).1
    · intro h
      obtain ⟨rfl, -⟩ := Reads.unique ⟨s, hrun⟩ ((hwhole []).mpr ⟨h, rfl⟩)
      rfl
  | fail e =>
    refine ⟨fun h => by simp at h, fun h => ?_⟩
    exact absurd ⟨e, hrun⟩ ((hwhole []).mpr ⟨h, rfl⟩).not_fails

theorem readShape_eq_ok {start : StartSymbol} {shape : TreeShape} :
    start.readShape size ts = .ok shape
      ↔ Derives size (.rule start.nonterminal) ts [shape] := by
  rw [← reads_start_iff, ← readAll_eq_ok, StartSymbol.readShape, mapError_eq_ok]

/-- **The trees of a source**: those the grammar derives from all its tokens. -/
theorem SyntaxTree.parse_eq_ok {start : StartSymbol} {source : String} {tree : SyntaxTree} :
    SyntaxTree.parse start source = .ok tree
      ↔ ∃ ts shape, tokenize source = .ok ts
          ∧ Derives (byteLength source.toList) (.rule start.nonterminal) ts [shape]
          ∧ tree = ofShape source.toList shape := by
  unfold parse
  cases tokenize source with
  | error es => simp
  | ok ts =>
    constructor
    · intro h
      cases hshape : start.readShape (byteLength source.toList) ts with
      | error e => simp [hshape] at h
      | ok shape =>
        simp only [hshape, Except.ok.injEq] at h
        exact ⟨ts, shape, rfl, readShape_eq_ok.mp hshape, h.symm⟩
    · rintro ⟨ts', shape, hts, hder, rfl⟩
      obtain rfl : ts = ts' := by simpa using hts
      simp only [readShape_eq_ok.mpr hder]

/-- **The value of a source** is the meaning of its tree. -/
theorem readSource_eq_ok {α : Type} {start : StartSymbol}
    {build : SyntaxTree → Except BuildError α} {source : String} {a : α} :
    readSource start build source = .ok a
      ↔ ∃ tree, SyntaxTree.parse start source = .ok tree ∧ build tree = .ok a := by
  unfold readSource
  simp only [bind_eq_ok_iff, mapError_eq_ok]

/-- **The syntax errors of a source** are those of reading it as a tree. -/
theorem readSource_eq_syntactic {α : Type} {start : StartSymbol}
    {build : SyntaxTree → Except BuildError α} {source : String} {errors : List SyntaxError} :
    readSource start build source = .error (.syntactic errors)
      ↔ SyntaxTree.parse start source = .error errors := by
  unfold readSource
  cases SyntaxTree.parse start source with
  | error es => simp [Except.mapError, bind, Except.bind]
  | ok tree =>
    show (build tree).mapError FrontEndError.building = .error (.syntactic errors) ↔ _
    cases hbuild : build tree with
    | error e => simp [Except.mapError]
    | ok a => simp [Except.mapError]

/-- **The fault of a source** that has a tree is that of the tree. -/
theorem readSource_eq_building {α : Type} {start : StartSymbol}
    {build : SyntaxTree → Except BuildError α} {source : String} {e : BuildError} :
    readSource start build source = .error (.building e)
      ↔ ∃ tree, SyntaxTree.parse start source = .ok tree ∧ build tree = .error e := by
  unfold readSource
  cases SyntaxTree.parse start source with
  | error es =>
    constructor
    · rintro ⟨⟩
    · rintro ⟨tree, ⟨⟩, -⟩
  | ok tree =>
    show (build tree).mapError FrontEndError.building = .error (.building e) ↔ _
    cases hbuild : build tree with
    | error e' => simp [Except.mapError, hbuild]
    | ok a => simp [Except.mapError, hbuild]

/-- **A source that can be cut into tokens is accepted if and only if the grammar
derives all of them**, whatever it is to be read as; and the tree is that of the
derivation, with the texts cut from the source. -/
theorem SyntaxTree.parse_iff_derives (start : StartSymbol) (source : String)
    (ts : List Lexeme) (h : tokenize source = .ok ts) :
    ((∃ tree, SyntaxTree.parse start source = .ok tree)
        ↔ ∃ parts, Derives (byteLength source.toList) (.rule start.nonterminal) ts parts)
      ∧ ∀ tree, SyntaxTree.parse start source = .ok tree
        ↔ ∃ shape, Derives (byteLength source.toList) (.rule start.nonterminal) ts [shape]
            ∧ tree = ofShape source.toList shape := by
  have htree : ∀ tree, SyntaxTree.parse start source = .ok tree
      ↔ ∃ shape, Derives (byteLength source.toList) (.rule start.nonterminal) ts [shape]
          ∧ tree = ofShape source.toList shape := by
    intro tree
    rw [parse_eq_ok, h]
    constructor
    · rintro ⟨ts', shape, hts, hder, rfl⟩
      obtain rfl : ts = ts' := by simpa using hts
      exact ⟨shape, hder, rfl⟩
    · rintro ⟨shape, hder, rfl⟩
      exact ⟨ts, shape, rfl, hder, rfl⟩
  refine ⟨⟨?_, ?_⟩, htree⟩
  · rintro ⟨tree, hparse⟩
    obtain ⟨shape, hder, -⟩ := (htree tree).mp hparse
    exact ⟨[shape], hder⟩
  · rintro ⟨parts, hder⟩
    obtain ⟨shape, rfl, -⟩ := reads_start_of_derives hder
    exact ⟨_, (htree _).mpr ⟨shape, hder, rfl⟩⟩

/-- Operators of one level group to the left. -/
theorem SyntaxTree.derives_left_nested :
    tokenize "a-b-c" = .ok [⟨.ident, ⟨0, 1⟩⟩, ⟨.symbol .minus, ⟨1, 2⟩⟩, ⟨.ident, ⟨2, 3⟩⟩,
        ⟨.symbol .minus, ⟨3, 4⟩⟩, ⟨.ident, ⟨4, 5⟩⟩]
      ∧ ∃ shape, Derives (byteLength "a-b-c".toList) (.rule .expr)
            [⟨.ident, ⟨0, 1⟩⟩, ⟨.symbol .minus, ⟨1, 2⟩⟩, ⟨.ident, ⟨2, 3⟩⟩,
              ⟨.symbol .minus, ⟨3, 4⟩⟩, ⟨.ident, ⟨4, 5⟩⟩] [shape]
          ∧ ⟨.binaryExpr, ⟨0, 5⟩, "a-b-c",
              [⟨.binaryExpr, ⟨0, 3⟩, "a-b",
                [⟨.locationExpr, ⟨0, 1⟩, "a", [leaf .ident ⟨0, 1⟩ "a"]⟩,
                  leaf .operator ⟨1, 2⟩ "-",
                  ⟨.locationExpr, ⟨2, 3⟩, "b", [leaf .ident ⟨2, 3⟩ "b"]⟩]⟩,
                leaf .operator ⟨3, 4⟩ "-",
                ⟨.locationExpr, ⟨4, 5⟩, "c", [leaf .ident ⟨4, 5⟩ "c"]⟩]⟩
            = ofShape "a-b-c".toList shape :=
  ⟨by decide +kernel,
    ((parse_iff_derives .expression "a-b-c" _ (by decide +kernel)).2 _).mp (by decide +kernel)⟩

end ImpFront
