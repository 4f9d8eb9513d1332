import ImpFront.Proofs.Ast.Names
import ImpFront.Proofs.Build.Offence
import ImpFront.Proofs.Source.Position
import ImpFront.Proofs.SyntaxError.Message
import ImpFront.Proofs.Token.Tiling

/-!
# The report of a refused source

A report has one line for each error. That is so because no message goes over the end of its line,
and messages are in danger of doing so: they quote the source, where a line break is as good as any
other character. But what they quote is an unknown character, and a line break is a blank; or it is
an operator or a literal, and no token has a line break in it.

Errors come from three sides, and of each it has to be said what they quote, that they stand in the
source, and, since there may be several, that they come in order (`Reportable`):

* characters that the lexer does not know, and the comment that it finds open;
* the token that does not fit, or the end of the source;
* the leaf that has no meaning.

Whatever is reportable is then reported line by line (`reports_line_by_line`).
-/

namespace ImpFront

open Lexer SyntaxTree

/-! ## Findings -/

/-- **A finding**: something to be reported about a stretch of the source. -/
structure Finding where
  /-- The stretch of the source. -/
  span : Span
  /-- What is to be said. -/
  text : String

/-- Where the finding starts. -/
def Finding.position (source : String) (f : Finding) : Position :=
  (LineTable.ofText source.toList).position f.span.start

/-- The line of a report about the finding. -/
def Finding.line (source : String) (f : Finding) : String :=
  (f.position source).display ++ ": " ++ f.text

namespace FrontEndError

/-- How many errors there are. -/
def count : FrontEndError → Nat
  | .syntactic errors => errors.length
  | .building _ => 1

/-- **The findings of an error**, one for each line of the report. -/
def findings : FrontEndError → List Finding
  | .syntactic errors => errors.map fun e => ⟨e.span, "syntax error: " ++ e.message⟩
  | .building e => [⟨e.span, e.message⟩]

theorem length_findings (e : FrontEndError) : e.findings.length = e.count := by
  cases e with
  | syntactic errors => exact List.length_map _
  | building e => rfl

/-- **A report is made of the lines of the findings.** -/
theorem render_eq (source : String) (e : FrontEndError) :
    e.render source = "\n".intercalate (e.findings.map (Finding.line source)) := by
  cases e with
  | syntactic errors =>
    unfold render
    dsimp only
    rw [findings, List.map_map]
    congr 1
    refine List.map_congr_left fun e _ => ?_
    have htitle : ": syntax error: " = ": " ++ "syntax error: " := rfl
    rw [Function.comp_apply, Finding.line, htitle, String.append_assoc, String.append_assoc,
      String.append_assoc]
    rfl
  | building e => exact String.intercalate_singleton.symm

end FrontEndError

/-- **What can be reported**: there is something, it stands in the source, in order, and nothing of
it takes more than a line. -/
structure Reportable (source : List Char) (fs : List Finding) : Prop where
  /-- There is something to report. -/
  ne_nil : fs ≠ []
  /-- Findings stand in the source. -/
  inside : ∀ f ∈ fs, f.span.start ≤ f.span.stop ∧ f.span.stop ≤ byteLength source
  /-- Each is said on one line. -/
  oneLine : ∀ f ∈ fs, OneLine f.text
  /-- They come in the order of the source. -/
  ordered : (fs.map fun f => f.span.start).Pairwise (· < ·)

theorem Span.Cuts.inside {source text : List Char} {s : Span} (h : s.Cuts source text) :
    s.start ≤ s.stop ∧ s.stop ≤ byteLength source := by
  obtain ⟨before, after, rfl, rfl⟩ := h
  rw [byteLength_append, byteLength_append]
  dsimp only
  omega

/-- A finding by itself. -/
theorem reportable_singleton {source : List Char} {f : Finding}
    (hinside : f.span.start ≤ f.span.stop ∧ f.span.stop ≤ byteLength source)
    (honeLine : OneLine f.text) : Reportable source [f] :=
  ⟨List.cons_ne_nil _ _, List.forall_mem_singleton.mpr hinside,
    List.forall_mem_singleton.mpr honeLine, List.pairwise_singleton _ _⟩

/-! ## Tokens on one line -/

theorem Keyword.oneLine_spelling (k : Keyword) : OneLine k.spelling :=
  oneLine_of_isWord (isWord_spelling k)

theorem Symbol.oneLine_spelling (s : Symbol) : OneLine s.spelling := by
  cases s <;> simp [OneLine, spelling]

/-- **No token has a line break in it.** -/
theorem Token.Spells.oneLine {t : Token} {text : String} (h : t.Spells text.toList) :
    OneLine text := by
  cases t with
  | keyword k =>
    obtain rfl : text = k.spelling := String.toList_inj.mp h
    exact k.oneLine_spelling
  | symbol s =>
    obtain rfl : text = s.spelling := String.toList_inj.mp h
    exact s.oneLine_spelling
  | intLiteral =>
    intro hmem
    have hdigit := List.all_eq_true.mp h.2 _ hmem
    simp at hdigit
  | ident => exact oneLine_of_isWord h.1

theorem Token.oneLine_describe (t : Token) : OneLine t.describe := by
  cases t with
  | keyword k => exact k.oneLine_spelling
  | symbol s => exact s.oneLine_spelling
  | intLiteral => simp [OneLine, describe]
  | ident => simp [OneLine, describe]

theorem Expectation.oneLine_display (x : Expectation) : OneLine x.display := by
  cases x with
  | token t =>
    rw [display, oneLine_append, oneLine_append]
    exact ⟨⟨by simp [OneLine], t.oneLine_describe⟩, by simp [OneLine]⟩
  | endOfInput => simp [OneLine, display]

/-! ## Messages on one line -/

namespace SyntaxFault

theorem oneLine_unclosedComment : OneLine unclosedComment.message := by
  delta message
  simp [OneLine]

theorem oneLine_unknownInput {text : String} (h : OneLine text) :
    OneLine (unknownInput text).message := by
  delta message
  dsimp only
  rw [oneLine_append, oneLine_append]
  exact ⟨⟨by simp [OneLine], h⟩, by simp [OneLine]⟩

theorem oneLine_unexpected (found : Option Token) (expected : List Expectation) :
    OneLine (unexpected found expected).message := by
  have hsubject :
      OneLine ("unexpected " ++ (found.elim Expectation.endOfInput .token).display) := by
    rw [oneLine_append]
    exact ⟨by simp [OneLine], Expectation.oneLine_display _⟩
  by_cases hne : expected = []
  · subst hne
    exact hsubject
  · have hnames : ∀ s ∈ expected.map Expectation.display, OneLine s := by
      intro s hs
      obtain ⟨x, -, rfl⟩ := List.mem_map.mp hs
      exact x.oneLine_display
    rw [message_unexpected found hne, oneLine_append, oneLine_append]
    exact ⟨⟨hsubject, by simp [OneLine]⟩, oneLine_commas hnames⟩

end SyntaxFault

/-- The title of a syntax error stays on the line. -/
theorem oneLine_titled {message : String} (h : OneLine message) :
    OneLine ("syntax error: " ++ message) := by
  rw [oneLine_append]
  exact ⟨by simp [OneLine], h⟩

/-! ## What the lexer finds -/

section Lexical

variable {source : String} {e : LexError}

theorem span_error? (i : Piece × Span) (e : LexError) (h : error? i = some e) :
    e.span = i.2 := by
  obtain ⟨text, rfl, -⟩ | ⟨text, rfl, -⟩ := exists_of_error?_eq h <;> rfl

/-- The text that an error covers. -/
theorem cuts_of_mem_errors (h : e ∈ (placedPieces source.toList).filterMap error?) :
    ∃ text, text ≠ [] ∧ e.span.Cuts source.toList text := by
  obtain ⟨⟨p, s⟩, hmem, herror⟩ := List.mem_filterMap.mp h
  obtain rfl : e.span = s := span_error? _ e herror
  exact ⟨p.text, (genuine_of_mem_placedPieces hmem).ne_nil, cuts_of_mem_placedPieces hmem⟩

/-- **An unknown character is no line break**, for that would be a blank. -/
theorem oneLine_of_mem_errors (h : e ∈ (placedPieces source.toList).filterMap error?) :
    OneLine (SyntaxError.ofLexError e).message := by
  obtain ⟨i, hmem, herror⟩ := List.mem_filterMap.mp h
  obtain ⟨text, rfl, he⟩ | ⟨text, rfl, he⟩ := exists_of_error?_eq herror
  · cases genuine_of_mem_placedPieces hmem with
    | @unknown c hblank hword hsymbol =>
      rw [he]
      refine SyntaxFault.oneLine_unknownInput ?_
      simp only [OneLine, String.toList_ofList, List.mem_singleton]
      rintro rfl
      simp [isBlank] at hblank
  · rw [he]
    exact SyntaxFault.oneLine_unclosedComment

/-- **What the lexer finds can be reported.** -/
theorem reportable_lexical {errors : List LexError} (h : tokenize source = .error errors) :
    Reportable source.toList
      (FrontEndError.syntactic (errors.map SyntaxError.ofLexError)).findings := by
  obtain ⟨hne, rfl⟩ := tokenize_eq_error_iff.mp h
  rw [FrontEndError.findings, List.map_map]
  constructor
  case ne_nil => simpa using hne
  case inside =>
    intro f hf
    obtain ⟨e, he, rfl⟩ := List.mem_map.mp hf
    obtain ⟨text, -, hcuts⟩ := cuts_of_mem_errors he
    exact hcuts.inside
  case oneLine =>
    intro f hf
    obtain ⟨e, he, rfl⟩ := List.mem_map.mp hf
    exact oneLine_titled (oneLine_of_mem_errors he)
  case ordered =>
    have hbefore := pairwise_filterMap_spans span_error? source.toList
    rw [List.pairwise_map] at hbefore
    rw [List.map_map, List.pairwise_map]
    refine hbefore.imp_of_mem fun {a b} ha _ hab => ?_
    obtain ⟨text, hne, hcuts⟩ := cuts_of_mem_errors ha
    exact Nat.lt_of_lt_of_le (hcuts.start_lt_stop hne) hab

end Lexical

/-! ## What the reader finds -/

/-- The place of a failure: a token that is left, or the end of the source. -/
theorem inside_ofFailure {source : String} {us : List Lexeme} {e : Failure}
    (h : StandIn source.toList (us ++ e.rest)) :
    (SyntaxError.ofFailure (byteLength source.toList) e).span.start
        ≤ (SyntaxError.ofFailure (byteLength source.toList) e).span.stop
      ∧ (SyntaxError.ofFailure (byteLength source.toList) e).span.stop
        ≤ byteLength source.toList := by
  rw [SyntaxError.span_ofFailure]
  cases hrest : e.rest with
  | nil => exact ⟨Nat.le_refl _, Nat.le_refl _⟩
  | cons l rest =>
    obtain ⟨text, -, hcuts⟩ := h.cuts l (by simp [hrest])
    exact hcuts.inside

theorem oneLine_ofFailure (size : Nat) (e : Failure) :
    OneLine (SyntaxError.ofFailure size e).message := by
  obtain ⟨rest, expected⟩ := e
  cases rest <;> exact SyntaxFault.oneLine_unexpected _ _

/-- **What the reader finds can be reported.** -/
theorem reportable_unexpected {source : String} {start : StartSymbol} {ts : List Lexeme}
    {errors : List SyntaxError} (htok : tokenize source = .ok ts)
    (h : SyntaxTree.parse start source = .error errors) :
    Reportable source.toList (FrontEndError.syntactic errors).findings := by
  obtain ⟨e, hread, rfl⟩ := exists_failure_of_parse htok h
  obtain ⟨-, us, rfl, -⟩ := fits_of_readAll (Grammar.start_blames start).toExplains hread
  exact reportable_singleton (inside_ofFailure (standIn_of_tokenize htok))
    (oneLine_titled (oneLine_ofFailure _ e))

/-! ## What the builder finds -/

/-- **What is reported of leaves** is the offence of one of them. -/
theorem DecidedBy.exists_offence {α : Type} {r : Except BuildError α} {leaves : List SyntaxTree}
    {e : BuildError} (h : DecidedBy r leaves) (hr : r = .error e) :
    ∃ l ∈ leaves, l.offence? = some e := by
  unfold DecidedBy at h
  cases hfirst : leaves.findSome? offence? with
  | none =>
    rw [hfirst] at h
    obtain ⟨a, ha⟩ := h
    simp [ha] at hr
  | some e' =>
    rw [hfirst] at h
    obtain rfl : e' = e := Except.error.inj (h.symm.trans hr)
    exact List.exists_of_findSome?_eq_some hfirst

/-- An offence quotes the leaf, and stands where it does. -/
theorem offence?_eq_some {l : SyntaxTree} {e : BuildError} (h : l.offence? = some e) :
    e = ⟨l.span, .unsupportedOperator l.text⟩ ∨ e = ⟨l.span, .malformedLiteral .int l.text⟩ := by
  unfold offence? at h
  split at h
  · split at h
    · cases h
    · exact .inl (Option.some.inj h).symm
  · split at h
    · cases h
    · exact .inr (Option.some.inj h).symm
  · cases h

theorem oneLine_of_offence? {l : SyntaxTree} {e : BuildError} (h : l.offence? = some e)
    (htext : OneLine l.text) : OneLine e.message := by
  obtain rfl | rfl := offence?_eq_some h
  · show OneLine ("unsupported operator `" ++ l.text ++ "`")
    rw [oneLine_append, oneLine_append]
    exact ⟨⟨by simp [OneLine], htext⟩, by simp [OneLine]⟩
  · show OneLine ("malformed " ++ "integer" ++ " literal `" ++ l.text ++ "`")
    rw [oneLine_append, oneLine_append]
    exact ⟨⟨by simp [OneLine], htext⟩, by simp [OneLine]⟩

/-- A leaf of the tree of a source is a token. -/
theorem exists_spells_of_mem_view {source : String} {start : StartSymbol} {tree l : SyntaxTree}
    {policy : LocalInitializers} (h : SyntaxTree.parse start source = .ok tree)
    (hl : l ∈ (policy.view tree).checkedLeaves) :
    ∃ t : Token, t.Spells l.text.toList ∧ l.span.Cuts source.toList l.text.toList := by
  have htext := (cutFrom_of_parse policy h).1 l hl
  obtain ⟨ts, shape, htok, hder, rfl⟩ := parse_eq_ok.mp h
  have hmem := (sublist_spans_view policy hder).subset (List.mem_map_of_mem hl)
  obtain ⟨a, ha, hspan⟩ := List.mem_map.mp hmem
  obtain ⟨text, hspells, hcuts⟩ := (standIn_of_tokenize htok).cuts a ha
  rw [hspan] at hcuts
  rw [htext, hcuts.slice_eq, String.toList_ofList]
  exact ⟨a.token, hspells, hcuts⟩

/-- **What the builder finds can be reported.** -/
theorem reportable_building {α : Type} {source : String} {start : StartSymbol} {tree : SyntaxTree}
    {r : Except BuildError α} {e : BuildError} (policy : LocalInitializers)
    (h : SyntaxTree.parse start source = .ok tree)
    (hdecided : DecidedBy r (policy.view tree).checkedLeaves) (hr : r = .error e) :
    Reportable source.toList (FrontEndError.building e).findings := by
  obtain ⟨l, hl, hoffence⟩ := hdecided.exists_offence hr
  obtain ⟨t, hspells, hcuts⟩ := exists_spells_of_mem_view h hl
  have hspan : e.span = l.span := by
    obtain rfl | rfl := offence?_eq_some hoffence <;> rfl
  refine reportable_singleton ?_ (oneLine_of_offence? hoffence hspells.oneLine)
  rw [hspan]
  exact hcuts.inside

/-! ## Reports -/

/-- **Refusing a source**: as a program, under some policy, as a statement or as an expression. -/
inductive FrontEndError.Refuses (source : String) (e : FrontEndError) : Prop
  | program (policy : LocalInitializers) (h : Program.parse policy source = .error e)
  | statement (h : Statement.parse source = .error e)
  | expression (h : Expression.parse source = .error e)

/-- **Reading a source finds what can be reported**, if the leaves that a policy sees decide what
is built. -/
theorem reportable_of_readSource {α : Type} {start : StartSymbol}
    {build : SyntaxTree → Except BuildError α} {source : String} {e : FrontEndError}
    (policy : LocalInitializers)
    (hbuild : ∀ tree, SyntaxTree.parse start source = .ok tree →
      DecidedBy (build tree) (policy.view tree).checkedLeaves)
    (h : readSource start build source = .error e) : Reportable source.toList e.findings := by
  cases e with
  | syntactic errors =>
    have hparse := readSource_eq_syntactic.mp h
    cases htok : tokenize source with
    | ok ts => exact reportable_unexpected htok hparse
    | error lexErrors =>
      have hsame : SyntaxTree.parse start source
          = .error (lexErrors.map SyntaxError.ofLexError) := by
        simp only [SyntaxTree.parse, htok]
      obtain rfl := Except.error.inj (hparse.symm.trans hsame)
      exact reportable_lexical htok
  | building e =>
    obtain ⟨tree, hparse, herror⟩ := readSource_eq_building.mp h
    exact reportable_building policy hparse (hbuild tree hparse) herror

theorem FrontEndError.Refuses.reportable {source : String} {e : FrontEndError}
    (h : e.Refuses source) : Reportable source.toList e.findings := by
  cases h with
  | program policy h =>
    refine reportable_of_readSource policy (fun tree htree => ?_) h
    exact decidedBy_program (isTree_of_parse htree)
  | statement h =>
    refine reportable_of_readSource .keep (fun tree htree => ?_) h
    exact decided_code (isTree_of_parse htree)
  | expression h =>
    refine reportable_of_readSource .keep (fun tree htree => ?_) h
    exact decidedBy_expression (isTree_of_parse htree)

theorem Position.oneLine_display (p : Position) : OneLine p.display := by
  rw [display, oneLine_append, oneLine_append]
  exact ⟨⟨oneLine_nat _, by simp [OneLine]⟩, oneLine_nat _⟩

/-- A finding that is said on one line is reported on one. -/
theorem Finding.oneLine_line {f : Finding} (h : OneLine f.text) (source : String) :
    OneLine (f.line source) := by
  rw [line, oneLine_append, oneLine_append]
  exact ⟨⟨Position.oneLine_display _, by simp [OneLine]⟩, h⟩

/-- The lines of a text. -/
def linesOf (text : String) : List String := (text.split '\n').toList.map (·.copy)

/-- **The lines of a report are those of the findings.** -/
theorem Reportable.linesOf_render {source : String} {e : FrontEndError}
    (h : Reportable source.toList e.findings) :
    linesOf (e.render source) = e.findings.map (Finding.line source) := by
  have hlines : ∀ line ∈ e.findings.map (Finding.line source), OneLine line := by
    intro line hline
    obtain ⟨f, hf, rfl⟩ := List.mem_map.mp hline
    exact Finding.oneLine_line (h.oneLine f hf) source
  have hsplit := String.toList_split_intercalate hlines
  rw [if_neg (by simpa using h.ne_nil)] at hsplit
  rw [linesOf, FrontEndError.render_eq]
  exact hsplit

/-- **The line of a report about a finding**: it begins with the line and the column of where the
finding starts, both counted from one, and then says what there is to say. -/
structure Finding.ReportedBy (source : String) (f : Finding) (line : String) : Prop where
  /-- The finding does not end before it starts. -/
  start_le : f.span.start ≤ f.span.stop
  /-- It ends in the source. -/
  stop_le : f.span.stop ≤ byteLength source.toList
  /-- Its position is right. -/
  locates : (f.position source).Locates (bytesOf source) f.span.start
  /-- The line is this. -/
  line_eq : line = toString ((f.position source).line + 1) ++ ":"
    ++ toString ((f.position source).column + 1) ++ ": " ++ f.text

theorem Reportable.reportedBy {source : String} {fs : List Finding}
    (h : Reportable source.toList fs) {f : Finding} (hf : f ∈ fs) :
    f.ReportedBy source (f.line source) := by
  obtain ⟨hstart, hstop⟩ := h.inside f hf
  obtain ⟨start, honLine⟩ := (LineTable.ofText source.toList).onLine_lineAt f.span.start
  exact ⟨hstart, hstop, honLine.locates, rfl⟩

/-- Places further on have later positions. -/
theorem Reportable.pairwise_position {source : String} {fs : List Finding}
    (h : Reportable source.toList fs) :
    (fs.map (Finding.position source)).Pairwise (· < ·) := by
  have hordered := h.ordered
  rw [List.pairwise_map] at hordered ⊢
  exact hordered.imp (LineTable.position_lt _)

namespace FrontEndError

/-- **What the lines of a report are**: as many as there are errors, each about one of them, and in
the order of the source. -/
structure Report (source : String) (e : FrontEndError) (lines : List String) : Prop where
  /-- There are as many lines as errors. -/
  length_eq : lines.length = e.count
  /-- Each is about its error. -/
  lines : List.Forall₂ (Finding.ReportedBy source) e.findings lines
  /-- The errors come in the order of their positions. -/
  ascending : (e.findings.map (Finding.position source)).Pairwise (· < ·)

/-- **A source that is refused is reported on line by line**, one line for each error. -/
theorem reports_line_by_line {source : String} {e : FrontEndError} (h : e.Refuses source) :
    e.Report source (linesOf (e.render source)) := by
  have hreportable := h.reportable
  rw [hreportable.linesOf_render]
  constructor
  case length_eq => rw [List.length_map, length_findings]
  case lines =>
    rw [List.forall₂_map_right_iff, List.forall₂_same]
    exact fun f hf => hreportable.reportedBy hf
  case ascending => exact hreportable.pairwise_position

/-- Two unknown characters, one of two bytes, and an open comment; an operator without a
meaning. -/
theorem reports_line_by_line_unknown :
    (∃ e, Program.parse .keep "$\n  é /*" = .error e
        ∧ e.render "$\n  é /*" = "1:1: syntax error: unrecognized input `$`\n"
          ++ "2:3: syntax error: unrecognized input `é`\n"
          ++ "2:6: syntax error: unterminated block comment"
        ∧ e.Report "$\n  é /*" (linesOf (e.render "$\n  é /*")))
      ∧ ∃ e, Statement.parse "x =\n 4 / 2;" = .error e
        ∧ e.render "x =\n 4 / 2;" = "2:4: unsupported operator `/`"
        ∧ e.Report "x =\n 4 / 2;" (linesOf (e.render "x =\n 4 / 2;")) := by
  have hlexical : Program.parse .keep "$\n  é /*" = .error (.syntactic [
      ⟨⟨0, 1⟩, .unknownInput "$"⟩, ⟨⟨4, 6⟩, .unknownInput "é"⟩, ⟨⟨7, 9⟩, .unclosedComment⟩]) := by
    decide +kernel
  have hbuilding : Statement.parse "x =\n 4 / 2;"
      = .error (.building ⟨⟨7, 8⟩, .unsupportedOperator "/"⟩) := by
    have hfirst : ((SyntaxTree.parse .statement "x =\n 4 / 2;").toOption.map
        fun t => t.checkedLeaves.findSome? offence?)
          = some (some ⟨⟨7, 8⟩, .unsupportedOperator "/"⟩) := by decide +kernel
    obtain ⟨tree, hparse, hfirst⟩ := exists_of_toOption_map hfirst
    have hcode : CodeRole.statement.Decided .keep tree := decided_code (isTree_of_parse hparse)
    have hdecided : DecidedBy (Statement.ofTree .keep tree) tree.checkedLeaves := hcode
    rw [DecidedBy, hfirst] at hdecided
    exact readSource_eq_building.mpr ⟨tree, hparse, hdecided⟩
  exact ⟨⟨_, hlexical, by decide +kernel, reports_line_by_line (.program .keep hlexical)⟩,
    ⟨_, hbuilding, by decide +kernel, reports_line_by_line (.statement hbuilding)⟩⟩

end FrontEndError

end ImpFront
