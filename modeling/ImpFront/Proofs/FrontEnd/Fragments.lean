import ImpFront.Proofs.Failure.Reach
import ImpFront.Proofs.FrontEnd.Concatenation
import ImpFront.Proofs.FrontEnd.Replacement
import ImpFront.Proofs.Printing.Program

/-!
# Fragments, read alone and in their places

Expressions and statements can be read on their own. They can as well be read where
they belong, the expression behind `return` and the statement in the body of a
function, and that makes no difference (`entryPoints_agree`): a text is an
expression just if the statement around it is one that returns this expression, and
a statement just if the program around it has one function with this body; and where
it has no meaning, neither has what is around it, for the same reason.

The delicate direction is the one from the outside in. A text could have tokens that
close what is around it, and go on with more of the like. But then there would be
more statements, or more functions, and a text that opens a comment would have left
nothing to close it all. Inside, the tokens have only moved, and so the text alone
can be read like them (`derives_of_relocate`).
-/

namespace ImpFront

open Ebnf SyntaxTree Relocatable

variable {size size' : Nat} {m : Relocation} {ts us : List Lexeme} {parts : List TreeShape}
  {start : StartSymbol} {shape : TreeShape}

/-! ## Tokens that have moved -/

/-- **What moved tokens can be read as**, they could be read as before. -/
theorem derives_of_relocate (start : StartSymbol) (hstart : start ≠ .program)
    (h : Derives size' (.rule start.nonterminal) (relocate m ts) parts) (size : Nat) :
    ∃ shape, Derives size (.rule start.nonterminal) ts [shape] := by
  have hne : ts ≠ [] := by
    rintro rfl
    refine h.ne_nil ?_ rfl
    cases start <;> simp_all [Form.consumes, StartSymbol.nonterminal]
  have hmoved : (start.rule size').readAll (relocate m ts)
      = relocate m ((start.rule size).readAll ts) :=
    start.readAll_relocate ts fun hnil => absurd hnil hne
  obtain ⟨t, rfl, hread⟩ := reads_start_of_derives h
  rw [readAll_eq_ok.mpr hread] at hmoved
  cases hshape : (start.rule size).readAll ts with
  | error e =>
    rw [hshape] at hmoved
    cases hmoved
  | ok shape => exact ⟨shape, reads_start_iff.mp (readAll_eq_ok.mp hshape)⟩

/-- **Between other texts a fragment means the same**, or has the same fault, which has
moved. -/
theorem RespectsCore.build_between {α : Type} {build : SyntaxTree → Except BuildError α}
    (hbuild : RespectsCore start build) (hstart : start ≠ .program)
    {source above below : List Char} (h : Derives size (.rule start.nonterminal) ts [shape])
    (hts : StandIn source ts)
    (hmoved : StandIn (above ++ (source ++ below)) (relocate (.shift (byteLength above)) ts)) :
    build (ofShape (above ++ (source ++ below)) (relocate (.shift (byteLength above)) shape))
      = (build (ofShape source shape)).mapError (relocate (.shift (byteLength above))) := by
  have hproper : (Form.rule start.nonterminal).proper = true := by
    cases start <;> simp_all [Form.proper, StartSymbol.nonterminal]
  exact hbuild.build_eq (isTree_of_derives h hts)
    (isTree_of_derives (h.relocate _ size hproper) hmoved)
    (core_relocate_of_start h hts (sameText_between hts))

/-! ## What is around an expression -/

/-- **A statement that begins with `return`** and ends with the last of its tokens: what is
in between is an expression, or nothing. -/
theorem derives_return {word closing : Span} {t : TreeShape} :
    Derives size (.rule .statement)
        ([⟨.keyword .returnWord, word⟩] ++ (us ++ [⟨.symbol .semicolon, closing⟩])) [t]
      ↔ ∃ parts, Derives size (Form.optional (.rule .expr)) us parts
        ∧ t = ⟨.returnStmt, extent size
          ([⟨.keyword .returnWord, word⟩] ++ (us ++ [⟨.symbol .semicolon, closing⟩])), parts⟩ := by
  constructor
  · intro h
    have hreturn : Derives size (.rule .returnStmt)
        ([⟨.keyword .returnWord, word⟩] ++ (us ++ [⟨.symbol .semicolon, closing⟩])) [t] := by
      have hother {n : Nonterminal} (hn : Token.keyword .returnWord ∉ n.first) :
          ¬ Derives size (.rule n)
            ([⟨.keyword .returnWord, word⟩] ++ (us ++ [⟨.symbol .semicolon, closing⟩])) [t] :=
        fun h => hn (h.head_mem_first rfl)
      have hproduction := (derives_group (.inl rfl)).mp h
      simp only [production, derives_orElse] at hproduction
      rcases hproduction with h | h | h | h | h | h
      · exact absurd h (hother (by decide))
      · exact absurd h (hother (by decide))
      · exact absurd h (hother (by decide))
      · exact h
      · exact absurd h (hother (by decide))
      · exact absurd h (hother (by decide))
    obtain ⟨parts, hparts, ht⟩ := derives_node rfl hreturn
    rw [← List.append_assoc] at hparts
    obtain ⟨vs, closing', htokens, hvs⟩ := derives_append_mark.mp hparts
    obtain ⟨rfl, -⟩ := List.append_inj' htokens rfl
    obtain ⟨_, ws, _, others, htokens, rfl, hword, hothers⟩ := derives_append.mp hvs
    obtain ⟨word', rfl, rfl⟩ := derives_word.mp hword
    obtain ⟨-, rfl⟩ := List.append_inj htokens rfl
    exact ⟨others, hothers, List.singleton_inj.mp ht⟩
  · rintro ⟨parts, hparts, rfl⟩
    have hreturn := Derives.rule .returnStmt
      (((Derives.word .returnWord word).sequence hparts).sequence (.mark .semicolon closing))
    refine .right _ (.right _ (.right _ (.left _ ?_))) |> (derives_group (.inl rfl)).mpr
    simpa [Nonterminal.assemble, Nonterminal.nodeKind?] using hreturn

/-- **The meaning of a `return` statement**: that of its expression. -/
theorem Statement.ofTree_returnStmt {source : List Char} {policy : LocalInitializers} {span : Span}
    (h : (ofShape source shape).kind.isExpression = true) :
    Statement.ofTree policy (ofShape source ⟨.returnStmt, span, [shape]⟩)
      = (Expression.ofTree (ofShape source shape)).map .returnValue := by
  rw [ofShape, ofShapes, ofShapes, ofTree_returnValue h]
  cases Expression.ofTree (ofShape source shape) <;> rfl

/-! ## What is around a statement -/

/-- A repetition that leaves one part is one item. -/
theorem derives_of_repeated_singleton {source : List Char} {n n' : Nonterminal}
    (h : Derives size (.repeated (.rule n <|> .rule n')) ts parts) (hts : StandIn source ts)
    (hlen : parts.length = 1) :
    ∃ t, parts = [t] ∧ (Derives size (.rule n) ts [t] ∨ Derives size (.rule n') ts [t]) := by
  have hone {us : List Lexeme} {ps : List TreeShape} (hus : StandIn source us)
      (hitem : Derives size (.rule n <|> .rule n') us ps) : ∃ t, ps = [t] := by
    rcases derives_orElse.mp hitem with hitem | hitem <;> exact hitem.exists_singleton hus
  cases items_of_derives h with
  | nil => cases hlen
  | cons hitem hitems =>
    obtain ⟨t, rfl⟩ := hone hts.left hitem
    cases hitems with
    | nil =>
      rw [List.append_nil, List.append_nil]
      exact ⟨t, rfl, derives_orElse.mp hitem⟩
    | cons hnext _ =>
      obtain ⟨t', rfl⟩ := hone hts.right.left hnext
      simp at hlen

/-- One item is a repetition. -/
theorem Ebnf.Derives.once {f : Form} (h : Derives size f ts parts) :
    Derives size (.repeated f) ts parts := by
  simpa using h.again (.done f)

/-- Each tree of a block is one of its locals or one of its statements. -/
theorem Block.ensures_length (policy : LocalInitializers) (ts : List SyntaxTree) :
    Ensures (ofTrees policy ts) fun b => b.locals.length + b.statements.length = ts.length := by
  induction ts with
  | nil =>
    rw [ofTrees_nil]
    exact ensures_ok rfl
  | cons t ts ih =>
    rw [ofTrees]
    split
    · refine (ensures_true _).bind fun v _ => ih.map fun b hb => ?_
      simp only [addLocal, List.length_cons]
      omega
    · split
      · refine (ensures_true _).bind fun s _ => ih.map fun b hb => ?_
        simp only [addStatement, List.length_cons]
        omega
      · exact ensures_error _

/-- Each tree of a program is one of its globals or one of its functions. -/
theorem Program.ensures_length (policy : LocalInitializers) (ts : List SyntaxTree) :
    Ensures (ofTrees policy ts) fun p => p.globals.length + p.functions.length = ts.length := by
  induction ts with
  | nil => exact ensures_ok rfl
  | cons t ts ih =>
    rw [ofTrees]
    split
    · refine (ensures_true _).bind fun v _ => ih.map fun p hp => ?_
      simp only [addVariable, List.length_cons]
      omega
    · refine (ensures_true _).bind fun f _ => ih.map fun p hp => ?_
      simp only [addFunction, List.length_cons]
      omega
    · exact ensures_error _

/-- **A block with one statement and nothing else** has the tokens of a statement. -/
theorem derives_of_single_statement {source : List Char} {policy : LocalInitializers}
    {s : Statement}
    (h : Derives size (.repeated (.rule .varDecl <|> .rule .statement)) ts parts)
    (hts : StandIn source ts)
    (hbuild : Block.ofTrees policy (ofShapes source parts) = .ok ⟨[], [s]⟩) :
    ∃ t, parts = [t] ∧ Derives size (.rule .statement) ts [t] := by
  have hlen := Block.ensures_length policy _ _ hbuild
  obtain ⟨t, rfl, ht | ht⟩ := derives_of_repeated_singleton h hts (by simpa using hlen.symm)
  · -- A variable would be among the locals.
    rw [ofShapes, ofShapes, Block.ofTrees_cons_variable (by rw [kind_ofShape, ht.kind_eq rfl])]
      at hbuild
    have hlocals : Ensures (do
        let v ← Variable.ofTree (policy = .keep) (ofShape source t)
        let b ← Block.ofTrees policy []
        return b.addLocal v) fun b => b.locals ≠ [] :=
      (ensures_true _).bind fun v _ => (ensures_true _).map fun b _ => List.cons_ne_nil v _
    exact absurd rfl (hlocals _ hbuild)
  · exact ⟨t, rfl, ht⟩

/-- **A program with one function and nothing else** has the tokens of a function. -/
theorem derives_of_single_function {source : List Char} {policy : LocalInitializers}
    {f : Function}
    (h : Derives size (.repeated (.rule .varDecl <|> .rule .funcDecl)) ts parts)
    (hts : StandIn source ts)
    (hbuild : Program.ofTrees policy (ofShapes source parts) = .ok ⟨[], [f]⟩) :
    ∃ t, parts = [t] ∧ Derives size (.rule .funcDecl) ts [t] := by
  have hlen := Program.ensures_length policy _ _ hbuild
  obtain ⟨t, rfl, ht | ht⟩ := derives_of_repeated_singleton h hts (by simpa using hlen.symm)
  · -- A variable would be among the globals.
    rw [ofShapes, ofShapes, Program.ofTrees_cons_variable (by rw [kind_ofShape, ht.kind_eq rfl])]
      at hbuild
    have hglobals : Ensures (do
        let v ← Variable.ofTree true (ofShape source t)
        let p ← Program.ofTrees policy []
        return p.addVariable v) fun p => p.globals ≠ [] :=
      (ensures_true _).bind fun v _ => (ensures_true _).map fun p _ => List.cons_ne_nil v _
    exact absurd rfl (hglobals _ hbuild)
  · exact ⟨t, rfl, ht⟩

/-- **Braces** make what stands between them the items of a block. -/
theorem derives_braces {opening closing : Span} {t : TreeShape} :
    Derives size (.rule .block)
        ([⟨.symbol .openBrace, opening⟩] ++ (us ++ [⟨.symbol .closeBrace, closing⟩])) [t]
      ↔ ∃ parts, Derives size (.repeated (.rule .varDecl <|> .rule .statement)) us parts
        ∧ t = ⟨.block, extent size
          ([⟨.symbol .openBrace, opening⟩] ++ (us ++ [⟨.symbol .closeBrace, closing⟩])), parts⟩ := by
  constructor
  · intro h
    obtain ⟨parts, hparts, ht⟩ := derives_node rfl h
    rw [← List.append_assoc] at hparts
    obtain ⟨vs, closing', htokens, hvs⟩ := derives_append_mark.mp hparts
    obtain ⟨rfl, -⟩ := List.append_inj' htokens rfl
    obtain ⟨_, ws, _, others, htokens, rfl, hopening, hothers⟩ := derives_append.mp hvs
    obtain ⟨opening', rfl, rfl⟩ := derives_mark.mp hopening
    obtain ⟨-, rfl⟩ := List.append_inj htokens rfl
    exact ⟨others, hothers, List.singleton_inj.mp ht⟩
  · rintro ⟨parts, hparts, rfl⟩
    have hblock := Derives.rule .block
      (((Derives.mark .openBrace opening).sequence hparts).sequence (.mark .closeBrace closing))
    simpa [Nonterminal.assemble, Nonterminal.nodeKind?] using hblock

/-- **The tokens of** `void f()`. -/
def functionHead : List Lexeme :=
  [⟨.keyword .void, ⟨0, 4⟩⟩, ⟨.ident, ⟨5, 6⟩⟩, ⟨.symbol .openParen, ⟨6, 7⟩⟩,
    ⟨.symbol .closeParen, ⟨7, 8⟩⟩]

theorem derives_void {span : Span} :
    Derives size (.rule .type) [⟨.keyword .void, span⟩] parts
      ↔ parts = [⟨.type, span, [⟨.voidKeyword, span, []⟩]⟩] := by
  constructor
  · intro h
    obtain ⟨word, hword, rfl⟩ := derives_node rfl h
    simp only [production, derives_orElse, derives_leaf] at hword
    rcases hword with ⟨t, ht, _, htokens, -⟩ | ⟨t, ht, _, htokens, -⟩ | ⟨t, -, _, htokens, rfl⟩
    · simp_all
    · simp_all
    · obtain ⟨rfl, rfl⟩ := Lexeme.mk.inj (List.singleton_inj.mp htokens)
      rfl
  · rintro rfl
    exact .rule .type (.right _ (.right _ (.only _ _ span)))

/-- **Behind the head of a function** there is its body. -/
theorem derives_function {vs : List Lexeme} {t : TreeShape} :
    Derives size (.rule .funcDecl) (functionHead ++ vs) [t]
      ↔ ∃ body, Derives size (.rule .block) vs [body]
          ∧ t = ⟨.funcDecl, extent size (functionHead ++ vs),
            [⟨.type, ⟨0, 4⟩, [⟨.voidKeyword, ⟨0, 4⟩, []⟩]⟩, ⟨.ident, ⟨5, 6⟩, []⟩, body]⟩ := by
  constructor
  · intro h
    obtain ⟨parts, hparts, ht⟩ := derives_node rfl h
    obtain ⟨_, bs, _, body, htokens, rfl, hhead, hbody⟩ := derives_append.mp hparts
    obtain ⟨_, closing, rfl, hlist⟩ := derives_append_mark.mp hhead
    obtain ⟨_, ps, _, params, rfl, rfl, hopen, hparams⟩ := derives_append.mp hlist
    obtain ⟨_, opening, rfl, hnames⟩ := derives_append_mark.mp hopen
    obtain ⟨ws, _, word, _, rfl, rfl, hword, hname⟩ := derives_append.mp hnames
    obtain ⟨span, rfl, rfl⟩ := derives_ident.mp hname
    -- The type is one token, so the head begins with the right ones.
    obtain ⟨w, rfl⟩ := List.length_eq_one_iff.mp (single_type ⟨_, hword⟩)
    simp only [functionHead, List.cons_append, List.nil_append, List.append_assoc,
      List.cons.injEq, Lexeme.mk.injEq, true_and] at htokens
    obtain ⟨rfl, rfl, rfl, htokens⟩ := htokens
    obtain rfl := derives_void.mp hword
    -- A list of parameters would not begin with the closing parenthesis.
    obtain ⟨rfl, rfl⟩ : ps = [] ∧ params = [] := by
      rcases derives_optional.mp hparams with hparams | hnone
      · cases ps with
        | nil => exact absurd rfl (hparams.ne_nil rfl)
        | cons p ps =>
          obtain ⟨rfl, -⟩ := List.cons.inj htokens
          exact absurd (hparams.head_mem_first rfl) (by decide)
      · exact hnone
    obtain ⟨-, rfl⟩ := List.cons.inj htokens
    obtain ⟨items, -, rfl⟩ := derives_node rfl hbody
    exact ⟨_, hbody, List.singleton_inj.mp ht⟩
  · rintro ⟨body, hbody, rfl⟩
    have htype : Derives size (.rule .type) [⟨.keyword .void, ⟨0, 4⟩⟩] _ := derives_void.mpr rfl
    have hhead := ((htype.sequence (.ident ⟨5, 6⟩)).sequence (.mark .openParen ⟨6, 7⟩)).sequence
      (.absent (.rule .paramList))
    exact .rule .funcDecl ((hhead.sequence (.mark .closeParen ⟨7, 8⟩)).sequence hbody)

/-! ## From fragments to sources -/

/-- **A fragment and what is around it agree**, if what is around it has a value of the
right form only where the fragment can be read, and has then the meaning of the fragment,
further on. -/
theorem readSource_agrees {α β : Type} {build : SyntaxTree → Except BuildError α}
    {source : String} {whole : Except FrontEndError β} {enclose : α → β}
    (henclose : Function.Injective enclose)
    (hwhole : ∀ tree, SyntaxTree.parse start source = .ok tree →
      whole = ((build tree).mapError fun e => .building (relocate m e)).map enclose)
    (hsource : ∀ a, whole = .ok (enclose a) → ∃ tree, SyntaxTree.parse start source = .ok tree) :
    (∀ a, readSource start build source = .ok a ↔ whole = .ok (enclose a))
      ∧ ∀ e, readSource start build source = .error (.building e) →
        whole = .error (.building (relocate m e)) := by
  constructor
  · intro a
    rw [readSource_eq_ok]
    constructor
    · rintro ⟨tree, hparse, hbuild⟩
      rw [hwhole tree hparse, hbuild]
      rfl
    · intro h
      obtain ⟨tree, hparse⟩ := hsource a h
      refine ⟨tree, hparse, ?_⟩
      rw [hwhole tree hparse] at h
      cases hbuild : build tree with
      | error e =>
        rw [hbuild] at h
        cases h
      | ok b =>
        rw [hbuild] at h
        rw [henclose (Except.ok.inj h)]
  · intro e h
    obtain ⟨tree, hparse, hbuild⟩ := readSource_eq_building.mp h
    rw [hwhole tree hparse, hbuild]
    rfl

/-! ## Expressions -/

section Return

variable {source : String} {tree : SyntaxTree}

theorem toList_return (source : String) :
    ("return " ++ source ++ "\n;").toList
      = "return ".toList ++ (source.toList ++ "\n;".toList) := by
  simp

theorem return_eq (source : String) : "return " ++ source ++ "\n;"
    = "return" ++ " " ++ (source ++ "\n" ++ Symbol.semicolon.spelling) := by
  simp [← String.toList_inj, Symbol.spelling]

theorem tokenize_returnWord : tokenize "return" = .ok [⟨.keyword .returnWord, ⟨0, 6⟩⟩] := by
  decide +kernel

/-- The word `return` does not take in a blank. -/
theorem spares_return : ∀ p ∈ (Lexer.pieces "return".toList).getLast?, ∀ text,
    p.Spares (" ".toList ++ text) := by
  have hlast : (Lexer.pieces "return".toList).getLast?
      = some ⟨.token (.keyword .returnWord), "return".toList⟩ := by
    decide +kernel
  rw [hlast]
  rintro p ⟨⟩ text
  exact .inl (startsWithout_cons.mpr rfl)

theorem tokenize_return (h : tokenize source = .ok ts) :
    ∃ span, tokenize ("return " ++ source ++ "\n;")
      = .ok ([⟨.keyword .returnWord, ⟨0, 6⟩⟩]
        ++ (relocate (.shift (byteLength "return ".toList)) ts
          ++ [⟨.symbol .semicolon, span⟩])) := by
  rw [return_eq]
  exact tokenize_enclosed tokenize_returnWord rfl spares_return h .semicolon

/-- **What a `return` statement means** is decided by its expression. -/
theorem Statement.parse_return (h : SyntaxTree.parse .expression source = .ok tree) :
    Statement.parse ("return " ++ source ++ "\n;")
      = ((Expression.ofTree tree).mapError fun e =>
        .building (relocate (.shift (byteLength "return ".toList)) e)).map .returnValue := by
  obtain ⟨ts, shape, hts, hder, rfl⟩ := parse_eq_ok.mp h
  obtain ⟨span, hwhole⟩ := tokenize_return hts
  have hstand := standIn_of_tokenize hwhole
  have hmoved : Derives (byteLength ("return " ++ source ++ "\n;").toList) (.rule .expr) _
      [relocate (.shift (byteLength "return ".toList)) shape] := hder.relocate _ _ rfl
  have hparse : SyntaxTree.parse .statement ("return " ++ source ++ "\n;") = _ :=
    parse_eq_ok.mpr ⟨_, _, hwhole, derives_return.mpr ⟨_, hmoved.present, rfl⟩, rfl⟩
  have hkind := (isTree_of_derives hmoved hstand.right.left).isExpression_kind
  unfold Statement.parse readSource
  rw [hparse]
  show (Statement.ofTree .keep (ofShape _ _)).mapError FrontEndError.building = _
  rw [toList_return] at hstand hkind ⊢
  rw [ofTree_returnStmt hkind, Expression.respectsCore.build_between nofun hder
    (standIn_of_tokenize hts) hstand.right.left]
  cases Expression.ofTree (ofShape source.toList shape) <;> rfl

/-- Only expressions can be returned. -/
theorem exists_tree_of_return {e : Expression}
    (h : Statement.parse ("return " ++ source ++ "\n;") = .ok (.returnValue e)) :
    ∃ tree, SyntaxTree.parse .expression source = .ok tree := by
  obtain ⟨_, hparse, hbuild⟩ := readSource_eq_ok.mp h
  obtain ⟨us, shape, hus, hder, rfl⟩ := parse_eq_ok.mp hparse
  obtain ⟨ts, hts⟩ : ∃ ts, tokenize source = .ok ts := by
    rw [return_eq] at hus
    exact exists_tokens_of_enclosed tokenize_returnWord rfl spares_return hus
  obtain ⟨span, hwhole⟩ := tokenize_return hts
  obtain rfl := Except.ok.inj (hus.symm.trans hwhole)
  obtain ⟨parts, hparts, rfl⟩ := derives_return.mp hder
  rcases derives_optional.mp hparts with hexpr | ⟨-, rfl⟩
  · obtain ⟨shape, hshape⟩ := derives_of_relocate .expression nofun hexpr (byteLength source.toList)
    exact ⟨_, parse_eq_ok.mpr ⟨ts, shape, hts, hshape, rfl⟩⟩
  · rw [ofShape, ofShapes, Statement.ofTree_returnVoid] at hbuild
    cases hbuild

end Return

/-! ## Statements -/

section Function

variable {source : String} {tree : SyntaxTree}

theorem toList_function (source : String) :
    ("void f() \x7b" ++ source ++ "\n\x7d").toList
      = "void f() \x7b".toList ++ (source.toList ++ "\n\x7d".toList) := by
  simp

theorem function_eq (source : String) : "void f() \x7b" ++ source ++ "\n\x7d"
    = "void f() \x7b" ++ "" ++ (source ++ "\n" ++ Symbol.closeBrace.spelling) := by
  simp [← String.toList_inj, Symbol.spelling]

/-- A brace takes in nothing. -/
theorem spares_function : ∀ p ∈ (Lexer.pieces "void f() \x7b".toList).getLast?, ∀ text,
    p.Spares ("".toList ++ text) := by
  have hlast : (Lexer.pieces "void f() \x7b".toList).getLast?
      = some ⟨.token (.symbol .openBrace), "\x7b".toList⟩ := by
    decide +kernel
  rw [hlast]
  rintro p ⟨⟩ text
  exact .inl fun _ _ => rfl

theorem tokenize_functionHead :
    tokenize "void f() \x7b" = .ok (functionHead ++ [⟨.symbol .openBrace, ⟨9, 10⟩⟩]) := by
  decide +kernel

theorem tokenize_function (h : tokenize source = .ok ts) :
    ∃ span, tokenize ("void f() \x7b" ++ source ++ "\n\x7d")
      = .ok (functionHead ++ ([⟨.symbol .openBrace, ⟨9, 10⟩⟩]
        ++ (relocate (.shift (byteLength "void f() \x7b".toList)) ts
          ++ [⟨.symbol .closeBrace, span⟩]))) := by
  rw [function_eq]
  exact tokenize_enclosed tokenize_functionHead rfl spares_function h .closeBrace

/-- **The meaning of a source with one function in it**: that of the body. -/
theorem Program.ofTrees_function {policy : LocalInitializers} {text : List Char}
    {span bodySpan : Span} (hname : slice text ⟨5, 6⟩ = "f".toList) :
    Program.ofTrees policy (ofShapes text [⟨.funcDecl, span,
        [⟨.type, ⟨0, 4⟩, [⟨.voidKeyword, ⟨0, 4⟩, []⟩]⟩, ⟨.ident, ⟨5, 6⟩, []⟩,
          ⟨.block, bodySpan, parts⟩]⟩])
      = (Block.ofTrees policy (ofShapes text parts)).map fun body =>
        ⟨[], [⟨.void, "f", [], body⟩]⟩ := by
  have htype : TypeName.ofTree (ofShape text ⟨.type, ⟨0, 4⟩, [⟨.voidKeyword, ⟨0, 4⟩, []⟩]⟩)
      = .ok .void := by
    rw [ofShape, ofShapes, ofShapes]
    exact TypeName.ofTree_type (kind_ofShape ..)
  have hbody : Block.ofTree policy (ofShape text ⟨.block, bodySpan, parts⟩)
      = Block.ofTrees policy (ofShapes text parts) := by
    rw [ofShape, Block.ofTree_block]
  have hnone : ∀ l ∈ (none : Option SyntaxTree), l.kind = .paramList := by simp
  have hfunction : Function.ofTree policy (ofShape text ⟨.funcDecl, span,
      [⟨.type, ⟨0, 4⟩, [⟨.voidKeyword, ⟨0, 4⟩, []⟩]⟩, ⟨.ident, ⟨5, 6⟩, []⟩,
        ⟨.block, bodySpan, parts⟩]⟩)
      = (Block.ofTrees policy (ofShapes text parts)).map fun body => ⟨.void, "f", [], body⟩ := by
    rw [ofShape, ofShapes, ofShapes, ofShapes, ofShapes, ofShape_leaf hname]
    refine (Function.ofTree_funcDecl (kind_ofShape ..) rfl hnone (kind_ofShape ..)).trans ?_
    rw [htype, hbody]
    cases Block.ofTrees policy (ofShapes text parts) <;> rfl
  rw [ofShapes, ofShapes, Program.ofTrees_cons_function (kind_ofShape ..), hfunction]
  cases Block.ofTrees policy (ofShapes text parts) <;> rfl

/-- **The meaning of a body with one statement in it.** -/
theorem Block.ofTrees_statement {policy : LocalInitializers} {text : List Char}
    (h : (ofShape text shape).kind.isStatement = true) :
    Block.ofTrees policy (ofShapes text [shape])
      = (Statement.ofTree policy (ofShape text shape)).map fun s => ⟨[], [s]⟩ := by
  rw [ofShapes, ofShapes, ofTrees_cons_statement h, ofTrees_nil]
  cases Statement.ofTree policy (ofShape text shape) <;> rfl

/-- The name of the function. -/
theorem slice_function (source : String) :
    slice ("void f() \x7b" ++ source ++ "\n\x7d").toList ⟨5, 6⟩ = "f".toList := by
  have hcuts : Span.Cuts "void f() \x7b".toList ⟨5, 6⟩ "f".toList :=
    ⟨"void ".toList, "() \x7b".toList, rfl, rfl⟩
  rw [toList_function]
  exact (hcuts.append _).slice_eq

/-- **What a function means** is decided by the only statement in its body. -/
theorem Program.parse_function (h : SyntaxTree.parse .statement source = .ok tree) :
    Program.parse .keep ("void f() \x7b" ++ source ++ "\n\x7d")
      = ((Statement.ofTree .keep tree).mapError fun e =>
        .building (relocate (.shift (byteLength "void f() \x7b".toList)) e)).map fun s =>
          ⟨[], [⟨.void, "f", [], ⟨[], [s]⟩⟩]⟩ := by
  obtain ⟨ts, shape, hts, hder, rfl⟩ := parse_eq_ok.mp h
  obtain ⟨span, hwhole⟩ := tokenize_function hts
  have hstand := standIn_of_tokenize hwhole
  have hname := slice_function source
  have hmoved : Derives (byteLength ("void f() \x7b" ++ source ++ "\n\x7d").toList)
      (.rule .statement) _ [relocate (.shift (byteLength "void f() \x7b".toList)) shape] :=
    hder.relocate _ _ rfl
  have hblock : Derives _ (.rule .block) ([⟨.symbol .openBrace, ⟨9, 10⟩⟩]
      ++ (_ ++ [⟨.symbol .closeBrace, span⟩])) [_] :=
    derives_braces.mpr ⟨_, (Derives.right (.rule .varDecl) hmoved).once, rfl⟩
  have hfunction := derives_function.mpr ⟨_, hblock, rfl⟩
  have hprogram : Derives _ (.rule .program) _ [⟨.program, _, _⟩] :=
    .rule .program (Derives.right (.rule .varDecl) hfunction).once
  have hparse : SyntaxTree.parse .program ("void f() \x7b" ++ source ++ "\n\x7d") = _ :=
    parse_eq_ok.mpr ⟨_, _, hwhole, hprogram, rfl⟩
  have hkind := (isTree_of_derives hmoved hstand.right.right.left).isStatement_kind
  unfold Program.parse readSource
  rw [hparse]
  show (Program.ofTree .keep (ofShape _ _)).mapError FrontEndError.building = _
  rw [toList_function] at hstand hkind hname ⊢
  rw [ofShape, Program.ofTree_program, Program.ofTrees_function hname,
    Block.ofTrees_statement hkind, (Statement.respectsCore .keep).build_between nofun hder
      (standIn_of_tokenize hts) hstand.right.right.left]
  cases Statement.ofTree .keep (ofShape source.toList shape) <;> rfl

/-- Only statements can be the body of a function in this way. -/
theorem exists_tree_of_function {s : Statement}
    (h : Program.parse .keep ("void f() \x7b" ++ source ++ "\n\x7d")
      = .ok ⟨[], [⟨.void, "f", [], ⟨[], [s]⟩⟩]⟩) :
    ∃ tree, SyntaxTree.parse .statement source = .ok tree := by
  obtain ⟨_, hparse, hbuild⟩ := readSource_eq_ok.mp h
  obtain ⟨us, shape, hus, hder, rfl⟩ := parse_eq_ok.mp hparse
  obtain ⟨ts, hts⟩ : ∃ ts, tokenize source = .ok ts := by
    rw [function_eq] at hus
    exact exists_tokens_of_enclosed tokenize_functionHead rfl spares_function hus
  obtain ⟨span, hwhole⟩ := tokenize_function hts
  obtain rfl := Except.ok.inj (hus.symm.trans hwhole)
  have hstand := standIn_of_tokenize hwhole
  -- There is one function, and its body takes up the rest of the tokens.
  obtain ⟨declarations, hdeclarations, hshape⟩ := derives_node rfl hder
  obtain rfl := List.singleton_inj.mp hshape
  rw [ofShape, Program.ofTree_program] at hbuild
  obtain ⟨d, rfl, hd⟩ := derives_of_single_function hdeclarations hstand hbuild
  obtain ⟨body, hbody, rfl⟩ := derives_function.mp hd
  obtain ⟨items, hitems, rfl⟩ := derives_braces.mp hbody
  -- And there is one statement in it.
  rw [Program.ofTrees_function (slice_function source)] at hbuild
  have hblock : Block.ofTrees .keep (ofShapes ("void f() \x7b" ++ source ++ "\n\x7d").toList items)
      = .ok ⟨[], [s]⟩ := by
    cases hitems : Block.ofTrees .keep
        (ofShapes ("void f() \x7b" ++ source ++ "\n\x7d").toList items) with
    | error e =>
      rw [hitems] at hbuild
      cases hbuild
    | ok b =>
      rw [hitems] at hbuild
      simpa [Except.map] using hbuild
  obtain ⟨t, -, ht⟩ := derives_of_single_statement hitems hstand.right.right.left hblock
  obtain ⟨shape, hshape⟩ := derives_of_relocate .statement nofun ht (byteLength source.toList)
  exact ⟨_, parse_eq_ok.mpr ⟨ts, shape, hts, hshape, rfl⟩⟩

end Function

/-! ## The entry points -/

/-- **The entry points agree on fragments.** A text is an expression just if the statement
around it returns this expression; it is a statement just if the program around it has one
function with this statement for its body and nothing else. If the fragment can be read and
has no meaning, neither has what is around it: the error is the same, further on by what
stands in front. -/
theorem entryPoints_agree (s : String) :
    (∀ e, Expression.parse s = .ok e
        ↔ Statement.parse ("return " ++ s ++ "\n;") = .ok (.returnValue e))
      ∧ (∀ st, Statement.parse s = .ok st
        ↔ Program.parse .keep ("void f() \x7b" ++ s ++ "\n\x7d")
          = .ok ⟨[], [⟨.void, "f", [], ⟨[], [st]⟩⟩]⟩)
      ∧ (∀ e, Expression.parse s = .error (.building e) →
        Statement.parse ("return " ++ s ++ "\n;")
          = .error (.building (relocate (.shift (byteLength "return ".toList)) e)))
      ∧ ∀ e, Statement.parse s = .error (.building e) →
        Program.parse .keep ("void f() \x7b" ++ s ++ "\n\x7d")
          = .error (.building (relocate (.shift (byteLength "void f() \x7b".toList)) e)) := by
  have hreturn : Function.Injective Statement.returnValue := fun _ _ h => by simpa using h
  have hfunction : Function.Injective fun st : Statement =>
      (⟨[], [⟨.void, "f", [], ⟨[], [st]⟩⟩]⟩ : Program) := fun _ _ h => by simpa using h
  obtain ⟨hexpression, hexpressionError⟩ := readSource_agrees hreturn
    (fun tree (h : SyntaxTree.parse .expression s = .ok tree) => Statement.parse_return h)
    fun _ => exists_tree_of_return
  obtain ⟨hstatement, hstatementError⟩ := readSource_agrees hfunction
    (fun tree (h : SyntaxTree.parse .statement s = .ok tree) => Program.parse_function h)
    fun _ => exists_tree_of_function
  exact ⟨hexpression, hstatement, hexpressionError, hstatementError⟩

/-- A comment to the end of the line ends there, and a division has no meaning anywhere. -/
theorem entryPoints_agree_comment :
    Expression.parse "a // b" = .ok (.location "a")
      ∧ Statement.parse ("return " ++ "a // b" ++ "\n;") = .ok (.returnValue (.location "a"))
      ∧ Statement.parse "a=1;//" = .ok (.assignment "a" (.intConstant 1))
      ∧ Program.parse .keep ("void f() \x7b" ++ "a=1;//" ++ "\n\x7d")
        = .ok ⟨[], [⟨.void, "f", [], ⟨[], [.assignment "a" (.intConstant 1)]⟩⟩]⟩
      ∧ Expression.parse "1/2" = .error (.building ⟨⟨1, 2⟩, .unsupportedOperator "/"⟩)
      ∧ Statement.parse ("return " ++ "1/2" ++ "\n;")
        = .error (.building ⟨⟨8, 9⟩, .unsupportedOperator "/"⟩)
      ∧ Statement.parse "a=1/2;" = .error (.building ⟨⟨3, 4⟩, .unsupportedOperator "/"⟩)
      ∧ Program.parse .keep ("void f() \x7b" ++ "a=1/2;" ++ "\n\x7d")
        = .error (.building ⟨⟨13, 14⟩, .unsupportedOperator "/"⟩) := by
  have hexpression : Expression.parse "a // b" = .ok (.location "a") := by decide +kernel
  have hstatement : Statement.parse "a=1;//" = .ok (.assignment "a" (.intConstant 1)) := by
    decide +kernel
  have hexpressionError : Expression.parse "1/2"
      = .error (.building ⟨⟨1, 2⟩, .unsupportedOperator "/"⟩) := by decide +kernel
  have hstatementError : Statement.parse "a=1/2;"
      = .error (.building ⟨⟨3, 4⟩, .unsupportedOperator "/"⟩) := by decide +kernel
  exact ⟨hexpression, ((entryPoints_agree _).1 _).mp hexpression,
    hstatement, ((entryPoints_agree _).2.1 _).mp hstatement,
    hexpressionError, (entryPoints_agree _).2.2.1 _ hexpressionError,
    hstatementError, (entryPoints_agree _).2.2.2 _ hstatementError⟩

end ImpFront
