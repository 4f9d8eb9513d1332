import ImpFront.Proofs.Failure.Outdone
import ImpFront.Proofs.FrontEnd.Relocation
import ImpFront.Proofs.Token.Joining

/-!
# Programs written one below the other

A program is a list of declarations, and nothing in it depends on what stands in
front or behind. So a program can be put together from parts: if the first part
is a program, then what the whole means is decided by the second, and it is the
program of the first with that of the second behind it – or the errors of the
second, further on (`Program.parse_append_newline`).

The tokens of the parts stay apart (`tokenize_append_newline`), the declarations
of the first part are read and forgotten (`Grammar.many_declaration_append`),
and those of the second have moved with their tokens, which means nothing to the
builder but for the places of its errors (`Program.ofTrees_relocate`).
-/

namespace ImpFront

open Ebnf SyntaxTree Relocatable

/-! ## Errors that move -/

instance : Relocatable SyntaxError := ⟨fun m e => ⟨relocate m e.span, e.fault⟩⟩

instance : Relocatable FrontEndError where
  relocate m
    | .syntactic errors => .syntactic (relocate m errors)
    | .building e => .building (relocate m e)

/-- A lexical error stands where its text does. -/
theorem SyntaxError.map_ofLexError_relocate (m : Relocation) (es : List LexError) :
    (relocate m es).map ofLexError = relocate m (es.map ofLexError) := by
  show (es.map _).map _ = (es.map _).map _
  rw [List.map_map, List.map_map]
  rfl

/-- A failure stands where the token it is found at does. At the end of the input, this
is the end of the source. -/
theorem SyntaxError.ofFailure_shift (size n : Nat) (e : Failure) :
    ofFailure (size + n) (relocate (.shift n) e) = relocate (.shift n) (ofFailure size e) := by
  obtain ⟨rest, expected⟩ := e
  cases rest <;> rfl

/-! ## Declarations -/

variable {policy : LocalInitializers} {ts : List Lexeme} {ds : List TreeShape}

theorem Program.ofTree_programNode (source : List Char) (size : Nat) :
    ofTree policy (ofShape source (Grammar.programNode size ds))
      = ofTrees policy (ds.map (ofShape source)) := by
  obtain ⟨span, hnode⟩ : ∃ span, Grammar.programNode size ds = ⟨.program, span, ds⟩ := by
    cases ds <;> exact ⟨_, rfl⟩
  rw [hnode, ofShape, ofTree_program, ofShapes_eq_map]

/-- **The program of a source is what its declarations make.** -/
theorem Program.parse_of_tokenize (policy : LocalInitializers) {source : String}
    (h : tokenize source = .ok ts) :
    Program.parse policy source
      = match Rule.readAll (Rule.many Grammar.declaration) ts with
        | .ok ds => (ofTrees policy (ds.map (ofShape source.toList))).mapError .building
        | .error e => .error (.syntactic [.ofFailure (byteLength source.toList) e]) := by
  unfold Program.parse readSource
  rw [SyntaxTree.parse_of_tokenize .program h, readAll_program]
  cases Rule.readAll (Rule.many Grammar.declaration) ts with
  | error e => rfl
  | ok ds =>
    show (ofTree policy (ofShape source.toList (Grammar.programNode _ ds))).mapError _ = _
    rw [ofTree_programNode]

/-- A source with lexical errors is no program. -/
theorem Program.parse_of_lexErrors (policy : LocalInitializers) {source : String}
    {es : List LexError} (h : tokenize source = .error es) :
    Program.parse policy source = .error (.syntactic (es.map SyntaxError.ofLexError)) := by
  unfold Program.parse readSource SyntaxTree.parse
  simp only [h]
  rfl

/-- Declarations that make up all the tokens are derived from them. -/
theorem derives_of_readAll_declarations (size : Nat)
    (h : Rule.readAll (Rule.many Grammar.declaration) ts = .ok ds) :
    Derives size (.repeated (.rule .varDecl <|> .rule .funcDecl)) ts ds := by
  have hprogram : (StartSymbol.program.rule size).readAll ts = .ok (Grammar.programNode size ds) := by
    rw [readAll_program, h]
    rfl
  obtain ⟨children, hchildren, hnode⟩ := derives_node rfl
    (reads_start_iff.mp (readAll_eq_ok.mp hprogram))
  obtain rfl : ds = children := by
    rw [← Grammar.children_programNode size ds, List.singleton_inj.mp hnode]
  exact hchildren

/-- What the declarations of a source leave are trees of declarations. -/
theorem isDeclaration_of_readAll {source : List Char} (hts : StandIn source ts)
    (h : Rule.readAll (Rule.many Grammar.declaration) ts = .ok ds) :
    ∀ t ∈ ds.map (ofShape source), IsDeclaration t := by
  refine forall_mem_of_repeated ?_
    ((derives_of_readAll_declarations 0 h).leaves fun l hl => hts.spells hl)
  rintro i (⟨s, rfl, hs⟩ | ⟨s, rfl, hs⟩)
  · exact ⟨s, rfl, .inl hs⟩
  · exact ⟨s, rfl, .inr hs⟩

/-- **Declarations that have moved mean the same**, if their tokens have kept their
texts. -/
theorem Program.ofTrees_relocate (policy : LocalInitializers) {source source' : List Char}
    {m : Relocation}
    (h : Rule.readAll (Rule.many Grammar.declaration) ts = .ok ds)
    (hts : StandIn source ts) (hts' : StandIn source' (relocate m ts))
    (hsame : ∀ l ∈ ts, l.SameText source source' m) :
    ofTrees policy ((relocate m ds).map (ofShape source'))
      = (ofTrees policy (ds.map (ofShape source))).mapError (relocate m) := by
  have hmoved : Rule.readAll (Rule.many Grammar.declaration) (relocate m ts)
      = .ok (relocate m ds) := by
    rw [Grammar.declaration_moves.many.readAll ts, h]
    rfl
  have hcores : ((relocate m ds).map (ofShape source')).map (core .stay)
      = (ds.map (ofShape source)).map (core m) := by
    show ((ds.map (relocate m)).map _).map _ = _
    rw [List.map_map, List.map_map, List.map_map]
    exact List.map_congr_left
      (core_relocate_of_derives (derives_of_readAll_declarations 0 h) rfl hts hsame)
  rw [← mapError_relocate_stay (ofTrees policy ((relocate m ds).map (ofShape source'))),
    ← ofTrees_core (isDeclaration_of_readAll hts' hmoved), hcores,
    ofTrees_core (isDeclaration_of_readAll hts h)]

/-- **The program of several trees** is put together from the programs of any two
parts. -/
theorem Program.ofTrees_append (policy : LocalInitializers) {ts us : List SyntaxTree}
    (h : ∀ t ∈ ts, IsDeclaration t) :
    ofTrees policy (ts ++ us) = (do
      let p ← ofTrees policy ts
      let q ← ofTrees policy us
      return ⟨p.globals ++ q.globals, p.functions ++ q.functions⟩) := by
  induction ts with
  | nil =>
    rw [List.nil_append, ofTrees_nil]
    cases ofTrees policy us <;> rfl
  | cons t ts ih =>
    obtain ⟨ht, hts⟩ := List.forall_mem_cons.mp h
    rw [List.cons_append]
    rcases ht with ht | ht
    · rw [ofTrees_cons_variable ht.kind_eq, ofTrees_cons_variable ht.kind_eq, ih hts]
      cases Variable.ofTree true t with
      | error e => rfl
      | ok v =>
        cases ofTrees policy ts with
        | error e => rfl
        | ok p => cases ofTrees policy us <;> rfl
    · rw [ofTrees_cons_function ht.kind_eq, ofTrees_cons_function ht.kind_eq, ih hts]
      cases Function.ofTree policy t with
      | error e => rfl
      | ok f =>
        cases ofTrees policy ts with
        | error e => rfl
        | ok p => cases ofTrees policy us <;> rfl

/-! ## Two sources, one below the other -/

/-- **Declarations behind others** are read as they are on their own. -/
theorem readAll_declarations_append {m : Relocation}
    (h : Rule.readAll (Rule.many Grammar.declaration) ts = .ok ds) (us : List Lexeme) :
    Rule.readAll (Rule.many Grammar.declaration) (ts ++ relocate m us)
      = (relocate m (Rule.readAll (Rule.many Grammar.declaration) us)).map (ds ++ ·) := by
  rw [Rule.readAll_of_map (Grammar.many_declaration_append
    (derives_of_readAll_declarations 0 h) (relocate m us)),
    Grammar.declaration_moves.many.readAll us]

section Below

variable {source gap more : List Char} {us : List Lexeme} {es : List TreeShape}

/-- In a text with more behind it, tokens keep their texts and their places. -/
theorem sameText_stay (h : StandIn source ts) :
    ∀ l ∈ ts, l.SameText source (source ++ gap ++ more) .stay := by
  intro l hl
  obtain ⟨text, -, hcuts⟩ := h.cuts l hl
  exact ((hcuts.append gap).append more).slice_eq.trans hcuts.slice_eq.symm

/-- Between other texts, tokens keep their texts. -/
theorem sameText_between {above below : List Char} (h : StandIn more us) :
    ∀ l ∈ us, l.SameText more (above ++ (more ++ below)) (.shift (byteLength above)) := by
  intro l hl
  obtain ⟨text, -, hcuts⟩ := h.cuts l hl
  exact ((hcuts.append below).behind above).slice_eq.trans hcuts.slice_eq.symm

/-- Behind another text, tokens keep their texts. -/
theorem sameText_shift {above : List Char} (h : StandIn more us) :
    ∀ l ∈ us, l.SameText more (above ++ more) (.shift (byteLength above)) := by
  intro l hl
  have hbetween : l.SameText more (above ++ (more ++ [])) (.shift (byteLength above)) :=
    sameText_between h l hl
  rwa [List.append_nil] at hbetween

/-- **What the declarations of two texts make**, one text behind the other: what those of
the first make and then what those of the second do. -/
theorem Program.ofTrees_behind (hts : StandIn source ts) (hus : StandIn more us)
    (hboth : StandIn (source ++ gap ++ more)
      (ts ++ relocate (.shift (byteLength (source ++ gap))) us))
    (h : Rule.readAll (Rule.many Grammar.declaration) ts = .ok ds)
    (h' : Rule.readAll (Rule.many Grammar.declaration) us = .ok es) :
    ofTrees policy ((ds ++ relocate (.shift (byteLength (source ++ gap))) es).map
        (ofShape (source ++ gap ++ more)))
      = (do
        let p ← ofTrees policy (ds.map (ofShape source))
        let q ← (ofTrees policy (es.map (ofShape more))).mapError
          (relocate (.shift (byteLength (source ++ gap))))
        return ⟨p.globals ++ q.globals, p.functions ++ q.functions⟩) := by
  have hstay : relocate Relocation.stay ts = ts := List.map_id ts
  have hstayShapes : relocate Relocation.stay ds = ds :=
    (List.map_congr_left fun s _ => relocate_stay_shape s).trans (List.map_id ds)
  have hfirst := ofTrees_relocate policy h hts (hstay.symm ▸ hboth.left)
    (sameText_stay hts)
  rw [hstayShapes, mapError_relocate_stay] at hfirst
  rw [List.map_append, ofTrees_append policy (isDeclaration_of_readAll hboth.left h), hfirst,
    ofTrees_relocate policy h' hus hboth.right (sameText_shift hus)]

end Below

/-- Below a program, a source that is cut into tokens adds what it declares, or is refused
for its own errors. -/
theorem Program.parse_append_of_tokenize {source gap more : String} {us : List Lexeme} {p : Program}
    (hts : tokenize source = .ok ts) (hus : tokenize more = .ok us)
    (hboth : tokenize (source ++ gap ++ more)
      = .ok (ts ++ relocate (.shift (byteLength (source.toList ++ gap.toList))) us))
    (h : Program.parse policy source = .ok p) :
    Program.parse policy (source ++ gap ++ more) = match Program.parse policy more with
      | .ok q => .ok ⟨p.globals ++ q.globals, p.functions ++ q.functions⟩
      | .error e =>
        .error (relocate (.shift (byteLength (source.toList ++ gap.toList))) e) := by
  have htext : (source ++ gap ++ more).toList = source.toList ++ gap.toList ++ more.toList := by
    simp
  rw [parse_of_tokenize policy hts] at h
  rw [parse_of_tokenize policy hboth, parse_of_tokenize policy hus]
  cases hds : Rule.readAll (Rule.many Grammar.declaration) ts with
  | error e => simp [hds] at h
  | ok ds =>
    rw [hds] at h
    rw [readAll_declarations_append hds]
    cases hes : Rule.readAll (Rule.many Grammar.declaration) us with
    | error e =>
      show Except.error (FrontEndError.syntactic [_]) = Except.error (.syntactic [_])
      rw [htext, byteLength_append, Nat.add_comm, SyntaxError.ofFailure_shift]
    | ok es =>
      have hstand := standIn_of_tokenize hboth
      rw [htext] at hstand ⊢
      show ((ofTrees policy ((ds ++ relocate _ es).map _)).mapError _) = _
      have hp : ofTrees policy (ds.map (ofShape source.toList)) = .ok p := mapError_eq_ok.mp h
      rw [ofTrees_behind (standIn_of_tokenize hts) (standIn_of_tokenize hus) hstand hds hes, hp]
      dsimp only
      cases ofTrees policy (es.map (ofShape more.toList)) <;> rfl

/-- **Programs concatenate.** Below a program, another source adds what it declares –
or is refused for its own errors, which stand further on by the program and the
newline. -/
theorem Program.parse_append_newline (policy : LocalInitializers) {source : String} {p : Program}
    (h : Program.parse policy source = .ok p) (more : String) :
    Program.parse policy (source ++ "\n" ++ more) = match Program.parse policy more with
      | .ok q => .ok ⟨p.globals ++ q.globals, p.functions ++ q.functions⟩
      | .error e => .error (relocate (.shift (byteLength source.toList + 1)) e) := by
  have hlen : byteLength source.toList + 1 = byteLength (source.toList ++ "\n".toList) := by
    rw [byteLength_append]
    rfl
  cases htok : tokenize source with
  | error es =>
    rw [parse_of_lexErrors policy htok] at h
    cases h
  | ok ts =>
    have hwhole := tokenize_append_newline htok more
    rw [hlen] at hwhole ⊢
    cases hmore : tokenize more with
    | error es =>
      rw [hmore] at hwhole
      rw [parse_of_lexErrors policy hwhole, parse_of_lexErrors policy hmore,
        SyntaxError.map_ofLexError_relocate]
      rfl
    | ok us =>
      rw [hmore] at hwhole
      exact parse_append_of_tokenize htok hmore hwhole h

/-- A variable, a comment to the end of its line, and a variable below them. -/
theorem Program.parse_append_newline_comment :
    Program.parse .keep "int n; // n" = .ok ⟨[⟨"n", .int, none⟩], []⟩
      ∧ Program.parse .keep ("int n; // n" ++ "\n" ++ " bool b;")
        = .ok ⟨[⟨"n", .int, none⟩] ++ [⟨"b", .bool, none⟩], [] ++ []⟩ := by
  have hfirst : Program.parse .keep "int n; // n" = .ok ⟨[⟨"n", .int, none⟩], []⟩ := by
    decide +kernel
  have hsecond : Program.parse .keep " bool b;" = .ok ⟨[⟨"b", .bool, none⟩], []⟩ := by
    decide +kernel
  have hboth := Program.parse_append_newline .keep hfirst " bool b;"
  rw [hsecond] at hboth
  exact ⟨hfirst, hboth⟩

end ImpFront
