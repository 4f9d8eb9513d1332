import ImpFront.Proofs.FrontEnd.Relocation
import ImpFront.Proofs.SyntaxError.Place

/-!
# Layout means nothing

Two sources that consist of the same tokens can differ in what is between these:
blanks, line breaks, comments. Such a difference has no effect. Both sources have
trees of one shape, or both are refused at the same token and with the same
message; and if the tokens have the same texts as well, both mean the same, or
have the same fault (`layout_irrelevant`).

Since no two tokens of a source start or stop at the same place, the second
source is the first with its tokens moved (`exists_relocation`), and that is all
there is to it: rules do not look at places, and builders look at no text but
that of the tokens.
-/

namespace ImpFront

open Ebnf SyntaxTree Relocatable

/-! ## What is left without places -/

namespace SyntaxTree

mutual
/-- **The kinds of a tree**, nested as they are, without places and texts. -/
def bare : SyntaxTree → SyntaxTree
  | ⟨kind, _, _, children⟩ => ⟨kind, .emptyAt 0, "", bareAll children⟩

/-- The kinds of several trees. -/
def bareAll : List SyntaxTree → List SyntaxTree
  | [] => []
  | t :: ts => t.bare :: bareAll ts
end

theorem bareAll_eq_map (ts : List SyntaxTree) : bareAll ts = ts.map bare := by
  induction ts with
  | nil => rw [bareAll, List.map_nil]
  | cons t ts ih => rw [bareAll, List.map_cons, ih]

/-- Neither the source nor the places matter to the kinds of a tree. -/
theorem bare_ofShape_relocate (source source' : List Char) (m : Relocation) (s : TreeShape) :
    (ofShape source' (relocate m s)).bare = (ofShape source s).bare := by
  induction s using TreeShape.induction with
  | node kind span children ih =>
    have hchildren : (relocate m children).map (fun c => (ofShape source' c).bare)
        = children.map fun c => (ofShape source c).bare := by
      show (children.map (relocate m)).map _ = _
      rw [List.map_map]
      exact List.map_congr_left ih
    rw [relocate_shape, ofShape, ofShape, bare, bare, bareAll_eq_map, bareAll_eq_map,
      ofShapes_eq_map, ofShapes_eq_map, List.map_map, List.map_map]
    exact congrArg (SyntaxTree.mk kind (.emptyAt 0) "") hchildren

end SyntaxTree

/-- **A fault without its place.** -/
def FrontEndError.unplaced : FrontEndError → FrontEndError
  | .syntactic errors => .syntactic (errors.map fun e => ⟨.emptyAt 0, e.fault⟩)
  | .building e => .building ⟨.emptyAt 0, e.fault⟩

/-- **Two results of parsing have the same shape**: trees of the same kinds, or
one error each, with the same message and at the same token. -/
inductive SameParse (source source' : String) (ts ts' : List Lexeme) :
    Except (List SyntaxError) SyntaxTree → Except (List SyntaxError) SyntaxTree → Prop
  | ok {tree tree' : SyntaxTree} (h : tree.bare = tree'.bare) :
      SameParse source source' ts ts' (.ok tree) (.ok tree')
  | error {e e' : SyntaxError} (k : Nat) (hk : k ≤ ts.length) (hfault : e.fault = e'.fault)
      (hplace : e.span = placeOf (byteLength source.toList) ts k)
      (hplace' : e'.span = placeOf (byteLength source'.toList) ts' k) :
      SameParse source source' ts ts' (.error [e]) (.error [e'])

/-! ## The second source is the first with its tokens moved -/

/-- Different numbers can be sent anywhere. -/
theorem exists_map_eq {as bs : List Nat} (hnodup : as.Nodup) (hlen : as.length = bs.length) :
    ∃ f : Nat → Nat, as.map f = bs := by
  induction as generalizing bs with
  | nil => exact ⟨id, (List.length_eq_zero_iff.mp hlen.symm).symm⟩
  | cons a as ih =>
    cases bs with
    | nil => simp at hlen
    | cons b bs =>
      obtain ⟨ha, hnodup⟩ := List.nodup_cons.mp hnodup
      obtain ⟨f, hf⟩ := ih hnodup (by simpa using hlen)
      refine ⟨fun n => if n = a then b else f n, ?_⟩
      rw [List.map_cons, if_pos rfl, ← hf]
      congr 1
      exact List.map_congr_left fun n hn => if_neg (ne_of_mem_of_not_mem hn ha)

variable {source : List Char} {ts ts' : List Lexeme}

/-- Each token starts and stops behind the one before. -/
theorem StandIn.pairwise_lt (h : StandIn source ts) :
    ts.Pairwise fun a b => a.span.start < b.span.start ∧ a.span.stop < b.span.stop := by
  refine (List.pairwise_map.mp h.ordered).imp_of_mem fun {a b} ha hb hbefore => ?_
  have hrooma := h.start_lt_stop ha
  have hroomb := h.start_lt_stop hb
  unfold Span.Before at hbefore
  omega

/-- Lists of tokens are told apart by the tokens and by their places. -/
theorem eq_relocate {m : Relocation} (htokens : ts.map Lexeme.token = ts'.map Lexeme.token)
    (hstart : (ts.map fun l => l.span.start).map m.start = ts'.map fun l => l.span.start)
    (hstop : (ts.map fun l => l.span.stop).map m.stop = ts'.map fun l => l.span.stop) :
    ts' = relocate m ts := by
  induction ts generalizing ts' with
  | nil => exact (List.map_eq_nil_iff.mp htokens.symm).trans rfl
  | cons l ts ih =>
    cases ts' with
    | nil => simp at htokens
    | cons l' ts' =>
      obtain ⟨htoken, htokens⟩ := List.cons.inj htokens
      obtain ⟨hstart₁, hstart⟩ := List.cons.inj hstart
      obtain ⟨hstop₁, hstop⟩ := List.cons.inj hstop
      rw [relocate_cons, ← ih htokens hstart hstop]
      congr 1
      obtain ⟨token, start, stop⟩ := l'
      obtain rfl : l.token = token := htoken
      obtain rfl : m.start l.span.start = start := hstart₁
      obtain rfl : m.stop l.span.stop = stop := hstop₁
      rfl

/-- **The same tokens in another source are these tokens, moved.** Where there is
no token, the end of the source is moved. -/
theorem exists_relocation (hts : StandIn source ts)
    (htokens : ts.map Lexeme.token = ts'.map Lexeme.token) (size size' : Nat) :
    ∃ m, ts' = relocate m ts ∧ (ts = [] → relocate m (Span.emptyAt size) = .emptyAt size') := by
  have hlen : ts.length = ts'.length := by simpa using congrArg List.length htokens
  by_cases hnil : ts = []
  · subst hnil
    obtain rfl := List.length_eq_zero_iff.mp hlen.symm
    exact ⟨⟨fun _ => size', fun _ => size'⟩, rfl, fun _ => rfl⟩
  · have hsend (place : Lexeme → Nat) (h : ts.Pairwise fun a b => place a < place b) :
        ∃ f : Nat → Nat, (ts.map place).map f = ts'.map place :=
      exists_map_eq (List.pairwise_map.mpr (h.imp Nat.ne_of_lt)) (by simpa using hlen)
    obtain ⟨start, hstart⟩ := hsend _ (hts.pairwise_lt.imp And.left)
    obtain ⟨stop, hstop⟩ := hsend _ (hts.pairwise_lt.imp And.right)
    exact ⟨⟨start, stop⟩, eq_relocate htokens hstart hstop, fun h => absurd h hnil⟩

/-! ## Results of parsing -/

/-- A failure that has moved says the same. -/
theorem fault_ofFailure_relocate (m : Relocation) (size size' : Nat) (e : Failure) :
    (SyntaxError.ofFailure size' (relocate m e)).fault = (SyntaxError.ofFailure size e).fault := by
  obtain ⟨rest, expected⟩ := e
  cases rest <;> rfl

/-- **What parsing makes of moved tokens**: the moved shape, or the moved
failure. -/
theorem parse_relocate {source source' : String} {m : Relocation} (start : StartSymbol)
    (htok : tokenize source = .ok ts) (htok' : tokenize source' = .ok (relocate m ts))
    (h : ts = [] → relocate m (Span.emptyAt (byteLength source.toList))
      = .emptyAt (byteLength source'.toList)) :
    (∃ shape, Derives (byteLength source.toList) (.rule start.nonterminal) ts [shape]
        ∧ SyntaxTree.parse start source = .ok (ofShape source.toList shape)
        ∧ SyntaxTree.parse start source' = .ok (ofShape source'.toList (relocate m shape)))
      ∨ ∃ us e, ts = us ++ e.rest
        ∧ SyntaxTree.parse start source = .error [.ofFailure (byteLength source.toList) e]
        ∧ SyntaxTree.parse start source'
          = .error [.ofFailure (byteLength source'.toList) (relocate m e)] := by
  have hmoved := start.readAll_relocate ts h
  cases hread : (start.rule (byteLength source.toList)).readAll ts with
  | ok shape =>
    rw [hread] at hmoved
    refine .inl ⟨shape, reads_start_iff.mp (readAll_eq_ok.mp hread), ?_, ?_⟩
    · rw [parse_of_tokenize start htok, hread]
    · rw [parse_of_tokenize start htok', hmoved]
      rfl
  | error e =>
    rw [hread] at hmoved
    obtain ⟨-, us, hus, -⟩ := fits_of_readAll (Grammar.start_blames start).toExplains hread
    refine .inr ⟨us, e, hus, ?_, ?_⟩
    · rw [parse_of_tokenize start htok, hread]
    · rw [parse_of_tokenize start htok', hmoved]
      rfl

/-- Moved tokens are parsed to the same shape. -/
theorem sameParse_relocate {source source' : String} {m : Relocation} (start : StartSymbol)
    (htok : tokenize source = .ok ts) (htok' : tokenize source' = .ok (relocate m ts))
    (h : ts = [] → relocate m (Span.emptyAt (byteLength source.toList))
      = .emptyAt (byteLength source'.toList)) :
    SameParse source source' ts (relocate m ts) (SyntaxTree.parse start source)
      (SyntaxTree.parse start source') := by
  rcases parse_relocate start htok htok' h with ⟨shape, -, hok, hok'⟩ | ⟨us, e, rfl, herr, herr'⟩
  · rw [hok, hok']
    exact .ok (bare_ofShape_relocate _ _ m shape).symm
  · rw [herr, herr']
    refine .error us.length (by simp) (fault_ofFailure_relocate m _ _ e).symm
      (SyntaxError.span_ofFailure_append _ us e) ?_
    rw [relocate_append, ← length_relocate m us]
    exact SyntaxError.span_ofFailure_append _ (relocate m us) (relocate m e)

/-- **Moved tokens with the same texts mean the same**, up to places. -/
theorem readSource_relocate {α : Type} {source source' : String} {m : Relocation}
    {start : StartSymbol} {build : SyntaxTree → Except BuildError α}
    (hbuild : RespectsCore start build) (htok : tokenize source = .ok ts)
    (htok' : tokenize source' = .ok (relocate m ts))
    (h : ts = [] → relocate m (Span.emptyAt (byteLength source.toList))
      = .emptyAt (byteLength source'.toList))
    (hsame : ∀ l ∈ ts, l.SameText source.toList source'.toList m) :
    (readSource start build source).mapError FrontEndError.unplaced
      = (readSource start build source').mapError FrontEndError.unplaced := by
  unfold readSource
  rcases parse_relocate start htok htok' h with ⟨shape, hder, hok, hok'⟩ | ⟨us, e, -, herr, herr'⟩
  · have hcore := core_relocate_of_start hder (standIn_of_tokenize htok) hsame
    have heq := hbuild.build_eq (isTree_of_parse hok) (isTree_of_parse hok') hcore
    rw [hok, hok']
    show ((build _).mapError FrontEndError.building).mapError _
      = ((build _).mapError FrontEndError.building).mapError _
    rw [heq]
    cases build (ofShape source.toList shape) <;> rfl
  · rw [herr, herr']
    show Except.error (FrontEndError.syntactic [⟨_, SyntaxError.fault _⟩])
      = Except.error (FrontEndError.syntactic [⟨_, SyntaxError.fault _⟩])
    rw [fault_ofFailure_relocate]

/-- **Layout is irrelevant.** Sources that consist of the same tokens are parsed
to the same shape, or refused at the same token and with the same message. If
the tokens have the same texts as well, the sources mean the same, or have the
same fault. -/
theorem layout_irrelevant {source source' : String} {ts ts' : List Lexeme}
    (htok : tokenize source = .ok ts) (htok' : tokenize source' = .ok ts')
    (htokens : ts.map Lexeme.token = ts'.map Lexeme.token) :
    (∀ start, SameParse source source' ts ts' (SyntaxTree.parse start source)
        (SyntaxTree.parse start source'))
      ∧ (ts.map (fun l => slice source.toList l.span)
          = ts'.map (fun l => slice source'.toList l.span) →
        (∀ policy, (Program.parse policy source).mapError FrontEndError.unplaced
            = (Program.parse policy source').mapError FrontEndError.unplaced)
          ∧ (Statement.parse source).mapError FrontEndError.unplaced
            = (Statement.parse source').mapError FrontEndError.unplaced
          ∧ (Expression.parse source).mapError FrontEndError.unplaced
            = (Expression.parse source').mapError FrontEndError.unplaced) := by
  obtain ⟨m, rfl, hnil⟩ := exists_relocation (standIn_of_tokenize htok) htokens
    (byteLength source.toList) (byteLength source'.toList)
  refine ⟨fun start => sameParse_relocate start htok htok' hnil, fun htexts => ?_⟩
  have hsame : ∀ l ∈ ts, l.SameText source.toList source'.toList m := by
    rw [show relocate m ts = ts.map (relocate m) from rfl, List.map_map] at htexts
    exact fun l hl => (List.map_inj_left.mp htexts l hl).symm
  exact ⟨fun policy => readSource_relocate (Program.respectsCore policy) htok htok' hnil hsame,
    readSource_relocate (Statement.respectsCore .keep) htok htok' hnil hsame,
    readSource_relocate Expression.respectsCore htok htok' hnil hsame⟩

/-- A difference, written without blanks and with a comment in it. -/
theorem layout_irrelevant_comment :
    tokenize "a-1" = .ok [⟨.ident, ⟨0, 1⟩⟩, ⟨.symbol .minus, ⟨1, 2⟩⟩, ⟨.intLiteral, ⟨2, 3⟩⟩]
      ∧ tokenize "a // less\n- 1" = .ok
          [⟨.ident, ⟨0, 1⟩⟩, ⟨.symbol .minus, ⟨10, 11⟩⟩, ⟨.intLiteral, ⟨12, 13⟩⟩]
      ∧ SameParse "a-1" "a // less\n- 1"
          [⟨.ident, ⟨0, 1⟩⟩, ⟨.symbol .minus, ⟨1, 2⟩⟩, ⟨.intLiteral, ⟨2, 3⟩⟩]
          [⟨.ident, ⟨0, 1⟩⟩, ⟨.symbol .minus, ⟨10, 11⟩⟩, ⟨.intLiteral, ⟨12, 13⟩⟩]
          (SyntaxTree.parse .expression "a-1") (SyntaxTree.parse .expression "a // less\n- 1")
      ∧ (Expression.parse "a-1").mapError FrontEndError.unplaced
          = (Expression.parse "a // less\n- 1").mapError FrontEndError.unplaced := by
  have htok : tokenize "a-1" = .ok
      [⟨.ident, ⟨0, 1⟩⟩, ⟨.symbol .minus, ⟨1, 2⟩⟩, ⟨.intLiteral, ⟨2, 3⟩⟩] := by decide +kernel
  have htok' : tokenize "a // less\n- 1" = .ok
      [⟨.ident, ⟨0, 1⟩⟩, ⟨.symbol .minus, ⟨10, 11⟩⟩, ⟨.intLiteral, ⟨12, 13⟩⟩] := by decide +kernel
  obtain ⟨hparse, hmeaning⟩ := layout_irrelevant htok htok' (by decide +kernel)
  exact ⟨htok, htok', hparse .expression, (hmeaning (by decide +kernel)).2.2⟩

end ImpFront
