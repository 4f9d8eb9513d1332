import ImpFront.Proofs.Token.Joining

/-!
# Tokens with gaps between them

A source can be written by writing tokens one after another with gaps between them
(`written`). The lexer finds these tokens again, each where it was written
(`tokenize_written`), because a gap lasts until the next token, whatever the comments
in it consist of (`kept_pieces_append_gap`), and a token does not take in the beginning
of a gap (`IsLastGap.startsWithout_goesOn`).

The exception is a slash: in front of a comment it makes another comment. So the gap
behind a slash begins with a blank, where there is one. This goes for the last gap as
well (`not_forall_tokenize_written`).
-/

namespace ImpFront

open Lexer

variable {gap cs : List Char} {t : Token}

/-! ## Gaps in front of a text -/

/-- **What is skipped in front of a text** only moves what is kept of it. -/
theorem kept_pieces_append_skipped {text : List Char} (htext : Piece.Genuine ⟨.skipped, text⟩)
    (hends : StartsWithout (Piece.goesOn ⟨.skipped, text⟩) cs) (offset : Nat) :
    kept (placed offset (pieces (text ++ cs)))
      = kept (placed (offset + byteLength text) (pieces cs)) := by
  rw [pieces_append_piece htext hends, placed, kept, List.filter_cons_of_neg (by simp)]
  rfl

/-- **A gap in front of a text** only moves what is kept of it, whatever the text begins
with: comments in a gap are closed, and blanks are skipped together with others. -/
theorem kept_pieces_append_gap (hgap : IsGap gap) (offset : Nat) (cs : List Char) :
    kept (placed offset (pieces (gap ++ cs)))
      = kept (placed (offset + byteLength gap) (pieces cs)) := by
  induction hgap generalizing offset with
  | nil => rfl
  | blanks hblank _ ih =>
    rw [List.append_assoc, kept_pieces_append_blanks hblank, ih, byteLength_append, Nat.add_assoc]
  | @lineComment body rest hbody _ ih =>
    -- The newline ends the comment, and it is a blank by itself.
    have htext : '/' :: '/' :: (body ++ '\n' :: rest) = '/' :: '/' :: body ++ (['\n'] ++ rest) :=
      rfl
    have hends : StartsWithout (Piece.goesOn ⟨.skipped, '/' :: '/' :: body⟩)
        (['\n'] ++ rest ++ cs) := startsWithout_cons.mpr rfl
    rw [htext, List.append_assoc, kept_pieces_append_skipped (.lineComment hbody) hends,
      List.append_assoc, kept_pieces_append_blanks rfl, ih]
    simp only [byteLength_append, Nat.add_assoc]
  | @blockComment inner rest hinner _ ih =>
    have htext : '/' :: '*' :: (inner ++ commentEnd ++ rest)
        = '/' :: '*' :: (inner ++ commentEnd) ++ rest := rfl
    rw [htext, List.append_assoc,
      kept_pieces_append_skipped (.blockComment hinner) (fun _ _ => rfl), ih]
    simp only [byteLength_append, Nat.add_assoc]

/-- **Of the last gap** nothing is kept, also where a line comment ends with the
source. -/
theorem kept_pieces_lastGap (hgap : IsLastGap gap) (offset : Nat) :
    kept (placed offset (pieces gap)) = [] := by
  rcases hgap with hgap | ⟨gap, body, hgap, hbody, rfl⟩
  · have hkept := kept_pieces_append_gap hgap offset []
    rw [List.append_nil] at hkept
    rw [hkept, pieces_nil]
    rfl
  · have hcomment := kept_pieces_append_skipped (.lineComment hbody) (startsWithout_nil _)
      (offset + byteLength gap)
    rw [List.append_nil] at hcomment
    rw [kept_pieces_append_gap hgap, hcomment, pieces_nil]
    rfl

/-! ## Gaps behind a token -/

/-- **A gap begins with a blank**, unless it is empty. -/
def BeginsBlank (gap : List Char) : Prop := gap.head?.all isBlank = true

instance (gap : List Char) : Decidable (BeginsBlank gap) :=
  inferInstanceAs (Decidable (gap.head?.all isBlank = true))

/-- **A gap begins** with a blank or with a comment. -/
theorem IsGap.head (hgap : IsGap gap) : ∀ c ∈ gap.head?, isBlank c = true ∨ c = '/' := by
  induction hgap with
  | nil => simp
  | @blanks text rest hblank _ ih =>
    cases text with
    | nil => exact ih
    | cons d text =>
      rw [List.all_cons, Bool.and_eq_true] at hblank
      rintro c hc
      obtain rfl := Option.mem_some_iff.mp hc
      exact .inl hblank.1
  | lineComment _ _ _ => exact fun c hc => .inr (Option.mem_some_iff.mp hc).symm
  | blockComment _ _ _ => exact fun c hc => .inr (Option.mem_some_iff.mp hc).symm

theorem IsLastGap.head (hgap : IsLastGap gap) : ∀ c ∈ gap.head?, isBlank c = true ∨ c = '/' := by
  rcases hgap with hgap | ⟨gap, body, hgap, -, rfl⟩
  · exact hgap.head
  · cases gap with
    | nil => exact fun c hc => .inr (Option.mem_some_iff.mp hc).symm
    | cons d gap => exact hgap.head

/-- No token takes in a blank. -/
theorem Token.goesOn_of_isBlank (t : Token) {c : Char} (hc : isBlank c = true) :
    t.goesOn c = false := by
  have hpart := isWordPart_of_isBlank hc
  have hdigit : c.isDigit = false := by
    by_contra hdigit
    simp [isWordPart_of_isDigit (by simpa using hdigit)] at hpart
  cases t with
  | keyword k => exact hpart
  | ident => exact hpart
  | intLiteral => exact hdigit
  | symbol s =>
    simp only [isBlank, Bool.or_eq_true, beq_iff_eq] at hc
    obtain (((rfl | rfl) | rfl) | rfl) | rfl := hc <;> cases s <;> rfl

/-- Only a slash takes in a slash. -/
theorem Token.goesOn_slash (h : t ≠ .symbol .slash) : t.goesOn '/' = false := by
  cases t with
  | symbol s => cases s <;> first | rfl | exact absurd rfl h
  | _ => rfl

/-- **A token does not take in the beginning of a gap**, but a slash may. -/
theorem IsLastGap.startsWithout_goesOn (hgap : IsLastGap gap)
    (hslash : t = .symbol .slash → BeginsBlank gap) : StartsWithout t.goesOn gap := by
  intro c hc
  by_cases ht : t = .symbol .slash
  · exact t.goesOn_of_isBlank ((Option.all_eq_true _ _).mp (hslash ht) c hc)
  · obtain hblank | rfl := hgap.head c hc
    · exact t.goesOn_of_isBlank hblank
    · exact Token.goesOn_slash ht

/-! ## Texts written with gaps -/

/-- **The text** of a gap and words, each with the gap behind it. -/
def written (gap : List Char) : List (Item × List Char) → List Char
  | [] => gap
  | ((_, text), next) :: words => gap ++ (text ++ written next words)

/-- **The words as lexemes**, each where it is written; the text starts at the offset. -/
def lexemesAt (offset : Nat) (gap : List Char) : List (Item × List Char) → List Lexeme
  | [] => []
  | ((t, text), next) :: words =>
    ⟨t, ⟨offset + byteLength gap, offset + byteLength gap + byteLength text⟩⟩
      :: lexemesAt (offset + byteLength gap + byteLength text) next words

/-- **Words that are kept apart** by the gaps between them. In front of the first and
behind the last there may be a gap as well, and a comment to the end of the last line. -/
inductive KeptApart : List Char → List (Item × List Char) → Prop
  | last {gap : List Char} (hgap : IsLastGap gap) : KeptApart gap []
  | word {gap text next : List Char} {t : Token} {words : List (Item × List Char)}
      (hgap : IsGap gap) (hspells : t.Spells text)
      (hnext : words ≠ [] → next ≠ [] ∧ (t = .symbol .slash → BeginsBlank next))
      (hrest : KeptApart next words) :
      KeptApart gap (((t, text), next) :: words)

/-- A single word, with a gap on either side. -/
theorem keptApart_singleton {text next : List Char} (hgap : IsGap gap) (hspells : t.Spells text)
    (hnext : IsLastGap next) : KeptApart gap [((t, text), next)] :=
  .word hgap hspells (fun hne => absurd rfl hne) (.last hnext)

theorem KeptApart.isLastGap {words : List (Item × List Char)} (h : KeptApart gap words) :
    IsLastGap gap := by
  cases h with
  | last hgap => exact hgap
  | word hgap _ _ _ => exact .inl hgap

/-- What a text begins with is its first gap, unless there is none in front of a word. -/
theorem startsWithout_written {q : Char → Bool} {words : List (Item × List Char)}
    (hne : words ≠ [] → gap ≠ []) (hgap : StartsWithout q gap) :
    StartsWithout q (written gap words) := by
  cases words with
  | nil => exact hgap
  | cons w words => exact (startsWithout_append (hne (List.cons_ne_nil _ _)) _).mpr hgap

/-- **What is found in a text that is written so**: the words as lexemes, and no error. -/
theorem filterMap_placed_written {words : List (Item × List Char)} (h : KeptApart gap words)
    (hlast : ∀ w ∈ words.getLast?, w.1.1 = .symbol .slash → BeginsBlank w.2) (offset : Nat) :
    (placed offset (pieces (written gap words))).filterMap lexeme? = lexemesAt offset gap words
      ∧ (placed offset (pieces (written gap words))).filterMap error? = [] := by
  rw [← filterMap_kept lexeme?_of_skipped, ← filterMap_kept error?_of_skipped]
  induction h generalizing offset with
  | @last gap hgap =>
    rw [written, kept_pieces_lastGap hgap]
    exact ⟨rfl, rfl⟩
  | @word gap text next t words hgap hspells hnext hrest ih =>
    have hslash : t = .symbol .slash → BeginsBlank next := by
      cases words with
      | nil => exact hlast _ rfl
      | cons w words => exact (hnext (List.cons_ne_nil _ _)).2
    have hends : StartsWithout t.goesOn (written next words) :=
      startsWithout_written (fun hne => (hnext hne).1)
        (hrest.isLastGap.startsWithout_goesOn hslash)
    have hlast' : ∀ w ∈ words.getLast?, w.1.1 = .symbol .slash → BeginsBlank w.2 := by
      intro w hw
      obtain ⟨front, rfl⟩ := List.getLast?_eq_some_iff.mp hw
      exact hlast w (by rw [← List.cons_append, List.getLast?_concat]; rfl)
    obtain ⟨hlexemes, herrors⟩ := ih hlast' (offset + byteLength gap + byteLength text)
    rw [written, kept_pieces_append_gap hgap, pieces_append_token hspells hends, placed, kept,
      List.filter_cons_of_pos (by simp)]
    exact ⟨congrArg (List.cons _) hlexemes, herrors⟩

/-- **A slash at the end needs a blank as well**: with a comment right behind it, it is the
beginning of another comment. -/
theorem not_forall_tokenize_written :
    ¬ ∀ (gap : List Char) (words : List (Item × List Char)), KeptApart gap words →
      tokenize (String.ofList (written gap words)) = .ok (lexemesAt 0 gap words) := by
  intro h
  have hcomment : IsGap "/**/".toList :=
    .blockComment (show ¬ commentEnd <:+: [] by decide) .nil
  have hslash := h [] [((.symbol .slash, "/".toList), "/**/".toList)]
    (keptApart_singleton .nil rfl (.inl hcomment))
  exact absurd hslash (by decide +kernel)

/-- **Tokens that are kept apart are found again**, each where it was written, if the last
gap keeps a slash apart as well. -/
theorem tokenize_written {words : List (Item × List Char)} (h : KeptApart gap words)
    (hlast : ∀ w ∈ words.getLast?, w.1.1 = .symbol .slash → BeginsBlank w.2) :
    tokenize (String.ofList (written gap words)) = .ok (lexemesAt 0 gap words) := by
  obtain ⟨hlexemes, herrors⟩ := filterMap_placed_written h hlast 0
  refine tokenize_eq_ok_iff.mpr ⟨?_, ?_⟩
  · rw [String.toList_ofList]
    exact herrors
  · rw [String.toList_ofList]
    exact hlexemes.symm

/-- A comment that begins with what would end it, a slash in front of a comment, and a
comment that ends with the source. -/
theorem tokenize_written_comments :
    let gap := "// /*\n".toList
    let words : List (Item × List Char) := [((.ident, "intx".toList), "/*/ //é**/".toList),
      ((.symbol .slash, "/".toList), " /**/".toList),
      ((.symbol .lessEqual, "<=".toList), "// end".toList)]
    KeptApart gap words
      ∧ String.ofList (written gap words) = "// /*\nintx/*/ //é**// /**/<=// end"
      ∧ tokenize "// /*\nintx/*/ //é**// /**/<=// end" = .ok
        [⟨.ident, ⟨6, 10⟩⟩, ⟨.symbol .slash, ⟨21, 22⟩⟩, ⟨.symbol .lessEqual, ⟨27, 29⟩⟩] := by
  intro gap words
  have hfirst : IsGap gap := .lineComment (show '\n' ∉ " /*".toList by decide) .nil
  have hbehindWord : IsGap "/*/ //é**/".toList :=
    .blockComment (show ¬ commentEnd <:+: "/ //é*".toList by decide) .nil
  have hbehindSlash : IsGap " /**/".toList :=
    .blanks (show " ".toList.all isBlank = true by decide)
      (.blockComment (show ¬ commentEnd <:+: [] by decide) .nil)
  have hlast : IsLastGap "// end".toList :=
    .inr ⟨[], " end".toList, .nil, by decide, rfl⟩
  have hapart : KeptApart gap words :=
    .word hfirst ⟨⟨'i', "ntx".toList, rfl, by decide, by decide⟩, by decide +kernel⟩
      (fun _ => by decide)
      (.word hbehindWord rfl (fun _ => by decide) (keptApart_singleton hbehindSlash rfl hlast))
  have hsource : String.ofList (written gap words) = "// /*\nintx/*/ //é**// /**/<=// end" := by
    decide +kernel
  have hlexemes : lexemesAt 0 gap words
      = [⟨.ident, ⟨6, 10⟩⟩, ⟨.symbol .slash, ⟨21, 22⟩⟩, ⟨.symbol .lessEqual, ⟨27, 29⟩⟩] := by
    decide +kernel
  refine ⟨hapart, hsource, ?_⟩
  rw [← hsource, ← hlexemes]
  exact tokenize_written hapart (by decide)

end ImpFront
