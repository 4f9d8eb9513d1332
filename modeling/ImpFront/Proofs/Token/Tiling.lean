import ImpFront.Proofs.Token.Pieces

/-!
# Nothing is lost between the tokens

The lexer keeps the tokens of a source and the stretches that are none, and
skips the rest. What it skips is a **gap** (`IsGap`): blanks, comments that run
to the end of their line, and block comments that are closed. With the gaps
between them, what is kept covers the source without a hole or an overlap
(`Tiles`).

A gap cannot end within a line comment, because the comment would go on over
what comes next – except at the very end of the source, where nothing comes.
This is the only reason why `IsLastGap` is a second notion, and `MayStandBefore`
a third: while the pieces are gone through, a line comment is open until the
newline behind it is seen.
-/

namespace ImpFront

open Lexer

/-! ## Gaps -/

/-- **Text that only separates tokens.** -/
inductive IsGap : List Char → Prop
  | nil : IsGap []
  /-- Blanks. -/
  | blanks {text rest : List Char} (h : text.all isBlank = true) (hrest : IsGap rest) :
      IsGap (text ++ rest)
  /-- A line comment, with the newline that ends it. -/
  | lineComment {body rest : List Char} (h : '\n' ∉ body) (hrest : IsGap rest) :
      IsGap ('/' :: '/' :: (body ++ '\n' :: rest))
  /-- A block comment that ends at its first `*/`. -/
  | blockComment {inner rest : List Char} (h : ¬ commentEnd <:+: inner) (hrest : IsGap rest) :
      IsGap ('/' :: '*' :: (inner ++ commentEnd ++ rest))

/-- A gap with a line comment behind it that no newline has ended. -/
def IsOpenGap (text : List Char) : Prop :=
  ∃ gap body, IsGap gap ∧ '\n' ∉ body ∧ text = gap ++ '/' :: '/' :: body

/-- **What may stand behind the last token**: here a line comment may also end
with the source. -/
def IsLastGap (text : List Char) : Prop := IsGap text ∨ IsOpenGap text

theorem IsGap.append {gap more : List Char} (hgap : IsGap gap) (hmore : IsGap more) :
    IsGap (gap ++ more) := by
  induction hgap with
  | nil => exact hmore
  | blanks h _ ih =>
    rw [List.append_assoc]
    exact .blanks h ih
  | lineComment h _ ih =>
    simp only [List.cons_append, List.append_assoc]
    exact .lineComment h ih
  | blockComment h _ ih =>
    simp only [List.cons_append, List.append_assoc]
    rw [← List.append_assoc]
    exact .blockComment h ih

/-- A newline closes the comment. -/
theorem IsOpenGap.append_newline {gap text : List Char} (hgap : IsOpenGap gap)
    (h : text.all isBlank = true) : IsGap (gap ++ '\n' :: text) := by
  obtain ⟨gap, body, hgap, hbody, rfl⟩ := hgap
  rw [List.append_assoc]
  refine hgap.append ?_
  have htext : IsGap text := by simpa using IsGap.blanks h .nil
  exact .lineComment hbody htext

/-- The gap is complete, or the text behind it begins with the newline that
completes it. -/
def MayStandBefore (gap rest : List Char) : Prop :=
  IsGap gap ∨ IsOpenGap gap ∧ StartsWithout (· != '\n') rest

/-- No token starts with a blank. -/
theorem Token.Spells.startsWithout_isBlank {t : Token} {text : List Char} (h : t.Spells text) :
    StartsWithout isBlank text := by
  have hword (h : IsWord text) : StartsWithout isBlank text := by
    obtain ⟨c, cs, rfl, hc, -⟩ := h
    exact startsWithout_cons.mpr (isBlank_of_isWordPart (isWordPart_of_isWordStart hc))
  cases t with
  | keyword k =>
    obtain rfl : text = k.spelling.toList := h
    exact hword (isWord_spelling k)
  | symbol s =>
    obtain rfl : text = s.spelling.toList := h
    cases s <;> exact startsWithout_cons.mpr rfl
  | intLiteral =>
    obtain ⟨hne, hdigits⟩ := h
    obtain ⟨c, cs, rfl⟩ := List.exists_cons_of_ne_nil hne
    rw [List.all_cons, Bool.and_eq_true] at hdigits
    exact startsWithout_cons.mpr (isBlank_of_isWordPart (isWordPart_of_isDigit hdigits.1))
  | ident => exact hword h.1

/-- Only a run of blanks starts with a blank. -/
theorem Piece.Genuine.all_isBlank {p : Piece} (h : p.Genuine)
    (hstarts : ¬ StartsWithout isBlank p.text) :
    p.role = .skipped ∧ p.text.all isBlank = true := by
  cases h with
  | token h => exact absurd h.startsWithout_isBlank hstarts
  | blanks _ h => exact ⟨rfl, h⟩
  | lineComment _ => exact absurd (startsWithout_cons.mpr rfl) hstarts
  | blockComment _ => exact absurd (startsWithout_cons.mpr rfl) hstarts
  | unknown h _ _ => exact absurd (startsWithout_cons.mpr h) hstarts
  | unclosed _ => exact absurd (startsWithout_cons.mpr rfl) hstarts

/-- A text that starts with a newline starts with a blank. -/
theorem exists_newline {text : List Char} (hne : text ≠ [])
    (h : StartsWithout (· != '\n') text) : ∃ rest, text = '\n' :: rest := by
  obtain ⟨c, cs, rfl⟩ := List.exists_cons_of_ne_nil hne
  obtain rfl : c = '\n' := by simpa using h
  exact ⟨cs, rfl⟩

variable {gap rest : List Char} {p : Piece}

/-- **A skipped piece makes the gap longer.** -/
theorem MayStandBefore.append_skipped (hp : p.Genuine) (hrole : p.role = .skipped)
    (hends : StartsWithout p.goesOn rest) (h : MayStandBefore gap (p.text ++ rest)) :
    MayStandBefore (gap ++ p.text) rest := by
  rcases h with hgap | ⟨hopen, hnewline⟩
  · cases hp with
    | token _ => simp at hrole
    | @blanks text _ h =>
      refine .inl (hgap.append ?_)
      simpa using IsGap.blanks h .nil
    | @lineComment body h => exact .inr ⟨⟨gap, body, hgap, h, rfl⟩, hends⟩
    | @blockComment inner h =>
      refine .inl (hgap.append ?_)
      simpa using IsGap.blockComment h .nil
    | unknown _ _ _ => simp at hrole
    | unclosed _ => simp at hrole
  · rw [startsWithout_append hp.ne_nil] at hnewline
    obtain ⟨text, htext⟩ := exists_newline hp.ne_nil hnewline
    have hblank := (hp.all_isBlank (by rw [htext]; simp [isBlank])).2
    rw [htext, List.all_cons, Bool.and_eq_true] at hblank
    rw [htext]
    exact .inl (hopen.append_newline hblank.2)

/-- In front of what is kept, the gap is complete. -/
theorem MayStandBefore.isGap (hp : p.Genuine) (hrole : p.role ≠ .skipped)
    (h : MayStandBefore gap (p.text ++ rest)) : IsGap gap := by
  rcases h with hgap | ⟨-, hnewline⟩
  · exact hgap
  · rw [startsWithout_append hp.ne_nil] at hnewline
    obtain ⟨text, htext⟩ := exists_newline hp.ne_nil hnewline
    exact absurd (hp.all_isBlank (by rw [htext]; simp [isBlank])).1 hrole

/-! ## The pieces that are kept -/

/-- The pieces that are not skipped, with their spans. -/
def Lexer.kept (items : List (Piece × Span)) : List (Piece × Span) :=
  items.filter fun i => i.1.role != .skipped

/-- **The items tile the text**, which starts at the offset: with gaps between
them, in front of the first and behind the last, they make up all of it. -/
inductive Tiles : Nat → List Char → List (Piece × Span) → Prop
  | last {offset : Nat} {gap : List Char} (hgap : IsLastGap gap) : Tiles offset gap []
  | item {offset : Nat} {gap rest : List Char} {p : Piece} {items : List (Piece × Span)}
      (hgap : IsGap gap) (hne : p.text ≠ [])
      (hrest : Tiles (offset + byteLength gap + byteLength p.text) rest items) :
      Tiles offset (gap ++ (p.text ++ rest))
        ((p, ⟨offset + byteLength gap, offset + byteLength gap + byteLength p.text⟩) :: items)

/-- **What is kept of a cutting tiles the text.** -/
theorem tiles_kept {ps : List Piece} (hps : IsCutting ps) (offset : Nat) (gap : List Char)
    (hgap : MayStandBefore gap (ps.flatMap Piece.text)) :
    Tiles offset (gap ++ ps.flatMap Piece.text) (kept (placed (offset + byteLength gap) ps)) := by
  induction ps generalizing offset gap with
  | nil =>
    rw [List.flatMap_nil, List.append_nil]
    exact .last (hgap.imp_right And.left)
  | cons p ps ih =>
    obtain ⟨hp, hends, hps⟩ := isCutting_cons.mp hps
    rw [List.flatMap_cons] at hgap ⊢
    by_cases hrole : p.role = .skipped
    · have hmore := ih hps offset (gap ++ p.text) (hgap.append_skipped hp hrole hends)
      rw [byteLength_append, ← Nat.add_assoc, List.append_assoc] at hmore
      rw [placed, kept, List.filter_cons_of_neg (by simp [hrole])]
      exact hmore
    · have hmore := ih hps (offset + byteLength gap + byteLength p.text) [] (.inl .nil)
      rw [placed, kept, List.filter_cons_of_pos (by simpa using hrole)]
      exact .item (hgap.isGap hp hrole) hp.ne_nil hmore

/-! ## Tokens and errors -/

variable {source : String} {items : List (Piece × Span)}

/-- What is skipped is neither a token nor an error. -/
theorem filterMap_kept {α : Type} {f : Piece × Span → Option α}
    (hf : ∀ i, i.1.role = .skipped → f i = none) (items : List (Piece × Span)) :
    (kept items).filterMap f = items.filterMap f := by
  rw [kept, List.filterMap_filter]
  refine List.filterMap_congr fun i _ => ?_
  by_cases hrole : i.1.role = .skipped
  · rw [if_neg (by simp [hrole]), hf i hrole]
  · rw [if_pos (by simpa using hrole)]

theorem lexeme?_of_skipped (i : Piece × Span) (h : i.1.role = .skipped) : lexeme? i = none := by
  obtain ⟨⟨role, text⟩, span⟩ := i
  obtain rfl : role = .skipped := h
  rfl

/-- A genuine piece that is a token spells it. -/
theorem Piece.Genuine.spells {p : Piece} (hp : p.Genuine) {t : Token} (ht : p.role = .token t) :
    t.Spells p.text := by
  cases hp with
  | token h =>
    obtain rfl : _ = t := by simpa using ht
    exact h
  | _ => simp at ht

theorem error?_of_skipped (i : Piece × Span) (h : i.1.role = .skipped) : error? i = none := by
  obtain ⟨⟨role, text⟩, span⟩ := i
  obtain rfl : role = .skipped := h
  rfl

/-- **What is kept is a token or an error.** -/
theorem isSome_lexeme?_iff {i : Piece × Span} (h : i ∈ kept items) :
    (lexeme? i).isSome ↔ error? i = none := by
  have hrole : i.1.role ≠ .skipped := by simpa using (List.mem_filter.mp h).2
  obtain ⟨⟨role, text⟩, span⟩ := i
  cases role with
  | token t => simp [lexeme?, error?]
  | skipped => exact absurd rfl hrole
  | unknown => simp [lexeme?, error?]
  | unclosedComment => simp [lexeme?, error?]

theorem genuine_of_mem_placedPieces {cs : List Char} {p : Piece} {s : Span}
    (h : (p, s) ∈ placedPieces cs) : p.Genuine := by
  refine (isCutting_pieces cs).genuine p ?_
  rw [← map_fst_placed 0 (pieces cs)]
  exact List.mem_map_of_mem h

theorem cuts_of_mem_placedPieces {cs : List Char} {p : Piece} {s : Span}
    (h : (p, s) ∈ placedPieces cs) : s.Cuts cs p.text := by
  have hcuts := cuts_of_mem_placed [] h
  rwa [List.nil_append, flatten_pieces] at hcuts

/-- A cut that is not empty. -/
theorem Span.Cuts.start_lt_stop {cs text : List Char} {s : Span} (h : s.Cuts cs text)
    (hne : text ≠ []) : s.start < s.stop := by
  obtain ⟨before, after, -, rfl⟩ := h
  have := byteLength_pos hne
  show byteLength before < byteLength before + byteLength text
  omega

/-- The piece an error is made of. -/
theorem exists_of_error?_eq {i : Piece × Span} {e : LexError} (h : error? i = some e) :
    (∃ text, i = (⟨.unknown, text⟩, e.span) ∧ e = ⟨.unknownCharacter, e.span, String.ofList text⟩)
      ∨ ∃ text, i = (⟨.unclosedComment, text⟩, e.span)
          ∧ e = ⟨.unclosedComment, e.span, String.ofList text⟩ := by
  obtain ⟨⟨role, text⟩, span⟩ := i
  cases role with
  | token t => simp [error?] at h
  | skipped => simp [error?] at h
  | unknown =>
    obtain rfl := Option.some.inj h
    exact .inl ⟨text, rfl, rfl⟩
  | unclosedComment =>
    obtain rfl := Option.some.inj h
    exact .inr ⟨text, rfl, rfl⟩

/-- **A comment that is not closed is the last piece**, for it takes in
whatever comes. -/
theorem IsCutting.eq_nil_of_unclosed {ps qs : List Piece} {p : Piece}
    (h : IsCutting (ps ++ p :: qs)) (hrole : p.role = .unclosedComment) : qs = [] := by
  obtain ⟨-, h, -⟩ := isCutting_append.mp h
  obtain ⟨-, hends, hqs⟩ := isCutting_cons.mp h
  cases qs with
  | nil => rfl
  | cons q qs =>
    have hq := hqs.genuine q List.mem_cons_self
    rw [List.flatMap_cons, startsWithout_append hq.ne_nil] at hends
    obtain ⟨c, cs, hc⟩ := List.exists_cons_of_ne_nil hq.ne_nil
    obtain ⟨role, text⟩ := p
    obtain rfl : role = .unclosedComment := hrole
    rw [hc, startsWithout_cons] at hends
    simp [Piece.goesOn] at hends

/-- **What there is to say of the stretches that the lexer finds in a
source.** -/
structure Lexer.Account (source : String) (items : List (Piece × Span)) : Prop where
  /-- With the gaps between them they make up the source. -/
  tiles : Tiles 0 source.toList items
  /-- Each covers some text, from one place between characters to another. -/
  cuts : ∀ p s, (p, s) ∈ items → s.start < s.stop ∧ s.Cuts source.toList p.text
  /-- They stand one after another, and no two of them overlap. -/
  ordered : (items.map Prod.snd).Pairwise Span.Before
  /-- Each is either a token or an error. -/
  token_or_error : ∀ i ∈ items, (lexeme? i).isSome ↔ error? i = none
  /-- If none is an error, their tokens are the result, and only then. -/
  tokens : ∀ ts, tokenize source = .ok ts ↔
    (∀ i ∈ items, error? i = none) ∧ ts = items.filterMap lexeme?
  /-- If there are errors, all of them are the result, in their order. -/
  errors : ∀ es, tokenize source = .error es ↔ es ≠ [] ∧ es = items.filterMap error?
  /-- An error quotes the text it covers. -/
  quoted : ∀ e ∈ items.filterMap error?, e.text = String.ofList (slice source.toList e.span)
  /-- An unknown character is a single one. -/
  single : ∀ e ∈ items.filterMap error?, e.fault = .unknownCharacter →
    ∃ c, e.span.Cuts source.toList [c]
  /-- After an open comment there is nothing: it is the last error, and with it
  the source ends. -/
  openToEnd : ∀ before e after, items.filterMap error? = before ++ e :: after →
    e.fault = .unclosedComment → after = [] ∧ e.span.stop = byteLength source.toList
      ∧ ∃ body, e.span.Cuts source.toList ('/' :: '*' :: body) ∧ ¬ commentEnd <:+: body

theorem tokenize_eq_ok_iff {ts : List Lexeme} :
    tokenize source = .ok ts ↔ (placedPieces source.toList).filterMap error? = []
      ∧ ts = (placedPieces source.toList).filterMap lexeme? := by
  unfold tokenize
  dsimp only
  split
  · rename_i h
    rw [h, Except.ok.injEq]
    exact ⟨fun h => ⟨rfl, h.symm⟩, fun h => h.2.symm⟩
  · rename_i errors h
    exact ⟨fun h' => (nomatch h'), fun h' => absurd h'.1 h⟩

theorem tokenize_eq_error_iff {es : List LexError} :
    tokenize source = .error es
      ↔ es ≠ [] ∧ es = (placedPieces source.toList).filterMap error? := by
  unfold tokenize
  dsimp only
  split
  · rename_i h
    rw [h]
    exact ⟨fun h => (nomatch h), fun h => absurd h.2 h.1⟩
  · rename_i errors h
    rw [Except.error.injEq]
    constructor
    · rintro rfl
      exact ⟨h, rfl⟩
    · exact fun h => h.2.symm

/-- **An open comment is the last error, and it reaches to the end.** -/
theorem unclosed_last {before after : List LexError} {e : LexError}
    (h : (placedPieces source.toList).filterMap error? = before ++ e :: after)
    (hfault : e.fault = .unclosedComment) :
    after = [] ∧ e.span.stop = byteLength source.toList
      ∧ ∃ body, e.span.Cuts source.toList ('/' :: '*' :: body) ∧ ¬ commentEnd <:+: body := by
  obtain ⟨left, right, hsplit, -, hright⟩ := List.filterMap_eq_append_iff.mp h
  obtain ⟨quiet, i, others, rfl, -, hi, hothers⟩ := List.filterMap_eq_cons_iff.mp hright
  obtain ⟨text, -, he⟩ | ⟨text, rfl, -⟩ := exists_of_error?_eq hi
  · rw [he] at hfault
    cases hfault
  rw [← List.append_assoc] at hsplit
  -- No piece stands behind the comment, so none of the other errors does.
  obtain ⟨as, bs, hpieces, -, hplaced⟩ := placed_eq_append hsplit
  cases bs with
  | nil => simp [placed] at hplaced
  | cons q bs =>
    obtain ⟨hq, rfl⟩ := List.cons.inj hplaced
    obtain ⟨rfl, hspan⟩ := Prod.mk.inj hq
    have hcutting := isCutting_pieces source.toList
    have hsource := flatten_pieces source.toList
    rw [hpieces] at hcutting hsource
    obtain rfl := hcutting.eq_nil_of_unclosed rfl
    refine ⟨hothers.symm, ?_, ?_⟩
    · rw [hspan, ← hsource, List.flatMap_append]
      simp
    · have hmem : (⟨.unclosedComment, text⟩, e.span) ∈ placedPieces source.toList := by
        rw [hsplit]
        simp
      have hcuts := cuts_of_mem_placedPieces hmem
      cases genuine_of_mem_placedPieces hmem with
      | unclosed hbody => exact ⟨_, hcuts, hbody⟩

/-- **Nothing is lost**: tokens and errors, with the gaps between them, are the
source, and they are what the lexer answers. -/
theorem tokenize_loses_nothing (source : String) :
    Account source (kept (placedPieces source.toList)) where
  tiles := by
    have h := tiles_kept (isCutting_pieces source.toList) 0 [] (.inl .nil)
    rwa [flatten_pieces] at h
  cuts := by
    intro p s h
    have hmem := (List.mem_filter.mp h).1
    have hcuts := cuts_of_mem_placedPieces hmem
    exact ⟨hcuts.start_lt_stop (genuine_of_mem_placedPieces hmem).ne_nil, hcuts⟩
  ordered := (pairwise_placed 0 _).sublist (List.filter_sublist.map Prod.snd)
  token_or_error := fun _ => isSome_lexeme?_iff
  tokens := by
    intro ts
    rw [tokenize_eq_ok_iff, filterMap_kept lexeme?_of_skipped, ← filterMap_kept error?_of_skipped,
      List.filterMap_eq_nil_iff]
  errors := by
    intro es
    rw [tokenize_eq_error_iff, filterMap_kept error?_of_skipped]
  quoted := by
    intro e he
    obtain ⟨i, hi, he⟩ := List.mem_filterMap.mp he
    have hcuts := cuts_of_mem_placedPieces (List.mem_filter.mp hi).1
    obtain ⟨text, rfl, heq⟩ | ⟨text, rfl, heq⟩ := exists_of_error?_eq he
    all_goals
      have hslice : slice source.toList e.span = text := hcuts.slice_eq
      rw [hslice]
      exact congrArg LexError.text heq
  single := by
    intro e he hfault
    obtain ⟨i, hi, he⟩ := List.mem_filterMap.mp he
    have hmem := (List.mem_filter.mp hi).1
    obtain ⟨text, rfl, -⟩ | ⟨text, -, he⟩ := exists_of_error?_eq he
    · have hcuts := cuts_of_mem_placedPieces hmem
      cases genuine_of_mem_placedPieces hmem with
      | unknown _ _ _ => exact ⟨_, hcuts⟩
    · rw [he] at hfault
      cases hfault
  openToEnd := by
    intro before e after h
    rw [filterMap_kept error?_of_skipped] at h
    exact unclosed_last h

end ImpFront
