import ImpFront.Proofs.Grammar.Relocation
import ImpFront.Proofs.Token.Tiling

/-!
# Sources written one behind the other

The tokens of two sources written one behind the other are those of the first and
those of the second, further on (`tokenize_append`), if the last piece of the
first takes in nothing of the second. It may take in blanks: where blanks grow
together with others, they are skipped either way.

A newline keeps any two sources apart (`tokenize_append_newline`). No piece takes
it in, except a run of blanks, and a comment that is never closed, which the first
source must not have. Such a comment cannot be mended from below, as long as there
is no end of a comment there (`exists_tokens_of_append_newline`).
-/

namespace ImpFront

open Lexer Relocatable

variable {cs ds : List Char}

/-! ## What is kept of a text that begins with blanks -/

/-- Blanks in front of a text that begins with none are a piece of their own, and
it is not kept. -/
theorem kept_pieces_blanks {blanks : List Char} (hblanks : blanks.all isBlank = true)
    (hrest : StartsWithout isBlank cs) (offset : Nat) :
    kept (placed offset (pieces (blanks ++ cs)))
      = kept (placed (offset + byteLength blanks) (pieces cs)) := by
  by_cases hne : blanks = []
  · subst hne
    rfl
  · rw [pieces_append_blanks hne hblanks hrest, placed, kept, List.filter_cons_of_neg (by simp)]
    rfl

/-- **Blanks in front of a text** only move what is kept of it, also where they grow
together with blanks in it. -/
theorem kept_pieces_append_blanks {gap : List Char} (hgap : gap.all isBlank = true) (offset : Nat)
    (cs : List Char) :
    kept (placed offset (pieces (gap ++ cs)))
      = kept (placed (offset + byteLength gap) (pieces cs)) := by
  obtain ⟨blanks, rest, rfl, hblanks, hrest⟩ : ∃ blanks rest, cs = blanks ++ rest
      ∧ blanks.all isBlank = true ∧ StartsWithout isBlank rest :=
    ⟨cs.takeWhile isBlank, cs.dropWhile isBlank, List.takeWhile_append_dropWhile.symm,
      List.all_takeWhile, startsWithout_dropWhile _ _⟩
  rw [← List.append_assoc, kept_pieces_blanks (by simp [hgap, hblanks]) hrest,
    kept_pieces_blanks hblanks hrest, byteLength_append, Nat.add_assoc]

/-! ## What is kept of two texts -/

/-- **The piece spares the text** behind it: it would take in nothing of it, or it is
one of blanks, and then it takes in what is not kept anyway. -/
def Piece.Spares (p : Piece) (text : List Char) : Prop :=
  StartsWithout p.goesOn text ∨ p.role = .skipped ∧ p.text.all isBlank = true

/-- **What is kept of two texts**, one behind the other, if the last piece of the first
spares the second. -/
theorem kept_pieces_append (h : ∀ p ∈ (pieces cs).getLast?, p.Spares ds) (offset : Nat) :
    kept (placed offset (pieces (cs ++ ds)))
      = kept (placed offset (pieces cs))
        ++ kept (placed (offset + byteLength cs) (pieces ds)) := by
  have hapart (h : ∀ p ∈ (pieces cs).getLast?, StartsWithout p.goesOn ds) :
      kept (placed offset (pieces (cs ++ ds)))
        = kept (placed offset (pieces cs))
          ++ kept (placed (offset + byteLength cs) (pieces ds)) := by
    rw [pieces_append h, placed_append, flatten_pieces]
    exact List.filter_append _ _
  cases hlast : (pieces cs).getLast? with
  | none => exact hapart (by simp [hlast])
  | some p =>
    rcases h p hlast with hends | ⟨hrole, hblank⟩
    · exact hapart (by simpa [hlast] using hends)
    · -- The blanks may grow together with others, so they are cut off with these.
      obtain ⟨ps, hps⟩ := List.getLast?_eq_some_iff.mp hlast
      obtain ⟨hcutting, hblanks, hjoin⟩ := isCutting_append.mp (hps ▸ isCutting_pieces cs)
      have hcs : cs = ps.flatMap Piece.text ++ p.text := by
        rw [← flatten_pieces cs, hps]
        simp
      have hfront : pieces (ps.flatMap Piece.text ++ (p.text ++ ds))
          = ps ++ pieces (p.text ++ ds) := by
        rw [pieces_append, pieces_flatMap hcutting]
        intro q hq
        rw [pieces_flatMap hcutting] at hq
        rw [startsWithout_append (hblanks.genuine p (List.mem_singleton_self p)).ne_nil]
        exact hjoin q hq p rfl
      have hskipped : kept (placed (offset + byteLength (ps.flatMap Piece.text)) [p]) = [] := by
        rw [placed, placed, kept, List.filter_cons_of_neg (by simp [hrole]), List.filter_nil]
      have happend (qs : List Piece) : kept (placed offset (ps ++ qs)) = kept (placed offset ps)
          ++ kept (placed (offset + byteLength (ps.flatMap Piece.text)) qs) := by
        rw [placed_append]
        exact List.filter_append _ _
      rw [hps, happend, hskipped, List.append_nil, hcs, List.append_assoc, hfront, happend,
        kept_pieces_append_blanks hblank, byteLength_append, Nat.add_assoc]

/-- **A newline is taken in by blanks only**, and by a comment that is not
closed. -/
theorem Piece.Genuine.spares_newline {p : Piece} (hp : p.Genuine)
    (hclosed : p.role ≠ .unclosedComment) (more : List Char) : p.Spares ('\n' :: more) := by
  suffices hnewline : p.goesOn '\n' = false ∨ p.role = .skipped ∧ p.text.all isBlank = true from
    hnewline.imp_left startsWithout_cons.mpr
  cases hp with
  | @token t text _ =>
    refine .inl ?_
    show t.goesOn '\n' = false
    cases t with
    | symbol s => cases s <;> rfl
    | _ => rfl
  | blanks _ h => exact .inr ⟨rfl, h⟩
  | lineComment _ => exact .inl rfl
  | blockComment _ => exact .inl rfl
  | unknown _ _ _ => exact .inl rfl
  | unclosed _ => exact absurd rfl hclosed

/-- Where no comment is open the last piece spares a newline. -/
theorem spares_newline_of_closed (hclosed : ∀ p ∈ pieces cs, p.role ≠ .unclosedComment)
    (more : List Char) : ∀ p ∈ (pieces cs).getLast?, p.Spares ('\n' :: more) := by
  intro p hp
  have hp := List.mem_of_mem_getLast? hp
  exact ((isCutting_pieces cs).genuine p hp).spares_newline (hclosed p hp) more

/-! ## Comments that stay open -/

/-- A newline is no part of the end of a comment. -/
theorem not_commentEnd_isInfix_append_newline (hcs : ¬ commentEnd <:+: cs)
    (hds : ¬ commentEnd <:+: ds) : ¬ commentEnd <:+: cs ++ '\n' :: ds := by
  induction cs with
  | nil =>
    rw [List.nil_append, commentEnd_isInfix_cons, not_or]
    exact ⟨by simp [commentEnd], hds⟩
  | cons c cs ih =>
    rw [commentEnd_isInfix_cons, not_or] at hcs
    rw [List.cons_append, commentEnd_isInfix_cons, not_or]
    refine ⟨fun hfront => ?_, ih hcs.2⟩
    cases cs with
    | nil => simp [commentEnd] at hfront
    | cons d cs => exact hcs.1 (by simpa [commentEnd] using hfront)

/-- **A comment that is not closed takes in what stands below**, if there is no end of a
comment in it. -/
theorem exists_unclosed_append_newline {p : Piece} (hp : p ∈ pieces cs)
    (hrole : p.role = .unclosedComment) (hds : ¬ commentEnd <:+: ds) :
    ∃ q ∈ pieces (cs ++ '\n' :: ds), q.role = .unclosedComment := by
  obtain ⟨ps, qs, hps⟩ := List.append_of_mem hp
  have hpieces := hps ▸ isCutting_pieces cs
  obtain rfl := hpieces.eq_nil_of_unclosed hrole
  obtain ⟨hcutting, hlast, hjoin⟩ := isCutting_append.mp hpieces
  cases hlast.genuine p (List.mem_singleton_self p) with
  | @unclosed body hbody =>
    have hcs : cs = ps.flatMap Piece.text ++ '/' :: '*' :: body := by
      rw [← flatten_pieces cs, hps]
      simp
    have hlonger : IsCutting (ps ++ [⟨.unclosedComment, '/' :: '*' :: (body ++ '\n' :: ds)⟩]) := by
      have hopen : Piece.Genuine ⟨.unclosedComment, '/' :: '*' :: (body ++ '\n' :: ds)⟩ :=
        .unclosed (not_commentEnd_isInfix_append_newline hbody hds)
      refine isCutting_append.mpr ⟨hcutting, ⟨by simpa using hopen, .singleton _⟩, ?_⟩
      rintro q hq _ ⟨⟩
      -- Only the first characters count, and these are the same.
      exact startsWithout_cons.mpr (startsWithout_cons.mp (hjoin q hq _ rfl))
    have hwhole : pieces (cs ++ '\n' :: ds)
        = ps ++ [⟨.unclosedComment, '/' :: '*' :: (body ++ '\n' :: ds)⟩] :=
      pieces_eq_iff.mpr ⟨by simp [hcs], hlonger⟩
    exact ⟨_, hwhole ▸ List.mem_append_right ps (List.mem_singleton_self _), rfl⟩
  | _ => cases hrole

/-! ## Places that move along -/

/-- **Everything stands further on**, behind a text of `n` bytes. -/
def Relocation.shift (n : Nat) : Relocation := ⟨(· + n), (· + n)⟩

@[simp] theorem relocate_shift_span (n : Nat) (s : Span) :
    relocate (.shift n) s = s.shift n := rfl

instance : Relocatable LexError := ⟨fun m e => ⟨e.fault, relocate m e.span, e.text⟩⟩

/-- A piece is the same token wherever it stands. -/
theorem lexeme?_relocate (m : Relocation) (p : Piece) (s : Span) :
    lexeme? (p, relocate m s) = (lexeme? (p, s)).map (relocate m) := by
  obtain ⟨role, text⟩ := p
  cases role <;> rfl

/-- A piece is the same error wherever it stands. -/
theorem error?_relocate (m : Relocation) (p : Piece) (s : Span) :
    error? (p, relocate m s) = (error? (p, s)).map (relocate m) := by
  obtain ⟨role, text⟩ := p
  cases role <;> rfl

/-- What is found in a text is found further on if the text stands further on. -/
theorem filterMap_placed_shift {α : Type} [Relocatable α] {f : Piece × Span → Option α}
    (hf : ∀ m p s, f (p, relocate m s) = (f (p, s)).map (relocate m)) (offset n : Nat)
    (ps : List Piece) :
    (placed (offset + n) ps).filterMap f
      = ((placed offset ps).filterMap f).map (relocate (.shift n)) := by
  rw [placed_add, List.filterMap_map, List.map_filterMap]
  exact List.filterMap_congr fun i _ => hf (.shift n) i.1 i.2

/-- **What is found in two sources**, one behind the other with blanks between them. -/
theorem filterMap_placedPieces_append {α : Type} [Relocatable α] {gap : List Char}
    {f : Piece × Span → Option α} (hskipped : ∀ i, i.1.role = .skipped → f i = none)
    (hf : ∀ m p s, f (p, relocate m s) = (f (p, s)).map (relocate m))
    (hgap : gap.all isBlank = true) (h : ∀ p ∈ (pieces cs).getLast?, p.Spares (gap ++ ds)) :
    (placedPieces (cs ++ (gap ++ ds))).filterMap f
      = (placedPieces cs).filterMap f
        ++ ((placedPieces ds).filterMap f).map (relocate (.shift (byteLength (cs ++ gap)))) := by
  unfold placedPieces
  rw [← filterMap_kept hskipped, kept_pieces_append h, List.filterMap_append,
    filterMap_kept hskipped, kept_pieces_append_blanks hgap, filterMap_kept hskipped,
    ← filterMap_placed_shift hf, Nat.zero_add, Nat.zero_add, byteLength_append]

/-- Where there is no error there is no open comment. -/
theorem closed_of_tokenize {source : String} {ts : List Lexeme} (h : tokenize source = .ok ts) :
    ∀ p ∈ pieces source.toList, p.role ≠ .unclosedComment := by
  intro p hp hrole
  rw [← map_fst_placed 0 (pieces source.toList)] at hp
  obtain ⟨⟨⟨role, text⟩, span⟩, hmem, rfl⟩ := List.mem_map.mp hp
  obtain rfl : role = .unclosedComment := hrole
  have hnone := List.filterMap_eq_nil_iff.mp (tokenize_eq_ok_iff.mp h).1 _ hmem
  simp [error?] at hnone

/-! ## The tokens of two sources -/

/-- **The tokens of two sources**, one behind the other with blanks between them: those of
the first and those of the second, further on. If the second has errors, these are the
errors of the whole. -/
theorem tokenize_append {source gap more : String} {ts : List Lexeme}
    (h : tokenize source = .ok ts) (hgap : gap.toList.all isBlank = true)
    (hlast : ∀ p ∈ (pieces source.toList).getLast?, p.Spares (gap.toList ++ more.toList)) :
    tokenize (source ++ gap ++ more) = match tokenize more with
      | .ok us => .ok (ts ++ relocate (.shift (byteLength (source.toList ++ gap.toList))) us)
      | .error es => .error (relocate (.shift (byteLength (source.toList ++ gap.toList))) es) := by
  obtain ⟨hnone, rfl⟩ := tokenize_eq_ok_iff.mp h
  have htext : (source ++ gap ++ more).toList = source.toList ++ (gap.toList ++ more.toList) := by
    simp
  have herrors := filterMap_placedPieces_append error?_of_skipped error?_relocate hgap hlast
  have htokens := filterMap_placedPieces_append lexeme?_of_skipped lexeme?_relocate hgap hlast
  rw [hnone, List.nil_append] at herrors
  cases hmore : tokenize more with
  | ok us =>
    obtain ⟨hmoreNone, rfl⟩ := tokenize_eq_ok_iff.mp hmore
    refine tokenize_eq_ok_iff.mpr ⟨?_, ?_⟩
    · rw [htext, herrors, hmoreNone, List.map_nil]
    · rw [htext, htokens]
      rfl
  | error es =>
    obtain ⟨hne, rfl⟩ := tokenize_eq_error_iff.mp hmore
    refine tokenize_eq_error_iff.mpr ⟨?_, ?_⟩
    · simpa [relocate] using hne
    · rw [htext, herrors]
      rfl

/-- **The tokens of two sources**, one below the other. -/
theorem tokenize_append_newline {source : String} {ts : List Lexeme} (h : tokenize source = .ok ts)
    (more : String) :
    tokenize (source ++ "\n" ++ more) = match tokenize more with
      | .ok us => .ok (ts ++ relocate (.shift (byteLength source.toList + 1)) us)
      | .error es => .error (relocate (.shift (byteLength source.toList + 1)) es) := by
  have hspares : ∀ p ∈ (pieces source.toList).getLast?, p.Spares ("\n".toList ++ more.toList) :=
    spares_newline_of_closed (closed_of_tokenize h) more.toList
  rw [tokenize_append h rfl hspares, byteLength_append]
  rfl

/-- **What stands below repairs nothing**: only a source that can be cut into tokens can be
the upper part of one, unless a comment is closed further down. -/
theorem exists_tokens_of_append_newline {source more : String} {us : List Lexeme}
    (h : tokenize (source ++ "\n" ++ more) = .ok us) (hmore : ¬ commentEnd <:+: more.toList) :
    ∃ ts, tokenize source = .ok ts := by
  have htext : (source ++ "\n" ++ more).toList = source.toList ++ '\n' :: more.toList := by simp
  have hclosed : ∀ p ∈ pieces source.toList, p.role ≠ .unclosedComment := by
    intro p hp hrole
    obtain ⟨q, hq, hunclosed⟩ := exists_unclosed_append_newline hp hrole hmore
    exact closed_of_tokenize h q (htext ▸ hq) hunclosed
  have hspares : ∀ p ∈ (pieces source.toList).getLast?, p.Spares (['\n'] ++ more.toList) :=
    spares_newline_of_closed hclosed more.toList
  have hnone := (tokenize_eq_ok_iff.mp h).1
  have herrors := filterMap_placedPieces_append error?_of_skipped error?_relocate rfl hspares
  rw [List.singleton_append, ← htext, hnone] at herrors
  exact ⟨_, tokenize_eq_ok_iff.mpr ⟨(List.append_eq_nil_iff.mp herrors.symm).1, rfl⟩⟩

/-! ## The tokens of an enclosed source -/

section Enclosed

variable {opening gap source : String} {os ts us : List Lexeme} {closing : Symbol}

theorem tokenize_spelling (s : Symbol) :
    tokenize s.spelling = .ok [⟨.symbol s, ⟨0, byteLength s.spelling.toList⟩⟩] := by
  cases s <;> decide +kernel

theorem not_commentEnd_isInfix_spelling (s : Symbol) : ¬ commentEnd <:+: s.spelling.toList := by
  cases s <;> decide

variable (hopening : tokenize opening = .ok os) (hgap : gap.toList.all isBlank = true)
  (hlast : ∀ p ∈ (pieces opening.toList).getLast?, ∀ text, p.Spares (gap.toList ++ text))

include hopening hgap hlast

/-- **The tokens of an enclosed source**: those in front of it, its own, and the symbol
below it. -/
theorem tokenize_enclosed (h : tokenize source = .ok ts) (closing : Symbol) :
    ∃ span, tokenize (opening ++ gap ++ (source ++ "\n" ++ closing.spelling))
      = .ok (os ++ (relocate (.shift (byteLength (opening.toList ++ gap.toList))) ts
        ++ [⟨.symbol closing, span⟩])) := by
  have hbelow := tokenize_append_newline h closing.spelling
  rw [tokenize_spelling] at hbelow
  rw [tokenize_append hopening hgap fun p hp => hlast p hp _, hbelow]
  exact ⟨_, congrArg (fun vs => Except.ok (os ++ vs)) (relocate_append _ ts _)⟩

/-- Only a source that can be cut into tokens can be enclosed in one. -/
theorem exists_tokens_of_enclosed
    (h : tokenize (opening ++ gap ++ (source ++ "\n" ++ closing.spelling)) = .ok us) :
    ∃ ts, tokenize source = .ok ts := by
  rw [tokenize_append hopening hgap fun p hp => hlast p hp _] at h
  cases hinner : tokenize (source ++ "\n" ++ closing.spelling) with
  | error es =>
    rw [hinner] at h
    cases h
  | ok vs => exact exists_tokens_of_append_newline hinner (not_commentEnd_isInfix_spelling closing)

end Enclosed

end ImpFront
