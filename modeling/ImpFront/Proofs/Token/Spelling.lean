import ImpFront.Token.Lexer
import Mathlib.Data.List.Basic
import Mathlib.Tactic.Common

/-!
# How tokens are spelled

A token says what stands in the source only up to its class: every identifier
is the same token. `Token.Spells` is the other half, the texts that a token may
have. A keyword or a symbol has exactly one; a number is a run of digits; an
identifier is a word that no keyword has taken.

Two facts about the lexer follow from the way it cuts. The text under a token's
span is a spelling of the token (`spells_of_tokenize`), and tokens stand in the
order of the source, without overlap (`pairwise_of_tokenize`).
-/

namespace ImpFront

open Lexer

/-- **A word**: a letter or an underscore, and then letters, underscores and
digits. -/
def IsWord (text : List Char) : Prop :=
  ∃ c cs, text = c :: cs ∧ isWordStart c = true ∧ cs.all isWordPart = true

/-- **The texts that a token may have.** -/
def Token.Spells : Token → List Char → Prop
  | .keyword k, text => text = k.spelling.toList
  | .symbol s, text => text = s.spelling.toList
  | .intLiteral, text => text ≠ [] ∧ text.all Char.isDigit = true
  | .ident, text => IsWord text ∧ Keyword.ofSpelling? text = none

/-- What a symbol consists of is its spelling. -/
theorem spelling_of_symbolAt {c : Char} {cs more : List Char} {s : Symbol}
    (h : symbolAt c cs = some (s, more)) : s.spelling.toList = c :: more := by
  unfold symbolAt at h
  split at h <;> first
    | (simp only [Option.some.injEq, Prod.mk.injEq] at h
       obtain ⟨rfl, rfl⟩ := h
       rfl)
    | simp at h

/-- The token of a word is spelled by the word. -/
theorem spells_wordToken {word : List Char} (h : IsWord word) :
    (wordToken word).Spells word := by
  unfold wordToken
  cases hk : Keyword.ofSpelling? word with
  | some k => exact (Keyword.spelling_of_ofSpelling? hk).symm
  | none => exact ⟨h, hk⟩

/-- **A piece that is a token is a spelling of it.** -/
theorem spells_firstPiece {c : Char} {cs text : List Char} {t : Token}
    (h : firstPiece c cs = ⟨.token t, text⟩) : t.Spells text := by
  unfold firstPiece at h
  -- Blanks first, then digits, words, the two comments, and symbols last.
  split at h
  · simp at h
  split at h
  · rename_i hdigit
    simp only [Piece.mk.injEq, PieceRole.token.injEq] at h
    obtain ⟨rfl, rfl⟩ := h
    refine ⟨by simp, ?_⟩
    rw [List.all_cons, hdigit, List.all_takeWhile]
    rfl
  split at h
  · rename_i hstart
    simp only [Piece.mk.injEq, PieceRole.token.injEq] at h
    obtain ⟨rfl, rfl⟩ := h
    exact spells_wordToken ⟨c, _, rfl, hstart, List.all_takeWhile⟩
  split at h
  · simp at h
  · split at h <;> simp at h
  · split at h
    · rename_i hsymbol
      simp only [Piece.mk.injEq, PieceRole.token.injEq] at h
      obtain ⟨rfl, rfl⟩ := h
      exact (spelling_of_symbolAt hsymbol).symm
    · simp at h

theorem spells_of_mem_pieces {cs text : List Char} {t : Token}
    (h : ⟨.token t, text⟩ ∈ pieces cs) : t.Spells text := by
  fun_induction pieces cs with
  | case1 => simp at h
  | case2 c cs piece ih =>
    rcases List.mem_cons.mp h with h | h
    · exact spells_firstPiece h.symm
    · exact ih h

/-! ## Where the pieces stand -/

/-- **The span of a piece covers its text**, wherever the pieces start. -/
theorem slice_of_mem_placed (before : List Char) {ps : List Piece} {p : Piece} {s : Span}
    (h : (p, s) ∈ placed (byteLength before) ps) :
    slice (before ++ ps.flatMap Piece.text) s = p.text := by
  induction ps generalizing before with
  | nil => simp [placed] at h
  | cons q qs ih =>
    rw [placed] at h
    rcases List.mem_cons.mp h with h | h
    · obtain ⟨rfl, rfl⟩ := Prod.mk.inj h
      rw [List.flatMap_cons]
      exact slice_append before p.text _
    · rw [← byteLength_append] at h
      rw [List.flatMap_cons, ← List.append_assoc]
      exact ih _ h

theorem start_of_mem_placed {offset : Nat} {ps : List Piece} {p : Piece} {s : Span}
    (h : (p, s) ∈ placed offset ps) : offset ≤ s.start ∧ s.start ≤ s.stop := by
  induction ps generalizing offset with
  | nil => simp [placed] at h
  | cons q qs ih =>
    rw [placed] at h
    rcases List.mem_cons.mp h with h | h
    · obtain ⟨rfl, rfl⟩ := Prod.mk.inj h
      exact ⟨Nat.le_refl _, Nat.le_add_right _ _⟩
    · obtain ⟨hstart, hstop⟩ := ih h
      exact ⟨Nat.le_trans (Nat.le_add_right _ _) hstart, hstop⟩

/-- One span comes before another, without overlap. -/
def Span.Before (a b : Span) : Prop := a.stop ≤ b.start

theorem pairwise_placed (offset : Nat) (ps : List Piece) :
    ((placed offset ps).map Prod.snd).Pairwise Span.Before := by
  induction ps generalizing offset with
  | nil => exact .nil
  | cons p ps ih =>
    rw [placed, List.map_cons, List.pairwise_cons]
    refine ⟨?_, ih _⟩
    intro s hs
    obtain ⟨⟨q, s⟩, hq, rfl⟩ := List.mem_map.mp hs
    exact (start_of_mem_placed hq).1

/-! ## The tokens of a source -/

theorem tokenize_eq_ok {source : String} {ts : List Lexeme} (h : tokenize source = .ok ts) :
    ts = (placedPieces source.toList).filterMap lexeme? := by
  unfold tokenize at h
  dsimp only at h
  split at h
  · exact (Except.ok.inj h).symm
  · simp at h

/-- **Every token of a source has a text that spells it.** -/
theorem spells_of_tokenize {source : String} {ts : List Lexeme} (h : tokenize source = .ok ts) :
    ∀ l ∈ ts, l.token.Spells (slice source.toList l.span) := by
  intro l hl
  rw [tokenize_eq_ok h, placedPieces] at hl
  obtain ⟨⟨⟨role, text⟩, span⟩, hmem, hl⟩ := List.mem_filterMap.mp hl
  cases role with
  | token t =>
    obtain rfl : ⟨t, span⟩ = l := Option.some.inj hl
    -- The pieces together are the source, so what a span covers is cut from it.
    have hslice := slice_of_mem_placed [] hmem
    rw [List.nil_append, flatten_pieces] at hslice
    have hpiece : ⟨.token t, text⟩ ∈ pieces source.toList := by
      rw [← map_fst_placed 0 (pieces source.toList)]
      exact List.mem_map_of_mem hmem
    show t.Spells (slice source.toList span)
    rw [hslice]
    exact spells_of_mem_pieces hpiece
  | skipped => simp [lexeme?] at hl
  | unknown => simp [lexeme?] at hl
  | unclosedComment => simp [lexeme?] at hl

/-- What is found in some of the pieces, each at the place of its piece, stands where pieces do. -/
theorem sublist_filterMap_spans {α : Type} {f : Piece × Span → Option α} {span : α → Span}
    (hspan : ∀ i a, f i = some a → span a = i.2) (items : List (Piece × Span)) :
    ((items.filterMap f).map span).Sublist (items.map Prod.snd) := by
  induction items with
  | nil => exact .slnil
  | cons i items ih =>
    rw [List.map_cons]
    cases hi : f i with
    | none =>
      rw [List.filterMap_cons_none hi]
      exact ih.cons i.2
    | some a =>
      rw [List.filterMap_cons_some hi, List.map_cons, hspan i a hi]
      exact ih.cons_cons i.2

/-- So it stands one after another. -/
theorem pairwise_filterMap_spans {α : Type} {f : Piece × Span → Option α} {span : α → Span}
    (hspan : ∀ i a, f i = some a → span a = i.2) (cs : List Char) :
    (((placedPieces cs).filterMap f).map span).Pairwise Span.Before :=
  (pairwise_placed 0 _).sublist (sublist_filterMap_spans hspan _)

theorem lexeme?_eq_some {p : Piece} {s : Span} {l : Lexeme} (h : lexeme? (p, s) = some l) :
    p.role = .token l.token ∧ l.span = s := by
  obtain ⟨role, text⟩ := p
  cases role with
  | token t =>
    obtain rfl := Option.some.inj h
    exact ⟨rfl, rfl⟩
  | skipped => cases h
  | unknown => cases h
  | unclosedComment => cases h

/-- **The tokens stand one after another.** -/
theorem pairwise_of_tokenize {source : String} {ts : List Lexeme}
    (h : tokenize source = .ok ts) : (ts.map Lexeme.span).Pairwise Span.Before := by
  rw [tokenize_eq_ok h]
  exact pairwise_filterMap_spans (fun _ _ h => (lexeme?_eq_some h).2) _

end ImpFront
