import ImpFront.Proofs.Token.Spelling

/-!
# Where tokens stand, and what they enclose

A token covers a stretch of the source that is not empty and begins and ends
between characters (`Span.Cuts`). The tokens of a source stand one after
another, so what several of them enclose – from the start of the first to the
stop of the last – is again a stretch of the source.
-/

namespace ImpFront

open Lexer

/-- **The span cuts the text out of the source**: both of its ends are between
characters, and the text is all that is between them. -/
def Span.Cuts (source : List Char) (s : Span) (text : List Char) : Prop :=
  ∃ before after, source = before ++ (text ++ after)
    ∧ s = ⟨byteLength before, byteLength before + byteLength text⟩

variable {source text other : List Char} {s t : Span}

/-- What a span cuts out is what is under it. -/
theorem Span.Cuts.slice_eq (h : s.Cuts source text) : slice source s = text := by
  obtain ⟨before, after, rfl, rfl⟩ := h
  exact slice_append before text after

/-- A cut of a text is one of any text that begins with it. -/
theorem Span.Cuts.append (h : s.Cuts source text) (more : List Char) :
    s.Cuts (source ++ more) text := by
  obtain ⟨before, after, rfl, rfl⟩ := h
  exact ⟨before, after ++ more, by simp only [List.append_assoc], rfl⟩

/-- Behind another text the same cut stands further on. -/
theorem Span.Cuts.behind (h : s.Cuts source text) (before : List Char) :
    (s.shift (byteLength before)).Cuts (before ++ source) text := by
  obtain ⟨left, after, rfl, rfl⟩ := h
  refine ⟨before ++ left, after, by simp only [List.append_assoc], ?_⟩
  simp only [Span.shift, byteLength_append, Span.mk.injEq]
  omega

theorem byteLength_pos {cs : List Char} (h : cs ≠ []) : 0 < byteLength cs := by
  obtain ⟨c, cs, rfl⟩ := List.exists_cons_of_ne_nil h
  have := c.utf8Size_pos
  rw [byteLength_cons]
  omega

/-- Of two beginnings of a text the one with fewer bytes is a beginning of the
other. -/
theorem isPrefix_of_byteLength_le {before before' after after' : List Char}
    (h : before ++ after = before' ++ after')
    (hle : byteLength before ≤ byteLength before') : before <+: before' := by
  have hprefix : before <+: before' ++ after' := ⟨after, h⟩
  rcases List.prefix_or_prefix_of_prefix hprefix (List.prefix_append before' after') with h' | h'
  · exact h'
  · obtain ⟨more, rfl⟩ := h'
    rw [byteLength_append] at hle
    have hmore : more = [] := by
      by_contra hne
      have := byteLength_pos hne
      omega
    exact ⟨[], by rw [hmore, List.append_nil, List.append_nil]⟩

/-- **From the start of one cut to the stop of a later one** there is a cut
again. -/
theorem Span.Cuts.join (hs : s.Cuts source text) (ht : t.Cuts source other)
    (hle : s.start ≤ t.stop) : ∃ enclosed, (s.join t).Cuts source enclosed := by
  obtain ⟨before, after, hsource, rfl⟩ := hs
  obtain ⟨before', after', hsource', rfl⟩ := ht
  have heq : before ++ (text ++ after) = (before' ++ other) ++ after' := by
    rw [← hsource, hsource', List.append_assoc]
  obtain ⟨enclosed, henclosed⟩ := isPrefix_of_byteLength_le heq (by
    rw [byteLength_append]
    exact hle)
  refine ⟨enclosed, before, after', ?_, ?_⟩
  · rw [hsource', ← List.append_assoc, ← henclosed, List.append_assoc]
  · rw [Span.join, ← byteLength_append before', ← henclosed, byteLength_append]

/-! ## Tokens of a source -/

/-- A spelling has at least one character. -/
theorem Token.Spells.ne_nil {t : Token} {text : List Char} (h : t.Spells text) : text ≠ [] := by
  cases t with
  | keyword k =>
    obtain rfl : text = k.spelling.toList := h
    cases k <;> simp [Keyword.spelling]
  | symbol s =>
    obtain rfl : text = s.spelling.toList := h
    cases s <;> simp [Symbol.spelling]
  | intLiteral => exact h.1
  | ident =>
    obtain ⟨⟨c, cs, rfl, -, -⟩, -⟩ := h
    simp

/-- The span of a piece cuts its text out of all the pieces. -/
theorem cuts_of_mem_placed (before : List Char) {ps : List Piece} {p : Piece} {s : Span}
    (h : (p, s) ∈ placed (byteLength before) ps) :
    s.Cuts (before ++ ps.flatMap Piece.text) p.text := by
  induction ps generalizing before with
  | nil => simp [placed] at h
  | cons q qs ih =>
    rw [placed] at h
    rcases List.mem_cons.mp h with h | h
    · obtain ⟨rfl, rfl⟩ := Prod.mk.inj h
      exact ⟨before, _, by rw [List.flatMap_cons], rfl⟩
    · rw [← byteLength_append] at h
      rw [List.flatMap_cons, ← List.append_assoc]
      exact ih _ h

/-- **The tokens of a source**, with what is known of where they stand. -/
structure StandIn (source : List Char) (ts : List Lexeme) : Prop where
  /-- Each token cuts a spelling of it out of the source. -/
  cuts : ∀ l ∈ ts, ∃ text, l.token.Spells text ∧ l.span.Cuts source text
  /-- The tokens stand one after another. -/
  ordered : (ts.map Lexeme.span).Pairwise Span.Before

theorem standIn_of_tokenize {source : String} {ts : List Lexeme} (h : tokenize source = .ok ts) :
    StandIn source.toList ts := by
  refine ⟨fun l hl => ?_, pairwise_of_tokenize h⟩
  have hspells := spells_of_tokenize h l hl
  rw [tokenize_eq_ok h, placedPieces] at hl
  obtain ⟨⟨⟨role, text⟩, span⟩, hmem, hl⟩ := List.mem_filterMap.mp hl
  cases role with
  | token t =>
    obtain rfl : ⟨t, span⟩ = l := Option.some.inj hl
    have hcuts := cuts_of_mem_placed [] hmem
    rw [List.nil_append, flatten_pieces] at hcuts
    rw [hcuts.slice_eq] at hspells
    exact ⟨text, hspells, hcuts⟩
  | skipped => simp [lexeme?] at hl
  | unknown => simp [lexeme?] at hl
  | unclosedComment => simp [lexeme?] at hl

namespace StandIn

variable {ts us : List Lexeme}

theorem spells (h : StandIn source ts) {l : Lexeme} (hl : l ∈ ts) :
    l.token.Spells (slice source l.span) := by
  obtain ⟨text, hspells, hcuts⟩ := h.cuts l hl
  rwa [hcuts.slice_eq]

/-- A token takes some room. -/
theorem start_lt_stop (h : StandIn source ts) {l : Lexeme} (hl : l ∈ ts) :
    l.span.start < l.span.stop := by
  obtain ⟨text, hspells, before, after, -, hspan⟩ := h.cuts l hl
  have := byteLength_pos hspells.ne_nil
  rw [hspan]
  show byteLength before < byteLength before + byteLength text
  omega

theorem sublist (h : StandIn source ts) (hsub : us.Sublist ts) : StandIn source us :=
  ⟨fun l hl => h.cuts l (hsub.subset hl), h.ordered.sublist (hsub.map _)⟩

theorem left (h : StandIn source (ts ++ us)) : StandIn source ts :=
  h.sublist (List.sublist_append_left _ _)

theorem right (h : StandIn source (ts ++ us)) : StandIn source us :=
  h.sublist (List.sublist_append_right _ _)

theorem tail {l : Lexeme} (h : StandIn source (l :: ts)) : StandIn source ts :=
  h.sublist (List.sublist_cons_self _ _)

theorem head {l : Lexeme} (h : StandIn source (l :: ts)) : StandIn source [l] :=
  h.sublist (List.singleton_sublist.mpr List.mem_cons_self)

/-- What stands in a first part stands before what stands in a second. -/
theorem before (h : StandIn source (ts ++ us)) {a b : Lexeme} (ha : a ∈ ts) (hb : b ∈ us) :
    a.span.Before b.span := by
  have hordered := h.ordered
  rw [List.map_append, List.pairwise_append] at hordered
  exact hordered.2.2 _ (List.mem_map_of_mem ha) _ (List.mem_map_of_mem hb)

theorem before_of_mem_tail {a b : Lexeme} (h : StandIn source (a :: ts)) (hb : b ∈ ts) :
    a.span.Before b.span :=
  (show StandIn source ([a] ++ ts) from h).before (List.mem_singleton_self a) hb

end StandIn

end ImpFront
