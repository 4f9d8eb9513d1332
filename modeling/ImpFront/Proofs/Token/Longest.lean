import ImpFront.Proofs.Token.Tiling

/-!
# The longest match

`Pattern` lists what the lexer looks for: the tokens, runs of blanks, comments to the
end of the line, and `/*`. Many of them match at the same place. A word that begins
like a keyword, `<` in front of `=` and `/` in front of a second one are each matched
in two ways, and the longer match wins; of a keyword and an identifier, which are
equally long, the keyword.

What a match could go on with is known from the first character: a match that is
longer than a piece has a character behind the piece that the piece would have taken
in (`Piece.Genuine.goesOn_of_matches`). No such character stands there, since the
piece is cut off the text, so it is the longest match (`isLongest_of_cutOff`).

A block comment is no match by itself. Only `/*` is, and the end is looked for from
there, so that `/*/` does not close itself.
-/

namespace ImpFront

open Lexer

namespace Lexer

/-! ## Patterns -/

/-- **What the lexer looks for** wherever it starts. -/
inductive Pattern
  /-- A token of the language. -/
  | token (t : Token)
  /-- A run of blanks. -/
  | blanks
  /-- A comment to the end of the line. -/
  | lineComment
  /-- The beginning of a block comment. -/
  | commentStart

/-- **The texts that a pattern matches.** The pattern of identifiers matches keywords as
well. -/
def Pattern.Matches : Pattern → List Char → Prop
  | .token (.keyword k), text => text = k.spelling.toList
  | .token (.symbol s), text => text = s.spelling.toList
  | .token .intLiteral, text => text ≠ [] ∧ text.all Char.isDigit = true
  | .token .ident, text => IsWord text
  | .blanks, text => text ≠ [] ∧ text.all isBlank = true
  | .lineComment, text => ∃ body, text = '/' :: '/' :: body ∧ '\n' ∉ body
  | .commentStart, text => text = ['/', '*']

/-- **The longest match**: no pattern matches a longer beginning of the text. -/
def IsLongest (found text : List Char) : Prop :=
  ∀ (p : Pattern) (other : List Char),
    p.Matches other → other <+: text → other.length ≤ found.length

end Lexer

variable {c d : Char} {cs more text : List Char} {p : Piece} {pattern : Pattern}

/-! ## What a match looks like -/

/-- A token is a match of its own pattern. -/
theorem Token.Spells.matches {t : Token} (h : t.Spells text) : (Pattern.token t).Matches text := by
  cases t with
  | keyword k => exact h
  | symbol s => exact h
  | intLiteral => exact h
  | ident => exact h.1

/-- A symbol starts with a character that is neither blank nor part of a word. -/
theorem Symbol.isOther_of_spelling {s : Symbol} (h : s.spelling.toList = c :: cs) :
    isBlank c = false ∧ isWordPart c = false := by
  cases s <;> simp only [Symbol.spelling, String.reduceToList, List.cons.injEq] at h <;>
    obtain ⟨rfl, rfl⟩ := h <;> decide

/-- **The characters that a match goes on with**, where its first character tells. Symbols
and comments are the ones that are not told by it. -/
def Lexer.runOf (c : Char) : Option (Char → Bool) :=
  if isBlank c then some isBlank
  else if c.isDigit then some Char.isDigit
  else if isWordStart c then some isWordPart
  else none

theorem runOf_of_isBlank (h : isBlank c = true) : runOf c = some isBlank := if_pos h

theorem runOf_of_isDigit (h : c.isDigit = true) : runOf c = some Char.isDigit := by
  rw [runOf, if_neg (by simp [isBlank_of_isWordPart (isWordPart_of_isDigit h)]), if_pos h]

theorem runOf_of_isWordStart (h : isWordStart c = true) : runOf c = some isWordPart := by
  rw [runOf, if_neg (by simp [isBlank_of_isWordPart (isWordPart_of_isWordStart h)]),
    if_neg (by simp [isDigit_of_isWordStart h]), if_pos h]

theorem runOf_eq_none (hblank : isBlank c = false) (hpart : isWordPart c = false) :
    runOf c = none := by
  rw [isWordPart, Bool.or_eq_false_iff] at hpart
  rw [runOf, if_neg (by simp [hblank]), if_neg (by simp [hpart.2]), if_neg (by simp [hpart.1])]

/-- **What a match looks like**: it is a run of characters of one class, or else a symbol or
the beginning of a comment. -/
theorem Lexer.Pattern.Matches.shape (h : pattern.Matches (c :: cs)) :
    (∃ q, runOf c = some q ∧ cs.all q = true)
      ∨ runOf c = none ∧ ((∃ s : Symbol, s.spelling.toList = c :: cs)
        ∨ c = '/' ∧ ((∃ body, cs = '/' :: body ∧ '\n' ∉ body) ∨ cs = ['*'])) := by
  have hword (h : IsWord (c :: cs)) : ∃ q, runOf c = some q ∧ cs.all q = true := by
    obtain ⟨_, _, heq, hstart, hall⟩ := h
    obtain ⟨rfl, rfl⟩ := List.cons.inj heq
    exact ⟨_, runOf_of_isWordStart hstart, hall⟩
  cases pattern with
  | token t =>
    cases t with
    | keyword k => exact .inl (hword (h ▸ isWord_spelling k))
    | symbol s =>
      obtain ⟨hblank, hpart⟩ := Symbol.isOther_of_spelling h.symm
      exact .inr ⟨runOf_eq_none hblank hpart, .inl ⟨s, h.symm⟩⟩
    | intLiteral =>
      obtain ⟨hdigit, hall⟩ : c.isDigit = true ∧ cs.all Char.isDigit = true := by simpa using h.2
      exact .inl ⟨_, runOf_of_isDigit hdigit, hall⟩
    | ident => exact .inl (hword h)
  | blanks =>
    obtain ⟨hblank, hall⟩ : isBlank c = true ∧ cs.all isBlank = true := by simpa using h.2
    exact .inl ⟨_, runOf_of_isBlank hblank, hall⟩
  | lineComment =>
    obtain ⟨body, heq, hbody⟩ := h
    obtain ⟨rfl, rfl⟩ := List.cons.inj heq
    exact .inr ⟨rfl, .inr ⟨rfl, .inl ⟨body, rfl, hbody⟩⟩⟩
  | commentStart =>
    obtain ⟨rfl, rfl⟩ := List.cons.inj h
    exact .inr ⟨rfl, .inr ⟨rfl, .inr rfl⟩⟩

/-- **A match that begins a run** is one. -/
theorem all_of_matches {q : Char → Bool} (hq : runOf c = some q) (h : pattern.Matches (c :: cs)) :
    cs.all q = true := by
  obtain ⟨q', hq', hall⟩ | ⟨hnone, -⟩ := h.shape
  · obtain rfl := Option.some.inj (hq'.symm.trans hq)
    exact hall
  · simp [hnone] at hq

/-- **Any other match** is a symbol, or it begins a comment. -/
theorem symbol_or_comment_of_matches (hblank : isBlank c = false) (hpart : isWordPart c = false)
    (h : pattern.Matches (c :: cs)) :
    (∃ s : Symbol, s.spelling.toList = c :: cs)
      ∨ c = '/' ∧ ((∃ body, cs = '/' :: body ∧ '\n' ∉ body) ∨ cs = ['*']) := by
  obtain ⟨q, hq, -⟩ | ⟨-, hother⟩ := h.shape
  · simp [runOf_eq_none hblank hpart] at hq
  · exact hother

theorem Lexer.Pattern.Matches.ne_nil (h : pattern.Matches text) : text ≠ [] := by
  cases pattern with
  | token t =>
    cases t with
    | keyword k => exact h ▸ Token.Spells.ne_nil (t := .keyword k) rfl
    | symbol s => exact h ▸ Token.Spells.ne_nil (t := .symbol s) rfl
    | intLiteral => exact h.1
    | ident =>
      obtain ⟨_, _, rfl, -⟩ := h
      exact List.cons_ne_nil _ _
  | blanks => exact h.1
  | lineComment =>
    obtain ⟨_, rfl, -⟩ := h
    exact List.cons_ne_nil _ _
  | commentStart => exact h ▸ List.cons_ne_nil _ _

/-! ## What a match can go on with -/

/-- **A symbol goes on** with the character that makes it another one. -/
theorem Symbol.goesOn_of_spelling {s s' : Symbol} (hs : s.spelling.toList = c :: cs)
    (hs' : s'.spelling.toList = c :: (cs ++ d :: more)) : (Token.symbol s).goesOn d = true := by
  -- The longer symbol has two characters, so the other one has the first of them only.
  obtain ⟨rfl, rfl⟩ : cs = [] ∧ more = [] := by
    cases s' <;> simp [Symbol.spelling] at hs' <;> cases cs <;> simp_all
  cases s' <;> simp only [Symbol.spelling, String.reduceToList, List.nil_append, List.cons.injEq,
      reduceCtorEq, and_true, and_false] at hs' <;> obtain ⟨rfl, rfl⟩ := hs' <;>
    cases s <;> first | rfl | simp [Symbol.spelling] at hs

/-- **A symbol goes on** with the character that makes it another one, or a comment. -/
theorem Symbol.goesOn_of_matches {s : Symbol}
    (h : pattern.Matches (s.spelling.toList ++ d :: more)) :
    (Token.symbol s).goesOn d = true := by
  obtain ⟨c, cs, hs⟩ : ∃ c cs, s.spelling.toList = c :: cs := by
    cases s <;> exact ⟨_, _, rfl⟩
  obtain ⟨hblank, hpart⟩ := Symbol.isOther_of_spelling hs
  rw [hs, List.cons_append] at h
  obtain ⟨s', hs'⟩ | ⟨rfl, hcomment⟩ := symbol_or_comment_of_matches hblank hpart h
  · exact Symbol.goesOn_of_spelling hs hs'
  · obtain ⟨rfl, rfl⟩ : s = .slash ∧ cs = [] := by
      cases s <;> simp_all [Symbol.spelling]
    obtain ⟨body, heq, -⟩ | heq := hcomment
    all_goals
      obtain ⟨rfl, -⟩ := List.cons.inj heq
      rfl

/-- A comment to the end of the line does not go on behind it. -/
theorem newline_not_mem_of_matches (h : pattern.Matches ('/' :: '/' :: cs)) : '\n' ∉ cs := by
  obtain ⟨s, hs⟩ | ⟨-, ⟨body, heq, hbody⟩ | heq⟩ := symbol_or_comment_of_matches rfl rfl h
  · cases s <;> simp [Symbol.spelling] at hs
  · obtain rfl := (List.cons.inj heq).2
    exact hbody
  · simp at heq

/-- The beginning of a block comment is a match by itself, and does not go on. -/
theorem eq_nil_of_matches (h : pattern.Matches ('/' :: '*' :: cs)) : cs = [] := by
  obtain ⟨s, hs⟩ | ⟨-, ⟨body, heq, hbody⟩ | heq⟩ := symbol_or_comment_of_matches rfl rfl h
  · cases s <;> simp [Symbol.spelling] at hs
  · simp at heq
  · simpa using heq

/-- **A piece would have taken in** what a longer match goes on with. -/
theorem Piece.Genuine.goesOn_of_matches (hp : p.Genuine)
    (h : pattern.Matches (p.text ++ d :: more)) : p.goesOn d = true := by
  cases hp with
  | @token t text ht =>
    have hword (hword : IsWord text) : isWordPart d = true := by
      obtain ⟨c, cs, rfl, hstart, -⟩ := hword
      have := all_of_matches (runOf_of_isWordStart hstart) h
      simp_all
    cases t with
    | keyword k =>
      obtain rfl : text = k.spelling.toList := ht
      exact hword (isWord_spelling k)
    | symbol s =>
      obtain rfl : text = s.spelling.toList := ht
      exact Symbol.goesOn_of_matches h
    | intLiteral =>
      obtain ⟨hne, hdigits⟩ := ht
      obtain ⟨c, cs, rfl⟩ := List.exists_cons_of_ne_nil hne
      rw [List.all_cons, Bool.and_eq_true] at hdigits
      have := all_of_matches (runOf_of_isDigit hdigits.1) h
      simp_all [goesOn, Token.goesOn]
    | ident => exact hword ht.1
  | blanks hne hblank =>
    rw [Piece.goesOn_blanks hne hblank]
    obtain ⟨c, cs, rfl⟩ := List.exists_cons_of_ne_nil hne
    rw [List.all_cons, Bool.and_eq_true] at hblank
    have := all_of_matches (runOf_of_isBlank hblank.1) h
    simp_all
  | @lineComment body _ =>
    have hline : '\n' ∉ body ++ d :: more := newline_not_mem_of_matches h
    show (d != '\n') = true
    rw [bne_iff_ne]
    rintro rfl
    simp at hline
  | @blockComment inner _ =>
    have hnil : inner ++ commentEnd ++ d :: more = [] := eq_nil_of_matches h
    simp at hnil
  | @unknown c hblank hpart hsymbol =>
    obtain ⟨s, hs⟩ | ⟨rfl, -⟩ := symbol_or_comment_of_matches hblank hpart h
    · -- Without going on, the lexer would find no symbol here.
      by_contra hgoesOn
      have hends : StartsWithout (goesOn ⟨.unknown, [c]⟩) (d :: more) :=
        startsWithout_cons.mpr (by simpa using hgoesOn)
      have hsome : symbolAt c (d :: more ++ []) = some (s, d :: more) :=
        symbolAt_append hs (startsWithout_nil _)
      rw [List.append_nil, symbolAt_eq_none hsymbol hends] at hsome
      cases hsome
    · exact absurd rfl (hsymbol .slash)
  | unclosed _ => rfl

/-- **What is cut off a text is its longest match.** -/
theorem isLongest_of_cutOff (h : p.CutOff text) : IsLongest p.text text := by
  obtain ⟨hp, rest, rfl, hends⟩ := h
  intro pattern other hmatches hbegin
  by_contra hlonger
  -- A longer match begins with the piece, and then takes in what the piece did not.
  obtain ⟨more, rfl⟩ := List.prefix_of_prefix_length_le (List.prefix_append p.text rest) hbegin
    (by omega)
  cases more with
  | nil => simp at hlonger
  | cons d more =>
    obtain ⟨_, rfl⟩ := (List.prefix_append_right_inj p.text).mp hbegin
    have hgoesOn := hp.goesOn_of_matches hmatches
    simp [startsWithout_cons.mp hends] at hgoesOn

/-- **A character that is no piece** begins no match. -/
theorem not_matches_of_unknown (h : Piece.CutOff ⟨.unknown, text⟩ cs) (pattern : Pattern)
    {other : List Char} (hmatches : pattern.Matches other) : ¬ other <+: cs := by
  intro hbegin
  have hlength := isLongest_of_cutOff h pattern other hmatches hbegin
  obtain ⟨hp, rest, rfl, -⟩ := h
  cases hp with
  | @unknown c hblank hpart hsymbol =>
    obtain ⟨d, ds, rfl⟩ := List.exists_cons_of_ne_nil hmatches.ne_nil
    obtain ⟨rfl, -⟩ := List.cons_prefix_cons.mp hbegin
    obtain rfl : ds = [] := by simpa using hlength
    obtain ⟨s, hs⟩ | ⟨rfl, -⟩ := symbol_or_comment_of_matches hblank hpart hmatches
    · exact hsymbol s hs
    · exact hsymbol .slash rfl

/-! ## The end of a block comment -/

/-- **The first end of a comment** in a text is the one behind `inner`. -/
def IsFirstEnd (inner text : List Char) : Prop :=
  inner ++ commentEnd <+: text
    ∧ ∀ other, other ++ commentEnd <+: text → inner.length ≤ other.length

/-- An end that begins further to the front would lie in front of the other one: the two
cannot overlap. -/
theorem isFirstEnd_of_not_isInfix {inner : List Char} (h : ¬ commentEnd <:+: inner)
    (rest : List Char) : IsFirstEnd inner (inner ++ commentEnd ++ rest) := by
  refine ⟨List.prefix_append _ _, fun other hother => ?_⟩
  by_contra hshorter
  obtain ⟨more, rfl⟩ := List.prefix_of_prefix_length_le
    ((List.prefix_append other commentEnd).trans hother)
    ((List.prefix_append inner commentEnd).trans (List.prefix_append _ rest)) (by omega)
  simp only [List.append_assoc, List.prefix_append_right_inj] at hother
  cases more with
  | nil => simp at hshorter
  | cons c more =>
    obtain ⟨rfl, hslash⟩ := List.cons_prefix_cons.mp hother
    cases more with
    | nil => simp [commentEnd] at hslash
    | cons d more =>
      obtain ⟨rfl, -⟩ := List.cons_prefix_cons.mp hslash
      exact h ⟨other, more, by simp [commentEnd]⟩

/-! ## What is found at a place -/

/-- What is cut off a text is what the lexer takes first. -/
theorem Piece.CutOff.firstPiece_eq (h : p.CutOff (c :: cs)) : firstPiece c cs = p := by
  obtain ⟨hp, rest, htext, hends⟩ := h
  have hpieces := pieces_append_piece hp hends
  rw [← htext, pieces_cons] at hpieces
  exact (List.cons.inj hpieces).1

/-- **Each piece is cut off the text** that begins where it stands. -/
theorem cutOff_of_mem_placedPieces {s : Span} (h : (p, s) ∈ placedPieces cs) :
    p.CutOff (dropBytes s.start cs) := by
  obtain ⟨left, right, hitems⟩ := List.append_of_mem h
  obtain ⟨as, bs, hpieces, -, hright⟩ := placed_eq_append hitems
  cases bs with
  | nil => simp [placed] at hright
  | cons q bs =>
    obtain ⟨hq, -⟩ := List.cons.inj hright
    obtain ⟨rfl, rfl⟩ := Prod.mk.inj hq
    obtain ⟨-, hcutting, -⟩ := isCutting_append.mp (hpieces ▸ isCutting_pieces cs)
    obtain ⟨hp, hends, -⟩ := isCutting_cons.mp hcutting
    refine ⟨hp, bs.flatMap Piece.text, ?_, hends⟩
    rw [← flatten_pieces cs, hpieces, List.flatMap_append, List.flatMap_cons, Nat.zero_add,
      dropBytes_append]

/-- **What the lexer finds at a place**, which may be a token, an error, or what is
skipped. -/
structure Lexer.FoundAt (source : List Char) (item : Piece × Span) : Prop where
  /-- A token is a match of its pattern, and no pattern matches more there. -/
  token : ∀ l, lexeme? item = some l →
    slice source l.span <+: dropBytes l.span.start source
      ∧ (Pattern.token l.token).Matches (slice source l.span)
      ∧ IsLongest (slice source l.span) (dropBytes l.span.start source)
  /-- A word is the token of a keyword exactly if it is spelled like it. -/
  keyword : ∀ l, lexeme? item = some l → IsWord (slice source l.span) →
    ∀ k, l.token = .keyword k ↔ slice source l.span = k.spelling.toList
  /-- What is skipped is a longest match as well, unless it is a block comment. -/
  separator : item.1.role = .skipped →
    (∃ pattern : Pattern, (pattern = .blanks ∨ pattern = .lineComment)
        ∧ pattern.Matches (slice source item.2)
        ∧ IsLongest (slice source item.2) (dropBytes item.2.start source))
      ∨ ∃ body, dropBytes item.2.start source = '/' :: '*' :: body
  /-- A block comment ends at its first end, or else it is an error that reaches to the end
  of the source, and there is no end. -/
  blockComment : ∀ body, dropBytes item.2.start source = '/' :: '*' :: body →
    (item.1.role = .skipped ∧ ∃ inner, IsFirstEnd inner body
        ∧ item.2.stop = item.2.start + 2 + byteLength inner + 2)
      ∨ (¬ commentEnd <:+: body ∧ ∃ e, error? item = some e
        ∧ e.fault = .unclosedComment ∧ e.span.stop = byteLength source)
  /-- Only a block comment without an end is said to have none. -/
  unclosed : ∀ e, error? item = some e → e.fault = .unclosedComment →
    ∃ body, dropBytes e.span.start source = '/' :: '*' :: body ∧ ¬ commentEnd <:+: body
  /-- No pattern matches at an unknown character. -/
  unknown : ∀ e, error? item = some e → e.fault = .unknownCharacter →
    ∀ (pattern : Pattern) (other : List Char),
      pattern.Matches other → ¬ other <+: dropBytes e.span.start source

/-- Of the tokens that are spelled like a word, the keyword has precedence. -/
theorem Token.Spells.keyword_iff {t : Token} (h : t.Spells text) (hword : IsWord text)
    (k : Keyword) : t = .keyword k ↔ text = k.spelling.toList := by
  obtain ⟨c, cs, rfl, hstart, -⟩ := hword
  have hpart := isWordPart_of_isWordStart hstart
  constructor
  · rintro rfl
    exact h
  · intro htext
    have hk := Keyword.ofSpelling?_spelling k
    rw [← htext] at hk
    cases t with
    | keyword k' =>
      have hk' : c :: cs = k'.spelling.toList := h
      rw [hk', Keyword.ofSpelling?_spelling] at hk
      rw [Option.some.inj hk]
    | symbol s => simp [(Symbol.isOther_of_spelling (show _ = _ from h.symm)).2] at hpart
    | intLiteral =>
      have hdigit := h.2
      simp [isDigit_of_isWordStart hstart] at hdigit
    | ident => simp [h.2] at hk

/-- What is skipped is blank, or a comment of one of the two sorts. -/
theorem Piece.Genuine.skipped (hp : p.Genuine) (hrole : p.role = .skipped) :
    (∃ pattern : Pattern, (pattern = .blanks ∨ pattern = .lineComment) ∧ pattern.Matches p.text)
      ∨ ∃ inner, p.text = '/' :: '*' :: (inner ++ commentEnd) := by
  cases hp with
  | blanks hne hblank => exact .inl ⟨.blanks, .inl rfl, hne, hblank⟩
  | lineComment hbody => exact .inl ⟨.lineComment, .inr rfl, _, rfl, hbody⟩
  | @blockComment inner _ => exact .inr ⟨inner, rfl⟩
  | token _ => cases hrole
  | unknown _ _ _ => cases hrole
  | unclosed _ => cases hrole

/-- **What is found where a block comment begins.** -/
theorem Piece.CutOff.blockComment (h : p.CutOff ('/' :: '*' :: cs)) :
    (∃ inner, IsFirstEnd inner cs ∧ p = ⟨.skipped, '/' :: '*' :: (inner ++ commentEnd)⟩)
      ∨ ¬ commentEnd <:+: cs ∧ p = ⟨.unclosedComment, '/' :: '*' :: cs⟩ := by
  have hfirst := h.firstPiece_eq
  rw [firstPiece_slash_star] at hfirst
  split at hfirst <;> rename_i hcut
  · obtain ⟨inner, rfl, hinner⟩ := cutAtCommentEnd_eq_some hcut
    rw [← cutAtCommentEnd_append hcut]
    exact .inl ⟨inner, isFirstEnd_of_not_isInfix hinner _, hfirst.symm⟩
  · exact .inr ⟨cutAtCommentEnd_eq_none.mp hcut, hfirst.symm⟩

/-- What each piece has to satisfy, for it is cut off the text where it stands. -/
theorem foundAt_of_mem_placedPieces {source : List Char} {item : Piece × Span}
    (h : item ∈ placedPieces source) : FoundAt source item := by
  obtain ⟨p, s⟩ := item
  have hcuts := cuts_of_mem_placedPieces h
  have hslice : slice source s = p.text := hcuts.slice_eq
  have hcut := cutOff_of_mem_placedPieces h
  have hbegin : p.text <+: dropBytes s.start source := by
    obtain ⟨-, rest, htext, -⟩ := hcut
    exact ⟨rest, htext.symm⟩
  have hlongest := isLongest_of_cutOff hcut
  have hspells {l : Lexeme} (hl : lexeme? (p, s) = some l) : l.token.Spells p.text :=
    hcut.1.spells (lexeme?_eq_some hl).1
  constructor
  case token =>
    intro l hl
    rw [(lexeme?_eq_some hl).2, hslice]
    exact ⟨hbegin, (hspells hl).matches, hlongest⟩
  case keyword =>
    intro l hl
    rw [(lexeme?_eq_some hl).2, hslice]
    exact (hspells hl).keyword_iff
  case separator =>
    intro hrole
    rw [hslice]
    obtain ⟨pattern, hpattern, hmatches⟩ | ⟨inner, htext⟩ := hcut.1.skipped hrole
    · exact .inl ⟨pattern, hpattern, hmatches, hlongest⟩
    · obtain ⟨rest, hrest⟩ := hbegin
      rw [htext] at hrest
      exact .inr ⟨_, hrest.symm⟩
  case blockComment =>
    intro body hbody
    rw [hbody] at hcut
    obtain ⟨before, after, hsource, hspan⟩ := hcuts
    obtain ⟨inner, hinner, rfl⟩ | ⟨hnone, rfl⟩ := hcut.blockComment
    · refine .inl ⟨rfl, inner, hinner, ?_⟩
      have hopen : byteLength ['/', '*'] = 2 := rfl
      have hclose : byteLength commentEnd = 2 := rfl
      rw [hspan]
      show byteLength before + byteLength (['/', '*'] ++ (inner ++ commentEnd))
        = byteLength before + 2 + byteLength inner + 2
      rw [byteLength_append, byteLength_append, hopen, hclose]
      omega
    · refine .inr ⟨hnone, _, rfl, rfl, ?_⟩
      -- What is left of the source there is the comment, so nothing is behind it.
      rw [hspan, hsource, dropBytes_append] at hbody
      obtain rfl : after = [] := by simpa using hbody
      rw [hspan, hsource]
      simp
  case unclosed =>
    intro e he hfault
    obtain ⟨text, -, he⟩ | ⟨text, hitem, -⟩ := exists_of_error?_eq he
    · rw [he] at hfault
      cases hfault
    · obtain ⟨rfl, rfl⟩ := Prod.mk.inj hitem
      cases hcut.1 with
      | @unclosed body hnone =>
        obtain ⟨rest, hrest⟩ := hbegin
        rw [← hrest] at hcut ⊢
        refine ⟨body ++ rest, rfl, ?_⟩
        obtain ⟨_, _, hskipped⟩ | ⟨hnone, -⟩ := Piece.CutOff.blockComment hcut
        · cases hskipped
        · exact hnone
  case unknown =>
    intro e he hfault pattern other hmatches
    obtain ⟨text, hitem, -⟩ | ⟨text, -, he⟩ := exists_of_error?_eq he
    · obtain ⟨rfl, rfl⟩ := Prod.mk.inj hitem
      exact not_matches_of_unknown hcut pattern hmatches
    · rw [he] at hfault
      cases hfault

/-- **Longest match.** Wherever the lexer starts, what it finds is the longest match there,
or a block comment up to its first end; and it finds an error only where nothing
matches, or where a comment has no end. Tokens and errors are found so, all of them. -/
theorem longest_match (source : String) :
    (∀ item ∈ placedPieces source.toList, FoundAt source.toList item)
      ∧ (∀ ts, tokenize source = .ok ts →
          ∀ l ∈ ts, ∃ item ∈ placedPieces source.toList, lexeme? item = some l)
      ∧ ∀ es, tokenize source = .error es →
          ∀ e ∈ es, ∃ item ∈ placedPieces source.toList, error? item = some e := by
  refine ⟨fun _ => foundAt_of_mem_placedPieces, fun ts h l hl => ?_, fun es h e he => ?_⟩
  · rw [(tokenize_eq_ok_iff.mp h).2] at hl
    exact List.mem_filterMap.mp hl
  · rw [(tokenize_eq_error_iff.mp h).2] at he
    exact List.mem_filterMap.mp he

/-- A word that begins like a keyword, a comment that begins with what would end it, the
longer of two symbols, and half a symbol. -/
theorem longest_match_overlapping :
    IsLongest "intx".toList "intx/*/**/<=&".toList
      ∧ (∃ inner, IsFirstEnd inner "/**/<=&".toList ∧ 10 = 4 + 2 + byteLength inner + 2)
      ∧ IsLongest "<=".toList "<=&".toList
      ∧ ∀ (pattern : Pattern) (other : List Char),
          pattern.Matches other → ¬ other <+: "&".toList := by
  obtain ⟨hfound, -⟩ := longest_match "intx/*/**/<=&"
  have hword := (hfound (⟨.token .ident, "intx".toList⟩, ⟨0, 4⟩) (by decide +kernel)).token _ rfl
  have hcomment := (hfound (⟨.skipped, "/*/**/".toList⟩, ⟨4, 10⟩) (by decide +kernel)).blockComment
    "/**/<=&".toList rfl
  have hsymbol := (hfound (⟨.token (.symbol .lessEqual), "<=".toList⟩, ⟨10, 12⟩)
    (by decide +kernel)).token _ rfl
  have hhalf := (hfound (⟨.unknown, "&".toList⟩, ⟨12, 13⟩) (by decide +kernel)).unknown _ rfl rfl
  obtain ⟨-, hcomment⟩ | ⟨-, _, herror, -⟩ := hcomment
  · exact ⟨hword.2.2, hcomment, hsymbol.2.2, hhalf⟩
  · cases herror

end ImpFront
