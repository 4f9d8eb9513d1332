import ImpFront.Proofs.Token.Spelling

/-!
# Cutting a text that was written token by token

The lexer takes as much as it can, so tokens written next to each other may be
read as something else: `=` and `=` make `==`, two words make one. What decides
is the character behind a token alone – `Token.goesOn` says which characters a
token would take in – and nothing that comes later can change it
(`pieces_append_token`).

`Scans text items` says that a text is written out of these tokens, each with a
character behind it that it does not take in, and with blanks wherever one
likes. Such a text is cut into exactly these tokens (`tokenize_of_scans`).
-/

namespace ImpFront

open Lexer

/-- A token with the text it is written with. -/
abbrev Item : Type := Token × List Char

/-! ## What may stand behind a token -/

/-- **The characters that a token would take in** if they stood behind it. -/
def Token.goesOn : Token → Char → Bool
  | .keyword _, c => isWordPart c
  | .ident, c => isWordPart c
  | .intLiteral, c => c.isDigit
  | .symbol .assign, c => c == '='
  | .symbol .bang, c => c == '='
  | .symbol .less, c => c == '='
  | .symbol .greater, c => c == '='
  | .symbol .slash, c => c == '/' || c == '*'
  | .symbol _, _ => false

/-- A text starts with no such character. -/
def StartsWithout (p : Char → Bool) (text : List Char) : Prop := ∀ c ∈ text.head?, p c = false

@[simp] theorem startsWithout_nil (p : Char → Bool) : StartsWithout p [] := by
  simp [StartsWithout]

@[simp] theorem startsWithout_cons {p : Char → Bool} {c : Char} {cs : List Char} :
    StartsWithout p (c :: cs) ↔ p c = false := by
  simp [StartsWithout]

/-- A run of characters ends where the text starts without them. -/
theorem takeWhile_append_of_startsWithout {p : Char → Bool} {cs rest : List Char}
    (hcs : cs.all p = true) (hrest : StartsWithout p rest) :
    (cs ++ rest).takeWhile p = cs := by
  rw [List.takeWhile_append_of_pos fun c hc => List.all_eq_true.mp hcs c hc]
  cases rest with
  | nil => simp
  | cons c rest => simp [startsWithout_cons.mp hrest]

/-! ## Classes of characters -/

/-- A blank is neither a digit nor part of a word. -/
theorem isWordPart_of_isBlank {c : Char} (h : isBlank c = true) : isWordPart c = false := by
  simp only [isBlank, Bool.or_eq_true, beq_iff_eq] at h
  obtain (((rfl | rfl) | rfl) | rfl) | rfl := h <;> decide

theorem isBlank_of_isWordPart {c : Char} (h : isWordPart c = true) : isBlank c = false := by
  by_contra hblank
  rw [isWordPart_of_isBlank (by simpa using hblank)] at h
  simp at h

theorem isWordPart_of_isWordStart {c : Char} (h : isWordStart c = true) :
    isWordPart c = true := by
  rw [isWordPart, h]
  rfl

theorem isWordPart_of_isDigit {c : Char} (h : c.isDigit = true) : isWordPart c = true := by
  rw [isWordPart, h, Bool.or_true]

/-- A word does not start with a digit. -/
theorem isDigit_of_isWordStart {c : Char} (h : isWordStart c = true) : c.isDigit = false := by
  change (decide (c.val ≥ 'A'.val ∧ c.val ≤ 'Z'.val)
    || (decide (c.val ≥ 'a'.val) && decide (c.val ≤ 'z'.val)) || c == '_') = true at h
  show (decide (c.val ≥ '0'.val) && decide (c.val ≤ '9'.val)) = false
  simp only [Bool.or_eq_true, Bool.and_eq_true, decide_eq_true_eq, beq_iff_eq] at h
  simp only [Bool.and_eq_false_iff, decide_eq_false_iff_not]
  rcases h with (⟨h, -⟩ | ⟨h, -⟩) | rfl
  · right
    intro h'
    exact absurd (UInt32.le_trans h h') (by decide)
  · right
    intro h'
    exact absurd (UInt32.le_trans h h') (by decide)
  · right
    decide

/-! ## Single pieces -/

theorem firstPiece_digits {c : Char} {cs rest : List Char}
    (hdigits : (c :: cs).all Char.isDigit = true) (hrest : StartsWithout Char.isDigit rest) :
    firstPiece c (cs ++ rest) = ⟨.token .intLiteral, c :: cs⟩ := by
  rw [List.all_cons, Bool.and_eq_true] at hdigits
  unfold firstPiece
  rw [if_neg (by simp [isBlank_of_isWordPart (isWordPart_of_isDigit hdigits.1)]),
    if_pos hdigits.1, takeWhile_append_of_startsWithout hdigits.2 hrest]

theorem firstPiece_word {c : Char} {cs rest : List Char} (hstart : isWordStart c = true)
    (hpart : cs.all isWordPart = true) (hrest : StartsWithout isWordPart rest) :
    firstPiece c (cs ++ rest) = ⟨.token (wordToken (c :: cs)), c :: cs⟩ := by
  unfold firstPiece
  rw [if_neg (by simp [isBlank_of_isWordPart (isWordPart_of_isWordStart hstart)]),
    if_neg (by simp [isDigit_of_isWordStart hstart]), if_pos hstart,
    takeWhile_append_of_startsWithout hpart hrest]

/-- A keyword is a word. -/
theorem isWord_spelling (k : Keyword) : IsWord k.spelling.toList := by
  cases k <;> exact ⟨_, _, rfl, by decide, by decide⟩

theorem wordToken_spelling (k : Keyword) : wordToken k.spelling.toList = .keyword k := by
  rw [wordToken, Keyword.ofSpelling?_spelling]

/-- A symbol is found where it is written, if nothing behind it makes it
longer. -/
theorem symbolAt_append {s : Symbol} {c : Char} {cs rest : List Char}
    (hspelling : s.spelling.toList = c :: cs)
    (hrest : StartsWithout (Token.symbol s).goesOn rest) :
    symbolAt c (cs ++ rest) = some (s, cs) := by
  cases s <;> simp only [Symbol.spelling, String.reduceToList, List.cons.injEq] at hspelling <;>
    obtain ⟨rfl, rfl⟩ := hspelling <;> try rfl
  -- What is left are the symbols that others start with, and each names what to look out for.
  all_goals
    cases rest with
    | nil => rfl
    | cons d ds =>
      simp only [startsWithout_cons, Token.goesOn] at hrest
      unfold symbolAt
      split <;> simp_all

/-- Only `/` can begin a comment. -/
theorem firstPiece_of_symbolAt {s : Symbol} {c : Char} {cs more : List Char}
    (hblank : isBlank c = false) (hpart : isWordPart c = false)
    (hcomment : c = '/' → StartsWithout (Token.symbol .slash).goesOn cs)
    (h : symbolAt c cs = some (s, more)) : firstPiece c cs = ⟨.token (.symbol s), c :: more⟩ := by
  have hclass : isWordStart c = false ∧ c.isDigit = false := by
    rwa [isWordPart, Bool.or_eq_false_iff] at hpart
  unfold firstPiece
  rw [if_neg (by simp [hblank]), if_neg (by simp [hclass]), if_neg (by simp [hclass])]
  -- Behind a slash there would have to be a second one, or a star.
  split
  · simp [Token.goesOn] at hcomment
  · simp [Token.goesOn] at hcomment
  · rw [h]

theorem firstPiece_symbol {s : Symbol} {c : Char} {cs rest : List Char}
    (hspelling : s.spelling.toList = c :: cs)
    (hrest : StartsWithout (Token.symbol s).goesOn rest) :
    firstPiece c (cs ++ rest) = ⟨.token (.symbol s), c :: cs⟩ := by
  have hsymbol := symbolAt_append hspelling hrest
  have hclass : isBlank c = false ∧ isWordPart c = false
      ∧ (c = '/' → s = .slash ∧ cs = []) := by
    cases s <;> simp only [Symbol.spelling, String.reduceToList, List.cons.injEq] at hspelling <;>
      obtain ⟨rfl, rfl⟩ := hspelling <;> decide
  refine firstPiece_of_symbolAt hclass.1 hclass.2.1 ?_ hsymbol
  intro hc
  obtain ⟨rfl, rfl⟩ := hclass.2.2 hc
  exact hrest

/-- A text is cut where its first piece ends. -/
theorem pieces_of_firstPiece {c : Char} {cs rest : List Char} {role : PieceRole}
    (h : firstPiece c (cs ++ rest) = ⟨role, c :: cs⟩) :
    pieces (c :: cs ++ rest) = ⟨role, c :: cs⟩ :: pieces rest := by
  rw [List.cons_append, pieces_cons, h]
  show _ :: pieces ((c :: cs ++ rest).drop (c :: cs).length) = _
  rw [List.drop_left]

/-- **A token is cut off the text it is written in front of**, if the text
starts with no character that the token would take in. -/
theorem pieces_append_token {t : Token} {text rest : List Char} (h : t.Spells text)
    (hrest : StartsWithout t.goesOn rest) :
    pieces (text ++ rest) = ⟨.token t, text⟩ :: pieces rest := by
  cases t with
  | keyword k =>
    obtain rfl : text = k.spelling.toList := h
    obtain ⟨c, cs, hcs, hstart, hpart⟩ := isWord_spelling k
    have hword := wordToken_spelling k
    rw [hcs] at hword ⊢
    exact pieces_of_firstPiece (by rw [firstPiece_word hstart hpart hrest, hword])
  | ident =>
    obtain ⟨⟨c, cs, rfl, hstart, hpart⟩, hkeyword⟩ := h
    refine pieces_of_firstPiece ?_
    rw [firstPiece_word hstart hpart hrest, wordToken, hkeyword]
  | intLiteral =>
    obtain ⟨hne, hdigits⟩ := h
    obtain ⟨c, cs, rfl⟩ := List.exists_cons_of_ne_nil hne
    exact pieces_of_firstPiece (firstPiece_digits hdigits hrest)
  | symbol s =>
    obtain rfl : text = s.spelling.toList := h
    obtain ⟨c, cs, hcs⟩ : ∃ c cs, s.spelling.toList = c :: cs := by
      cases s <;> exact ⟨_, _, rfl⟩
    rw [hcs]
    exact pieces_of_firstPiece (firstPiece_symbol hcs hrest)

/-- A run of blanks is one piece. -/
theorem pieces_append_blanks {gap rest : List Char} (hne : gap ≠ [])
    (hblank : gap.all isBlank = true) (hrest : StartsWithout isBlank rest) :
    pieces (gap ++ rest) = ⟨.skipped, gap⟩ :: pieces rest := by
  obtain ⟨c, cs, rfl⟩ := List.exists_cons_of_ne_nil hne
  rw [List.all_cons, Bool.and_eq_true] at hblank
  refine pieces_of_firstPiece ?_
  unfold firstPiece
  rw [if_pos hblank.1, takeWhile_append_of_startsWithout hblank.2 hrest]

/-! ## Whole texts -/

/-- **The text is written out of the items**, with blanks between them. -/
inductive Scans : List Char → List Item → Prop
  | nil : Scans [] []
  | token {t : Token} {text rest : List Char} {items : List Item} (hspells : t.Spells text)
      (hends : StartsWithout t.goesOn rest) (h : Scans rest items) :
      Scans (text ++ rest) ((t, text) :: items)
  | blanks {gap rest : List Char} {items : List Item} (hne : gap ≠ [])
      (hblank : gap.all isBlank = true) (hends : StartsWithout isBlank rest)
      (h : Scans rest items) : Scans (gap ++ rest) items

/-- A lexeme as an item: the text is the one under its span. -/
def Lexeme.item (source : List Char) (l : Lexeme) : Item := (l.token, slice source l.span)

/-- The lexemes among the placed pieces of a text that is written out of items;
`before` is the text in front of it. -/
theorem placed_of_scans {text : List Char} {items : List Item} (h : Scans text items)
    (before : List Char) :
    (placed (byteLength before) (pieces text)).filterMap error? = []
      ∧ ((placed (byteLength before) (pieces text)).filterMap lexeme?).map
          (Lexeme.item (before ++ text)) = items := by
  induction h generalizing before with
  | nil => simp [placed]
  | @token t text rest items hspells hends _ ih =>
    obtain ⟨herror, hitems⟩ := ih (before ++ text)
    rw [pieces_append_token hspells hends, placed]
    simp only
    rw [← byteLength_append]
    refine ⟨by rw [List.filterMap_cons_none rfl, herror], ?_⟩
    show Lexeme.item _ ⟨t, ⟨byteLength before, byteLength (before ++ text)⟩⟩
      :: (List.filterMap lexeme? _).map _ = _
    rw [← List.append_assoc, hitems, Lexeme.item, List.append_assoc, byteLength_append,
      slice_append]
  | @blanks gap rest items hne hblank hends _ ih =>
    obtain ⟨herror, hitems⟩ := ih (before ++ gap)
    rw [pieces_append_blanks hne hblank hends, placed]
    simp only
    rw [← byteLength_append]
    refine ⟨by rw [List.filterMap_cons_none rfl, herror], ?_⟩
    rw [List.filterMap_cons_none rfl, ← List.append_assoc, hitems]

/-- **A source that is written out of items is cut into them.** -/
theorem tokenize_of_scans {source : String} {items : List Item}
    (h : Scans source.toList items) :
    ∃ ts, tokenize source = .ok ts ∧ ts.map (Lexeme.item source.toList) = items := by
  obtain ⟨herror, hitems⟩ := placed_of_scans h []
  refine ⟨(placedPieces source.toList).filterMap lexeme?, ?_, hitems⟩
  unfold tokenize
  simp only [placedPieces]
  rw [byteLength_nil] at herror
  rw [herror]

end ImpFront
