import ImpFront.Proofs.Token.Scanning

/-!
# Putting written texts together

A text that is printed from a tree is put together from the texts of its parts.
Whether the lexer cuts it back into the tokens of the parts depends on what
stands next to each other, and so `Writes text items` says it of every text that
may come behind: it may be anything that does not go on with a word or a number.

Texts are joined by a space, by an operator with spaces around it, or directly,
where the second text starts with punctuation or the first one ends in it.
-/

namespace ImpFront

open Lexer

/-- A symbol as an item. -/
def Symbol.item (s : Symbol) : Item := (.symbol s, s.spelling.toList)

/-- A keyword as an item. -/
def Keyword.item (k : Keyword) : Item := (.keyword k, k.spelling.toList)

/-- An identifier as an item. -/
def nameItem (name : String) : Item := (.ident, name.toList)

/-- **The text is written out of the items**, whatever comes behind it, if that
does not go on with a word. -/
structure Writes (text : List Char) (items : List Item) : Prop where
  /-- The text starts with a token. -/
  solid : ∃ c cs, text = c :: cs ∧ isBlank c = false
  /-- The tokens end where the text does. -/
  scans : ∀ ⦃rest more⦄, StartsWithout isWordPart rest → Scans rest more →
    Scans (text ++ rest) (items ++ more)

namespace Writes

variable {text other : List Char} {items others : List Item}

/-- A text that is written out of items is cut into them where it ends. -/
theorem scans_all (h : Writes text items) : Scans text items := by
  have hscans := h.scans (startsWithout_nil _) .nil
  rwa [List.append_nil, List.append_nil] at hscans

/-- The blanks before a text end where it starts. -/
theorem startsWithout_isBlank (h : Writes text items) (rest : List Char) :
    StartsWithout isBlank (text ++ rest) := by
  obtain ⟨c, cs, rfl, hc⟩ := h.solid
  exact startsWithout_cons.mpr hc

end Writes

/-- The characters that a token takes in are parts of words. -/
def Token.Closed (t : Token) : Prop := ∀ c, t.goesOn c = true → isWordPart c = true

theorem Token.Closed.startsWithout {t : Token} (ht : t.Closed) {rest : List Char}
    (h : StartsWithout isWordPart rest) : StartsWithout t.goesOn rest := by
  intro c hc
  by_contra hgoesOn
  have := ht c (by simpa using hgoesOn)
  rw [h c hc] at this
  simp at this

theorem closed_ident : Token.ident.Closed := fun _ h => h

theorem closed_keyword (k : Keyword) : (Token.keyword k).Closed := fun _ h => h

theorem closed_intLiteral : Token.intLiteral.Closed := fun _ h => isWordPart_of_isDigit h

/-- A symbol that nothing makes longer. -/
def Symbol.Final (s : Symbol) : Prop := ∀ c, (Token.symbol s).goesOn c = false

theorem Symbol.Final.closed {s : Symbol} (hs : s.Final) : (Token.symbol s).Closed := by
  intro c h
  rw [hs c] at h
  simp at h

/-- **Punctuation**, the symbols that stand for themselves and for the start of
nothing else. -/
def Symbol.punctuation : List Symbol :=
  [.openParen, .closeParen, .openBrace, .closeBrace, .comma, .semicolon]

theorem Symbol.final_of_mem {s : Symbol} (h : s ∈ punctuation) : s.Final := by
  simp only [punctuation, List.mem_cons, List.not_mem_nil, or_false] at h
  rcases h with rfl | rfl | rfl | rfl | rfl | rfl <;> exact fun _ => rfl

/-- No spelling starts with a blank. -/
theorem Token.Spells.solid {t : Token} {text : List Char} (h : t.Spells text) :
    ∃ c cs, text = c :: cs ∧ isBlank c = false := by
  cases t with
  | keyword k =>
    obtain rfl : text = k.spelling.toList := h
    obtain ⟨c, cs, hcs, hstart, -⟩ := isWord_spelling k
    exact ⟨c, cs, hcs, isBlank_of_isWordPart (isWordPart_of_isWordStart hstart)⟩
  | symbol s =>
    obtain rfl : text = s.spelling.toList := h
    cases s <;> exact ⟨_, _, rfl, by decide⟩
  | intLiteral =>
    obtain ⟨hne, hdigits⟩ := h
    obtain ⟨c, cs, rfl⟩ := List.exists_cons_of_ne_nil hne
    rw [List.all_cons, Bool.and_eq_true] at hdigits
    exact ⟨c, cs, rfl, isBlank_of_isWordPart (isWordPart_of_isDigit hdigits.1)⟩
  | ident =>
    obtain ⟨⟨c, cs, rfl, hstart, -⟩, -⟩ := h
    exact ⟨c, cs, rfl, isBlank_of_isWordPart (isWordPart_of_isWordStart hstart)⟩

/-! ## Joining texts -/

/-- A single token. -/
theorem writes_token {t : Token} {text : List Char} (h : t.Spells text) (ht : t.Closed) :
    Writes text [(t, text)] :=
  ⟨h.solid, fun _ _ hrest hscans => .token h (ht.startsWithout hrest) hscans⟩

theorem writes_keyword (k : Keyword) : Writes k.spelling.toList [k.item] :=
  writes_token (t := .keyword k) rfl (closed_keyword k)

theorem writes_symbol (s : Symbol) (hs : s ∈ Symbol.punctuation) :
    Writes s.spelling.toList [s.item] :=
  writes_token (t := .symbol s) rfl (Symbol.final_of_mem hs).closed

section Join

variable {text other : List Char} {items others : List Item}

/-- Directly behind a text, if the second does not go on with a word. -/
theorem Writes.append (h : Writes text items) (h' : Writes other others)
    (hstart : StartsWithout isWordPart other) : Writes (text ++ other) (items ++ others) := by
  obtain ⟨c, cs, rfl, hc⟩ := h.solid
  refine ⟨⟨c, cs ++ other, rfl, hc⟩, fun rest more hrest hscans => ?_⟩
  obtain ⟨d, ds, rfl, -⟩ := h'.solid
  rw [List.append_assoc, List.append_assoc]
  exact h.scans (startsWithout_cons.mpr (startsWithout_cons.mp hstart)) (h'.scans hrest hscans)

/-- With a blank between the two. -/
theorem Writes.blank {b : Char} (hb : isBlank b = true) (h : Writes text items)
    (h' : Writes other others) : Writes (text ++ b :: other) (items ++ others) := by
  obtain ⟨c, cs, rfl, hc⟩ := h.solid
  refine ⟨⟨c, cs ++ b :: other, rfl, hc⟩, fun rest more hrest hscans => ?_⟩
  have hword : isWordPart b = false := by
    by_contra hword
    rw [isBlank_of_isWordPart (by simpa using hword)] at hb
    simp at hb
  have hgap : Scans ([b] ++ (other ++ rest)) (others ++ more) :=
    .blanks (by simp) (by simpa using hb) (h'.startsWithout_isBlank rest) (h'.scans hrest hscans)
  rw [List.append_assoc, List.append_assoc]
  exact h.scans (startsWithout_cons.mpr hword) hgap

/-- With a space between the two. -/
theorem Writes.space (h : Writes text items) (h' : Writes other others) :
    Writes (text ++ ' ' :: other) (items ++ others) :=
  h.blank (by decide) h'

/-- Directly behind punctuation. -/
theorem Writes.symbol_append (s : Symbol) (hs : s ∈ Symbol.punctuation)
    (h : Writes text items) :
    Writes (s.spelling.toList ++ text) (s.item :: items) := by
  obtain ⟨c, cs, hcs, hc⟩ := Token.Spells.solid (t := .symbol s) rfl
  refine ⟨⟨c, cs ++ text, by rw [hcs, List.cons_append], hc⟩, fun rest more hrest hscans => ?_⟩
  rw [List.append_assoc]
  exact .token (t := .symbol s) rfl (fun d _ => Symbol.final_of_mem hs d) (h.scans hrest hscans)

/-- With a symbol between the two, and spaces around it. -/
theorem Writes.spaced (s : Symbol) (h : Writes text items) (h' : Writes other others) :
    Writes (text ++ ' ' :: (s.spelling.toList ++ ' ' :: other)) (items ++ s.item :: others) := by
  obtain ⟨c, cs, rfl, hc⟩ := h.solid
  refine ⟨⟨c, _, rfl, hc⟩, fun rest more hrest hscans => ?_⟩
  -- Blank, symbol, blank: from the right, since each must know what comes behind it.
  have hright : Scans ([' '] ++ (other ++ rest)) (others ++ more) :=
    .blanks (by simp) (by decide) (h'.startsWithout_isBlank rest) (h'.scans hrest hscans)
  have hspace : (Token.symbol s).goesOn ' ' = false := by
    cases s <;> decide
  have hsymbol : Scans (s.spelling.toList ++ ([' '] ++ (other ++ rest)))
      (s.item :: (others ++ more)) :=
    .token (t := .symbol s) rfl (startsWithout_cons.mpr hspace) hright
  obtain ⟨d, ds, hds, hd⟩ := Token.Spells.solid (t := .symbol s) rfl
  have hleft : Scans ([' '] ++ (s.spelling.toList ++ ([' '] ++ (other ++ rest))))
      (s.item :: (others ++ more)) := by
    refine .blanks (by simp) (by decide) ?_ hsymbol
    rw [hds]
    exact startsWithout_cons.mpr hd
  have hscansAll := h.scans (startsWithout_cons.mpr (by decide)) hleft
  simpa using hscansAll

end Join

end ImpFront
