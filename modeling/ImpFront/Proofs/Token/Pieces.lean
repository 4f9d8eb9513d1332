import ImpFront.Proofs.Token.Scanning
import ImpFront.Proofs.SyntaxTree.Extents
import Mathlib.Data.List.Chain
import Mathlib.Data.List.Infix

/-!
# Which cuttings the lexer makes

A text can be put together from pieces in many ways, and the lexer finds one of
them. Which one is decided between neighbours: each piece has to be a piece at
all (`Piece.Genuine`), and the next one must not start with a character that it
would have taken in (`Piece.Fits`). That is all: a cutting with these two
properties is the lexer's (`pieces_eq_iff`).

So two texts that are written one behind the other are cut apart from each
other wherever the join respects this (`pieces_append`), and any run of pieces
of a text is, on its own, cut into just these pieces (`pieces_flatMap`).
-/

namespace ImpFront

open Lexer

/-! ## The end of a block comment -/

/-- `*/`, as characters. -/
def commentEnd : List Char := ['*', '/']

/-- In front of a character the text has an end of a comment only if the rest
has one, or if it is made of this character and the next. -/
theorem commentEnd_isInfix_cons {c : Char} {cs : List Char} :
    commentEnd <:+: c :: cs ↔ commentEnd <+: c :: cs ∨ commentEnd <:+: cs :=
  List.infix_cons_iff

/-- **A comment that is never closed** has no `*/`. -/
theorem cutAtCommentEnd_eq_none {cs : List Char} :
    cutAtCommentEnd cs = none ↔ ¬ commentEnd <:+: cs := by
  fun_induction cutAtCommentEnd cs with
  | case1 => simp [commentEnd]
  | case2 rest =>
    have hhas : commentEnd <:+: '*' :: '/' :: rest :=
      List.IsPrefix.isInfix ⟨rest, rfl⟩
    simp [hhas]
  | case3 c cs hne ih =>
    rw [Option.map_eq_none_iff, ih, commentEnd_isInfix_cons]
    have hfront : ¬ commentEnd <+: c :: cs := by
      rintro ⟨rest, h⟩
      obtain ⟨rfl, rfl⟩ := List.cons.inj h
      exact hne rest rfl rfl
    simp [hfront]

/-- **A comment ends at the first `*/`**: there is none in front of it. -/
theorem cutAtCommentEnd_eq_some {cs before rest : List Char}
    (h : cutAtCommentEnd cs = some (before, rest)) :
    ∃ inner, before = inner ++ commentEnd ∧ ¬ commentEnd <:+: inner := by
  fun_induction cutAtCommentEnd cs generalizing before rest with
  | case1 => simp at h
  | case2 rest' =>
    simp only [Option.some.injEq, Prod.mk.injEq] at h
    obtain ⟨rfl, rfl⟩ := h
    exact ⟨[], rfl, by simp [commentEnd]⟩
  | case3 c cs hne ih =>
    simp only [Option.map_eq_some_iff, Prod.mk.injEq, Prod.exists] at h
    obtain ⟨b, r, hbr, rfl, rfl⟩ := h
    obtain ⟨inner, rfl, hinner⟩ := ih hbr
    refine ⟨c :: inner, rfl, ?_⟩
    rw [commentEnd_isInfix_cons]
    rintro (⟨more, hmore⟩ | h)
    · -- The two characters would stand at the front of the whole text.
      obtain ⟨rfl, rfl⟩ := List.cons.inj hmore.symm
      exact hne (more ++ commentEnd ++ r) rfl (by
        rw [← cutAtCommentEnd_append hbr]
        rfl)
    · exact hinner h

theorem cutAtCommentEnd_of_not_isInfix {inner : List Char} (h : ¬ commentEnd <:+: inner)
    (rest : List Char) :
    cutAtCommentEnd (inner ++ commentEnd ++ rest) = some (inner ++ commentEnd, rest) := by
  induction inner with
  | nil => rfl
  | cons c cs ih =>
    rw [commentEnd_isInfix_cons, not_or] at h
    rw [List.cons_append, List.cons_append, cutAtCommentEnd, ih h.2]
    · rfl
    · rintro more rfl hmore
      -- The star would have to be followed by a slash, but the end begins with a star.
      cases cs with
      | nil => simp [commentEnd] at hmore
      | cons d ds =>
        obtain ⟨rfl, -⟩ := List.cons.inj hmore
        exact h.1 ⟨ds, rfl⟩

/-! ## Pieces by themselves -/

/-- **What a piece of each role looks like**, without a look at what stands
behind it. -/
inductive Piece.Genuine : Piece → Prop
  /-- A token is a spelling of it. -/
  | token {t : Token} {text : List Char} (h : t.Spells text) : Genuine ⟨.token t, text⟩
  /-- A run of blanks. -/
  | blanks {text : List Char} (hne : text ≠ []) (h : text.all isBlank = true) :
      Genuine ⟨.skipped, text⟩
  /-- A line comment stays on its line. -/
  | lineComment {body : List Char} (h : '\n' ∉ body) : Genuine ⟨.skipped, '/' :: '/' :: body⟩
  /-- A block comment is closed once. -/
  | blockComment {inner : List Char} (h : ¬ commentEnd <:+: inner) :
      Genuine ⟨.skipped, '/' :: '*' :: (inner ++ commentEnd)⟩
  /-- A single character that is neither blank nor a symbol nor part of a word. -/
  | unknown {c : Char} (hblank : isBlank c = false) (hword : isWordPart c = false)
      (hsymbol : ∀ s : Symbol, s.spelling.toList ≠ [c]) : Genuine ⟨.unknown, [c]⟩
  /-- A block comment that is not closed. -/
  | unclosed {body : List Char} (h : ¬ commentEnd <:+: body) :
      Genuine ⟨.unclosedComment, '/' :: '*' :: body⟩

/-- **The characters that a piece would take in** if they stood behind it. -/
def Piece.goesOn : Piece → Char → Bool
  | ⟨.token t, _⟩, c => t.goesOn c
  | ⟨.skipped, '/' :: '/' :: _⟩, c => c != '\n'
  | ⟨.skipped, '/' :: '*' :: _⟩, _ => false
  | ⟨.skipped, _⟩, c => isBlank c
  | ⟨.unknown, text⟩, c => (c == '&' || c == '|') && text == [c]
  | ⟨.unclosedComment, _⟩, _ => true

theorem Piece.Genuine.ne_nil {p : Piece} (h : p.Genuine) : p.text ≠ [] := by
  cases h with
  | token h => exact h.ne_nil
  | blanks hne _ => exact hne
  | lineComment _ => simp
  | blockComment _ => simp
  | unknown _ _ _ => simp
  | unclosed _ => simp

/-- A run of blanks is told by its first character. -/
theorem Piece.goesOn_blanks {text : List Char} (hne : text ≠ []) (h : text.all isBlank = true) :
    Piece.goesOn ⟨.skipped, text⟩ = isBlank := by
  obtain ⟨c, cs, rfl⟩ := List.exists_cons_of_ne_nil hne
  rw [List.all_cons, Bool.and_eq_true] at h
  have hc : c ≠ '/' := by
    rintro rfl
    simp [isBlank] at h
  funext d
  unfold Piece.goesOn
  split <;> simp_all

/-! ## What the lexer cuts off is such a piece -/

variable {c : Char} {cs rest : List Char} {p : Piece}

/-- Where no symbol is found, the character by itself is none. -/
theorem spelling_ne_of_symbolAt (h : symbolAt c cs = none) (s : Symbol) :
    s.spelling.toList ≠ [c] := by
  intro hspelling
  unfold symbolAt at h
  cases s <;> simp [Symbol.spelling] at hspelling <;> subst hspelling <;> split at h <;> simp_all

/-- **A symbol is as long as it can be.** -/
theorem startsWithout_of_symbolAt {s : Symbol} {more : List Char}
    (hcomment : c = '/' → StartsWithout (Token.symbol .slash).goesOn cs)
    (h : symbolAt c cs = some (s, more)) :
    ∃ rest, cs = more ++ rest ∧ StartsWithout (Token.symbol s).goesOn rest := by
  obtain ⟨rest, rfl⟩ := isPrefix_of_symbolAt h
  refine ⟨rest, rfl, ?_⟩
  unfold symbolAt at h
  split at h <;> simp only [Option.some.injEq, Prod.mk.injEq, reduceCtorEq] at h
  all_goals
    obtain ⟨rfl, rfl⟩ := h
    cases rest with
    | nil => exact startsWithout_nil _
    | cons d ds =>
      rw [startsWithout_cons]
      simp_all [Token.goesOn]

theorem startsWithout_dropWhile (q : Char → Bool) (cs : List Char) :
    StartsWithout q (cs.dropWhile q) := by
  intro c hc
  have := List.head?_dropWhile_not q cs
  rw [Option.mem_def.mp hc] at this
  simpa using this

theorem goesOn_wordToken (word : List Char) : (wordToken word).goesOn = isWordPart := by
  unfold wordToken
  split <;> rfl

/-- **The piece is cut off the text**: it is the beginning of it, and the rest
does not start with a character that the piece would take in. -/
def Piece.CutOff (p : Piece) (text : List Char) : Prop :=
  p.Genuine ∧ ∃ rest, text = p.text ++ rest ∧ StartsWithout p.goesOn rest

/-- A run of characters of one class. -/
theorem cutOff_run {q : Char → Bool} {role : PieceRole}
    (hgenuine : Piece.Genuine ⟨role, c :: cs.takeWhile q⟩)
    (hgoesOn : Piece.goesOn ⟨role, c :: cs.takeWhile q⟩ = q) :
    Piece.CutOff ⟨role, c :: cs.takeWhile q⟩ (c :: cs) := by
  refine ⟨hgenuine, cs.dropWhile q, ?_, ?_⟩
  · rw [List.cons_append, List.takeWhile_append_dropWhile]
  · rw [hgoesOn]
    exact startsWithout_dropWhile q cs

theorem cutOff_lineComment (rest : List Char) :
    Piece.CutOff ⟨.skipped, '/' :: '/' :: rest.takeWhile (· != '\n')⟩ ('/' :: '/' :: rest) := by
  refine ⟨.lineComment ?_, rest.dropWhile (· != '\n'), ?_, startsWithout_dropWhile _ rest⟩
  · intro hmem
    simpa using List.all_eq_true.mp List.all_takeWhile _ hmem
  · rw [List.cons_append, List.cons_append, List.takeWhile_append_dropWhile]

theorem cutOff_blockComment {rest body after : List Char}
    (h : cutAtCommentEnd rest = some (body, after)) :
    Piece.CutOff ⟨.skipped, '/' :: '*' :: body⟩ ('/' :: '*' :: rest) := by
  obtain ⟨inner, rfl, hinner⟩ := cutAtCommentEnd_eq_some h
  refine ⟨.blockComment hinner, after, ?_, fun _ _ => rfl⟩
  rw [← cutAtCommentEnd_append h]
  rfl

theorem cutOff_unclosed {rest : List Char} (h : cutAtCommentEnd rest = none) :
    Piece.CutOff ⟨.unclosedComment, '/' :: '*' :: rest⟩ ('/' :: '*' :: rest) :=
  ⟨.unclosed (cutAtCommentEnd_eq_none.mp h), [], by simp, startsWithout_nil _⟩

theorem cutOff_symbol {s : Symbol} {more : List Char}
    (hcomment : c = '/' → StartsWithout (Token.symbol .slash).goesOn cs)
    (h : symbolAt c cs = some (s, more)) :
    Piece.CutOff ⟨.token (.symbol s), c :: more⟩ (c :: cs) := by
  obtain ⟨rest, rfl, hends⟩ := startsWithout_of_symbolAt hcomment h
  exact ⟨.token (spelling_of_symbolAt h).symm, rest, rfl, hends⟩

theorem cutOff_unknown (hblank : isBlank c = false) (hword : isWordPart c = false)
    (h : symbolAt c cs = none) : Piece.CutOff ⟨.unknown, [c]⟩ (c :: cs) := by
  refine ⟨.unknown hblank hword (spelling_ne_of_symbolAt h), cs, rfl, ?_⟩
  cases cs with
  | nil => exact startsWithout_nil _
  | cons d ds =>
    rw [startsWithout_cons]
    unfold Piece.goesOn
    by_contra hgoesOn
    simp only [Bool.not_eq_false, Bool.and_eq_true, Bool.or_eq_true, beq_iff_eq,
      List.cons.injEq, and_true] at hgoesOn
    -- Two of the same, `&` or `|`, would be a symbol.
    obtain ⟨rfl | rfl, rfl⟩ := hgoesOn <;> simp [symbolAt] at h

/-- **The first piece of a text is a piece, and it takes in all it can.** -/
theorem cutOff_firstPiece (c : Char) (cs : List Char) :
    (firstPiece c cs).CutOff (c :: cs) := by
  unfold firstPiece
  split
  · rename_i hblank
    have hall : (c :: cs.takeWhile isBlank).all isBlank = true := by
      rw [List.all_cons, hblank, List.all_takeWhile]
      rfl
    exact cutOff_run (.blanks (List.cons_ne_nil _ _) hall)
      (Piece.goesOn_blanks (List.cons_ne_nil _ _) hall)
  rename_i hblank
  split
  · rename_i hdigit
    refine cutOff_run (.token ⟨List.cons_ne_nil _ _, ?_⟩) rfl
    rw [List.all_cons, hdigit, List.all_takeWhile]
    rfl
  rename_i hdigit
  split
  · rename_i hstart
    exact cutOff_run (.token (spells_wordToken ⟨c, _, rfl, hstart, List.all_takeWhile⟩))
      (goesOn_wordToken _)
  rename_i hstart
  split
  · exact cutOff_lineComment _
  · split
    · rename_i hcut
      exact cutOff_blockComment hcut
    · rename_i hcut
      exact cutOff_unclosed hcut
  · rename_i hline hblock
    split
    · rename_i hsymbol
      refine cutOff_symbol ?_ hsymbol
      rintro rfl d hd
      obtain ⟨ds, rfl⟩ := List.head?_eq_some_iff.mp hd
      simp only [Token.goesOn, Bool.or_eq_false_iff, beq_eq_false_iff_ne]
      exact ⟨fun h => hline ds rfl (by rw [h]), fun h => hblock ds rfl (by rw [h])⟩
    · rename_i hsymbol
      exact cutOff_unknown (by simpa using hblank) (by simp [isWordPart, hstart, hdigit]) hsymbol

/-! ## What is such a piece, the lexer cuts off -/

/-- A slash is neither blank nor a digit nor part of a word, so what comes with
it decides. -/
theorem firstPiece_slash (cs : List Char) :
    firstPiece '/' ('/' :: cs) = ⟨.skipped, '/' :: '/' :: cs.takeWhile (· != '\n')⟩ := rfl

theorem firstPiece_slash_star (cs : List Char) :
    firstPiece '/' ('*' :: cs) = match cutAtCommentEnd cs with
      | some (body, _) => ⟨.skipped, '/' :: '*' :: body⟩
      | none => ⟨.unclosedComment, '/' :: '*' :: cs⟩ := rfl

theorem firstPiece_unknown (hblank : isBlank c = false) (hword : isWordPart c = false)
    (hsymbol : symbolAt c cs = none) : firstPiece c cs = ⟨.unknown, [c]⟩ := by
  have hclass : isWordStart c = false ∧ c.isDigit = false := by
    rwa [isWordPart, Bool.or_eq_false_iff] at hword
  unfold firstPiece
  rw [if_neg (by simp [hblank]), if_neg (by simp [hclass]), if_neg (by simp [hclass])]
  -- A slash is a symbol, so no comment begins here.
  split
  · simp [symbolAt] at hsymbol
  · simp [symbolAt] at hsymbol
  · rw [hsymbol]

/-- A character that is no symbol by itself needs a second one to make one. -/
theorem symbolAt_eq_none (hne : ∀ s : Symbol, s.spelling.toList ≠ [c])
    (hends : StartsWithout (Piece.goesOn ⟨.unknown, [c]⟩) cs) : symbolAt c cs = none := by
  by_contra h
  obtain ⟨⟨s, more⟩, h⟩ := Option.ne_none_iff_exists'.mp h
  have hspelling := spelling_of_symbolAt h
  obtain ⟨rest, rfl⟩ := isPrefix_of_symbolAt h
  cases more with
  | nil => exact hne s hspelling
  | cons d ds =>
    rw [List.cons_append, startsWithout_cons] at hends
    cases s <;> simp only [Symbol.spelling, String.reduceToList, List.cons.injEq, reduceCtorEq,
      and_false] at hspelling <;> obtain ⟨rfl, rfl, -⟩ := hspelling
    case andAnd => simp [Piece.goesOn] at hends
    case orOr => simp [Piece.goesOn] at hends
    case equalEqual => exact hne .assign rfl
    case notEqual => exact hne .bang rfl
    case lessEqual => exact hne .less rfl
    case greaterEqual => exact hne .greater rfl

/-- **A piece is cut off the text it is written in front of**, if the text
starts with no character that the piece would take in. -/
theorem pieces_append_piece (hp : p.Genuine) (hends : StartsWithout p.goesOn rest) :
    pieces (p.text ++ rest) = p :: pieces rest := by
  cases hp with
  | token h => exact pieces_append_token h hends
  | blanks hne h =>
    rw [Piece.goesOn_blanks hne h] at hends
    exact pieces_append_blanks hne h hends
  | @lineComment body h =>
    refine pieces_of_firstPiece ?_
    have hbody : body.all (· != '\n') = true := by
      rw [List.all_eq_true]
      intro d hd
      simpa using ne_of_mem_of_not_mem hd h
    rw [List.cons_append, firstPiece_slash, takeWhile_append_of_startsWithout hbody hends]
  | blockComment h =>
    refine pieces_of_firstPiece ?_
    rw [List.cons_append, firstPiece_slash_star, cutAtCommentEnd_of_not_isInfix h]
  | unknown hblank hword hsymbol =>
    refine pieces_of_firstPiece ?_
    exact firstPiece_unknown hblank hword (symbolAt_eq_none hsymbol hends)
  | unclosed h =>
    -- The comment takes in whatever comes, so nothing does.
    obtain rfl : rest = [] := by
      cases rest with
      | nil => rfl
      | cons d ds => simp [Piece.goesOn] at hends
    refine pieces_of_firstPiece ?_
    rw [List.append_nil, firstPiece_slash_star, cutAtCommentEnd_eq_none.mpr h]

/-! ## Whole texts -/

/-- **The second piece may stand behind the first**: it does not start with a
character that the first would have taken in. -/
def Piece.Fits (p q : Piece) : Prop := StartsWithout p.goesOn q.text

/-- **A cutting that could be the lexer's.** -/
structure IsCutting (ps : List Piece) : Prop where
  /-- Each part is a piece. -/
  genuine : ∀ p ∈ ps, p.Genuine
  /-- Each may stand behind the one before it. -/
  fits : ps.IsChain Piece.Fits

variable {ps qs : List Piece}

/-- Only the first of several characters counts. -/
theorem startsWithout_append {r : Char → Bool} {text : List Char} (hne : text ≠ [])
    (more : List Char) : StartsWithout r (text ++ more) ↔ StartsWithout r text := by
  obtain ⟨d, ds, rfl⟩ := List.exists_cons_of_ne_nil hne
  rw [List.cons_append, startsWithout_cons, startsWithout_cons]

theorem IsCutting.nil : IsCutting [] := ⟨by simp, .nil⟩

/-- What may stand in front of a cutting is told by its first piece. -/
theorem isCutting_cons :
    IsCutting (p :: ps) ↔
      p.Genuine ∧ StartsWithout p.goesOn (ps.flatMap Piece.text) ∧ IsCutting ps := by
  constructor
  · rintro ⟨hgenuine, hfits⟩
    rw [List.forall_mem_cons] at hgenuine
    cases ps with
    | nil => exact ⟨hgenuine.1, startsWithout_nil _, .nil⟩
    | cons q qs =>
      obtain ⟨hpq, hfits⟩ := List.isChain_cons_cons.mp hfits
      refine ⟨hgenuine.1, ?_, hgenuine.2, hfits⟩
      rw [List.flatMap_cons,
        startsWithout_append (hgenuine.2 q List.mem_cons_self).ne_nil]
      exact hpq
  · rintro ⟨hp, hends, hgenuine, hfits⟩
    refine ⟨List.forall_mem_cons.mpr ⟨hp, hgenuine⟩, ?_⟩
    cases ps with
    | nil => exact .singleton p
    | cons q qs =>
      rw [List.flatMap_cons, startsWithout_append (hgenuine q List.mem_cons_self).ne_nil] at hends
      exact .cons_cons hends hfits

theorem isCutting_append :
    IsCutting (ps ++ qs) ↔ IsCutting ps ∧ IsCutting qs
      ∧ ∀ p ∈ ps.getLast?, ∀ q ∈ qs.head?, p.Fits q := by
  constructor
  · rintro ⟨hgenuine, hfits⟩
    rw [List.forall_mem_append] at hgenuine
    rw [List.isChain_append] at hfits
    exact ⟨⟨hgenuine.1, hfits.1⟩, ⟨hgenuine.2, hfits.2.1⟩, hfits.2.2⟩
  · rintro ⟨hps, hqs, hjoin⟩
    exact ⟨List.forall_mem_append.mpr ⟨hps.genuine, hqs.genuine⟩,
      List.isChain_append.mpr ⟨hps.fits, hqs.fits, hjoin⟩⟩

/-- **The lexer makes such a cutting.** -/
theorem isCutting_pieces (cs : List Char) : IsCutting (pieces cs) := by
  fun_induction pieces cs with
  | case1 => exact .nil
  | case2 c cs piece ih =>
    obtain ⟨hgenuine, rest, hrest, hends⟩ := cutOff_firstPiece c cs
    refine isCutting_cons.mpr ⟨hgenuine, ?_, ih⟩
    rw [flatten_pieces, hrest, List.drop_left]
    exact hends

/-- **It is the only one.** -/
theorem pieces_flatMap (h : IsCutting ps) : pieces (ps.flatMap Piece.text) = ps := by
  induction ps with
  | nil => exact pieces_nil
  | cons p ps ih =>
    obtain ⟨hp, hends, hps⟩ := isCutting_cons.mp h
    rw [List.flatMap_cons, pieces_append_piece hp hends, ih hps]

/-- **Which cutting the lexer makes.** -/
theorem pieces_eq_iff : pieces cs = ps ↔ ps.flatMap Piece.text = cs ∧ IsCutting ps := by
  constructor
  · rintro rfl
    exact ⟨flatten_pieces cs, isCutting_pieces cs⟩
  · rintro ⟨rfl, h⟩
    exact pieces_flatMap h

/-- **Two texts are cut apart from each other** if the first text does not end
with a piece that would take in the beginning of the second. -/
theorem pieces_append {ds : List Char}
    (h : ∀ p ∈ (pieces cs).getLast?, StartsWithout p.goesOn ds) :
    pieces (cs ++ ds) = pieces cs ++ pieces ds := by
  refine pieces_eq_iff.mpr ⟨by simp [flatten_pieces], isCutting_append.mpr
    ⟨isCutting_pieces cs, isCutting_pieces ds, fun p hp q hq => ?_⟩⟩
  have hends := h p hp
  obtain ⟨qs, hqs⟩ := List.head?_eq_some_iff.mp hq
  rw [← flatten_pieces ds, hqs, List.flatMap_cons, startsWithout_append
    ((isCutting_pieces ds).genuine q (List.mem_of_mem_head? hq)).ne_nil] at hends
  exact hends

/-! ## Where the pieces stand -/

theorem placed_append (offset : Nat) (ps qs : List Piece) :
    placed offset (ps ++ qs)
      = placed offset ps ++ placed (offset + byteLength (ps.flatMap Piece.text)) qs := by
  induction ps generalizing offset with
  | nil => simp [placed]
  | cons p ps ih => simp [placed, ih, Nat.add_assoc]

@[simp] theorem length_placed (offset : Nat) (ps : List Piece) :
    (placed offset ps).length = ps.length := by
  have h := congrArg List.length (map_fst_placed offset ps)
  rwa [List.length_map] at h

/-- Where the placed pieces are parted, so are the pieces. -/
theorem placed_eq_append {offset : Nat} {left right : List (Piece × Span)}
    (h : placed offset ps = left ++ right) :
    ∃ as bs, ps = as ++ bs ∧ left = placed offset as
      ∧ right = placed (offset + byteLength (as.flatMap Piece.text)) bs := by
  have hps : ps = left.map Prod.fst ++ right.map Prod.fst := by
    rw [← map_fst_placed offset ps, h, List.map_append]
  refine ⟨_, _, hps, ?_⟩
  rw [hps, placed_append] at h
  obtain ⟨hleft, hright⟩ := List.append_inj h (by simp)
  exact ⟨hleft.symm, hright.symm⟩

/-- Pieces that start further on stand further on. -/
theorem placed_add (offset n : Nat) (ps : List Piece) :
    placed (offset + n) ps = (placed offset ps).map fun i => (i.1, i.2.shift n) := by
  induction ps generalizing offset with
  | nil => rfl
  | cons p ps ih =>
    rw [placed, placed, List.map_cons, ← ih]
    simp [Span.shift, Nat.add_right_comm]

end ImpFront
