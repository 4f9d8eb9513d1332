import ImpFront.Proofs.Token.Joining

/-!
# Parentheses put around tokens

A parenthesis is a piece by itself wherever it stands: no token, blank or block
comment takes it in. A line comment would, but none can stand in front of a
token, for the newline behind it is in a piece of its own. So parentheses can be
put around any tokens of a source that stand next to each other, right in front
of the first and right behind the last, and the tokens of the new source are the
old ones with the parentheses between them (`CutAround.tokenize_eq`).
-/

namespace ImpFront

open Lexer Relocatable

/-- **The source with parentheses around a span.** -/
def parenthesize (source : String) (s : Span) : String :=
  String.ofList (takeBytes s.start source.toList
    ++ '(' :: (slice source.toList s ++ ')' :: dropBytes s.stop source.toList))

/-! ## The pieces around some tokens -/

/-- **What some elements are made into is bounded by two of them**: the stretch can be
chosen such that its first element makes the first and its last the last. -/
theorem exists_stretch {α β : Type} {f : α → Option β} {items : List α} {left us right : List β}
    (h : items.filterMap f = left ++ us ++ right) (hne : us ≠ []) :
    ∃ as bs cs, items = as ++ bs ++ cs ∧ as.filterMap f = left ∧ bs.filterMap f = us
      ∧ cs.filterMap f = right ∧ bs.head?.bind f = us.head? ∧ bs.getLast?.bind f = us.getLast? := by
  obtain ⟨rest, after, rfl, hrest, rfl⟩ := List.filterMap_eq_append_iff.mp h
  obtain ⟨as, stretch, rfl, rfl, hstretch⟩ := List.filterMap_eq_append_iff.mp hrest
  obtain ⟨u, others, rfl⟩ := List.exists_cons_of_ne_nil hne
  obtain ⟨quiet, first, more, rfl, hquiet, hfirst, hmore⟩ :=
    List.filterMap_eq_cons_iff.mp hstretch
  -- From the first element on, the stretch is cut off behind the last one that counts.
  have hbs : (first :: more).filterMap f = (u :: others).dropLast ++ [(u :: others).getLast hne] := by
    rw [List.dropLast_append_getLast, List.filterMap_cons_some hfirst, hmore]
  obtain ⟨front, back, hsplit, hfront, hback⟩ := List.filterMap_eq_append_iff.mp hbs
  obtain ⟨gap, last, quiet', rfl, hgap, hlast, hquiet'⟩ := List.filterMap_eq_cons_iff.mp hback
  have hbounded : front ++ gap ++ [last] ++ quiet' = first :: more := by simp [hsplit]
  refine ⟨as ++ quiet, front ++ gap ++ [last], quiet' ++ after, ?_, ?_, ?_, ?_, ?_, ?_⟩
  · rw [← hbounded]
    simp
  · rw [List.filterMap_append, List.filterMap_eq_nil_iff.mpr hquiet, List.append_nil]
  · have hall := hbs
    rw [← hbounded, List.filterMap_append, hquiet', List.append_nil] at hall
    rw [hall, List.dropLast_append_getLast]
  · rw [List.filterMap_append, hquiet', List.nil_append]
  · have hhead : (front ++ gap ++ [last]).head? = some first := by
      have hwhole : (front ++ gap ++ [last] ++ quiet').head? = _ :=
        List.head?_append_of_ne_nil _ (by simp)
      rw [← hwhole, hbounded]
      rfl
    rw [hhead]
    exact hfirst
  · rw [List.getLast?_concat, List.getLast?_eq_some_getLast hne]
    exact hlast

/-- **The pieces of a source around some of its tokens**, which make up the span: those
in front of the first token, those from the first to the last, and those behind. -/
structure CutAround (source : List Char) (s : Span) (left us right : List Lexeme)
    (as bs cs : List Piece) : Prop where
  /-- Together they are the pieces of the source. -/
  pieces_eq : pieces source = as ++ bs ++ cs
  /-- The span starts behind the first pieces. -/
  start_eq : s.start = byteLength (as.flatMap Piece.text)
  /-- It stops in front of the last ones. -/
  stop_eq : s.stop = s.start + byteLength (bs.flatMap Piece.text)
  /-- The tokens to the left. -/
  left_eq : (placed 0 as).filterMap lexeme? = left
  /-- The tokens of the span. -/
  middle_eq : (placed s.start bs).filterMap lexeme? = us
  /-- The tokens to the right. -/
  right_eq : (placed s.stop cs).filterMap lexeme? = right
  /-- The span begins with a token. -/
  first : ∃ p ∈ bs.head?, ∃ t, p.role = .token t
  /-- It ends with a token. -/
  last : ∃ p ∈ bs.getLast?, ∃ t, p.role = .token t

/-- The first of several placed pieces starts where they do. -/
theorem exists_of_head?_placed {offset : Nat} {ps : List Piece} {l : Lexeme}
    (h : (placed offset ps).head?.bind lexeme? = some l) :
    l.span.start = offset ∧ ∃ p ∈ ps.head?, ∃ t, p.role = .token t := by
  cases ps with
  | nil => simp [placed] at h
  | cons p ps =>
    obtain ⟨hrole, hspan⟩ := lexeme?_eq_some h
    exact ⟨by rw [hspan], p, rfl, _, hrole⟩

/-- The last of several placed pieces stops where they do. -/
theorem exists_of_getLast?_placed {offset : Nat} {ps : List Piece} {l : Lexeme}
    (h : (placed offset ps).getLast?.bind lexeme? = some l) :
    l.span.stop = offset + byteLength (ps.flatMap Piece.text)
      ∧ ∃ p ∈ ps.getLast?, ∃ t, p.role = .token t := by
  rcases ps.eq_nil_or_concat' with rfl | ⟨qs, p, rfl⟩
  · simp [placed] at h
  · rw [placed_append, placed, placed, List.getLast?_concat] at h
    obtain ⟨hrole, hspan⟩ := lexeme?_eq_some h
    refine ⟨?_, p, List.getLast?_concat, _, hrole⟩
    rw [hspan]
    simp [Nat.add_assoc]

/-- **Tokens that stand next to each other** are cut out of the source. -/
theorem exists_cutAround {source : String} {s : Span} {left us right : List Lexeme}
    (h : tokenize source = .ok (left ++ us ++ right)) (hs : Covers us s) :
    ∃ as bs cs, CutAround source.toList s left us right as bs cs := by
  obtain ⟨-, htokens⟩ := tokenize_eq_ok_iff.mp h
  obtain ⟨_, _, _, hitems, rfl, rfl, rfl, hfirst, hlast⟩ := exists_stretch htokens.symm hs.ne_nil
  obtain ⟨rest, cs, hpieces, hrest, rfl⟩ := placed_eq_append hitems
  obtain ⟨as, bs, rfl, rfl, rfl⟩ := placed_eq_append hrest.symm
  obtain ⟨hstart, hstop⟩ := hs
  obtain ⟨u, hu, hstart⟩ := Option.map_eq_some_iff.mp hstart
  obtain ⟨v, hv, hstop⟩ := Option.map_eq_some_iff.mp hstop
  obtain ⟨hstart', hfirst⟩ := exists_of_head?_placed (hfirst.trans hu)
  obtain ⟨hstop', hlast⟩ := exists_of_getLast?_placed (hlast.trans hv)
  have hs : s.start = byteLength (as.flatMap Piece.text) := by
    rw [← hstart, hstart', Nat.zero_add]
  have hs' : s.stop = s.start + byteLength (bs.flatMap Piece.text) := by
    rw [← hstop, hstop', hs, Nat.zero_add]
  refine ⟨as, bs, cs, hpieces, hs, hs', rfl, ?_, ?_, hfirst, hlast⟩
  · rw [hs, Nat.zero_add]
  · rw [hs', hs, List.flatMap_append, byteLength_append, Nat.zero_add]

/-! ## Parentheses are pieces by themselves -/

/-- A symbol as a piece. -/
def symbolPiece (s : Symbol) : Piece := ⟨.token (.symbol s), s.spelling.toList⟩

theorem Token.goesOn_paren (t : Token) : t.goesOn '(' = false ∧ t.goesOn ')' = false := by
  cases t with
  | symbol s => cases s <;> exact ⟨rfl, rfl⟩
  | _ => exact ⟨rfl, rfl⟩

/-- **No piece in front of a token takes in a parenthesis.** -/
theorem Piece.Genuine.goesOn_openParen {p : Piece} (hp : p.Genuine) {t : Token} {text : List Char}
    (ht : t.Spells text) (hends : StartsWithout p.goesOn text) : p.goesOn '(' = false := by
  obtain ⟨c, cs, rfl⟩ := List.exists_cons_of_ne_nil ht.ne_nil
  rw [startsWithout_cons] at hends
  cases hp with
  | @token t _ _ => exact t.goesOn_paren.1
  | blanks hne h =>
    rw [Piece.goesOn_blanks hne h]
    rfl
  | lineComment _ =>
    -- The comment would go on over the token, which does not start with a newline.
    have hblank := startsWithout_cons.mp ht.startsWithout_isBlank
    have hnewline : c = '\n' := by simpa [Piece.goesOn] using hends
    rw [hnewline] at hblank
    cases hblank
  | blockComment _ => rfl
  | unknown _ _ _ => rfl
  | unclosed _ => simp [Piece.goesOn] at hends

namespace CutAround

variable {source : List Char} {s : Span} {left us right : List Lexeme} {as bs cs : List Piece}

theorem source_eq (h : CutAround source s left us right as bs cs) :
    source = as.flatMap Piece.text ++ (bs.flatMap Piece.text ++ cs.flatMap Piece.text) := by
  rw [← flatten_pieces source, h.pieces_eq, List.flatMap_append, List.flatMap_append,
    List.append_assoc]

theorem placed_eq (h : CutAround source s left us right as bs cs) :
    placedPieces source = placed 0 as ++ (placed s.start bs ++ placed s.stop cs) := by
  rw [placedPieces, h.pieces_eq, List.append_assoc, placed_append, placed_append, h.stop_eq,
    h.start_eq, Nat.zero_add]

/-- **With parentheses around the tokens** the pieces are a cutting again. -/
theorem cutting (h : CutAround source s left us right as bs cs) :
    IsCutting (as ++ symbolPiece .openParen :: (bs ++ symbolPiece .closeParen :: cs)) := by
  have hcutting := isCutting_pieces source
  rw [h.pieces_eq] at hcutting
  obtain ⟨hrest, hcs, -⟩ := isCutting_append.mp hcutting
  obtain ⟨has, hbs, hjoin⟩ := isCutting_append.mp hrest
  obtain ⟨p, hp, t, ht⟩ := h.first
  obtain ⟨q, hq, t', ht'⟩ := h.last
  have hclose : IsCutting (symbolPiece .closeParen :: cs) :=
    isCutting_cons.mpr ⟨.token rfl, fun _ _ => rfl, hcs⟩
  have hmiddle : IsCutting (bs ++ symbolPiece .closeParen :: cs) := by
    refine isCutting_append.mpr ⟨hbs, hclose, fun q' hq' r hr => ?_⟩
    obtain rfl := Option.mem_unique hq hq'
    obtain rfl := Option.mem_some_iff.mp hr
    obtain ⟨role, text⟩ := q
    obtain rfl : role = .token t' := ht'
    exact startsWithout_cons.mpr t'.goesOn_paren.2
  refine isCutting_append.mpr ⟨has, isCutting_cons.mpr ⟨.token rfl, fun _ _ => rfl, hmiddle⟩,
    fun a ha r hr => ?_⟩
  obtain rfl := Option.mem_some_iff.mp hr
  have hspells := (hbs.genuine p (List.mem_of_mem_head? hp)).spells ht
  exact startsWithout_cons.mpr
    ((has.genuine a (List.mem_of_getLast? ha)).goesOn_openParen hspells (hjoin a ha p hp))

end CutAround

/-! ## The source with parentheses -/

section Parenthesized

variable {source : String} {s : Span} {left us right : List Lexeme} {as bs cs : List Piece}

theorem CutAround.toList_parenthesize (h : CutAround source.toList s left us right as bs cs) :
    (parenthesize source s).toList = as.flatMap Piece.text
      ++ '(' :: (bs.flatMap Piece.text ++ ')' :: cs.flatMap Piece.text) := by
  have hspan : s = ⟨byteLength (as.flatMap Piece.text),
      byteLength (as.flatMap Piece.text) + byteLength (bs.flatMap Piece.text)⟩ := by
    rw [← h.start_eq, ← h.stop_eq]
  have htake : takeBytes s.start source.toList = as.flatMap Piece.text := by
    rw [h.source_eq, h.start_eq, takeBytes_append]
  have hslice : slice source.toList s = bs.flatMap Piece.text := by
    rw [h.source_eq, hspan, slice_append]
  have hdrop : dropBytes s.stop source.toList = cs.flatMap Piece.text := by
    rw [h.source_eq, ← List.append_assoc, h.stop_eq, h.start_eq, ← byteLength_append,
      dropBytes_append]
  rw [parenthesize, String.toList_ofList, htake, hslice, hdrop]

/-- **The pieces of the source with parentheses.** -/
theorem CutAround.placed_parenthesize (h : CutAround source.toList s left us right as bs cs) :
    placedPieces (parenthesize source s).toList
      = placed 0 as ++ (symbolPiece .openParen, ⟨s.start, s.start + 1⟩) ::
        (placed (s.start + 1) bs ++ (symbolPiece .closeParen, ⟨s.stop + 1, s.stop + 2⟩) ::
          placed (s.stop + 2) cs) := by
  have hpieces : pieces (parenthesize source s).toList
      = as ++ symbolPiece .openParen :: (bs ++ symbolPiece .closeParen :: cs) := by
    refine pieces_eq_iff.mpr ⟨?_, h.cutting⟩
    rw [h.toList_parenthesize]
    simp [symbolPiece, Symbol.spelling]
  have hstop : s.start + 1 + byteLength (bs.flatMap Piece.text) = s.stop + 1 := by
    rw [h.stop_eq, Nat.add_right_comm]
  have hopen : byteLength (symbolPiece .openParen).text = 1 := rfl
  have hclose : byteLength (symbolPiece .closeParen).text = 1 := rfl
  rw [placedPieces, hpieces, placed_append, placed, placed_append, placed, Nat.zero_add,
    ← h.start_eq, hopen, hstop, hclose]

/-- What is found in the source with parentheses: in front of them, between them, and
behind them. -/
theorem CutAround.filterMap_parenthesize (h : CutAround source.toList s left us right as bs cs)
    {α : Type} [Relocatable α] {f : Piece × Span → Option α}
    (hf : ∀ m p s, f (p, relocate m s) = (f (p, s)).map (relocate m)) :
    (placedPieces (parenthesize source s).toList).filterMap f
      = (placed 0 as).filterMap f
        ++ ((f (symbolPiece .openParen, ⟨s.start, s.start + 1⟩)).toList
          ++ (((placed s.start bs).filterMap f).map (relocate (.shift 1))
            ++ ((f (symbolPiece .closeParen, ⟨s.stop + 1, s.stop + 2⟩)).toList
              ++ ((placed s.stop cs).filterMap f).map (relocate (.shift 2))))) := by
  have hcons (i : Piece × Span) (items : List (Piece × Span)) :
      (i :: items).filterMap f = (f i).toList ++ items.filterMap f := by
    rw [List.filterMap_cons]
    cases f i <;> rfl
  rw [h.placed_parenthesize, List.filterMap_append, hcons, List.filterMap_append, hcons,
    filterMap_placed_shift hf, filterMap_placed_shift hf]

/-- **The tokens of the source with parentheses** are the old ones, with the parentheses
between them. -/
theorem CutAround.tokenize_eq (h : CutAround source.toList s left us right as bs cs)
    (hok : tokenize source = .ok (left ++ us ++ right)) :
    tokenize (parenthesize source s) = .ok (left
      ++ ⟨.symbol .openParen, ⟨s.start, s.start + 1⟩⟩ :: (relocate (.shift 1) us
        ++ ⟨.symbol .closeParen, ⟨s.stop + 1, s.stop + 2⟩⟩ :: relocate (.shift 2) right)) := by
  obtain ⟨hnone, -⟩ := tokenize_eq_ok_iff.mp hok
  rw [h.placed_eq, List.filterMap_append, List.filterMap_append, List.append_eq_nil_iff,
    List.append_eq_nil_iff] at hnone
  obtain ⟨hleft, hmiddle, hright⟩ := hnone
  refine tokenize_eq_ok_iff.mpr ⟨?_, ?_⟩
  · rw [h.filterMap_parenthesize error?_relocate, hleft, hmiddle, hright]
    rfl
  · rw [h.filterMap_parenthesize lexeme?_relocate, h.left_eq, h.middle_eq, h.right_eq]
    rfl

/-- **Tokens that have moved with their pieces** keep their texts. -/
theorem slice_shift_of_mem {text text' before before' after after' : List Char} {n : Nat}
    {ps : List Piece} {l : Lexeme} (htext : text = before ++ (ps.flatMap Piece.text ++ after))
    (htext' : text' = before' ++ (ps.flatMap Piece.text ++ after'))
    (hlen : byteLength before' = byteLength before + n)
    (h : l ∈ (placed (byteLength before) ps).filterMap lexeme?) :
    slice text' (l.span.shift n) = slice text l.span := by
  obtain ⟨⟨p, t⟩, hmem, hl⟩ := List.mem_filterMap.mp h
  obtain ⟨-, rfl⟩ := lexeme?_eq_some hl
  have hmoved : (p, l.span.shift n) ∈ placed (byteLength before') ps := by
    rw [hlen, placed_add]
    exact List.mem_map_of_mem hmem
  rw [htext, htext', ← List.append_assoc, ← List.append_assoc,
    ((cuts_of_mem_placed before hmem).append after).slice_eq,
    ((cuts_of_mem_placed before' hmoved).append after').slice_eq]

/-- **The old tokens have kept their texts.** -/
theorem CutAround.slice_eq (h : CutAround source.toList s left us right as bs cs) :
    (∀ l ∈ left, slice (parenthesize source s).toList l.span = slice source.toList l.span)
      ∧ (∀ l ∈ us, slice (parenthesize source s).toList (l.span.shift 1)
        = slice source.toList l.span)
      ∧ ∀ l ∈ right, slice (parenthesize source s).toList (l.span.shift 2)
        = slice source.toList l.span := by
  have hstop : s.stop = byteLength (as.flatMap Piece.text ++ bs.flatMap Piece.text) := by
    rw [h.stop_eq, h.start_eq, byteLength_append]
  have hsource := h.source_eq
  have htext := h.toList_parenthesize
  refine ⟨fun l hl => ?_, fun l hl => ?_, fun l hl => ?_⟩
  · rw [← h.left_eq] at hl
    rw [← List.nil_append (_ ++ _)] at hsource htext
    have hkept : slice _ (l.span.shift 0) = _ := slice_shift_of_mem hsource htext rfl hl
    exact hkept
  · rw [← h.middle_eq, h.start_eq] at hl
    rw [List.append_cons] at htext
    refine slice_shift_of_mem hsource htext ?_ hl
    rw [byteLength_append]
    rfl
  · rw [← h.right_eq, hstop] at hl
    rw [← List.append_assoc, ← List.append_nil (cs.flatMap Piece.text)] at hsource
    rw [List.append_cons, List.append_cons _ ')', ← List.append_assoc,
      ← List.append_nil (cs.flatMap Piece.text)] at htext
    refine slice_shift_of_mem hsource htext ?_ hl
    simp only [byteLength_append]
    show _ + 1 + (_ + 1) = _ + _ + 2
    omega

end Parenthesized

end ImpFront
