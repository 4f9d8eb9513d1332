import ImpFront.Source.Bytes
import ImpFront.Token.Basic

/-!
# From text to tokens

The lexer cuts the source into **pieces**, one after another, each as long as it
can be: a blank run, a comment, a word, a run of digits, a symbol. `firstPiece`
cuts off the first one, `pieces` all of them, and putting the pieces together
again gives the source (`flatten_pieces`): nothing is lost.

Only then do byte offsets enter. `placed` gives every piece its span, by adding
up the lengths of the pieces before it, and `tokenize` sorts the pieces: tokens
are kept, blanks and comments are skipped, and if a character begins no piece,
or a comment is never closed, the source is refused with all such errors.
-/

namespace ImpFront

/-- What a piece of source text is. -/
inductive PieceRole
  /-- A token of the language. -/
  | token (t : Token)
  /-- Blanks, or a comment. -/
  | skipped
  /-- A character that begins no piece. -/
  | unknown
  /-- A block comment that is still open at the end of the text. -/
  | unclosedComment
  deriving DecidableEq

/-- **A piece of source text**, with what it is. -/
structure Piece where
  /-- What the piece is. -/
  role : PieceRole
  /-- The characters of the piece. -/
  text : List Char
  deriving DecidableEq

namespace Lexer

/-- Blanks separate tokens and mean nothing. -/
def isBlank (c : Char) : Bool :=
  c == ' ' || c == '\t' || c == '\r' || c == '\n' || c == '\x0c'

/-- An identifier starts with a letter or an underscore; letters are the
twenty-six of ASCII, in both cases. -/
def isWordStart (c : Char) : Bool := c.isAlpha || c == '_'

/-- Inside an identifier digits may stand as well. -/
def isWordPart (c : Char) : Bool := isWordStart c || c.isDigit

/-- The token of a word: a keyword where it is spelled like one. -/
def wordToken (word : List Char) : Token :=
  match Keyword.ofSpelling? word with
  | some k => .keyword k
  | none => .ident

/-- **Cuts a text after the first `*/`.** -/
def cutAtCommentEnd : List Char → Option (List Char × List Char)
  | [] => none
  | '*' :: '/' :: rest => some (['*', '/'], rest)
  | c :: cs => (cutAtCommentEnd cs).map fun (before, rest) => (c :: before, rest)

/-- The symbol that a text starts with, and its second character if it has one:
of two symbols that fit, the longer. -/
def symbolAt : Char → List Char → Option (Symbol × List Char)
  | '=', '=' :: _ => some (.equalEqual, ['='])
  | '!', '=' :: _ => some (.notEqual, ['='])
  | '<', '=' :: _ => some (.lessEqual, ['='])
  | '>', '=' :: _ => some (.greaterEqual, ['='])
  | '&', '&' :: _ => some (.andAnd, ['&'])
  | '|', '|' :: _ => some (.orOr, ['|'])
  | '(', _ => some (.openParen, [])
  | ')', _ => some (.closeParen, [])
  | '{', _ => some (.openBrace, [])
  | '}', _ => some (.closeBrace, [])
  | ',', _ => some (.comma, [])
  | ';', _ => some (.semicolon, [])
  | '=', _ => some (.assign, [])
  | '+', _ => some (.plus, [])
  | '-', _ => some (.minus, [])
  | '*', _ => some (.star, [])
  | '/', _ => some (.slash, [])
  | '%', _ => some (.percent, [])
  | '<', _ => some (.less, [])
  | '>', _ => some (.greater, [])
  | '!', _ => some (.bang, [])
  | _, _ => none

/-- **The piece that a non-empty text starts with.** -/
def firstPiece (c : Char) (cs : List Char) : Piece :=
  if isBlank c then ⟨.skipped, c :: cs.takeWhile isBlank⟩
  else if c.isDigit then ⟨.token .intLiteral, c :: cs.takeWhile Char.isDigit⟩
  else if isWordStart c then
    let word := c :: cs.takeWhile isWordPart
    ⟨.token (wordToken word), word⟩
  else match c, cs with
    | '/', '/' :: rest => ⟨.skipped, '/' :: '/' :: rest.takeWhile (· != '\n')⟩
    | '/', '*' :: rest =>
      match cutAtCommentEnd rest with
      | some (body, _) => ⟨.skipped, '/' :: '*' :: body⟩
      | none => ⟨.unclosedComment, '/' :: '*' :: rest⟩
    | _, _ =>
      match symbolAt c cs with
      | some (s, more) => ⟨.token (.symbol s), c :: more⟩
      | none => ⟨.unknown, [c]⟩

/-- A comment's end is cut out of the text. -/
theorem cutAtCommentEnd_append {cs before rest : List Char}
    (h : cutAtCommentEnd cs = some (before, rest)) : before ++ rest = cs := by
  fun_induction cutAtCommentEnd cs generalizing before rest with
  | case1 => simp at h
  | case2 rest' =>
    simp only [Option.some.injEq, Prod.mk.injEq] at h
    obtain ⟨rfl, rfl⟩ := h
    rfl
  | case3 c cs _ ih =>
    simp only [Option.map_eq_some_iff, Prod.mk.injEq, Prod.exists] at h
    obtain ⟨b, r, hbr, rfl, rfl⟩ := h
    simp [ih hbr]

/-- What follows the first character of a two-character symbol does stand
there. -/
theorem isPrefix_of_symbolAt {c : Char} {cs more : List Char} {s : Symbol}
    (h : symbolAt c cs = some (s, more)) : more <+: cs := by
  unfold symbolAt at h
  split at h <;> first
    | (simp only [Option.some.injEq, Prod.mk.injEq] at h
       obtain ⟨-, rfl⟩ := h
       simp)
    | simp at h

/-- A character and a run of others behind it. -/
theorem cons_takeWhile_isPrefix (c : Char) (p : Char → Bool) (cs : List Char) :
    c :: cs.takeWhile p <+: c :: cs :=
  List.cons_prefix_cons.mpr ⟨rfl, List.takeWhile_prefix p⟩

/-- **A piece is the beginning of the text it is cut from.** -/
theorem text_firstPiece_isPrefix (c : Char) (cs : List Char) :
    (firstPiece c cs).text <+: c :: cs := by
  unfold firstPiece
  split
  · exact cons_takeWhile_isPrefix c isBlank cs
  split
  · exact cons_takeWhile_isPrefix c Char.isDigit cs
  split
  · exact cons_takeWhile_isPrefix c isWordPart cs
  split
  · exact List.cons_prefix_cons.mpr ⟨rfl, cons_takeWhile_isPrefix '/' _ _⟩
  · split
    · rename_i h
      simp [← cutAtCommentEnd_append h]
    · simp
  · split
    · rename_i h
      simp [isPrefix_of_symbolAt h]
    · simp

/-- A piece starts with the character it is cut at, so it is not empty. -/
theorem firstPiece_ne_nil (c : Char) (cs : List Char) : (firstPiece c cs).text ≠ [] := by
  unfold firstPiece
  split
  · simp
  split
  · simp
  split
  · simp
  split
  · simp
  · split <;> simp
  · split <;> simp

/-- What is left when the first piece is cut off is shorter. -/
theorem drop_firstPiece_lt (c : Char) (cs : List Char) :
    ((c :: cs).drop (firstPiece c cs).text.length).length < (c :: cs).length := by
  have h := List.length_pos_iff.mpr (firstPiece_ne_nil c cs)
  simp only [List.length_drop, List.length_cons]
  omega

/-- **The pieces of a text**, from left to right. -/
def pieces : List Char → List Piece
  | [] => []
  | c :: cs =>
    let piece := firstPiece c cs
    piece :: pieces ((c :: cs).drop piece.text.length)
termination_by cs => cs.length
decreasing_by exact drop_firstPiece_lt c cs

@[simp] theorem pieces_nil : pieces [] = [] := by
  rw [pieces]

theorem pieces_cons (c : Char) (cs : List Char) :
    pieces (c :: cs)
      = firstPiece c cs :: pieces ((c :: cs).drop (firstPiece c cs).text.length) := by
  rw [pieces]

/-- **Nothing is lost**: the pieces, put together, are the text. -/
theorem flatten_pieces (cs : List Char) : (pieces cs).flatMap Piece.text = cs := by
  fun_induction pieces cs with
  | case1 => rfl
  | case2 c cs piece ih =>
    rw [List.flatMap_cons, ih]
    obtain ⟨rest, hrest⟩ := text_firstPiece_isPrefix c cs
    conv => lhs; rw [← hrest]
    rw [List.drop_left]
    exact hrest

/-- Gives each piece its span; the first one starts at `offset`. -/
def placed (offset : Nat) : List Piece → List (Piece × Span)
  | [] => []
  | p :: ps =>
    let next := offset + byteLength p.text
    (p, ⟨offset, next⟩) :: placed next ps

@[simp] theorem map_fst_placed (offset : Nat) (ps : List Piece) :
    (placed offset ps).map Prod.fst = ps := by
  induction ps generalizing offset with
  | nil => rfl
  | cons p ps ih => simp [placed, ih]

/-- All pieces of a source, with their spans. -/
def placedPieces (source : List Char) : List (Piece × Span) :=
  placed 0 (pieces source)

end Lexer

/-- **A token at its place in the source.** -/
structure Lexeme where
  /-- The token. -/
  token : Token
  /-- Where it stands. -/
  span : Span
  deriving DecidableEq

/-- Why a stretch of source text is no token. -/
inductive LexFault
  /-- No token, blank or comment starts with this character. -/
  | unknownCharacter
  /-- The block comment that starts here is never closed. -/
  | unclosedComment
  deriving DecidableEq

/-- **A stretch of source text that is no token.** -/
structure LexError where
  /-- What is wrong with it. -/
  fault : LexFault
  /-- Where it stands. -/
  span : Span
  /-- The text in question. -/
  text : String
  deriving DecidableEq

namespace Lexer

/-- The token that a piece is, if it is one. -/
def lexeme? : Piece × Span → Option Lexeme
  | (⟨.token t, _⟩, span) => some ⟨t, span⟩
  | _ => none

/-- The error that a piece is, if it is one. -/
def error? : Piece × Span → Option LexError
  | (⟨.unknown, text⟩, span) => some ⟨.unknownCharacter, span, String.ofList text⟩
  | (⟨.unclosedComment, text⟩, span) => some ⟨.unclosedComment, span, String.ofList text⟩
  | _ => none

end Lexer

/-- **The tokens of a source**, or all of its lexical errors. -/
def tokenize (source : String) : Except (List LexError) (List Lexeme) :=
  let items := Lexer.placedPieces source.toList
  match items.filterMap Lexer.error? with
  | [] => .ok (items.filterMap Lexer.lexeme?)
  | errors => .error errors

end ImpFront
