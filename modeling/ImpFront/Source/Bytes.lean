import ImpFront.Source.Span

/-!
# Texts measured in bytes

Offsets count bytes, texts are lists of characters. This module is the bridge:
`byteLength` measures a text, `dropBytes` and `takeBytes` cut it at a byte
offset, and `slice` is the part of a text that a span covers.

An offset that falls inside a character does not occur in a span that the lexer
or the parser makes; a cut there goes after the character.
-/

namespace ImpFront

/-- How many bytes a text takes in UTF-8. -/
def byteLength : List Char → Nat
  | [] => 0
  | c :: cs => c.utf8Size + byteLength cs

@[simp] theorem byteLength_nil : byteLength [] = 0 := rfl

@[simp] theorem byteLength_cons (c : Char) (cs : List Char) :
    byteLength (c :: cs) = c.utf8Size + byteLength cs := rfl

@[simp] theorem byteLength_append (cs ds : List Char) :
    byteLength (cs ++ ds) = byteLength cs + byteLength ds := by
  induction cs with
  | nil => simp
  | cons c cs ih => simp [ih, Nat.add_assoc]

/-- The text from a byte offset on. -/
def dropBytes (n : Nat) : List Char → List Char
  | [] => []
  | c :: cs => if n = 0 then c :: cs else dropBytes (n - c.utf8Size) cs

/-- The text before a byte offset. -/
def takeBytes (n : Nat) : List Char → List Char
  | [] => []
  | c :: cs => if n = 0 then [] else c :: takeBytes (n - c.utf8Size) cs

@[simp] theorem dropBytes_zero (cs : List Char) : dropBytes 0 cs = cs := by
  cases cs <;> simp [dropBytes]

@[simp] theorem takeBytes_zero (cs : List Char) : takeBytes 0 cs = [] := by
  cases cs <;> simp [takeBytes]

/-- Dropping the bytes of a first part leaves the second. -/
@[simp] theorem dropBytes_append (cs ds : List Char) :
    dropBytes (byteLength cs) (cs ++ ds) = ds := by
  induction cs with
  | nil => simp
  | cons c cs ih =>
    have hc := c.utf8Size_pos
    have hne : byteLength (c :: cs) ≠ 0 := by simp; omega
    rw [List.cons_append, dropBytes, if_neg hne]
    simp [ih]

/-- Taking the bytes of a first part gives that part. -/
@[simp] theorem takeBytes_append (cs ds : List Char) :
    takeBytes (byteLength cs) (cs ++ ds) = cs := by
  induction cs with
  | nil => simp
  | cons c cs ih =>
    have hc := c.utf8Size_pos
    have hne : byteLength (c :: cs) ≠ 0 := by simp; omega
    rw [List.cons_append, takeBytes, if_neg hne]
    simp [ih]

/-- **The text a span covers.** -/
def slice (source : List Char) (s : Span) : List Char :=
  takeBytes (s.stop - s.start) (dropBytes s.start source)

/-- A span that starts after `before` and is as long as `middle` covers
`middle`. -/
theorem slice_append (before middle after : List Char) :
    slice (before ++ (middle ++ after))
      ⟨byteLength before, byteLength before + byteLength middle⟩ = middle := by
  simp [slice]

end ImpFront
