import ImpFront.Source.Bytes
import ImpFront.Source.Search

/-!
# Lines and columns

What is shown to a person is a line and a column, not a byte offset. A
`LineTable` lists the offsets at which the lines of a text start; the line of an
offset is the last one that starts at or before it, and the column is how far
the offset lies beyond that start. Only a line feed ends a line, columns count
bytes, and an offset past the end of the text is on the last line.

The line is looked up by halving. An offset at which no line starts would stand
behind the start of its line, so its line is the one before the place at which
the search ends.
-/

namespace ImpFront

/-- **A line and a column**, both counted from zero. -/
structure Position where
  /-- How many lines come before. -/
  line : Nat
  /-- How many bytes of the line come before. -/
  column : Nat
  deriving DecidableEq

/-- The position as editors show it: both numbers counted from one. -/
def Position.display (p : Position) : String :=
  toString (p.line + 1) ++ ":" ++ toString (p.column + 1)

/-- Positions are ordered by their lines, and on a line by their columns. -/
instance : LT Position :=
  ⟨fun p q => p.line < q.line ∨ p.line = q.line ∧ p.column < q.column⟩

theorem Position.lt_iff {p q : Position} :
    p < q ↔ p.line < q.line ∨ p.line = q.line ∧ p.column < q.column := Iff.rfl

/-- The offsets just after the line feeds of a text that begins at `offset`. -/
def startsAfterBreaks (offset : Nat) : List Char → List Nat
  | [] => []
  | c :: cs =>
    let next := offset + c.utf8Size
    if c = '\n' then next :: startsAfterBreaks next cs else startsAfterBreaks next cs

/-- All of them lie behind the offset. -/
theorem lt_of_mem_startsAfterBreaks {offset start : Nat} {cs : List Char}
    (h : start ∈ startsAfterBreaks offset cs) : offset < start := by
  induction cs generalizing offset with
  | nil => simp [startsAfterBreaks] at h
  | cons c cs ih =>
    have := c.utf8Size_pos
    rw [startsAfterBreaks] at h
    split at h
    · rcases List.mem_cons.mp h with rfl | h
      · omega
      · have := ih h
        omega
    · have := ih h
      omega

theorem ascending_startsAfterBreaks (offset : Nat) (cs : List Char) :
    (startsAfterBreaks offset cs).Pairwise (· < ·) := by
  induction cs generalizing offset with
  | nil => exact .nil
  | cons c cs ih =>
    rw [startsAfterBreaks]
    split
    · exact .cons (fun start h => lt_of_mem_startsAfterBreaks h) (ih _)
    · exact ih _

/-- **The line starts of a text.** -/
structure LineTable where
  /-- Where the lines start. -/
  starts : Array Nat
  /-- The first line starts at the beginning. -/
  first : starts[0]? = some 0
  /-- Each line starts behind those before it. -/
  ascending : starts.toList.Pairwise (· < ·)
  deriving DecidableEq

namespace LineTable

/-- The line starts of a text. -/
def ofText (source : List Char) : LineTable where
  starts := (0 :: startsAfterBreaks 0 source).toArray
  first := rfl
  ascending :=
    .cons (fun _ h => lt_of_mem_startsAfterBreaks h) (ascending_startsAfterBreaks 0 source)

theorem size_pos (table : LineTable) : 0 < table.starts.size :=
  (Array.getElem?_eq_some_iff.mp table.first).1

/-- **The line of a byte offset**: the one that starts there or, if none does,
the one before the place of the offset among the starts. -/
def lineAt (table : LineTable) (offset : Nat) : Nat :=
  match search table.starts offset with
  | .found line => line
  | .missing place => place - 1

theorem lineAt_lt (table : LineTable) (offset : Nat) :
    table.lineAt offset < table.starts.size := by
  have hanswers := answers_search table.ascending offset
  have hpos := table.size_pos
  unfold lineAt
  cases hsearch : search table.starts offset with
  | found line =>
    rw [hsearch] at hanswers
    cases hanswers with
    | found h => exact (Array.getElem?_eq_some_iff.mp h).1
  | missing place =>
    rw [hsearch] at hanswers
    cases hanswers with
    | missing hplace _ _ =>
      show place - 1 < table.starts.size
      omega

/-- **The position of a byte offset.** -/
def position (table : LineTable) (offset : Nat) : Position :=
  have := table.lineAt_lt offset
  ⟨table.lineAt offset, offset - table.starts[table.lineAt offset]⟩

end LineTable

end ImpFront
