/-!
# Spans

Every token, every node of a syntax tree and every error knows where it stands
in the source. A place is a **byte offset** into the UTF-8 form of the text, and
a stretch of text is a pair of such offsets. `Span.join` is the one operation
the grammar needs: a rule reaches from where its first part starts to where its
last part stops.
-/

namespace ImpFront

/-- **A stretch of source text**, as byte offsets; `stop` is the first offset
after it. -/
structure Span where
  /-- The offset of the first byte. -/
  start : Nat
  /-- The offset just after the last byte. -/
  stop : Nat
  deriving DecidableEq

namespace Span

/-- The empty span at an offset. -/
def emptyAt (offset : Nat) : Span := ⟨offset, offset⟩

/-- From the start of one span to the end of another. -/
def join (first last : Span) : Span := ⟨first.start, last.stop⟩

/-- The same stretch in a text with `n` more bytes in front. -/
def shift (n : Nat) (s : Span) : Span := ⟨s.start + n, s.stop + n⟩

@[simp] theorem start_join (a b : Span) : (a.join b).start = a.start := rfl

@[simp] theorem stop_join (a b : Span) : (a.join b).stop = b.stop := rfl

@[simp] theorem shift_join (n : Nat) (a b : Span) :
    (a.join b).shift n = (a.shift n).join (b.shift n) := rfl

end Span

end ImpFront
