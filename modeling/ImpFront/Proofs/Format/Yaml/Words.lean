import ImpFront.Format.Yaml.Writer
import ImpFront.Proofs.Ast.Names
import ImpFront.Proofs.Token.Scanning
import Mathlib.Data.List.Basic

/-!
# Words among YAML scalars

A document that fits into one line is written as a scalar, and nothing says of which sort
it is: a text, an integer, a truth value and an empty list are all just characters. For
texts that are words it can be seen all the same (`inline?_spec`). Most words stand
as they are, and begin like no number and no bracket. The words that would be read as
something else stand in quotes, `true` and `null` among them; which words exactly these
are does not matter, as long as the two truth values are among them.

No such scalar has a blank or a colon in it, and none begins with a blank or a dash. That
is what the layout of larger documents rests on.
-/

namespace ImpFront

/-- **All texts in the document are words**, the names of its parts included. -/
inductive Document.Wordy : Document → Prop
  | text {s : String} (h : IsWord s.toList) : Wordy (.text s)
  | int (n : Int) : Wordy (.int n)
  | bool (b : Bool) : Wordy (.bool b)
  | list {items : List Document} (h : ∀ d ∈ items, Wordy d) : Wordy (.list items)
  | record {fields : List Field} (hkeys : ∀ f ∈ fields, IsWord f.key.toList)
      (hvalues : ∀ f ∈ fields, Wordy f.value) : Wordy (.record fields)

open Lexer

theorem IsWord.isWordPart {s : List Char} (h : IsWord s) : ∀ c ∈ s, isWordPart c = true := by
  obtain ⟨c, cs, rfl, hstart, hpart⟩ := h
  rw [List.forall_mem_cons]
  exact ⟨isWordPart_of_isWordStart hstart, List.all_eq_true.mp hpart⟩

namespace Yaml

/-! ## Words as scalars -/

theorem isPrintable_of_isWordPart {c : Char} (h : isWordPart c = true) : isPrintable c = true := by
  have hrange : 0x20 ≤ c.toNat ∧ c.toNat ≤ 0x7e := by
    change (decide (c.val ≥ 'A'.val ∧ c.val ≤ 'Z'.val)
      || (decide (c.val ≥ 'a'.val) && decide (c.val ≤ 'z'.val)) || c == '_'
      || (decide (c.val ≥ '0'.val) && decide (c.val ≤ '9'.val))) = true at h
    simp only [Bool.or_eq_true, Bool.and_eq_true, decide_eq_true_eq, beq_iff_eq,
      UInt32.le_iff_toNat_le] at h
    change (((65 ≤ c.toNat ∧ c.toNat ≤ 90) ∨ (97 ≤ c.toNat ∧ c.toNat ≤ 122)) ∨ c = '_')
      ∨ (48 ≤ c.toNat ∧ c.toNat ≤ 57) at h
    rcases h with ((h | h) | rfl) | h
    · omega
    · omega
    · decide
    · omega
  simp [isPrintable, hrange]

/-- In single quotes a text stands as it is, if it has no quotes itself. -/
theorem singleQuoted_eq {s : List Char} (h : '\'' ∉ s) : singleQuoted s = '\'' :: (s ++ ['\'']) := by
  have hdoubled : s.flatMap (fun c => if c = '\'' then ['\'', '\''] else [c]) = s := by
    induction s with
    | nil => rfl
    | cons c s ih =>
      rw [List.mem_cons, not_or] at h
      rw [List.flatMap_cons, if_neg (Ne.symm h.1), ih h.2, List.singleton_append]
  rw [singleQuoted, hdoubled, List.cons_append]

/-- **A word stands plain or in quotes**, and in quotes if it would be a truth value. -/
theorem scalar_word {s : List Char} (h : IsWord s) :
    scalar s = s ∧ isBool s = false ∨ scalar s = '\'' :: (s ++ ['\'']) := by
  have hprintable : s.all isPrintable = true :=
    List.all_eq_true.mpr fun c hc => isPrintable_of_isWordPart (h.isWordPart c hc)
  have hquote : '\'' ∉ s := fun hmem => absurd (h.isWordPart _ hmem) (by decide)
  unfold scalar
  rw [hprintable, Bool.not_true, if_neg Bool.false_ne_true, singleQuoted_eq hquote]
  split
  · exact .inr rfl
  · next hnot =>
    refine .inl ⟨rfl, ?_⟩
    simp only [Bool.or_eq_true, not_or, Bool.not_eq_true] at hnot
    exact hnot.1.1.2

/-- **No character of the text is one of the layout**: no blank, no colon, no line break. -/
def Compact (text : List Char) : Prop := ∀ c ∈ text, c ≠ ' ' ∧ c ≠ ':' ∧ c ≠ '\n'

theorem compact_of_isWordPart {s : List Char} (h : ∀ c ∈ s, isWordPart c = true) : Compact s := by
  intro c hc
  refine ⟨?_, ?_, ?_⟩ <;> rintro rfl <;> exact absurd (h _ hc) (by decide)

/-- **A word as a scalar begins with a letter or a quote.** -/
theorem exists_scalar_eq_cons {s : List Char} (h : IsWord s) :
    ∃ c cs, scalar s = c :: cs ∧ (isWordStart c = true ∨ c = '\'') := by
  rcases scalar_word h with ⟨hplain, -⟩ | hquoted
  · obtain ⟨c, cs, rfl, hstart, -⟩ := h
    exact ⟨c, cs, hplain, .inl hstart⟩
  · exact ⟨_, _, hquoted, .inr rfl⟩

theorem compact_scalar {s : List Char} (h : IsWord s) : Compact (scalar s) := by
  have hword := compact_of_isWordPart h.isWordPart
  rcases scalar_word h with ⟨hplain, -⟩ | hquoted
  · rwa [hplain]
  · rw [hquoted]
    exact List.forall_mem_cons.mpr ⟨by decide,
      List.forall_mem_append.mpr ⟨hword, List.forall_mem_singleton.mpr (by decide)⟩⟩

/-! ## Scalars of all sorts -/

/-- **The document on a line**, as its characters tell it. -/
def readInline (line : List Char) : Document :=
  match line with
  | '[' :: _ => .list []
  | '{' :: _ => .record []
  | '\'' :: text => .text (String.ofList text.dropLast)
  | _ =>
    if line = "true".toList then .bool true
    else if line = "false".toList then .bool false
    else (Decimal.readInt? line).elim (.text (String.ofList line)) .int

/-- What begins with none of the marks is a truth value, a number or a plain text. -/
theorem readInline_cons {c : Char} (cs : List Char) (h : c ∉ ['[', '{', '\'']) :
    readInline (c :: cs)
      = if c :: cs = "true".toList then .bool true
        else if c :: cs = "false".toList then .bool false
        else (Decimal.readInt? (c :: cs)).elim (.text (String.ofList (c :: cs))) .int := by
  simp only [List.mem_cons, List.not_mem_nil, or_false, not_or] at h
  obtain ⟨hlist, hrecord, hquote⟩ := h
  unfold readInline
  split
  · next heq => exact absurd (List.cons.inj heq).1 hlist
  · next heq => exact absurd (List.cons.inj heq).1 hrecord
  · next heq => exact absurd (List.cons.inj heq).1 hquote
  · rfl

/-- A word is no integer. -/
theorem readInt?_word {s : List Char} (h : IsWord s) : Decimal.readInt? s = none := by
  obtain ⟨c, cs, rfl, hstart, -⟩ := h
  have hdigit := isDigit_of_isWordStart hstart
  unfold Decimal.readInt?
  split
  · next heq =>
    obtain ⟨rfl, -⟩ := List.cons.inj heq
    exact absurd hstart (by decide)
  · next heq =>
    obtain ⟨rfl, -⟩ := List.cons.inj heq
    exact absurd hstart (by decide)
  · simp [Decimal.readNat?, hdigit]

theorem readInline_scalar {s : String} (h : IsWord s.toList) :
    readInline (scalar s.toList) = .text s := by
  rcases scalar_word h with ⟨hplain, hbool⟩ | hquoted
  · have hread := readInt?_word h
    obtain ⟨c, cs, hs, hstart, -⟩ := h
    have hmark : c ∉ ['[', '{', '\''] := fun hmem => by
      simp only [List.mem_cons, List.not_mem_nil, or_false] at hmem
      rcases hmem with rfl | rfl | rfl <;> exact absurd hstart (by decide)
    have hne (word : String) (hword : isBool word.toList = true) : s.toList ≠ word.toList :=
      fun heq => by
        rw [heq, hword] at hbool
        cases hbool
    rw [hplain, hs, readInline_cons cs hmark, ← hs, if_neg (hne "true" (by decide)),
      if_neg (hne "false" (by decide)), hread, Option.elim, String.ofList_toList]
  · rw [hquoted]
    show Document.text (String.ofList (s.toList ++ ['\'']).dropLast) = _
    rw [List.dropLast_concat, String.ofList_toList]

/-- What is written for an integer is digits, perhaps with a sign in front. -/
theorem toString_int_eq (n : Int) :
    ∃ digits, digits ≠ [] ∧ (∀ c ∈ digits, c.isDigit = true)
      ∧ ((toString n).toList = digits ∨ (toString n).toList = '-' :: digits) := by
  have hdigits (m : Nat) := Decimal.toDigits_spec m
  by_cases hn : 0 ≤ n
  · exact ⟨_, (hdigits n.toNat).1, List.all_eq_true.mp (hdigits n.toNat).2,
      .inl (Decimal.toList_toString_of_nonneg hn)⟩
  · obtain ⟨m, rfl⟩ := Int.eq_negSucc_of_lt_zero (Int.not_le.mp hn)
    exact ⟨_, (hdigits (m + 1)).1, List.all_eq_true.mp (hdigits (m + 1)).2,
      .inr (Decimal.toList_toString_negSucc m)⟩

/-- It begins with a digit or the sign. -/
theorem exists_toString_eq_cons (n : Int) :
    ∃ c cs, (toString n).toList = c :: cs ∧ (c.isDigit = true ∨ c = '-') := by
  obtain ⟨digits, hne, hdigits, hplain | hsigned⟩ := toString_int_eq n
  · obtain ⟨c, cs, rfl⟩ := List.exists_cons_of_ne_nil hne
    exact ⟨c, cs, hplain, .inl (hdigits c List.mem_cons_self)⟩
  · exact ⟨_, _, hsigned, .inr rfl⟩

theorem compact_int (n : Int) : Compact (toString n).toList := by
  obtain ⟨digits, -, hdigits, htext⟩ := toString_int_eq n
  have hcompact : Compact digits :=
    compact_of_isWordPart fun c hc => isWordPart_of_isDigit (hdigits c hc)
  rcases htext with htext | htext
  · rwa [htext]
  · rw [htext]
    exact List.forall_mem_cons.mpr ⟨by decide, hcompact⟩

theorem readInline_int (n : Int) : readInline (toString n).toList = .int n := by
  have hread := Decimal.readInt?_toString n
  obtain ⟨c, cs, hs, hc⟩ := exists_toString_eq_cons n
  have hmark : c ∉ ['[', '{', '\'', 't', 'f'] := fun hmem => by
    simp only [List.mem_cons, List.not_mem_nil, or_false] at hmem
    rcases hmem with rfl | rfl | rfl | rfl | rfl <;> exact absurd hc (by decide)
  simp only [List.mem_cons, List.not_mem_nil, or_false, not_or] at hmark
  rw [hs] at hread ⊢
  rw [readInline_cons cs (by simp [hmark]), if_neg (by simp [hmark]), if_neg (by simp [hmark]),
    hread]
  rfl

/-- **A line tells the document on it**, if that is wordy, and there is nothing of layout in
it. -/
theorem inline?_spec {d : Document} (h : d.Wordy) {line : String} (hline : inline? d = some line) :
    readInline line.toList = d ∧ Compact line.toList := by
  cases h with
  | text h =>
    obtain rfl := Option.some.inj hline
    rw [String.toList_ofList]
    exact ⟨readInline_scalar h, compact_scalar h⟩
  | int n =>
    obtain rfl := Option.some.inj hline
    exact ⟨readInline_int n, compact_int n⟩
  | bool b =>
    obtain rfl := Option.some.inj hline
    cases b <;> exact ⟨rfl, by simp [Compact]⟩
  | @list items h =>
    cases items with
    | nil =>
      obtain rfl := Option.some.inj hline
      exact ⟨rfl, by simp [Compact]⟩
    | cons d ds => cases hline
  | @record fields hkeys hvalues =>
    cases fields with
    | nil =>
      obtain rfl := Option.some.inj hline
      exact ⟨rfl, by simp [Compact]⟩
    | cons f fs => cases hline

/-- Lines tell documents apart. -/
theorem eq_of_inline? {d d' : Document} (h : d.Wordy) (h' : d'.Wordy) {line : String}
    (hline : inline? d = some line) (hline' : inline? d' = some line) : d = d' := by
  rw [← (inline?_spec h hline).1, (inline?_spec h' hline').1]

end Yaml

end ImpFront
