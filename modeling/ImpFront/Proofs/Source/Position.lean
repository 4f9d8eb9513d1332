import ImpFront.Source.Position
import Mathlib.Data.List.Basic
import Mathlib.Tactic.Common

/-!
# Positions are right

A line ends with a newline byte, and the bytes of other characters are no newlines: so what
a table says of a text is what the **bytes** of the text say (`startsAfterBreaks_eq`), and
an offset may well fall inside a character. The line of an offset is the number of newlines
before it, and its column is counted from the last of them.

That the lookup gets there rests on what the table is. Its starts ascend and the first of them
is zero, so an offset that is missing among them has a start before it, and the line that
starts there is the last one that does not start behind the offset (`onLine_lineAt`).
-/

namespace ImpFront

/-! ## Bytes -/

/-- The bytes of a text in UTF-8. -/
def bytesOf (source : String) : List UInt8 := source.toUTF8.data.toList

/-- The byte that ends a line. -/
def newline : UInt8 := 10

theorem bytesOf_eq (source : String) :
    bytesOf source = source.toList.flatMap String.utf8EncodeChar := by
  rw [bytesOf, String.toUTF8_eq_toByteArray, ← String.utf8Encode_toList, List.utf8Encode,
    List.toList_data_toByteArray]

/-- Every byte of a longer character is larger. -/
theorem newline_mem_utf8EncodeChar {c : Char} :
    newline ∈ String.utf8EncodeChar c ↔ c = '\n' := by
  constructor
  · intro h
    have hval : c.val.toNat = '\n'.val.toNat := by
      show c.val.toNat = 10
      have hbyte : (10 : UInt8).toNat = 10 := rfl
      unfold String.utf8EncodeChar at h
      dsimp only at h
      -- One case for each number of bytes.
      split_ifs at h
      all_goals
        simp only [newline, List.mem_cons, List.not_mem_nil, or_false, ← UInt8.toNat_inj,
          UInt8.toNat_ofNat', hbyte] at h
        omega
    exact Char.ext (UInt32.toNat_inj.mp hval)
  · rintro rfl
    decide

/-- **The line starts of a text are known from its bytes.** -/
theorem startsAfterBreaks_eq (offset : Nat) (cs : List Char) :
    startsAfterBreaks offset cs
      = ((cs.flatMap String.utf8EncodeChar).idxsOf newline offset).map (· + 1) := by
  induction cs generalizing offset with
  | nil => rfl
  | cons c cs ih =>
    rw [List.flatMap_cons, List.idxsOf_append, List.map_append, String.length_utf8EncodeChar,
      ← ih, startsAfterBreaks]
    by_cases hc : c = '\n'
    · subst hc
      rfl
    · have hnone : (String.utf8EncodeChar c).idxsOf newline offset = [] := by
        refine List.idxsOf_eq_nil_iff.mpr fun b hb => ?_
        rw [beq_eq_false_iff_ne]
        rintro rfl
        exact hc (newline_mem_utf8EncodeChar.mp hb)
      rw [if_neg hc, hnone, List.map_nil, List.nil_append]

/-! ## The line of an offset -/

namespace LineTable

variable {table : LineTable} {offset line start : Nat}

/-- **The offset is on the line**: it is the last one that does not start behind the offset. -/
structure OnLine (table : LineTable) (offset line start : Nat) : Prop where
  /-- The line starts there. -/
  starts : table.starts[line]? = some start
  /-- It starts at the offset or before it. -/
  le : start ≤ offset
  /-- The lines after it start behind the offset. -/
  last : ∀ j y, table.starts[j]? = some y → line < j → offset < y

/-- **An offset that is missing stands behind a start.** -/
theorem pos_of_missing {place : Nat} (h : search table.starts offset = .missing place) :
    0 < place := by
  have hanswers := answers_search table.ascending offset
  rw [h] at hanswers
  cases hanswers with
  | missing _ _ habove =>
    by_contra hzero
    have := habove 0 0 table.first (by omega)
    omega

/-- **The lookup finds the line.** -/
theorem onLine_lineAt (table : LineTable) (offset : Nat) :
    ∃ start, table.OnLine offset (table.lineAt offset) start := by
  have hanswers := answers_search table.ascending offset
  unfold lineAt
  cases hsearch : search table.starts offset with
  | found line =>
    rw [hsearch] at hanswers
    cases hanswers with
    | found h =>
      exact ⟨offset, h, Nat.le_refl _, fun j y hy hj => lt_of_ascending table.ascending h hy hj⟩
  | missing place =>
    have hpos := pos_of_missing hsearch
    rw [hsearch] at hanswers
    cases hanswers with
    | missing hplace hbelow habove =>
      have hlt : place - 1 < table.starts.size := by omega
      have hstart := Array.getElem?_eq_getElem hlt
      refine ⟨_, hstart, Nat.le_of_lt (hbelow _ _ hstart (by omega)), fun j y hy hj => ?_⟩
      change place - 1 < j at hj
      exact habove j y hy (by omega)

/-- The column is counted from the start of the line. -/
theorem OnLine.column (h : table.OnLine offset (table.lineAt offset) start) :
    (table.position offset).column + start = offset := by
  obtain ⟨_, rfl⟩ := Array.getElem?_eq_some_iff.mp h.starts
  exact Nat.sub_add_cancel h.le

/-- **A later offset has a later position.** -/
theorem position_lt (table : LineTable) {m n : Nat} (h : m < n) :
    table.position m < table.position n := by
  obtain ⟨start, hm⟩ := table.onLine_lineAt m
  obtain ⟨start', hn⟩ := table.onLine_lineAt n
  have hcolumn := hm.column
  have hcolumn' := hn.column
  rw [Position.lt_iff]
  change table.lineAt m < table.lineAt n
    ∨ table.lineAt m = table.lineAt n ∧ (table.position m).column < (table.position n).column
  rcases Nat.lt_trichotomy (table.lineAt m) (table.lineAt n) with hlt | heq | hgt
  · exact .inl hlt
  · have hsame := hn.starts
    rw [← heq, hm.starts] at hsame
    obtain rfl := Option.some.inj hsame
    exact .inr ⟨heq, by omega⟩
  · have := hn.last _ _ hm.starts hgt
    have := hm.le
    omega

/-- Positions keep the order of the offsets. -/
theorem position_lt_iff (table : LineTable) {m n : Nat} :
    table.position m < table.position n ↔ m < n := by
  refine ⟨fun h => ?_, table.position_lt⟩
  by_contra hge
  rcases Nat.lt_or_eq_of_le (Nat.le_of_not_lt hge) with hlt | rfl
  · have hback := table.position_lt hlt
    rw [Position.lt_iff] at h hback
    omega
  · rw [Position.lt_iff] at h
    omega

end LineTable

/-! ## What the bytes say -/

/-- **The place of a byte offset**, counted in the bytes of a text. -/
structure Position.Locates (bytes : List UInt8) (offset : Nat) (p : Position) : Prop where
  /-- As many lines come before as newlines do. -/
  line : p.line = (bytes.take offset).count newline
  /-- The column is counted from just behind the last newline before the offset, or from
  the beginning if there is none. -/
  column : ∃ start, p.column + start = offset
    ∧ (∀ i, start = i + 1 → bytes[i]? = some newline)
    ∧ ∀ i, start ≤ i → i < offset → bytes[i]? ≠ some newline

namespace LineTable

variable {source : String} {offset line start : Nat}

/-- Lines start at the beginning and just behind newlines. -/
theorem mem_starts_ofText :
    start ∈ (ofText source.toList).starts.toList
      ↔ ∀ i, start = i + 1 → (bytesOf source)[i]? = some newline := by
  show start ∈ 0 :: startsAfterBreaks 0 source.toList ↔ _
  rw [startsAfterBreaks_eq, ← bytesOf_eq, List.mem_cons, List.mem_map]
  constructor
  · rintro (rfl | ⟨i, hi, rfl⟩) j hj
    · omega
    · obtain rfl : i = j := by omega
      obtain ⟨hlt, heq⟩ := List.mem_idxsOf_iff_exists_getElem_pos.mp hi
      rw [List.getElem?_eq_getElem hlt, beq_iff_eq.mp heq]
  · intro h
    cases start with
    | zero => exact .inl rfl
    | succ i =>
      obtain ⟨hlt, heq⟩ := List.getElem?_eq_some_iff.mp (h i rfl)
      exact .inr ⟨i, List.mem_idxsOf_iff_exists_getElem_pos.mpr ⟨hlt, beq_iff_eq.mpr heq⟩, rfl⟩

/-- **An offset parts the starts**: those up to it belong to the newlines before it. -/
theorem starts_ofText (source : String) (offset : Nat) :
    ∃ before behind, (ofText source.toList).starts.toList = 0 :: before ++ behind
      ∧ before.length = ((bytesOf source).take offset).count newline
      ∧ (∀ start ∈ before, start ≤ offset) ∧ ∀ start ∈ behind, offset < start := by
  refine ⟨(((bytesOf source).take offset).idxsOf newline).map (· + 1),
    (((bytesOf source).drop offset).idxsOf newline
      ((bytesOf source).take offset).length).map (· + 1), ?_, ?_, ?_, ?_⟩
  · show 0 :: startsAfterBreaks 0 source.toList = _
    rw [startsAfterBreaks_eq, ← bytesOf_eq, List.cons_append, ← List.map_append]
    conv_lhs => rw [← List.take_append_drop offset (bytesOf source)]
    rw [List.idxsOf_append, Nat.zero_add]
  · rw [List.length_map, List.length_idxsOf]
  · intro start hstart
    obtain ⟨i, hi, rfl⟩ := List.mem_map.mp hstart
    have := List.lt_add_of_mem_idxsOf i hi
    rw [List.length_take] at this
    omega
  · intro start hstart
    obtain ⟨i, hi, rfl⟩ := List.mem_map.mp hstart
    have hle := List.ge_of_mem_idxsOf i hi
    have hlt := List.lt_add_of_mem_idxsOf i hi
    rw [List.length_take] at hle hlt
    rw [List.length_drop] at hlt
    omega

/-- **The number of the line is the number of newlines before it.** -/
theorem OnLine.eq_count (h : (ofText source.toList).OnLine offset line start) :
    line = ((bytesOf source).take offset).count newline := by
  obtain ⟨before, behind, hstarts, hcount, hbefore, hbehind⟩ := starts_ofText source offset
  have hstart := h.starts
  have hle := h.le
  rw [← Array.getElem?_toList, hstarts] at hstart
  rw [← hcount]
  rcases Nat.lt_trichotomy line before.length with hlt | heq | hgt
  · -- The last of the starts up to the offset would be one of a later line.
    have hlast : ((0 :: before) ++ behind)[before.length]? = (0 :: before)[before.length]? :=
      List.getElem?_append_left (by simp)
    have hsome := List.getElem?_eq_getElem (l := 0 :: before) (i := before.length) (by simp)
    have hafter :=
      h.last before.length _ (by rw [← Array.getElem?_toList, hstarts, hlast, hsome]) hlt
    rcases List.mem_cons.mp (List.mem_of_getElem? hsome) with hzero | hmem
    · omega
    · have := hbefore _ hmem
      omega
  · exact heq
  · rw [List.getElem?_append_right (by rw [List.length_cons]; omega)] at hstart
    have := hbehind _ (List.mem_of_getElem? hstart)
    omega

theorem OnLine.locates (h : (ofText source.toList).OnLine offset
    ((ofText source.toList).lineAt offset) start) :
    ((ofText source.toList).position offset).Locates (bytesOf source) offset := by
  have hmem := List.mem_of_getElem? (Array.getElem?_toList ▸ h.starts)
  refine ⟨h.eq_count, start, h.column, mem_starts_ofText.mp hmem, fun i hstart hoffset hi => ?_⟩
  -- A newline in between would start a line that is neither this one nor a later one.
  have hnext : i + 1 ∈ (ofText source.toList).starts.toList :=
    mem_starts_ofText.mpr fun j hj => by rwa [← Nat.succ.inj hj]
  obtain ⟨j, hj⟩ := List.mem_iff_getElem?.mp hnext
  rw [Array.getElem?_toList] at hj
  rcases Nat.lt_or_ge ((ofText source.toList).lineAt offset) j with hlt | hge
  · have := h.last j _ hj hlt
    omega
  · have := le_of_ascending (ofText source.toList).ascending hj h.starts hge
    omega

/-- **The lookup goes well**: no number is made smaller than zero on the way. -/
structure GoesWell (table : LineTable) (offset : Nat) : Prop where
  /-- Where no line starts, there is a line before. -/
  place : ∀ place, search table.starts offset = .missing place → 0 < place
  /-- The line is in the table, and it does not start behind the offset. -/
  line : ∃ start, table.starts[table.lineAt offset]? = some start ∧ start ≤ offset

/-- **Positions are right for every offset**, also for one inside a character or past the
end: they are what the bytes of the source say, the lookup that finds them goes well, and
no two offsets have the same, as positions keep the order of the offsets. -/
theorem position_locates (source : String) :
    (∀ offset, ((ofText source.toList).position offset).Locates (bytesOf source) offset)
      ∧ (∀ offset, (ofText source.toList).GoesWell offset)
      ∧ Function.Injective (ofText source.toList).position
      ∧ ∀ m n, (ofText source.toList).position m < (ofText source.toList).position n ↔ m < n := by
  refine ⟨fun offset => ?_, fun offset => ?_, fun m n h => ?_, fun m n => position_lt_iff _⟩
  · obtain ⟨start, h⟩ := (ofText source.toList).onLine_lineAt offset
    exact h.locates
  · obtain ⟨start, h⟩ := (ofText source.toList).onLine_lineAt offset
    exact ⟨fun place => pos_of_missing, start, h.starts, h.le⟩
  · have hm := (ofText source.toList).position_lt_iff (m := m) (n := n)
    have hn := (ofText source.toList).position_lt_iff (m := n) (n := m)
    rw [Position.lt_iff, h] at hm hn
    omega

/-- Two newlines in a row, a character of two bytes, and an offset past the end. -/
example : [0, 1, 2, 3, 9].map (fun n => ((ofText "\n\né".toList).position n).display)
    = ["1:1", "2:1", "3:1", "3:2", "3:8"] := by decide +kernel

end LineTable

end ImpFront
