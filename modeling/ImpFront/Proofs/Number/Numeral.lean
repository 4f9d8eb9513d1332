import ImpFront.Proofs.Build.Lookups
import ImpFront.Proofs.Number.Decimal
import Mathlib.Data.Nat.Digits.Lemmas

/-!
# Integers in decimal

A `Numeral` is an integer as it is written: at most one sign, and at least one of the ten
ASCII digits. What it stands for is said by position, the last digit counting ones and every
other one ten times as much as its neighbour on the right. Nothing of this knows how numerals
are read, and there is no bound on how many digits there are; zeros in front change the text
and not the value (`value_zeroPadded`).

Reading agrees with it. What is read as an integer is what some numeral is written like, and
it is read as the value of the numeral (`Decimal.readInt?_eq_some_iff`). So an integer
literal means what it says as long as that fits 32 bits, and any other text is refused as it
stands (`ofTree_intLiteral_iff`). The two ends of the range are not symmetric, and the sign
is what tells which of them counts: `2147483648` is too large, `-2147483648` is not.
-/

namespace ImpFront

/-- What may stand in front of the digits. -/
inductive Sign
  | none | plus | minus

namespace Sign

/-- How a sign is written. -/
def chars : Sign → List Char
  | .none => []
  | .plus => ['+']
  | .minus => ['-']

/-- What a sign makes of a number. -/
def apply : Sign → Nat → Int
  | .minus, n => -n
  | _, n => n

end Sign

/-- **An integer as it is written.** -/
structure Numeral where
  /-- The sign. -/
  sign : Sign
  /-- The digits, the ones last. -/
  digits : List (Fin 10)
  /-- A sign alone is no numeral. -/
  digits_ne_nil : digits ≠ []

namespace Numeral

/-- How digits are written. -/
def digitChars (digits : List (Fin 10)) : List Char := digits.map fun d => Nat.digitChar d.val

/-- What digits stand for, by position. -/
def positional (digits : List (Fin 10)) : Nat := Nat.ofDigits 10 (digits.reverse.map Fin.val)

/-- **The text of a numeral.** -/
def text (n : Numeral) : String := String.ofList (n.sign.chars ++ digitChars n.digits)

/-- **The integer that a numeral stands for.** -/
def value (n : Numeral) : Int := n.sign.apply (positional n.digits)

/-- The numeral with zeros between the sign and the digits. -/
def zeroPadded (n : Numeral) (zeros : Nat) : Numeral where
  sign := n.sign
  digits := List.replicate zeros 0 ++ n.digits
  digits_ne_nil := List.append_ne_nil_of_right_ne_nil _ n.digits_ne_nil

/-- **Zeros in front do not count.** -/
@[simp] theorem value_zeroPadded (n : Numeral) (zeros : Nat) :
    (n.zeroPadded zeros).value = n.value := by
  have hzeros : positional (List.replicate zeros 0 ++ n.digits) = positional n.digits := by
    unfold positional
    rw [List.reverse_append, List.map_append, List.reverse_replicate, List.map_replicate]
    exact Nat.ofDigits_append_replicate_zero _
  show n.sign.apply (positional (List.replicate zeros 0 ++ n.digits)) = _
  rw [hzeros]
  rfl

end Numeral

namespace Decimal

open Numeral

/-! ## Digits -/

/-- A digit is read as itself. -/
theorem digitValue_digitChar (d : Fin 10) : digitValue (Nat.digitChar d) = d :=
  Nat.toNat_digitChar_sub_48_of_lt_ten d.isLt

/-- **The digits of ASCII** are how the ten digits are written. -/
theorem isDigit_iff {c : Char} : c.isDigit = true ↔ ∃ d : Fin 10, c = Nat.digitChar d := by
  constructor
  · intro h
    have hrange : 48 ≤ c.toNat ∧ c.toNat ≤ 57 := by
      simpa [Char.isDigit, UInt32.le_iff_toNat_le] using h
    refine ⟨⟨c.toNat - 48, by omega⟩, Char.toNat_inj.mp ?_⟩
    show c.toNat = (Nat.digitChar (c.toNat - 48)).toNat
    rw [Nat.toNat_digitChar_of_lt_ten (by omega)]
    omega
  · rintro ⟨d, rfl⟩
    rw [Nat.isDigit_digitChar, decide_eq_true d.isLt]

/-- Texts of digits are those that digits are written like. -/
theorem all_isDigit_iff {text : List Char} :
    text.all Char.isDigit = true ↔ ∃ digits, text = digitChars digits := by
  induction text with
  | nil => exact ⟨fun _ => ⟨[], rfl⟩, fun _ => rfl⟩
  | cons c text ih =>
    rw [List.all_cons, Bool.and_eq_true, isDigit_iff, ih]
    constructor
    · rintro ⟨⟨d, rfl⟩, digits, rfl⟩
      exact ⟨d :: digits, rfl⟩
    · rintro ⟨digits, h⟩
      cases digits with
      | nil => cases h
      | cons d digits =>
        obtain ⟨rfl, rfl⟩ := List.cons.inj h
        exact ⟨⟨d, rfl⟩, digits, rfl⟩

/-- **Digits are read by position.** Reading goes from the left and multiplies what it has by
ten at each digit, which gives every digit the weight of its place in the end. -/
theorem value_digitChars (digits : List (Fin 10)) :
    value (digitChars digits) = positional digits := by
  induction digits using List.reverseRecOn with
  | nil => rfl
  | append_singleton digits d ih =>
    have hsplit : digitChars (digits ++ [d]) = digitChars digits ++ [Nat.digitChar d.val] := by
      unfold digitChars
      rw [List.map_append, List.map_singleton]
    rw [hsplit, value_concat, ih, digitValue_digitChar]
    unfold positional
    rw [List.reverse_append, List.reverse_singleton, List.singleton_append, List.map_cons,
      Nat.ofDigits_cons, Nat.add_comm]

/-- **A natural number is read** off at least one digit, and off nothing else. -/
theorem readNat?_eq_some_iff {text : List Char} {m : Nat} :
    readNat? text = some m
      ↔ ∃ digits, digits ≠ [] ∧ text = digitChars digits ∧ positional digits = m := by
  rw [readNat?_eq_some, all_isDigit_iff]
  constructor
  · rintro ⟨⟨hne, digits, rfl⟩, rfl⟩
    exact ⟨digits, fun h => hne (by rw [h]; rfl), rfl, (value_digitChars digits).symm⟩
  · rintro ⟨digits, hne, rfl, rfl⟩
    have htext : digitChars digits ≠ [] := by
      unfold digitChars
      rwa [Ne, List.map_eq_nil_iff]
    exact ⟨⟨htext, digits, rfl⟩, value_digitChars digits⟩

/-! ## Signs -/

theorem readInt?_minus (text : List Char) :
    readInt? ('-' :: text) = (readNat? text).map Sign.minus.apply := by
  rw [readInt?]
  cases readNat? text <;> rfl

/-- Reading tells the three signs apart by the first character, and a digit is none of
them. -/
theorem readInt?_chars (sign : Sign) {digits : List (Fin 10)} (hne : digits ≠ []) :
    readInt? (sign.chars ++ digitChars digits) = some (sign.apply (positional digits)) := by
  have hread : readNat? (digitChars digits) = some (positional digits) :=
    readNat?_eq_some_iff.mpr ⟨digits, hne, rfl, rfl⟩
  cases sign with
  | none =>
    obtain ⟨⟨hdigits, hall⟩, hvalue⟩ := readNat?_eq_some.mp hread
    rw [Sign.chars, List.nil_append, readInt?_of_digits hdigits hall, hvalue]
    rfl
  | plus =>
    show readInt? ('+' :: digitChars digits) = _
    rw [readInt?, hread]
    rfl
  | minus =>
    show readInt? ('-' :: digitChars digits) = _
    rw [readInt?_minus, hread]
    rfl

/-- **An integer is read** off the text of a numeral, and off nothing else: a second sign, a
sign without digits and a digit of another script are no parts of one. -/
theorem readInt?_eq_some_iff {text : String} {v : Int} :
    readInt? text.toList = some v ↔ ∃ n : Numeral, text = n.text ∧ n.value = v := by
  constructor
  · intro h
    -- Whatever the sign is, the digits behind it are read as a natural number.
    have hsigned (sign : Sign) {rest : List Char} (htext : text.toList = sign.chars ++ rest)
        (hrest : (readNat? rest).map sign.apply = some v) :
        ∃ n : Numeral, text = n.text ∧ n.value = v := by
      obtain ⟨m, hm, rfl⟩ := Option.map_eq_some_iff.mp hrest
      obtain ⟨digits, hne, rfl, rfl⟩ := readNat?_eq_some_iff.mp hm
      refine ⟨⟨sign, digits, hne⟩, ?_, rfl⟩
      rw [Numeral.text, ← htext, String.ofList_toList]
    have hread := h
    unfold readInt? at h
    split at h
    · next rest htext => exact hsigned .plus htext h
    · next rest htext => exact hsigned .minus htext (by rwa [htext, readInt?_minus] at hread)
    · exact hsigned .none rfl h
  · rintro ⟨n, rfl, rfl⟩
    rw [Numeral.text, String.toList_ofList]
    exact readInt?_chars n.sign n.digits_ne_nil

/-! ## The range -/

/-- **The integers of 32 bits** are those of the range, each the value of one constant. -/
theorem int32?_eq_some_iff {v : Int} {c : Int32} : int32? v = some c ↔ c.toInt = v := by
  have hlow := c.le_toInt
  have hhigh := c.toInt_lt
  unfold int32?
  split
  · next hrange =>
    rw [Option.some_inj]
    constructor
    · rintro rfl
      exact Int32.toInt_ofInt_of_le (by omega) (by omega)
    · rintro rfl
      exact Int32.ofInt_toInt c
  · next hrange => exact ⟨nofun, fun h => absurd (by omega) hrange⟩

/-- Every integer of the range is the value of a constant. -/
theorem exists_toInt_eq_iff {v : Int} :
    (∃ c : Int32, c.toInt = v) ↔ -2147483648 ≤ v ∧ v ≤ 2147483647 := by
  constructor
  · rintro ⟨c, rfl⟩
    have hlow := c.le_toInt
    have hhigh := c.toInt_lt
    omega
  · rintro ⟨hlow, hhigh⟩
    exact ⟨.ofInt v, Int32.toInt_ofInt_of_le (by omega) (by omega)⟩

/-- A constant is read off the numerals with its value. -/
theorem readInt32?_eq_some_iff {text : String} {c : Int32} :
    readInt32? text.toList = some c ↔ ∃ n : Numeral, text = n.text ∧ n.value = c.toInt := by
  rw [readInt32?, Option.bind_eq_some_iff, ← readInt?_eq_some_iff]
  constructor
  · rintro ⟨v, hread, hv⟩
    rw [hread, int32?_eq_some_iff.mp hv]
  · intro hread
    exact ⟨_, hread, int32?_eq_some_iff.mpr rfl⟩

end Decimal

/-! ## Integer literals -/

namespace Expression

variable {t : SyntaxTree}

/-- What is made of an integer literal. -/
theorem ofTree_eq_of_intLiteral (h : t.kind = .intLiteral) :
    ofTree t = (do return .intConstant (← intOfTree t)) := by
  rw [ofTree_eq, h]

/-- An integer literal is a constant if its text is read as one. -/
theorem ofTree_eq_intConstant_iff (h : t.kind = .intLiteral) {c : Int32} :
    ofTree t = .ok (.intConstant c) ↔ Decimal.readInt32? t.text.toList = some c := by
  rw [ofTree_eq_of_intLiteral h]
  cases hread : Decimal.readInt32? t.text.toList with
  | none =>
    rw [intOfTree_of_none hread]
    exact ⟨nofun, nofun⟩
  | some c' =>
    rw [intOfTree_of_some hread, ok_bind, Option.some_inj]
    constructor
    · intro hok
      exact Expression.intConstant.inj (Except.ok.inj hok)
    · rintro rfl
      rfl

/-- **An integer literal has its decimal value or is refused.** It is a constant exactly if
it is written like a numeral whose value is in the range, however many zeros that starts
with, and the constant has this value; any other text is refused, with the text and the span
of the literal. -/
theorem ofTree_intLiteral_iff (h : t.kind = .intLiteral) :
    (∀ v : Int, (∃ c : Int32, ofTree t = .ok (.intConstant c) ∧ c.toInt = v)
      ↔ (∃ n : Numeral, t.text = n.text ∧ n.value = v) ∧ -2147483648 ≤ v ∧ v ≤ 2147483647)
    ∧ (∀ (n : Numeral) (zeros : Nat), t.text = (n.zeroPadded zeros).text →
      -2147483648 ≤ n.value ∧ n.value ≤ 2147483647 →
        ofTree t = .ok (.intConstant (.ofInt n.value)))
    ∧ ((¬ ∃ n : Numeral, t.text = n.text ∧ -2147483648 ≤ n.value ∧ n.value ≤ 2147483647) →
      ofTree t = .error ⟨t.span, .malformedLiteral .int t.text⟩) := by
  have hok (c : Int32) : ofTree t = .ok (.intConstant c)
      ↔ ∃ n : Numeral, t.text = n.text ∧ n.value = c.toInt :=
    (ofTree_eq_intConstant_iff h).trans Decimal.readInt32?_eq_some_iff
  refine ⟨fun v => ?_, fun n zeros htext hrange => ?_, fun hnone => ?_⟩
  · rw [← Decimal.exists_toInt_eq_iff]
    constructor
    · rintro ⟨c, hc, rfl⟩
      exact ⟨(hok c).mp hc, c, rfl⟩
    · rintro ⟨hn, c, rfl⟩
      exact ⟨c, (hok c).mpr hn, rfl⟩
  · refine (hok _).mpr ⟨_, htext, ?_⟩
    rw [Numeral.value_zeroPadded, Int32.toInt_ofInt_of_le (by omega) (by omega)]
  · rw [ofTree_eq_of_intLiteral h]
    cases hread : Decimal.readInt32? t.text.toList with
    | none =>
      rw [intOfTree_of_none hread]
      rfl
    | some c =>
      obtain ⟨n, htext, hvalue⟩ := Decimal.readInt32?_eq_some_iff.mp hread
      refine absurd ⟨n, htext, ?_⟩ hnone
      rw [hvalue]
      exact Decimal.exists_toInt_eq_iff.mp ⟨c, rfl⟩

/-- The least integer, with zeros in front. -/
theorem ofTree_intLiteral_least :
    let t : SyntaxTree := .leaf .intLiteral ⟨3, 16⟩ "-002147483648"
    let n : Numeral := ⟨.minus, [2, 1, 4, 7, 4, 8, 3, 6, 4, 8], nofun⟩
    t.kind = .intLiteral ∧ t.text = (n.zeroPadded 2).text
      ∧ ofTree t = .ok (.intConstant (.ofInt (-2147483648))) := by
  intro t n
  have hkind : t.kind = .intLiteral := rfl
  have htext : t.text = (n.zeroPadded 2).text := by decide +kernel
  have hvalue : n.value = -2147483648 := by decide +kernel
  have hread := (ofTree_intLiteral_iff hkind).2.1 n 2 htext (by omega)
  rw [hvalue] at hread
  exact ⟨hkind, htext, hread⟩

end Expression

end ImpFront
