import ImpFront.Number.Decimal
import Mathlib.Data.List.Basic
import Mathlib.Tactic.Common

/-!
# Decimal numbers, read and written

A run of digits is read as a natural number without a sign, so all that can go
wrong is its size. What is written for an integer that is not negative is such a
run, and its value is the integer (`readInt32?_toString`). A negative one has a sign
in front, and what is written for it is read as it all the same (`readInt?_toString`).
-/

namespace ImpFront.Decimal

theorem readNat?_eq_some {text : List Char} {n : Nat} :
    readNat? text = some n
      ↔ (text ≠ [] ∧ text.all Char.isDigit = true) ∧ value text = n := by
  unfold readNat?
  split
  · next h => rw [Option.some_inj, and_iff_right h]
  · next h => exact ⟨nofun, fun h' => absurd h'.1 h⟩

/-- A run of digits has no sign in front. -/
theorem readInt?_of_digits {text : List Char} (hne : text ≠ [])
    (hdigits : text.all Char.isDigit = true) : readInt? text = some (value text : Int) := by
  have hread : readNat? text = some (value text) :=
    readNat?_eq_some.mpr ⟨⟨hne, hdigits⟩, rfl⟩
  unfold readInt?
  split
  · simp [Char.isDigit] at hdigits
  · simp [Char.isDigit] at hdigits
  · rw [hread]
    rfl

/-- **A run of digits is a 32-bit integer if its value is small enough.** -/
theorem readInt32?_of_digits {text : List Char} (hne : text ≠ [])
    (hdigits : text.all Char.isDigit = true) :
    readInt32? text
      = if value text ≤ 2147483647 then some (Int32.ofInt (value text)) else none := by
  rw [readInt32?, readInt?_of_digits hne hdigits]
  show int32? (value text) = _
  unfold int32?
  by_cases h : value text ≤ 2147483647
  · rw [if_pos h, if_pos (by omega)]
  · rw [if_neg h, if_neg (by omega)]

/-- One more digit at the end. -/
theorem value_concat (digits : List Char) (c : Char) :
    value (digits ++ [c]) = 10 * value digits + digitValue c := by
  rw [value, List.foldl_append]
  rfl

/-- **The digits of a number have its value.** -/
theorem value_toDigits (n : Nat) : value (Nat.toDigits 10 n) = n := by
  induction n using Nat.strongRecOn with
  | _ n ih =>
    by_cases h : n < 10
    · rw [Nat.toDigits_of_lt_base h]
      show 10 * 0 + (n.digitChar.toNat - 48) = n
      rw [Nat.toNat_digitChar_sub_48_of_lt_ten h]
      omega
    · have hlt : n % 10 < 10 := Nat.mod_lt n (by omega)
      rw [Nat.toDigits_of_base_le (by omega) (by omega), value_concat, ih (n / 10) (by omega)]
      show 10 * (n / 10) + ((n % 10).digitChar.toNat - 48) = n
      rw [Nat.toNat_digitChar_sub_48_of_lt_ten hlt]
      omega

/-- What is written for an integer that is not negative. -/
theorem toList_toString_of_nonneg {n : Int} (h : 0 ≤ n) :
    (toString n).toList = Nat.toDigits 10 n.toNat := by
  obtain ⟨m, rfl⟩ := Int.eq_ofNat_of_zero_le h
  show (Nat.repr m).toList = _
  rw [Nat.toList_repr]
  rfl

theorem toDigits_spec (n : Nat) :
    Nat.toDigits 10 n ≠ [] ∧ (Nat.toDigits 10 n).all Char.isDigit = true := by
  refine ⟨Nat.toDigits_ne_nil, List.all_eq_true.mpr fun c hc => ?_⟩
  exact Nat.isDigit_of_mem_toDigits (by omega) (by omega) hc

/-- **The digits of a number are read as it.** -/
theorem readNat?_toDigits (n : Nat) : readNat? (Nat.toDigits 10 n) = some n :=
  readNat?_eq_some.mpr ⟨toDigits_spec n, value_toDigits n⟩

/-- A number is not written with a zero in front, unless it is zero. -/
theorem toDigits_of_head?_eq_zero {n : Nat} (h : (Nat.toDigits 10 n).head? = some '0') :
    Nat.toDigits 10 n = ['0'] := by
  induction n using Nat.strongRecOn with
  | _ n ih =>
    by_cases hlt : n < 10
    · rw [Nat.toDigits_of_lt_base hlt, List.head?_cons, Option.some_inj] at h
      rw [Nat.toDigits_of_lt_base hlt, h]
    · rw [Nat.toDigits_of_base_le (by omega) (by omega),
        List.head?_append_of_ne_nil _ Nat.toDigits_ne_nil] at h
      -- The digits in front would be a zero, but these are a number of their own.
      have hzero := value_toDigits (n / 10)
      rw [ih (n / 10) (by omega) h] at hzero
      have : value ['0'] = 0 := rfl
      omega

/-- **A constant that is written is read back**, if it is not negative. -/
theorem readInt32?_toString {n : Int32} (h : 0 ≤ n.toInt) :
    readInt32? (toString n.toInt).toList = some n := by
  have hlt : n.toInt < 2147483648 := n.toInt_lt
  have hspec := toDigits_spec n.toInt.toNat
  rw [toList_toString_of_nonneg h, readInt32?_of_digits hspec.1 hspec.2, value_toDigits,
    if_pos (by omega), Int.toNat_of_nonneg h, Int32.ofInt_toInt]

/-- What is written for a negative integer has the sign in front. -/
theorem toList_toString_negSucc (m : Nat) :
    (toString (Int.negSucc m)).toList = '-' :: Nat.toDigits 10 (m + 1) := by
  show ("-" ++ Nat.repr (m + 1)).toList = _
  rw [String.toList_append, Nat.toList_repr]
  rfl

/-- **What is written for an integer is read as it.** -/
theorem readInt?_toString (n : Int) : readInt? (toString n).toList = some n := by
  cases n with
  | ofNat m =>
    obtain ⟨hne, hdigits⟩ := toDigits_spec m
    have htext : (toString (Int.ofNat m)).toList = Nat.toDigits 10 m :=
      toList_toString_of_nonneg (Int.natCast_nonneg m)
    rw [htext, readInt?_of_digits hne hdigits, value_toDigits]
    rfl
  | negSucc m =>
    rw [toList_toString_negSucc, readInt?, readNat?_toDigits]
    rfl

/-- Integers are told apart by what is written for them. -/
theorem toString_injective : Function.Injective (toString : Int → String) := by
  intro n m h
  have hread := readInt?_toString n
  rw [h, readInt?_toString] at hread
  exact (Option.some.inj hread).symm

end ImpFront.Decimal
