import ImpFront.Proofs.Outcome
import ImpFront.Settings.KeyPath
import Mathlib.Data.List.TakeWhile
import Mathlib.Tactic.Common

/-!
# The names of paths are in lower case

Names are put into lower case when a path is read, and the last name of a path once more
when a value is put under it. That does nothing to it (`KeyPath.lowerCase_of_read`): names of
paths are ASCII, and there the lower case of a character is its own lower case, whatever
stands around it.
-/

namespace ImpFront.Settings

/-! ## Lower case -/

section LowerCase

open Unicode

/-- Lower case leads from ASCII to ASCII, and no further. -/
theorem lowerCodePoint_ascii : ∀ n < 128,
    lowerCodePoint n caseRuns < 128
      ∧ lowerCodePoint (lowerCodePoint n caseRuns) caseRuns = lowerCodePoint n caseRuns := by
  decide +kernel

theorem toNat_lowerChar {c : Char} (h : c.toNat < 128) :
    (lowerChar c).toNat = lowerCodePoint c.toNat caseRuns := by
  have hlower := (lowerCodePoint_ascii _ h).1
  have hvalid : (lowerCodePoint c.toNat caseRuns).isValidChar :=
    .inl (Nat.lt_trans hlower (by decide))
  rw [lowerChar, Char.ofNat, dif_pos hvalid]
  rfl

/-- In ASCII each character has a lower case of its own. -/
theorem lowerAfter_ascii {cs : List Char} (h : ∀ c ∈ cs, c.toNat < 128) (before : List Char) :
    lowerAfter before cs = cs.map lowerChar := by
  induction cs generalizing before with
  | nil => rfl
  | cons c cs ih =>
    obtain ⟨hc, hcs⟩ := List.forall_mem_cons.mp h
    have hsigma : c ≠ '\u03a3' := by
      rintro rfl
      exact absurd hc (by decide)
    have hdotted : c ≠ '\u0130' := by
      rintro rfl
      exact absurd hc (by decide)
    simp only [lowerAfter, if_neg hsigma, if_neg hdotted, ih hcs, List.map_cons,
      List.singleton_append]

/-- **Lower case is reached at once** in ASCII. -/
theorem lowerCase_lowerCase {s : String} (h : ∀ c ∈ s.toList, c.toNat < 128) :
    lowerCase (lowerCase s) = lowerCase s := by
  unfold lowerCase
  rw [lowerAfter_ascii h, String.toList_ofList, lowerAfter_ascii, List.map_map]
  · congr 1
    refine List.map_congr_left fun c hc => Char.toNat_inj.mp ?_
    have hlower := lowerCodePoint_ascii _ (h c hc)
    rw [Function.comp_apply, toNat_lowerChar, toNat_lowerChar (h c hc), hlower.2]
    exact toNat_lowerChar (h c hc) ▸ hlower.1
  · rw [List.forall_mem_map]
    exact fun c hc => toNat_lowerChar (h c hc) ▸ (lowerCodePoint_ascii _ (h c hc)).1

end LowerCase

/-! ## The names of paths -/

namespace KeyPath

theorem toNat_lt_of_isNameChar {c : Char} (h : isNameChar c = true) : c.toNat < 128 := by
  have hascii {last : Char} (hle : c.val ≤ last.val) (hlast : last.toNat < 128) :
      c.toNat < 128 := Nat.lt_of_le_of_lt hle hlast
  simp only [isNameChar, Bool.or_eq_true, decide_eq_true_eq] at h
  rcases h with ((h | rfl) | rfl) | rfl
  · rcases Bool.or_eq_true_iff.mp h with h | hdigit
    · rcases Bool.or_eq_true_iff.mp h with hupper | hlower
      · exact hascii (of_decide_eq_true hupper).2 (by decide)
      · exact hascii (of_decide_eq_true (Bool.and_eq_true_iff.mp hlower).2) (by decide)
    · exact hascii (of_decide_eq_true (Bool.and_eq_true_iff.mp hdigit).2) (by decide)
  all_goals decide

theorem lowerCase_of_name? {cs rest : List Char} {name : String}
    (h : name? cs = some (name, rest)) : Unicode.lowerCase name = name := by
  unfold name? at h
  dsimp only at h
  split at h
  · cases h
  · cases h
    refine lowerCase_lowerCase fun c hc => ?_
    rw [String.toList_ofList] at hc
    exact toNat_lt_of_isNameChar (List.mem_takeWhile_imp hc)

theorem lowerCase_of_readSteps {cs : List Char} {steps : List KeyStep} {name : String}
    (h : readSteps cs = .ok steps) (hname : .child name ∈ steps) :
    Unicode.lowerCase name = name := by
  fun_induction readSteps cs generalizing steps with
  | case1 =>
    cases h
    cases hname
  | case3 cs first rest hfirst hle ih =>
    obtain ⟨more, hmore, rfl⟩ := map_eq_ok.mp h
    rcases List.mem_cons.mp hname with hname | hname
    · cases hname
      exact lowerCase_of_name? hfirst
    · exact ih hmore hname
  | case5 cs i rest hfirst hle ih =>
    obtain ⟨more, hmore, rfl⟩ := map_eq_ok.mp h
    exact ih hmore (List.mem_of_ne_of_mem KeyStep.noConfusion hname)
  | case2 | case4 | case6 => cases h

/-- **The names of a path are in lower case.** -/
theorem lowerCase_of_read {key name : String} {path : KeyPath} (h : read key = .ok path)
    (hname : .child name ∈ .child path.name :: path.steps) : Unicode.lowerCase name = name := by
  unfold read at h
  split at h
  · cases h
  · rename_i first rest hfirst
    obtain ⟨more, hmore, rfl⟩ := map_eq_ok.mp h
    rcases List.mem_cons.mp hname with hname | hname
    · cases hname
      exact lowerCase_of_name? hfirst
    · exact lowerCase_of_readSteps hmore hname

end KeyPath

end ImpFront.Settings
