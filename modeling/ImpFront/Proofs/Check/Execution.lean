import ImpFront.Proofs.Check.Attempt

/-!
# The order of execution

A step is made before the steps inside of it, and these are made before the step that stands
after it. So the attempts of a check stand in an order, `attempted`, and this order does not
depend on which of them hold. A check goes along it up to the first attempt that does not
hold, and fails as that one fails. If there is none, the check succeeds
(`checkEach_spec`).
-/

namespace ImpFront.Check

/-! ## The order -/

/-- The size of a step. -/
noncomputable def Attempt.size : Attempt → Nat
  | .onProgram _ step => sizeOf step
  | .onVariable _ _ step => sizeOf step
  | .onFunction _ _ step => sizeOf step
  | .onBlock _ _ step => sizeOf step
  | .onStatement _ _ step => sizeOf step
  | .onAssignment _ _ _ step => sizeOf step
  | .onConditional _ _ _ _ step => sizeOf step
  | .onExpression _ _ step => sizeOf step
  | .onOperands _ _ _ _ step => sizeOf step
  | .onCall _ _ _ step => sizeOf step

/-- The size of several steps together. -/
noncomputable def totalSize : List Attempt → Nat
  | [] => 0
  | a :: as => 1 + a.size + totalSize as

theorem totalSize_append (as bs : List Attempt) :
    totalSize (as ++ bs) = totalSize as + totalSize bs := by
  induction as with
  | nil => rw [List.nil_append, totalSize, Nat.zero_add]
  | cons a as ih => rw [List.cons_append, totalSize, totalSize, ih, Nat.add_assoc (1 + a.size)]

section Inner

variable {α σ : Type} [SizeOf σ] {steps : List σ} {n : Nat}

/-- As attempts, several steps are smaller than their list. -/
theorem totalSize_map_lt {on : σ → Attempt} (hsize : ∀ s, (on s).size = sizeOf s)
    (hn : sizeOf steps ≤ n) : totalSize (steps.map on) < n := by
  refine Nat.lt_of_lt_of_le ?_ hn
  induction steps with
  | nil => exact Nat.one_pos
  | cons s ss ih =>
    have hss := ih (Nat.le_trans (by simp) hn)
    rw [List.map_cons, totalSize, hsize, List.cons.sizeOf_spec]
    omega

/-- The same where there may be nothing to make them on. -/
theorem totalSize_elim_lt {on : α → σ → Attempt} {part : Option α}
    (hsize : ∀ x s, (on x s).size = sizeOf s) (hn : sizeOf steps ≤ n) :
    totalSize (part.elim [] fun x => steps.map (on x)) < n := by
  cases part with
  | some x => exact totalSize_map_lt (hsize x) hn
  | none =>
    refine Nat.lt_of_lt_of_le ?_ hn
    cases steps with
    | nil => exact Nat.one_pos
    | cons s ss =>
      rw [List.cons.sizeOf_spec, Nat.add_assoc]
      exact Nat.lt_add_right _ Nat.one_pos

end Inner

/-- The steps inside of a step are smaller than it. -/
theorem totalSize_inner_lt (a : Attempt) : totalSize a.inner < 1 + a.size := by
  unfold Attempt.inner
  -- The steps inside are made on one part, or on a part if it is there, or there are none.
  split
  all_goals try split
  all_goals
    first
    | exact Nat.lt_add_right _ Nat.one_pos
    | exact totalSize_map_lt (fun _ => rfl) (by simp [Attempt.size] <;> omega)
    | exact totalSize_elim_lt (fun _ _ => rfl) (by simp [Attempt.size]; omega)

/-- **The order of execution**: what is attempted, one after the other, if everything holds. -/
def attempted : List Attempt → List Attempt
  | [] => []
  | a :: as => a :: attempted (a.inner ++ as)
termination_by as => totalSize as
decreasing_by
  rw [totalSize_append, totalSize]
  exact Nat.add_lt_add_right (totalSize_inner_lt a) _

theorem attempted_nil : attempted [] = [] := by rw [attempted]

theorem attempted_cons (a : Attempt) (as : List Attempt) :
    attempted (a :: as) = a :: attempted (a.inner ++ as) := by rw [attempted]

/-! ## How far it gets -/

/-- **The first that does not hold**: it stands after attempts that all hold. -/
def FirstFailing (as : List Attempt) (a : Attempt) : Prop :=
  ∃ before after, as = before ++ a :: after ∧ (∀ b ∈ before, b.Holds) ∧ ¬ a.Holds

/-- What holds is passed over. -/
theorem FirstFailing.cons {as : List Attempt} {a b : Attempt} (hb : b.Holds)
    (h : FirstFailing as a) : FirstFailing (b :: as) a := by
  obtain ⟨before, after, rfl, hbefore, ha⟩ := h
  exact ⟨b :: before, after, rfl, List.forall_mem_cons.mpr ⟨hb, hbefore⟩, ha⟩

/-- A step that holds makes way for the steps inside of it. -/
theorem checkEach_cons_of_holds {a : Attempt} (h : a.Holds) (as : List Attempt) :
    checkEach (a :: as) = checkEach (a.inner ++ as) := by
  rw [checkEach_cons, Attempt.check_of_holds h, checkEach_append]

/-- **What comes of several steps**: either all that they attempt holds, and they succeed, or
they fail as the first attempt that does not hold. -/
theorem checkEach_spec (as : List Attempt) :
    (checkEach as = .ok () ∧ ∀ a ∈ attempted as, a.Holds)
      ∨ ∃ a, FirstFailing (attempted as) a ∧ checkEach as = .error a.failure := by
  induction as using attempted.induct with
  | case1 => exact .inl ⟨rfl, by simp [attempted_nil]⟩
  | case2 a as ih =>
    rw [attempted_cons]
    by_cases h : a.Holds
    · rw [checkEach_cons_of_holds h, List.forall_mem_cons]
      obtain ⟨hok, hall⟩ | ⟨b, hfirst, herror⟩ := ih
      · exact .inl ⟨hok, h, hall⟩
      · exact .inr ⟨b, hfirst.cons h, herror⟩
    · refine .inr ⟨a, ⟨[], _, rfl, by simp, h⟩, ?_⟩
      rw [checkEach_cons, Attempt.check_of_not_holds h]
      rfl

end ImpFront.Check
