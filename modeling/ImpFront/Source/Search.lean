/-!
# Looking for a number in an ascending array

The part of the array in which the number may still stand is halved until the
number is found or nothing of the part is left. In the second case the answer is
the index at which the number would have to be put in (`answers_search`).
-/

namespace ImpFront

/-- **What a search comes to.** -/
inductive Search
  /-- The number stands at the index. -/
  | found (index : Nat)
  /-- The number is not there; put in at the index, it would keep the order. -/
  | missing (index : Nat)
  deriving DecidableEq

/-- Looks for a number among those from index `low` on and before `high`. -/
def searchBetween (xs : Array Nat) (x low high : Nat) (hhigh : high ≤ xs.size) : Search :=
  if h : low < high then
    let middle := low + (high - low) / 2
    have hmiddle : middle < xs.size := by omega
    if xs[middle] = x then .found middle
    else if xs[middle] < x then searchBetween xs x (middle + 1) high hhigh
    else searchBetween xs x low middle (by omega)
  else .missing low
termination_by high - low

/-- **Looks for a number** in an ascending array. -/
def search (xs : Array Nat) (x : Nat) : Search :=
  searchBetween xs x 0 xs.size (Nat.le_refl _)

/-- **What an answer says** of the number and the array. -/
inductive Search.Answers (xs : Array Nat) (x : Nat) : Search → Prop
  /-- The number stands where it was found. -/
  | found {i : Nat} (h : xs[i]? = some x) : Answers xs x (.found i)
  /-- All numbers before the place of a missing one are smaller, all others are
  larger. -/
  | missing {i : Nat} (hi : i ≤ xs.size) (hbelow : ∀ j y, xs[j]? = some y → j < i → y < x)
      (habove : ∀ j y, xs[j]? = some y → i ≤ j → x < y) : Answers xs x (.missing i)

/-- An ascending array has the smaller numbers first. -/
theorem lt_of_ascending {xs : Array Nat} (hxs : xs.toList.Pairwise (· < ·)) {i j y z : Nat}
    (hi : xs[i]? = some y) (hj : xs[j]? = some z) (hij : i < j) : y < z := by
  rw [← Array.getElem?_toList] at hi hj
  obtain ⟨hilt, rfl⟩ := List.getElem?_eq_some_iff.mp hi
  obtain ⟨hjlt, rfl⟩ := List.getElem?_eq_some_iff.mp hj
  exact List.pairwise_iff_getElem.mp hxs i j hilt hjlt hij

theorem le_of_ascending {xs : Array Nat} (hxs : xs.toList.Pairwise (· < ·)) {i j y z : Nat}
    (hi : xs[i]? = some y) (hj : xs[j]? = some z) (hij : i ≤ j) : y ≤ z := by
  rcases Nat.lt_or_eq_of_le hij with hlt | rfl
  · exact Nat.le_of_lt (lt_of_ascending hxs hi hj hlt)
  · rw [hi] at hj
    exact Nat.le_of_eq (Option.some.inj hj)

/-- The numbers outside the part that is searched have been ruled out. -/
theorem answers_searchBetween {xs : Array Nat} (hxs : xs.toList.Pairwise (· < ·)) (x low high : Nat)
    (hhigh : high ≤ xs.size) (hle : low ≤ high)
    (hbelow : ∀ j y, xs[j]? = some y → j < low → y < x)
    (habove : ∀ j y, xs[j]? = some y → high ≤ j → x < y) :
    (searchBetween xs x low high hhigh).Answers xs x := by
  fun_induction searchBetween xs x low high hhigh with
  | case1 low high hhigh hlt middle hmiddle heq =>
    exact .found (by rw [Array.getElem?_eq_getElem hmiddle, heq])
  | case2 low high hhigh hlt middle hmiddle hne hless ih =>
    refine ih (by omega) (fun j y hy hj => ?_) habove
    have := le_of_ascending hxs hy (Array.getElem?_eq_getElem hmiddle) (by omega)
    omega
  | case3 low high hhigh hlt middle hmiddle hne hless ih =>
    refine ih (by omega) hbelow fun j y hy hj => ?_
    have := le_of_ascending hxs (Array.getElem?_eq_getElem hmiddle) hy hj
    omega
  | case4 low high hhigh hge =>
    obtain rfl : low = high := by omega
    exact .missing hhigh hbelow habove

/-- **The answer of a search is right.** -/
theorem answers_search {xs : Array Nat} (hxs : xs.toList.Pairwise (· < ·)) (x : Nat) :
    (search xs x).Answers xs x := by
  refine answers_searchBetween hxs x 0 xs.size _ (Nat.zero_le _) (by omega) fun j y hy hj => ?_
  rw [Array.getElem?_eq_none hj] at hy
  cases hy

end ImpFront
