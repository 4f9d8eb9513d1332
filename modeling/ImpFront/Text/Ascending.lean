/-!
# Lists in ascending order

`ascendingBy key` puts the members of a list in the order of their keys and
keeps one member for each key. Keys are texts and compare by code points.
-/

namespace ImpFront

variable {α : Type}

/-- Puts a member at its place in an ascending list, unless its key is there
already. -/
def insertAscending (key : α → String) (x : α) : List α → List α
  | [] => [x]
  | y :: ys =>
    if key x < key y then x :: y :: ys
    else if key x = key y then y :: ys
    else y :: insertAscending key x ys

/-- **The members of a list in the order of their keys**, one for each key. -/
def ascendingBy (key : α → String) (xs : List α) : List α :=
  xs.foldr (insertAscending key) []

end ImpFront
