/-!
# Arrangements

The orders in which the members of a list can be arranged.  Members are told apart by their
positions, so equal ones count as different, and the arrangements come in the lexicographic
order of positions: the list itself first, its reverse last.
-/

set_option autoImplicit false

namespace IntegerMachine.Chain

/-- Every way to take one member out of a list, with the members left, in the order of
positions. -/
def picks {α : Type} : List α → List (α × List α)
  | [] => []
  | x :: rest => (x, rest) :: (picks rest).map fun (y, others) => (y, x :: others)

/-- The arrangements of `count` members taken from a list. -/
def arrangementsOf {α : Type} : Nat → List α → List (List α)
  | 0, _ => [[]]
  | count + 1, members =>
    (picks members).flatMap fun (x, rest) => (arrangementsOf count rest).map (x :: ·)

/-- The arrangements of a list. -/
def arrangements {α : Type} (members : List α) : List (List α) :=
  arrangementsOf members.length members

/-- The list itself is its first arrangement. -/
theorem head?_arrangements {α : Type} (members : List α) :
    (arrangements members).head? = some members := by
  unfold arrangements
  induction members with
  | nil => rfl
  | cons x rest ih =>
    simp only [List.length_cons, arrangementsOf, picks, List.flatMap_cons]
    cases h : arrangementsOf rest.length rest with
    | nil => rw [h] at ih; simp at ih
    | cons first others =>
      rw [h] at ih
      simp only [List.head?_cons, Option.some.injEq] at ih
      simp [ih]

end IntegerMachine.Chain
