/-!
# Literals in a text

Finding a fixed text at the front of a text or anywhere in it.
-/

set_option autoImplicit false

namespace IntegerMachine.Text

/-- What follows a literal at the front of a text. -/
def after? : List Char → List Char → Option (List Char)
  | [], text => some text
  | _ :: _, [] => none
  | c :: literal, d :: text => if c = d then after? literal text else none

/-- A literal and what follows it are the whole text. -/
theorem eq_append_of_after? {literal text rest : List Char}
    (h : after? literal text = some rest) : text = literal ++ rest := by
  induction literal generalizing text with
  | nil => exact Option.some.inj h
  | cons c literal ih =>
    cases text with
    | nil => exact absurd h (by simp [after?])
    | cons d text =>
      rw [after?] at h
      split at h
      · next hcd => rw [hcd, ih h, List.cons_append]
      · exact absurd h (by simp)

/-- What stands before the first occurrence of a literal, and what follows it. -/
def splitAt? (literal : List Char) : List Char → Option (List Char × List Char)
  | [] => (after? literal []).map fun rest => ([], rest)
  | c :: text =>
    match after? literal (c :: text) with
    | some rest => some ([], rest)
    | none => (splitAt? literal text).map fun (before, rest) => (c :: before, rest)

end IntegerMachine.Text
