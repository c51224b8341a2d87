import IntegerMachine.Word
import Mathlib.Algebra.Order.Ring.Int
import Mathlib.Data.List.Induction

/-!
# Words and their digits

A word is taken apart into an opcode number and three mode digits, and put together from a number
and any number of digits.  Of a word, five decimal places are read: put together again they are its
residue modulo 100000, also for a negative word (`compose_split`).  Of what was put together, the
number and the first three digits come back (`split_compose`).
-/

set_option autoImplicit false

namespace IntegerMachine.Word

/-! ## Digits -/

/-- Digits of higher places count as many powers of ten more as there are lower ones. -/
theorem ofDigits_append (first second : List Int) :
    ofDigits (first ++ second) = ofDigits first + 10 ^ first.length * ofDigits second := by
  induction first with
  | nil => simp [ofDigits]
  | cons d ds ih =>
    rw [List.cons_append, ofDigits, ofDigits, ih, List.length_cons, pow_succ',
      Int.mul_assoc, Int.mul_add, Int.add_assoc]

/-- The digit at a place, zero above the highest. -/
theorem ofDigits_div_pow_emod {digits : List Int} (h : ∀ d ∈ digits, 0 ≤ d ∧ d ≤ 9) (k : Nat) :
    ofDigits digits / 10 ^ k % 10 = digits.getD k 0 := by
  induction digits generalizing k with
  | nil => simp [ofDigits]
  | cons d ds ih =>
    obtain ⟨hd, hds⟩ := List.forall_mem_cons.mp h
    rw [ofDigits]
    cases k with
    | zero =>
      rw [pow_zero, List.getD_cons_zero]
      omega
    | succ k =>
      have hshift : (d + 10 * ofDigits ds) / 10 = ofDigits ds := by omega
      rw [pow_succ', ← Int.ediv_ediv_of_nonneg (by decide), hshift, List.getD_cons_succ]
      exact ih hds k

/-! ## Composing words -/

/-- Digits behind others are worth as much more as there are digits before them. -/
theorem compose_append (code : Int) (first second : List Int) :
    compose code (first ++ second) =
      compose code first + 10 ^ first.length * compose 0 second := by
  rw [compose, compose, compose, ofDigits_append, Int.zero_add, Int.mul_add, Int.add_assoc,
    Int.mul_left_comm]

/-- A further digit is added at the next place above the others. -/
theorem compose_concat (code : Int) (digits : List Int) (d : Int) :
    compose code (digits ++ [d]) = compose code digits + d * 10 ^ (digits.length + 2) := by
  have hsingle : compose 0 [d] = d * 10 ^ 2 := by
    simp only [compose, ofDigits]
    omega
  rw [compose_append, hsingle, pow_add, Int.mul_left_comm]

/-- Every digit counts with the power of ten of its operand. -/
theorem compose_eq_sum (code : Int) (digits : List Int) :
    compose code digits = code + (digits.mapIdx fun k d => d * 10 ^ (k + 2)).sum := by
  induction digits using List.reverseRecOn with
  | nil => simp [compose, ofDigits]
  | append_singleton digits d ih =>
    rw [compose_concat, ih, List.mapIdx_concat, List.sum_append, List.sum_singleton,
      Int.add_assoc]

/-! ## Composing and splitting -/

/-- What a word is split into is a pair of decimal places and single places, also where the word is
negative. -/
theorem split_bounds (word : Int) :
    (0 ≤ (split word).1 ∧ (split word).1 < 100) ∧
      ∀ d ∈ (split word).2, 0 ≤ d ∧ d ≤ 9 := by
  have hplace : ∀ n : Int, 0 ≤ n % 10 ∧ n % 10 ≤ 9 := by omega
  refine ⟨by rw [split]; omega, ?_⟩
  simp only [split, List.forall_mem_cons]
  exact ⟨hplace _, hplace _, hplace _, List.forall_mem_nil _⟩

/-- The five places that are read make up the residue of the word. -/
theorem compose_split (word : Int) :
    compose (split word).1 (split word).2 = word % 100000 := by
  simp only [split, compose, ofDigits]
  omega

/-- The number and the first three digits are read back, zeros where there are fewer. -/
theorem split_compose {code : Int} (hcode : 0 ≤ code ∧ code < 100) {digits : List Int}
    (h : ∀ d ∈ digits, 0 ≤ d ∧ d ≤ 9) :
    split (compose code digits) = (code, (digits ++ [0, 0, 0]).take 3) := by
  have hlow : compose code digits % 100 = code := by
    rw [compose]
    omega
  have hhigh : compose code digits / 100 = ofDigits digits := by
    rw [compose]
    omega
  have hsecond : compose code digits / 1000 = ofDigits digits / 10 ^ 1 := by omega
  have hthird : compose code digits / 10000 = ofDigits digits / 10 ^ 2 := by omega
  have hfirst : ofDigits digits % 10 = digits.getD 0 0 := by
    simpa using ofDigits_div_pow_emod h 0
  rw [split, hlow, hhigh, hsecond, hthird, hfirst, ofDigits_div_pow_emod h,
    ofDigits_div_pow_emod h]
  rcases digits with _ | ⟨a, _ | ⟨b, _ | ⟨c, rest⟩⟩⟩ <;> rfl

/-- Splitting undoes composing as far as three digits, and composing undoes splitting as far as five
places. -/
theorem split_and_compose_inverse :
    (∀ word : Int,
      (0 ≤ (split word).1 ∧ (split word).1 < 100) ∧ (∀ d ∈ (split word).2, 0 ≤ d ∧ d ≤ 9) ∧
        compose (split word).1 (split word).2 = word % 100000) ∧
    (∀ (code : Int) (modes : List Int), 0 ≤ code ∧ code < 100 → (∀ d ∈ modes, 0 ≤ d ∧ d ≤ 9) →
      split (compose code modes) = (code, (modes ++ [0, 0, 0]).take 3)) ∧
    (∀ (code : Int) (first second : List Int),
      compose code (first ++ second) =
        compose code first + 10 ^ first.length * compose 0 second) ∧
    ∀ (code : Int) (modes : List Int),
      compose code modes = code + (modes.mapIdx fun k d => d * 10 ^ (k + 2)).sum := by
  refine ⟨fun word => ?_, fun code modes hcode hmodes => ?_, compose_append, compose_eq_sum⟩
  · obtain ⟨hcode, hdigits⟩ := split_bounds word
    exact ⟨hcode, hdigits, compose_split word⟩
  · exact split_compose hcode hmodes

/-- A fourth digit is not read, and a word below zero is read from the floor. -/
theorem split_and_compose_inverse_fourth_digit :
    (0 ≤ (7 : Int) ∧ (7 : Int) < 100) ∧ (∀ d ∈ ([1, 0, 2, 9] : List Int), 0 ≤ d ∧ d ≤ 9) ∧
      split (compose 7 [1, 0, 2, 9]) = (7, [1, 0, 2]) ∧ split (-1) = (99, [9, 9, 9]) ∧
      compose (split (-1)).1 (split (-1)).2 = 99999 := by
  obtain ⟨hsplit, hcompose, -, -⟩ := split_and_compose_inverse
  have hdigits : ∀ d ∈ ([1, 0, 2, 9] : List Int), 0 ≤ d ∧ d ≤ 9 := by decide
  exact ⟨by decide, hdigits, hcompose 7 _ (by decide) hdigits, rfl, (hsplit (-1)).2.2⟩

end IntegerMachine.Word
