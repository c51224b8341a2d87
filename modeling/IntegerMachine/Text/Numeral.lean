import IntegerMachine.Text.Blank
import IntegerMachine.Text.DecimalDigit

/-!
# Signed decimals

The numerals of programs: an optional sign and decimal digits.  `scanNumeral` takes the longest
numeral from the front of a text, `numeralValue` is its value.  `integerValue?` reads a whole
text more generously: spaces around, single underscores between digits, and the digits of every
script.

A numeral of more than `digitLimit` digits is not turned into a number.  The interpreter has the
same limit for the way back, where it cannot write such a number at all; that limit is left out
here, and a number of any size is written in printed lines, messages, listings and dumps.
-/

set_option autoImplicit false

namespace IntegerMachine.Text

/-- Splits an optional sign from the front of a text; the text is negative after a minus. -/
def splitSign : List Char → Bool × List Char
  | '-' :: rest => (true, rest)
  | '+' :: rest => (false, rest)
  | text => (false, text)

/-- The sign at the front of a text, or nothing. -/
def signMark : List Char → List Char
  | '-' :: _ => ['-']
  | '+' :: _ => ['+']
  | _ => []

/-- The number with the given magnitude and sign. -/
def signed (negative : Bool) (magnitude : Nat) : Int :=
  if negative then -(magnitude : Int) else magnitude

/-- The number that digits of base ten stand for, the highest first. -/
def digitsValue (digits : List Nat) : Nat :=
  digits.foldl (fun n d => 10 * n + d) 0

/-- The longest numeral at the front of a text, and what follows it. -/
def scanNumeral (text : List Char) : Option (List Char × List Char) :=
  let rest := (splitSign text).2
  let digits := rest.takeWhile Char.isDigit
  if digits.isEmpty then none
  else some (signMark text ++ digits, rest.dropWhile Char.isDigit)

/-- The most digits that a numeral may have to be turned into a number. -/
def digitLimit : Nat := 4300

/-- How many digits a numeral has. -/
def digitCount (numeral : List Char) : Nat :=
  (splitSign numeral).2.length

/-- The text of a refusal to turn a numeral of so many digits into a number. -/
def overlongMessage (digits : Nat) : String :=
  s!"Exceeds the limit ({digitLimit} digits) for integer string conversion: value has " ++
    s!"{digits} digits; use sys.set_int_max_str_digits() to increase the limit"

/-- The value of a numeral. -/
def numeralValue (numeral : List Char) : Int :=
  let (negative, digits) := splitSign numeral
  signed negative (digitsValue (digits.map fun c => c.toNat - '0'.toNat))

/-- What is left behind a sign, or none, is no longer than the text. -/
theorem length_splitSign_le (text : List Char) : (splitSign text).2.length ≤ text.length := by
  unfold splitSign
  split <;> simp

/-- A numeral is never empty. -/
theorem length_lt_of_scanNumeral {text numeral rest : List Char}
    (h : scanNumeral text = some (numeral, rest)) : rest.length < text.length := by
  unfold scanNumeral at h
  have hle := length_splitSign_le text
  generalize (splitSign text).2 = tail at h hle
  by_cases he : (tail.takeWhile Char.isDigit).isEmpty = true
  · simp [he] at h
  · simp only [he, Bool.false_eq_true, ↓reduceIte, Option.some.injEq, Prod.mk.injEq] at h
    have hsum : (tail.takeWhile Char.isDigit).length + (tail.dropWhile Char.isDigit).length =
        tail.length := by
      rw [← List.length_append, List.takeWhile_append_dropWhile]
    have hpos : 0 < (tail.takeWhile Char.isDigit).length := by
      rw [List.isEmpty_iff] at he
      exact List.length_pos_iff.mpr he
    rw [← h.2]
    omega

/-- Whether a space may stand around a number that is read generously: the spaces but the
information separators. -/
def isMargin (c : Char) : Bool :=
  isSpace c && !(0x1C ≤ c.toNat && c.toNat ≤ 0x1F)

/-- The digits of a text in which single underscores may stand between digits. -/
def groupedDigits? : List Char → Option (List Nat)
  | [] => none
  | [c] => (digitValue? c).map ([·])
  | c :: '_' :: rest => do return (← digitValue? c) :: (← groupedDigits? rest)
  | c :: rest => do return (← digitValue? c) :: (← groupedDigits? rest)

/-- The integer a whole text stands for, unless it has too many digits. -/
def integerValue? (text : List Char) : Option Int :=
  let text := ((text.dropWhile isMargin).reverse.dropWhile isMargin).reverse
  let (negative, digits) := splitSign text
  let digits := (groupedDigits? digits).filter fun ds => ds.length ≤ digitLimit
  digits.map fun ds => signed negative (digitsValue ds)

end IntegerMachine.Text
