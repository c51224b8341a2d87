import IntegerMachine.Binary64.Basic

/-!
# The text of floating point numbers

A number is written with the fewest decimal digits that read back as that number, and of the
decimals with so many digits the nearest to it.  The digits stand around a point unless the
number has more than sixteen of them before it or more than three zeros behind it; then a power
of ten follows the first digits.
-/

set_option autoImplicit false

namespace IntegerMachine.Binary64

/-- The number `digits * 10 ^ exponent`. -/
structure Decimal where
  digits : Nat
  exponent : Int
  deriving DecidableEq, Repr

namespace Decimal

/-- The value of a decimal. -/
def value (decimal : Decimal) : Rat :=
  decimal.digits * (10 : Rat) ^ decimal.exponent

/-- Whether a decimal is rounded to the same number as a rational. -/
def readsBack (x : Rat) (decimal : Decimal) : Bool :=
  nearest false decimal.value == nearest false x

/-- The decimals with a number of digits on both sides of a positive rational, the nearer one
first. -/
def around (x : Rat) (count : Nat) : List Decimal :=
  let exponent := logFloor 10 x + 1 - count
  let scaled := x / (10 : Rat) ^ exponent
  let below := scaled.floor.toNat
  if roundEven scaled = below then [⟨below, exponent⟩, ⟨below + 1, exponent⟩]
  else [⟨below + 1, exponent⟩, ⟨below, exponent⟩]

/-- The decimal that equals a positive rational whose denominator is a power of two. -/
def exact (x : Rat) : Decimal :=
  ⟨x.num.natAbs * Nat.pow 5 x.den.log2, -(x.den.log2 : Int)⟩

/-- The decimal with the fewest digits that reads back as a positive number.  Beyond seventeen
digits, which suffice for every number, the number itself is taken. -/
def shortest (x : Rat) : Decimal :=
  let candidates := (List.range 17).flatMap fun n => around x (n + 1)
  (candidates.find? (readsBack x)).getD (exact x)

/-- The power of ten behind digits: a sign and at least two digits. -/
def powerText (exponent : Int) : List Char :=
  let digits := Nat.toDigits 10 exponent.natAbs
  let sign := if exponent < 0 then '-' else '+'
  'e' :: sign :: (List.replicate (2 - digits.length) '0' ++ digits)

/-- The first digit before a point and the others after it, and no point if there are none. -/
def pointAfterFirst : List Char → List Char
  | first :: second :: rest => first :: '.' :: second :: rest
  | digits => digits

/-- Digits around a point that stands after so many of them, with zeros where digits are
missing. -/
def pointAfter (point : Int) (digits : List Char) : List Char :=
  if point ≤ 0 then '0' :: '.' :: (List.replicate point.natAbs '0' ++ digits)
  else
    let count := point.toNat
    let whole := digits.take count ++ List.replicate (count - digits.length) '0'
    let fraction := digits.drop count
    whole ++ '.' :: (if fraction.isEmpty then ['0'] else fraction)

/-- The text of a positive decimal. -/
def text (decimal : Decimal) : List Char :=
  let written := Nat.toDigits 10 decimal.digits
  let point := decimal.exponent + written.length
  let digits := (written.reverse.dropWhile (· == '0')).reverse
  if -4 < point ∧ point ≤ 16 then pointAfter point digits
  else pointAfterFirst digits ++ powerText (point - 1)

end Decimal

/-- A minus before a text, if asked for. -/
def withSign (negative : Bool) (text : List Char) : List Char :=
  if negative then '-' :: text else text

/-- The text of a number. -/
def text : Binary64 → String
  | finite negative significand exponent =>
    let digits :=
      if significand = 0 then ['0', '.', '0']
      else (Decimal.shortest (significand * (2 : Rat) ^ exponent)).text
    String.ofList (withSign negative digits)
  | infinite negative => String.ofList (withSign negative ['i', 'n', 'f'])
  | nan => "nan"

end IntegerMachine.Binary64
