/-!
# Binary floating point numbers

Numbers of 64 bits have 53 significant bits and a bounded exponent.  An exact number is rounded
to the nearest of them, and halfway between two to the one whose significand is even; past the
largest it becomes infinite.  All of this is exact arithmetic on rationals.
-/

set_option autoImplicit false

namespace IntegerMachine

/-- The exponent of the greatest power of a base that a positive rational reaches. -/
def logFloor (base : Nat) (x : Rat) : Int :=
  let digits := fun n => ((Nat.toDigits base n).length : Int)
  let estimate := digits x.num.natAbs - digits x.den
  if x < (base : Rat) ^ estimate then estimate - 1 else estimate

/-- A rational that is not negative, rounded to the nearest integer, a half to the even one. -/
def roundEven (x : Rat) : Nat :=
  let n := x.floor.toNat
  let rest := x - n
  if rest < 1 / 2 ∨ (rest = 1 / 2 ∧ n % 2 = 0) then n else n + 1

/-- A floating point number of 64 bits. -/
inductive Binary64 where
  /-- The number `significand * 2 ^ exponent`; zero has a sign, too. -/
  | finite (negative : Bool) (significand : Nat) (exponent : Int)
  | infinite (negative : Bool)
  | nan
  deriving DecidableEq, Repr

namespace Binary64

/-- The number of significant bits. -/
def precision : Nat := 53

/-- The exponent of the least significand. -/
def leastExponent : Int := -1074

/-- The exponent of the greatest numbers. -/
def greatestExponent : Int := 971

/-- Zero with a sign. -/
def zero (negative : Bool) : Binary64 :=
  finite negative 0 leastExponent

/-- The number nearest to a rational that is not negative, with a sign. -/
def nearest (negative : Bool) (x : Rat) : Binary64 :=
  if x = 0 then zero negative
  else
    let exponent := max (logFloor 2 x + 1 - precision) leastExponent
    let significand := roundEven (x / (2 : Rat) ^ exponent)
    let (significand, exponent) :=
      if significand = Nat.pow 2 precision then (Nat.pow 2 (precision - 1), exponent + 1)
      else (significand, exponent)
    if greatestExponent < exponent then infinite negative
    else finite negative significand exponent

/-- The number nearest to `digits * 10 ^ exponent`, with a sign.  What has more than 309 digits
before the point is infinite, and what has more than 323 zeros behind it is zero. -/
def ofDecimal (negative : Bool) (digits : Nat) (exponent : Int) : Binary64 :=
  let point := exponent + (Nat.toDigits 10 digits).length
  if digits = 0 ∨ point ≤ -324 then zero negative
  else if 309 < point then infinite negative
  else nearest negative (digits * (10 : Rat) ^ exponent)

/-- Whether a number is zero of either sign. -/
def isZero : Binary64 → Bool
  | finite _ significand _ => significand == 0
  | _ => false

/-- Whether a number lies below zero. -/
def isNegative : Binary64 → Bool
  | finite negative significand _ => negative && significand != 0
  | infinite negative => negative
  | nan => false

end Binary64

end IntegerMachine
