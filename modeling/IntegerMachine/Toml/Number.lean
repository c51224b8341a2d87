import IntegerMachine.Text.Numeral
import IntegerMachine.Toml.Scan

/-!
# Numbers and dates of TOML

Integers in four bases, other numbers, days, times of the day and moments.  That the interpreter
does not read a decimal integer of more digits than `Text.digitLimit` is left out here.
-/

set_option autoImplicit false

namespace IntegerMachine.Toml

open Text

/-- Digits that may follow a digit, with single underscores between them. -/
def moreDigits (isOne : Char → Bool) : List Char → List Char × List Char
  | [] => ([], [])
  | [c] => if isOne c then ([c], []) else ([], [c])
  | '_' :: c :: rest =>
    if isOne c then
      let (digits, rest) := moreDigits isOne rest
      (c :: digits, rest)
    else ([], '_' :: c :: rest)
  | c :: rest =>
    if isOne c then
      let (digits, rest) := moreDigits isOne rest
      (c :: digits, rest)
    else ([], c :: rest)

/-- Digits with single underscores between them. -/
def scanDigits? (isOne : Char → Bool) : List Char → Option (List Char × List Char)
  | c :: rest =>
    if isOne c then
      let (digits, rest) := moreDigits isOne rest
      some (c :: digits, rest)
    else none
  | [] => none

/-- The number that digits of a base stand for. -/
def digitsIn (base : Nat) (digits : List Char) : Nat :=
  digits.foldl (fun n c => base * n + (hexValue? c).getD 0) 0

/-- An integer in a base other than ten. -/
def scanBased? : List Char → Option (Nat × List Char)
  | '0' :: 'x' :: rest => based 16 (fun c => (hexValue? c).isSome) rest
  | '0' :: 'b' :: rest => based 2 (fun c => c == '0' || c == '1') rest
  | '0' :: 'o' :: rest => based 8 (fun c => '0' ≤ c && c ≤ '7') rest
  | _ => none
where
  /-- The digits of the integer. -/
  based (base : Nat) (isOne : Char → Bool) (text : List Char) : Option (Nat × List Char) :=
    (scanDigits? isOne text).map fun (digits, rest) => (digitsIn base digits, rest)

/-- The digits after a point at the front of a text. -/
def scanFraction? : List Char → Option (List Char × List Char)
  | '.' :: rest => scanDigits? Char.isDigit rest
  | _ => none

/-- The power of ten at the front of a text: its exponent after a letter. -/
def scanPower? : List Char → Option (Int × List Char)
  | c :: rest =>
    if c = 'e' ∨ c = 'E' then
      let (negative, rest) := splitSign rest
      (scanDigits? Char.isDigit rest).map fun (digits, rest) =>
        (signed negative (digitsIn 10 digits), rest)
    else none
  | [] => none

/-- The whole part of a number, which has no zero in front of other digits. -/
def scanWhole? : List Char → Option (List Char × List Char)
  | '0' :: rest => some (['0'], rest)
  | text => scanDigits? Char.isDigit text

/-- A number of base ten; with a fraction or a power of ten it is no integer. -/
def scanTens? (text : List Char) : Option (Value × List Char) :=
  let (negative, rest) := splitSign text
  (scanWhole? rest).map fun (whole, rest) =>
    let fraction? := scanFraction? rest
    let (fraction, rest) := fraction?.getD ([], rest)
    let power? := scanPower? rest
    let (power, rest) := power?.getD (0, rest)
    if fraction?.isNone && power?.isNone then
      (.integer (signed negative (digitsIn 10 whole)), rest)
    else
      (.float (.ofDecimal negative (digitsIn 10 (whole ++ fraction)) (power - fraction.length)),
        rest)

/-- A number written as a word. -/
def scanWordNumber? (text : List Char) : Option (Value × List Char) :=
  let (negative, rest) := splitSign text
  match rest with
  | 'i' :: 'n' :: 'f' :: rest => some (.float (.infinite negative), rest)
  | 'n' :: 'a' :: 'n' :: rest => some (.float .nan, rest)
  | _ => none

/-- A number. -/
def scanNumber? (text : List Char) : Option (Value × List Char) :=
  (((scanBased? text).map fun (n, rest) => (Value.integer n, rest)).or (scanTens? text)).or
    (scanWordNumber? text)

/-- A number of just so many digits that lies in a range. -/
def scanFixed? (count low high : Nat) (text : List Char) : Option (Nat × List Char) :=
  let digits := text.take count
  if digits.length = count ∧ digits.all Char.isDigit then
    let n := digitsIn 10 digits
    if low ≤ n ∧ n ≤ high then some (n, text.drop count) else none
  else none

/-- The day at the front of a text, also one the calendar does not have. -/
def scanDate? (text : List Char) : Option (Date × List Char) := do
  let (year, rest) ← scanFixed? 4 0 9999 text
  let rest ← after? ['-'] rest
  let (month, rest) ← scanFixed? 2 1 12 rest
  let rest ← after? ['-'] rest
  let (day, rest) ← scanFixed? 2 1 31 rest
  return (⟨year, month, day⟩, rest)

/-- The fraction of a second in microseconds, of which further digits do not count. -/
def scanMicroseconds (text : List Char) : Nat × List Char :=
  match text with
  | '.' :: rest =>
    match rest.takeWhile Char.isDigit with
    | [] => (0, text)
    | digits =>
      let six := (digits ++ List.replicate 6 '0').take 6
      (digitsIn 10 six, rest.dropWhile Char.isDigit)
  | _ => (0, text)

/-- The time of the day at the front of a text. -/
def scanClock? (text : List Char) : Option (Clock × List Char) := do
  let (hour, rest) ← scanFixed? 2 0 23 text
  let rest ← after? [':'] rest
  let (minute, rest) ← scanFixed? 2 0 59 rest
  let rest ← after? [':'] rest
  let (second, rest) ← scanFixed? 2 0 59 rest
  let (microsecond, rest) := scanMicroseconds rest
  return (⟨hour, minute, second, microsecond⟩, rest)

/-- The offset from universal time at the front of a text, in minutes. -/
def scanOffset? (text : List Char) : Option (Int × List Char) :=
  match text with
  | 'Z' :: rest => some (0, rest)
  | 'z' :: rest => some (0, rest)
  | c :: rest => do
    let direction ← if c = '+' then some 1 else if c = '-' then some (-1) else none
    let (hours, rest) ← scanFixed? 2 0 23 rest
    let rest ← after? [':'] rest
    let (minutes, rest) ← scanFixed? 2 0 59 rest
    return (direction * (60 * hours + minutes : Nat), rest)
  | [] => none

/-- The time after a day, with its offset if one follows. -/
def scanClockAfter? (text : List Char) : Option ((Clock × Option Int) × List Char) :=
  match text with
  | c :: rest =>
    if c = 'T' ∨ c = 't' ∨ c = ' ' then
      (scanClock? rest).map fun (clock, rest) =>
        match scanOffset? rest with
        | some (offset, rest) => ((clock, some offset), rest)
        | none => ((clock, none), rest)
    else none
  | [] => none

/-- A day, a moment or a time of the day. -/
def scanTime? (text : List Char) : Option (Scan (Value × List Char)) :=
  match scanDate? text with
  | some (date, rest) =>
    let (value, rest) := match scanClockAfter? rest with
      | some ((clock, offset), rest) => (Value.moment date clock offset, rest)
      | none => (Value.date date, rest)
    some (if date.isValid then .ok (value, rest) else fail .invalidDate text)
  | none => (scanClock? text).map fun (clock, rest) => .ok (.time clock, rest)

end IntegerMachine.Toml
