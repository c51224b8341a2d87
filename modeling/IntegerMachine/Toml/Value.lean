import IntegerMachine.Binary64.Text
import IntegerMachine.Text.Quoted

/-!
# TOML values

The values of a TOML document, and the text by which a message shows one.
-/

set_option autoImplicit false

namespace IntegerMachine.Toml

/-- A day of the calendar. -/
structure Date where
  year : Nat
  month : Nat
  day : Nat
  deriving DecidableEq, Repr

/-- A time of the day. -/
structure Clock where
  hour : Nat
  minute : Nat
  second : Nat
  microsecond : Nat
  deriving DecidableEq, Repr

/-- A TOML value. -/
inductive Value where
  | string (text : String)
  | integer (value : Int)
  | float (value : Binary64)
  | boolean (value : Bool)
  | date (date : Date)
  | time (clock : Clock)
  /-- A moment; the offset from universal time is counted in minutes. -/
  | moment (date : Date) (clock : Clock) (offset : Option Int)
  | array (items : List Value)
  | table (entries : List (String × Value))
  deriving Repr

/-- A table: its keys in the order they were met, each once. -/
abbrev Table := List (String × Value)

/-- The tables on the way to a table or value. -/
abbrev Path := List String

namespace Date

/-- Whether a year has a leap day. -/
def isLeap (year : Nat) : Bool :=
  year % 4 == 0 && (year % 100 != 0 || year % 400 == 0)

/-- The days of a month. -/
def daysOf (year month : Nat) : Nat :=
  if month = 2 then if isLeap year then 29 else 28
  else if month = 4 ∨ month = 6 ∨ month = 9 ∨ month = 11 then 30
  else 31

/-- Whether the calendar, which begins with the year one, has the day. -/
def isValid (date : Date) : Bool :=
  1 ≤ date.year && 1 ≤ date.month && date.month ≤ 12 && 1 ≤ date.day &&
    date.day ≤ daysOf date.year date.month

/-- The parts of a date. -/
def parts (date : Date) : List Nat :=
  [date.year, date.month, date.day]

end Date

/-- The parts of a time; seconds and their fractions are left out where they are zero. -/
def Clock.parts (clock : Clock) : List Nat :=
  if clock.microsecond ≠ 0 then [clock.hour, clock.minute, clock.second, clock.microsecond]
  else if clock.second ≠ 0 then [clock.hour, clock.minute, clock.second]
  else [clock.hour, clock.minute]

namespace Value

/-- The word for the kind of a value in messages. -/
def kind : Value → String
  | string _ => "str"
  | integer _ => "int"
  | float _ => "float"
  | boolean _ => "bool"
  | date _ => "datetime.date"
  | time _ => "datetime.time"
  | moment _ _ _ => "datetime.datetime"
  | array _ => "list"
  | table _ => "dict"

/-- Numbers between parentheses. -/
def partsText (parts : List Nat) : String :=
  String.intercalate ", " (parts.map toString)

/-- An offset from universal time. -/
def offsetText (minutes : Int) : String :=
  if minutes = 0 then "datetime.timezone.utc"
  else
    let seconds := 60 * minutes
    let length :=
      if seconds < 0 then s!"days=-1, seconds={seconds + 86400}" else s!"seconds={seconds}"
    s!"datetime.timezone(datetime.timedelta({length}))"

mutual

/-- The text of a value in messages. -/
def shown : Value → String
  | string text => Text.quoted text.toList
  | integer value => toString value
  | float value => value.text
  | boolean value => if value then "True" else "False"
  | date d => s!"datetime.date({partsText d.parts})"
  | time t => s!"datetime.time({partsText t.parts})"
  | moment d t offset =>
    let zone := match offset with
      | none => ""
      | some minutes => s!", tzinfo={offsetText minutes}"
    s!"datetime.datetime({partsText (d.parts ++ t.parts)}{zone})"
  | array items => "[" ++ String.intercalate ", " (shownItems items) ++ "]"
  | table entries => "\x7b" ++ String.intercalate ", " (shownEntries entries) ++ "\x7d"

/-- The texts of the members of an array. -/
def shownItems : List Value → List String
  | [] => []
  | item :: rest => shown item :: shownItems rest

/-- The texts of the entries of a table. -/
def shownEntries : List (String × Value) → List String
  | [] => []
  | (key, value) :: rest => s!"{Text.quoted key.toList}: {shown value}" :: shownEntries rest

end

/-- Whether a value counts as true where a choice is asked for: what is zero or empty does
not. -/
def isTrue : Value → Bool
  | string text => !text.isEmpty
  | integer value => value != 0
  | float value => !value.isZero
  | boolean value => value
  | date _ => true
  | time _ => true
  | moment _ _ _ => true
  | array items => !items.isEmpty
  | table entries => !entries.isEmpty

end Value

end IntegerMachine.Toml
