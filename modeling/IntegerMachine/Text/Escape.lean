/-!
# Terminal escapes

Text that is not shown on a terminal is printed without the control sequences that set colours
and move the cursor.  A control sequence is an escape character and an opening bracket, any
parameters, any intermediate characters, and a final character, each of a range of its own.
-/

set_option autoImplicit false

namespace IntegerMachine.Text

/-- Whether a character may be a parameter of a control sequence: digits and punctuation. -/
def isParameter (c : Char) : Bool :=
  '0' ≤ c && c ≤ '?'

/-- Whether a character may stand between the parameters and the final character of a control
sequence: the space and punctuation. -/
def isIntermediate (c : Char) : Bool :=
  ' ' ≤ c && c ≤ '/'

/-- Whether a character ends a control sequence: letters and punctuation. -/
def isFinal (c : Char) : Bool :=
  '@' ≤ c && c ≤ '~'

/-- What follows the control sequence whose escape character and bracket are taken off
already. -/
def afterEscape? (text : List Char) : Option (List Char) :=
  match (text.dropWhile isParameter).dropWhile isIntermediate with
  | c :: rest => if isFinal c then some rest else none
  | [] => none

/-- A control sequence takes its final character at least. -/
theorem length_lt_of_afterEscape? {text rest : List Char} (h : afterEscape? text = some rest) :
    rest.length < text.length := by
  unfold afterEscape? at h
  split at h
  · rename_i c tail heq
    split at h
    · obtain rfl := Option.some.inj h
      have hparameters := (List.dropWhile_sublist (l := text) isParameter).length_le
      have hrest :=
        (List.dropWhile_sublist (l := text.dropWhile isParameter) isIntermediate).length_le
      rw [heq, List.length_cons] at hrest
      omega
    · exact absurd h (by simp)
  · exact absurd h (by simp)

/-- The text without its control sequences. -/
def withoutEscapes (text : List Char) : List Char :=
  match text with
  | [] => []
  | '\x1b' :: '[' :: rest =>
    match h : afterEscape? rest with
    | some rest' =>
      have := length_lt_of_afterEscape? h
      withoutEscapes rest'
    | none => '\x1b' :: withoutEscapes ('[' :: rest)
  | c :: rest => c :: withoutEscapes rest
termination_by text.length

end IntegerMachine.Text
