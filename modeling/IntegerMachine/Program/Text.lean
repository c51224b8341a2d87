import IntegerMachine.Log
import IntegerMachine.Text.Lines
import IntegerMachine.Text.Numeral
import IntegerMachine.Text.Quoted

/-!
# Program text

A program is written as signed decimals between commas.  `parse` reads such a text, with spaces
around it and blanks around every number, and says where the first fault is; `dump` writes it.
A number has no bounds of its own: a text may hold no numeral of more than `digitLimit` digits,
but `dump` writes numbers of any size.
-/

set_option autoImplicit false

namespace IntegerMachine.Program

open Text

/-- A text that is no program: the column of the first fault, counted from one, and the line it
is in. -/
structure Malformed where
  column : Nat
  line : List Char
  deriving DecidableEq, Repr

/-- The text that tells of a fault. -/
def Malformed.message (fault : Malformed) : String :=
  s!"Malformed program at column {fault.column}: {quoted fault.line}"

/-- The fault at the beginning of `rest` in a text whose part before it is `before`. -/
def Malformed.at (before rest : List Char) : Malformed :=
  let begun := (before.reverse.takeWhile (· != '\n')).reverse
  ⟨begun.length + 1, begun ++ rest.takeWhile (· != '\n')⟩

/-- Why a text is not loaded. -/
inductive Refusal where
  | malformed (fault : Malformed)
  /-- A numeral has so many digits that it is not turned into a number. -/
  | overlong (digits : Nat)
  deriving DecidableEq, Repr

/-- The text of a refusal. -/
def Refusal.message : Refusal → String
  | malformed fault => fault.message
  | overlong digits => overlongMessage digits

/-- The numeral after the comma at the front of a text, and what follows it. -/
def nextNumeral? (text : List Char) : Option (List Char × List Char) :=
  match skipBlanks text with
  | ',' :: rest => scanNumeral (skipBlanks rest)
  | _ => none

/-- A further numeral of a list takes characters from the text. -/
theorem length_lt_of_nextNumeral? {text numeral rest : List Char}
    (h : nextNumeral? text = some (numeral, rest)) : rest.length < text.length := by
  unfold nextNumeral? at h
  split at h
  · rename_i tail heq
    have h₁ := length_lt_of_scanNumeral h
    have h₂ := length_skipBlanks_le tail
    have h₃ := length_skipBlanks_le text
    rw [heq, List.length_cons] at h₃
    omega
  · exact absurd h (by simp)

/-- Scans the numerals that follow a numeral, each after a comma, behind those met already.  A
comma that no numeral follows is left over. -/
def scanMore (text : List Char) (numerals : Array (List Char)) : Array (List Char) × List Char :=
  match h : nextNumeral? text with
  | some (numeral, rest) =>
    have := length_lt_of_nextNumeral? h
    scanMore rest (numerals.push numeral)
  | none => (numerals, text)
termination_by text.length

/-- The longest list of numerals at the front of a text, and what follows it. -/
def scan (text : List Char) : Array (List Char) × List Char :=
  match scanNumeral (skipBlanks text) with
  | some (numeral, rest) => scanMore rest #[numeral]
  | none => (#[], text)

/-- The value of a numeral, unless it has too many digits. -/
def readNumeral (numeral : List Char) : Except Refusal Int :=
  if digitCount numeral ≤ digitLimit then .ok (numeralValue numeral)
  else .error (.overlong (digitCount numeral))

/-- The words of a text that is stripped of spaces and free of tabs.  A numeral is read as soon as
it is met, so one that has too many digits is refused whatever follows it. -/
def parsePlain (text : List Char) : Except Refusal (List Int) := do
  let (numerals, rest) := scan text
  let words ← numerals.toList.mapM readNumeral
  match skipBlanks rest with
  | [] => return words
  | left => throw (.malformed (.at (text.take (text.length - left.length)) left))

/-- The words of a program text. -/
def parse (text : String) : Except Refusal (List Int) :=
  parsePlain (expandTabs (strip text.toList))

/-- The words of a program text with zeros after them, none if `padding` is negative. -/
def load (text : String) (padding : Int) : Logged (Except Refusal (List Int)) :=
  match parse text with
  | .error refusal => ⟨.error refusal, #[]⟩
  | .ok words =>
    ⟨.ok (words ++ List.replicate padding.toNat 0),
      #[.debug s!"Loaded {words.length} words, padding {padding}"]⟩

/-- The line logged before a program file is read. -/
def loadingLine (path : String) : Line :=
  .debug s!"Loading program {path}"

/-- The words of a program file. -/
def loadFile (path contents : String) (padding : Int) : Logged (Except Refusal (List Int)) :=
  (load (String.ofList (unifyNewlines contents.toList)) padding).withLog #[loadingLine path]

/-- The text of a program. -/
def dump (words : List Int) : String :=
  String.intercalate "," (words.map toString)

end IntegerMachine.Program
