import IntegerMachine.Text.Literal
import IntegerMachine.Toml.Value

/-!
# Strings, keys and comments of TOML

Scanners for the parts of a document that hold no other values.  A scanner gives what follows
its part; a problem is placed by what is left of the text where it shows.
-/

set_option autoImplicit false

namespace IntegerMachine.Toml

open Text

/-- Why a text is no TOML document. -/
inductive Cause where
  | invalidStatement
  | trailingText
  | invalidKey
  | missingEquals
  | invalidValue
  | invalidDate
  | unclosedArray
  | unclosedInlineTable
  | unclosedHeader
  | unclosedItemHeader
  | duplicateKey (key : String)
  | declaredTwice (path : Path)
  | closedPath (path : Path)
  | openedPath (path : Path)
  | overwritten
  | unterminatedString
  | missingClosing (closing : List Char)
  | illegalCharacter (c : Char)
  | invalidCharacter (c : Char)
  | strayBackslash
  | invalidHex
  | noCharacter
  deriving DecidableEq, Repr

/-- The keys of a path between parentheses; a comma stands after a single one. -/
def pathText : Path → String
  | [key] => s!"({quoted key.toList},)"
  | path => "(" ++ String.intercalate ", " (path.map fun key => quoted key.toList) ++ ")"

/-- The text of a cause. -/
def Cause.text : Cause → String
  | invalidStatement => "Invalid statement"
  | trailingText => "Expected newline or end of document after a statement"
  | invalidKey => "Invalid initial character for a key part"
  | missingEquals => "Expected '=' after a key in a key/value pair"
  | invalidValue => "Invalid value"
  | invalidDate => "Invalid date or datetime"
  | unclosedArray => "Unclosed array"
  | unclosedInlineTable => "Unclosed inline table"
  | unclosedHeader => "Expected ']' at the end of a table declaration"
  | unclosedItemHeader => "Expected ']]' at the end of an array declaration"
  | duplicateKey key => s!"Duplicate inline table key {quoted key.toList}"
  | declaredTwice path => s!"Cannot declare {pathText path} twice"
  | closedPath path => s!"Cannot mutate immutable namespace {pathText path}"
  | openedPath path => s!"Cannot redefine namespace {pathText path}"
  | overwritten => "Cannot overwrite a value"
  | unterminatedString => "Unterminated string"
  | missingClosing closing => s!"Expected {quoted closing}"
  | illegalCharacter c => s!"Illegal character {quoted [c]}"
  | invalidCharacter c => s!"Found invalid character {quoted [c]}"
  | strayBackslash => "Unescaped '\\' in a string"
  | invalidHex => "Invalid hex value"
  | noCharacter => "Escaped character is not a Unicode scalar value"

/-- A problem and the number of characters from where it shows to the end. -/
structure Problem where
  cause : Cause
  left : Nat
  deriving DecidableEq, Repr

/-- What a scanner gives: mostly its part and what follows it. -/
abbrev Scan (α : Type) := Except Problem α

/-- The problem that shows at the front of a text. -/
def fail {α : Type} (cause : Cause) (text : List Char) : Scan α :=
  .error ⟨cause, text.length⟩

/-- Whether a character may not stand on a line of a document. -/
def isControl (c : Char) : Bool :=
  (c.toNat < 0x20 || c.toNat == 0x7F) && c != '\t'

/-- Whether a character may not stand in a string of several lines. -/
def isControlInLines (c : Char) : Bool :=
  isControl c && c != '\n'

/-- Whether a character separates parts on a line. -/
def isGap (c : Char) : Bool :=
  c == ' ' || c == '\t'

/-- Whether a character separates parts where lines do not count. -/
def isGapOrNewline (c : Char) : Bool :=
  isGap c || c == '\n'

/-- The text from the next part on its line. -/
def skipGap (text : List Char) : List Char :=
  text.dropWhile isGap

/-- The text after a comment if it begins with one. -/
def skipComment (text : List Char) : Scan (List Char) :=
  match text with
  | '#' :: rest =>
    let body := rest.takeWhile (· != '\n')
    match body.find? isControl with
    | some c => fail (.invalidCharacter c) (rest.dropWhile fun c => !isControl c)
    | none => .ok (rest.dropWhile (· != '\n'))
  | _ => .ok text

/-- The text that ends before `closing`, with no characters that may not stand in it. -/
def scanLiteral (closing : List Char) (isBad : Char → Bool) (text : List Char) :
    Scan (List Char × List Char) :=
  match splitAt? closing text with
  | none => fail (.missingClosing closing) []
  | some (body, rest) =>
    match body.find? isBad with
    | some c => fail (.invalidCharacter c) (text.dropWhile fun c => !isBad c)
    | none => .ok (body, rest)

/-- The value of a hexadecimal digit. -/
def hexValue? (c : Char) : Option Nat :=
  if c.isDigit then some (c.toNat - '0'.toNat)
  else if 'a' ≤ c ∧ c ≤ 'f' then some (c.toNat - 'a'.toNat + 10)
  else if 'A' ≤ c ∧ c ≤ 'F' then some (c.toNat - 'A'.toNat + 10)
  else none

/-- The number that hexadecimal digits stand for. -/
def hexNumber? (digits : List Char) : Option Nat :=
  (digits.mapM hexValue?).map fun values => values.foldl (fun n d => 16 * n + d) 0

/-- The character whose code point is written in a number of hexadecimal digits. -/
def scanCodePoint (count : Nat) (text : List Char) : Scan (List Char × List Char) :=
  let digits := text.take count
  match hexNumber? digits with
  | none => fail .invalidHex text
  | some n =>
    if digits.length ≠ count then fail .invalidHex text
    else if n.isValidChar then .ok ([Char.ofNat n], text.drop count)
    else fail .noCharacter (text.drop count)

/-- The character an escape of one letter stands for. -/
def escaped? : Char → Option Char
  | 'b' => some '\x08'
  | 't' => some '\t'
  | 'n' => some '\n'
  | 'f' => some '\x0c'
  | 'r' => some '\r'
  | '"' => some '"'
  | '\\' => some '\\'
  | _ => none

/-- The characters an escape stands for, its backslash taken off already.  In a string of
several lines a backslash before a line end takes the gap after it away. -/
def scanEscape (inLines : Bool) (text : List Char) : Scan (List Char × List Char) :=
  match text with
  | 'u' :: rest => scanCodePoint 4 rest
  | 'U' :: rest => scanCodePoint 8 rest
  | c :: rest =>
    if inLines ∧ c = '\n' then .ok ([], rest.dropWhile isGapOrNewline)
    else if inLines ∧ isGap c then
      match skipGap rest with
      | [] => .ok ([], [])
      | '\n' :: rest => .ok ([], rest.dropWhile isGapOrNewline)
      | rest => fail .strayBackslash rest
    else
      match escaped? c with
      | some e => .ok ([e], rest)
      | none => fail .strayBackslash rest
  | [] => fail .strayBackslash []

/-- The rest of a string with escapes, its opening quotes taken off already. -/
def scanQuoted (inLines : Bool) : Nat → List Char → Scan (List Char × List Char)
  | 0, text => fail .unterminatedString text
  | _ + 1, [] => fail .unterminatedString []
  | fuel + 1, '\\' :: rest => do
    let (cs, rest) ← scanEscape inLines rest
    let (more, rest) ← scanQuoted inLines fuel rest
    return (cs ++ more, rest)
  | fuel + 1, '"' :: rest =>
    if inLines then
      match after? ['"', '"'] rest with
      | some rest => .ok ([], rest)
      | none => do
        let (more, rest) ← scanQuoted inLines fuel rest
        return ('"' :: more, rest)
    else .ok ([], rest)
  | fuel + 1, c :: rest =>
    if (if inLines then isControlInLines c else isControl c) then
      fail (.illegalCharacter c) (c :: rest)
    else do
      let (more, rest) ← scanQuoted inLines fuel rest
      return (c :: more, rest)

/-- A string with up to two more quotes that stand at its end. -/
def withClosing (quote : Char) (body rest : List Char) : List Char × List Char :=
  let more := (rest.take 2).takeWhile (· == quote)
  (body ++ more, rest.drop more.length)

/-- A line feed at the front of a string of several lines does not count. -/
def skipNewline : List Char → List Char
  | '\n' :: rest => rest
  | text => text

/-- The string of one line at the front of a text. -/
def scanString? (text : List Char) : Option (Scan (List Char × List Char)) :=
  match text with
  | '"' :: rest => some (scanQuoted false (rest.length + 1) rest)
  | '\'' :: rest => some (scanLiteral ['\''] isControl rest)
  | _ => none

/-- The string of several lines at the front of a text. -/
def scanLines? (text : List Char) : Option (Scan (List Char × List Char)) :=
  match text with
  | '"' :: '"' :: '"' :: rest => some do
    let (body, rest) ← scanQuoted true (rest.length + 1) (skipNewline rest)
    return withClosing '"' body rest
  | '\'' :: '\'' :: '\'' :: rest => some do
    let (body, rest) ← scanLiteral ['\'', '\'', '\''] isControlInLines (skipNewline rest)
    return withClosing '\'' body rest
  | _ => none

/-- Whether a character may stand in a key without quotes. -/
def isBareKey (c : Char) : Bool :=
  c.isAlphanum || c == '-' || c == '_'

/-- One key, without its place in a path. -/
def scanKeyPart (text : List Char) : Scan (String × List Char) :=
  match scanString? text with
  | some scanned => scanned.map fun (key, rest) => (String.ofList key, rest)
  | none =>
    match text.takeWhile isBareKey with
    | [] => fail .invalidKey text
    | key => .ok (String.ofList key, text.dropWhile isBareKey)

/-- Keys with dots between them, and the gap after them. -/
def scanKey : Nat → List Char → Scan (Path × List Char)
  | 0, text => fail .invalidKey text
  | fuel + 1, text => do
    let (key, rest) ← scanKeyPart text
    match skipGap rest with
    | '.' :: rest => do
      let (path, rest) ← scanKey fuel (skipGap rest)
      return (key :: path, rest)
    | rest => return ([key], rest)

end IntegerMachine.Toml
