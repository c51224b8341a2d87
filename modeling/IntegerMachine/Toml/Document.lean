import IntegerMachine.Toml.Number
import IntegerMachine.Toml.Table

/-!
# TOML documents

A document is a sequence of lines: a header opens a table or a further item of an array of
tables, and keys with values fill the table opened last.  A table is opened by a header at most
once, and tables and arrays written as values are closed to later lines.
-/

set_option autoImplicit false

namespace IntegerMachine.Toml

open Text

/-- The text from the next part, past gaps, lines and comments. -/
def skipLines : Nat → List Char → Scan (List Char)
  | 0, text => .ok text
  | fuel + 1, text => do
    let rest := text.dropWhile isGapOrNewline
    match rest with
    | '#' :: _ => skipLines fuel (← skipComment rest)
    | _ => return rest

/-- The word of a truth value at the front of a text. -/
def scanTruth? (text : List Char) : Option (Value × List Char) :=
  match after? ['t', 'r', 'u', 'e'] text with
  | some rest => some (.boolean true, rest)
  | none =>
    (after? ['f', 'a', 'l', 's', 'e'] text).map fun rest => (.boolean false, rest)

/-- A value that holds no other values. -/
def scanScalar (text : List Char) : Scan (Value × List Char) :=
  match (scanLines? text).or (scanString? text) with
  | some scanned => scanned.map fun (body, rest) => (.string (String.ofList body), rest)
  | none =>
    match scanTruth? text with
    | some found => .ok found
    | none =>
      match scanTime? text with
      | some scanned => scanned
      | none =>
        match scanNumber? text with
        | some found => .ok found
        | none => fail .invalidValue text

/-- Whether a value is closed to later lines. -/
def Value.isClosed : Value → Bool
  | .array _ => true
  | .table _ => true
  | _ => false

/-- Adds a key with a value to an inline table; the paths closed so far are given. -/
def addInline (table : Table) (closed : List Path) (path : Path) (value : Value) :
    Except Cause Table :=
  if closed.any fun p => p.isPrefixOf path then .error (.closedPath path)
  else
    match path.getLast? with
    | none => .error .overwritten
    | some key => table.change false (Table.add (.duplicateKey key) key value) path.dropLast

/-- Places a cause at the front of a text. -/
def place {α : Type} (text : List Char) : Except Cause α → Scan α
  | .ok a => .ok a
  | .error cause => fail cause text

mutual

/-- A value. -/
def scanValue : Nat → List Char → Scan (Value × List Char)
  | 0, text => fail .invalidValue text
  | fuel + 1, text =>
    match text with
    | '[' :: rest => do
      match ← skipLines rest.length rest with
      | ']' :: rest => return (.array [], rest)
      | rest => scanItems fuel rest []
    | '\x7b' :: rest =>
      match skipGap rest with
      | '\x7d' :: rest => return (.table [], rest)
      | rest => scanEntries fuel rest [] []
    | _ => scanScalar text

/-- The items of an array from the next one on, after those found already. -/
def scanItems : Nat → List Char → List Value → Scan (Value × List Char)
  | 0, text, _ => fail .unclosedArray text
  | fuel + 1, text, items => do
    let (value, rest) ← scanValue fuel text
    let items := items ++ [value]
    match ← skipLines rest.length rest with
    | ']' :: rest => return (.array items, rest)
    | ',' :: rest =>
      match ← skipLines rest.length rest with
      | ']' :: rest => return (.array items, rest)
      | rest => scanItems fuel rest items
    | rest => fail .unclosedArray rest

/-- A key with its value. -/
def scanPair : Nat → List Char → Scan ((Path × Value) × List Char)
  | 0, text => fail .missingEquals text
  | fuel + 1, text => do
    let (path, rest) ← scanKey (text.length + 1) text
    match rest with
    | '=' :: rest => do
      let (value, rest) ← scanValue fuel (skipGap rest)
      return ((path, value), rest)
    | rest => fail .missingEquals rest

/-- The entries of an inline table from the next one on, after those found already. -/
def scanEntries : Nat → List Char → Table → List Path → Scan (Value × List Char)
  | 0, text, _, _ => fail .unclosedInlineTable text
  | fuel + 1, text, table, closed => do
    let ((path, value), rest) ← scanPair fuel text
    let table ← place rest (addInline table closed path value)
    match skipGap rest with
    | '\x7d' :: rest => return (.table table, rest)
    | ',' :: rest =>
      let closed := if value.isClosed then path :: closed else closed
      scanEntries fuel (skipGap rest) table closed
    | rest => fail .unclosedInlineTable rest

end

/-- A document under reading. -/
structure Document where
  root : Table
  /-- The tables opened by a header or closed to headers by now. -/
  opened : List Path
  /-- The tables that keys with dots went through since the last header. -/
  passed : List Path
  /-- The tables and arrays written as values. -/
  closed : List Path
  /-- The table that is filled. -/
  header : Path
  deriving Repr

namespace Document

/-- The document before its first line. -/
def empty : Document where
  root := []
  opened := []
  passed := []
  closed := []
  header := []

/-- Whether a path lies at or below a table or array written as a value. -/
def isClosed (doc : Document) (path : Path) : Bool :=
  doc.closed.any fun p => p.isPrefixOf path

/-- Opens a table. -/
def openTable (doc : Document) (path : Path) : Except Cause Document := do
  if path ∈ doc.opened ∨ doc.isClosed path then throw (.declaredTwice path)
  let root ← doc.root.change true .ok path
  return { doc with root, opened := path :: doc.opened, header := path }

/-- Opens a further item of an array of tables. -/
def openItem (doc : Document) (path : Path) : Except Cause Document := do
  if doc.isClosed path then throw (.closedPath path)
  let kept := fun paths : List Path => paths.filter fun p => !path.isPrefixOf p
  let key := path.getLastD ""
  let root ← doc.root.change true (Table.addItem key) path.dropLast
  return { doc with
    root
    opened := path :: kept doc.opened
    closed := kept doc.closed
    header := path }

/-- The paths from a header on that a path with dots goes through. -/
def pathsThrough (header : Path) : Path → List Path
  | [] => []
  | [_] => []
  | key :: rest => (header ++ [key]) :: pathsThrough (header ++ [key]) rest

/-- Gives a key of the table that is filled a value. -/
def addValue (doc : Document) (path : Path) (value : Value) : Except Cause Document := do
  let through := pathsThrough doc.header path
  if let some opened := through.find? (· ∈ doc.opened) then throw (.openedPath opened)
  let parent := doc.header ++ path.dropLast
  if doc.isClosed parent then throw (.closedPath parent)
  let key := path.getLastD ""
  let root ← doc.root.change true (Table.add .overwritten key value) parent
  let full := doc.header ++ path
  return { doc with
    root
    passed := doc.passed ++ through
    closed := if value.isClosed then full :: doc.closed else doc.closed }

/-- Reads a header, its first bracket taken off already. -/
def scanHeader (doc : Document) (text : List Char) : Scan (Document × List Char) := do
  let doc := { doc with opened := doc.passed ++ doc.opened, passed := [] }
  match text with
  | '[' :: rest =>
    let (path, rest) ← scanKey (rest.length + 1) (skipGap rest)
    let doc ← place rest (doc.openItem path)
    match after? [']', ']'] rest with
    | some rest => return (doc, rest)
    | none => fail .unclosedItemHeader rest
  | _ =>
    let (path, rest) ← scanKey (text.length + 1) (skipGap text)
    let doc ← place rest (doc.openTable path)
    match after? [']'] rest with
    | some rest => return (doc, rest)
    | none => fail .unclosedHeader rest

/-- Reads what stands on a line before a comment, which begins with the given character. -/
def scanStatement (doc : Document) (c : Char) (rest : List Char) :
    Scan (Document × List Char) := do
  let text := c :: rest
  if isBareKey c ∨ c = '"' ∨ c = '\'' then
    let ((path, value), rest) ← scanPair (2 * text.length + 2) text
    let doc ← place rest (doc.addValue path value)
    return (doc, skipGap rest)
  else if c = '[' then
    let (doc, rest) ← doc.scanHeader rest
    return (doc, skipGap rest)
  else if c = '#' then return (doc, text)
  else fail .invalidStatement text

/-- Reads the lines of a document. -/
def scanAll : Nat → Document → List Char → Scan Document
  | 0, doc, _ => .ok doc
  | fuel + 1, doc, text =>
    match skipGap text with
    | [] => .ok doc
    | '\n' :: rest => scanAll fuel doc rest
    | c :: rest => do
      let (doc, rest) ← doc.scanStatement c rest
      match ← skipComment rest with
      | [] => return doc
      | '\n' :: rest => scanAll fuel doc rest
      | rest => fail .trailingText rest

end Document

/-- A problem in a text: its cause, and its line and column unless it shows at the end. -/
structure Malformed where
  cause : Cause
  place : Option (Nat × Nat)
  deriving DecidableEq, Repr

/-- The text of a refusal. -/
def Malformed.message (fault : Malformed) : String :=
  match fault.place with
  | none => s!"{fault.cause.text} (at end of document)"
  | some (line, column) => s!"{fault.cause.text} (at line {line}, column {column})"

/-- The problem with its place in the whole text. -/
def Problem.locate (problem : Problem) (text : List Char) : Malformed :=
  if problem.left = 0 then ⟨problem.cause, none⟩
  else
    let before := text.take (text.length - problem.left)
    let column := (before.reverse.takeWhile (· != '\n')).length + 1
    ⟨problem.cause, some (before.count '\n' + 1, column)⟩

/-- The table a document stands for. -/
def parse (text : List Char) : Except Malformed Table :=
  match Document.scanAll (text.length + 1) .empty text with
  | .ok doc => .ok doc.root
  | .error problem => .error (problem.locate text)

end IntegerMachine.Toml
