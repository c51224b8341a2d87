/-!
# Lines and columns

Line ends of three kinds become one, a text is cut into lines that keep their end, and tabs
become spaces up to the next tab stop.
-/

set_option autoImplicit false

namespace IntegerMachine.Text

/-- The distance of tab stops. -/
def tabWidth : Nat := 8

/-- Tabs replaced by spaces up to the next tab stop, in a text that begins in a column.  A line
feed and a carriage return begin a line. -/
def expandTabsFrom : Nat → List Char → List Char
  | _, [] => []
  | column, c :: rest =>
    if c = '\t' then
      let gap := tabWidth - column % tabWidth
      List.replicate gap ' ' ++ expandTabsFrom (column + gap) rest
    else if c = '\n' ∨ c = '\r' then c :: expandTabsFrom 0 rest
    else c :: expandTabsFrom (column + 1) rest

/-- The text with its tabs replaced by spaces. -/
def expandTabs (text : List Char) : List Char :=
  expandTabsFrom 0 text

/-- The text with a carriage return, alone or before a line feed, read as a line feed. -/
def unifyNewlines : List Char → List Char
  | [] => []
  | '\r' :: '\n' :: rest => '\n' :: unifyNewlines rest
  | '\r' :: rest => '\n' :: unifyNewlines rest
  | c :: rest => c :: unifyNewlines rest

/-- The lines of a text, each with the line feed that ends it; the last one may lack its own.
`line` is the line begun, last character first. -/
def linesFrom (line : List Char) : List Char → List (List Char)
  | [] => if line.isEmpty then [] else [line.reverse]
  | c :: rest =>
    if c = '\n' then (c :: line).reverse :: linesFrom [] rest
    else linesFrom (c :: line) rest

/-- The lines of a text, each with the line feed that ends it. -/
def lines (text : String) : List String :=
  (linesFrom [] text.toList).map String.ofList

/-- The line without the line feeds at its end. -/
def withoutNewline (line : String) : String :=
  String.ofList ((line.toList.reverse.dropWhile (· == '\n')).reverse)

end IntegerMachine.Text
