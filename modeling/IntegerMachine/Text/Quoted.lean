import IntegerMachine.Text.Printable

/-!
# Quoted text

A text between quotes on one line.  The quotes are single unless the text holds a single quote
and no double quote; the backslash, the quote in use and the characters that are not printable
are escaped.
-/

set_option autoImplicit false

namespace IntegerMachine.Text

/-- The lower case hexadecimal digits of a number, at least `width` of them. -/
def hexDigits (width n : Nat) : List Char :=
  let digits := Nat.toDigits 16 n
  List.replicate (width - digits.length) '0' ++ digits

/-- The escape of a character that is not printable: two, four or eight hexadecimal digits after
a letter that tells how many. -/
def hexEscape (c : Char) : List Char :=
  let n := c.toNat
  if n < 0x100 then '\\' :: 'x' :: hexDigits 2 n
  else if n < 0x10000 then '\\' :: 'u' :: hexDigits 4 n
  else '\\' :: 'U' :: hexDigits 8 n

/-- A character as it stands between the given quotes. -/
def quotedChar (quote c : Char) : List Char :=
  if c = quote ∨ c = '\\' then ['\\', c]
  else if c = '\n' then ['\\', 'n']
  else if c = '\r' then ['\\', 'r']
  else if c = '\t' then ['\\', 't']
  else if isPrintable c then [c]
  else hexEscape c

/-- The quote a text is put between. -/
def quoteOf (text : List Char) : Char :=
  if text.contains '\'' && !text.contains '"' then '"' else '\''

/-- The text between quotes. -/
def quoted (text : List Char) : String :=
  let quote := quoteOf text
  String.ofList (quote :: (text.flatMap (quotedChar quote) ++ [quote]))

end IntegerMachine.Text
