/-!
# Opcode words

A word of memory is an integer of any size.  Read as an instruction, its two lowest decimal
digits are the opcode and the digits above them the addressing modes of the operands, the
first operand's mode lowest.  This module holds the opcodes, the modes, the dialects that
admit them, and the two maps `split` and `compose` between a word and its parts.
-/

set_option autoImplicit false

namespace IntegerMachine

/-- The operations of the machine. -/
inductive Opcode where
  | add
  | multiply
  | input
  | output
  | jumpIfTrue
  | jumpIfFalse
  | lessThan
  | equals
  | adjustBase
  | halt
  deriving DecidableEq, Repr

namespace Opcode

/-- Every opcode, in the order of their codes. -/
def all : List Opcode :=
  [add, multiply, input, output, jumpIfTrue, jumpIfFalse, lessThan, equals, adjustBase, halt]

/-- The number that stands for the opcode in a word. -/
def code : Opcode → Int
  | add => 1
  | multiply => 2
  | input => 3
  | output => 4
  | jumpIfTrue => 5
  | jumpIfFalse => 6
  | lessThan => 7
  | equals => 8
  | adjustBase => 9
  | halt => 99

/-- The opcode that a number stands for. -/
def ofCode? (code : Int) : Option Opcode :=
  all.find? fun op => op.code == code

/-- How many operands follow the opcode word. -/
def operands : Opcode → Nat
  | add => 3
  | multiply => 3
  | input => 1
  | output => 1
  | jumpIfTrue => 2
  | jumpIfFalse => 2
  | lessThan => 3
  | equals => 3
  | adjustBase => 1
  | halt => 0

/-- The operand that names the cell written to, counted from zero, if there is one. -/
def destination? : Opcode → Option Nat
  | add => some 2
  | multiply => some 2
  | input => some 0
  | lessThan => some 2
  | equals => some 2
  | output | jumpIfTrue | jumpIfFalse | adjustBase | halt => none

/-- The name of the opcode in assembly text and listings. -/
def mnemonic : Opcode → String
  | add => "add"
  | multiply => "mul"
  | input => "in"
  | output => "out"
  | jumpIfTrue => "jt"
  | jumpIfFalse => "jf"
  | lessThan => "lt"
  | equals => "eq"
  | adjustBase => "arb"
  | halt => "hlt"

/-- The code of an operation finds it again. -/
@[simp] theorem ofCode?_code (op : Opcode) : ofCode? op.code = some op := by
  cases op <;> decide

end Opcode

/-- How an operand stands for a value or an address. -/
inductive Mode where
  /-- The operand is the address of the value. -/
  | position
  /-- The operand is the value itself. -/
  | immediate
  /-- The operand is an offset from the relative base. -/
  | relative
  deriving DecidableEq, Repr

namespace Mode

/-- Every mode, in the order of their digits. -/
def all : List Mode := [position, immediate, relative]

/-- The decimal digit that stands for the mode in a word. -/
def digit : Mode → Int
  | position => 0
  | immediate => 1
  | relative => 2

/-- The mode that a digit stands for. -/
def ofDigit? (digit : Int) : Option Mode :=
  all.find? fun mode => mode.digit == digit

/-- The name of the mode in messages. -/
def name : Mode → String
  | position => "POSITION"
  | immediate => "IMMEDIATE"
  | relative => "RELATIVE"

/-- The mark written before an operand of this mode. -/
def mark : Mode → String
  | position => ""
  | immediate => "#"
  | relative => "~"

/-- The digit of a mode finds it again. -/
@[simp] theorem ofDigit?_digit (mode : Mode) : ofDigit? mode.digit = some mode := by
  cases mode <;> decide

end Mode

/-- A dialect fixes which opcodes and modes a machine knows and whether its memory grows. -/
inductive Dialect where
  /-- Arithmetic and halting only. -/
  | basic
  /-- Input, output, jumps and comparisons as well. -/
  | interactive
  /-- Every opcode and mode, on memory that grows on demand. -/
  | relative
  deriving DecidableEq, Repr

namespace Dialect

/-- Every dialect, each extending the one before. -/
def all : List Dialect := [basic, interactive, relative]

/-- The name by which a dialect is chosen. -/
def name : Dialect → String
  | basic => "basic"
  | interactive => "with-io"
  | relative => "with-relative"

/-- The dialect of a name. -/
def ofName? (name : String) : Option Dialect :=
  all.find? fun dialect => dialect.name == name

/-- The opcodes of the dialect. -/
def opcodes : Dialect → List Opcode
  | basic => [.add, .multiply, .halt]
  | interactive =>
    [.add, .multiply, .input, .output, .jumpIfTrue, .jumpIfFalse, .lessThan, .equals, .halt]
  | relative => Opcode.all

/-- The addressing modes of the dialect. -/
def modes : Dialect → List Mode
  | basic => [.position, .immediate]
  | interactive => [.position, .immediate]
  | relative => Mode.all

/-- Whether memory of the dialect is extended on demand. -/
def grows : Dialect → Bool
  | basic => false
  | interactive => false
  | relative => true

end Dialect

namespace Word

/-- The opcode number of a word and its lowest three mode digits, also for a negative word:
the divisions round toward minus infinity, so every part is a digit or a pair of digits. -/
def split (word : Int) : Int × List Int :=
  (word % 100, [word / 100 % 10, word / 1000 % 10, word / 10000 % 10])

/-- The value of digits, the lowest first. -/
def ofDigits : List Int → Int
  | [] => 0
  | d :: ds => d + 10 * ofDigits ds

/-- The word with an opcode number and mode digits, the first operand's digit lowest. -/
def compose (code : Int) (modes : List Int) : Int :=
  code + 100 * ofDigits modes

/-- The value that a mode digit adds to an opcode word at an operand counted from zero. -/
def place (mode : Mode) (operand : Nat) : Int :=
  mode.digit * Int.pow 10 (operand + 2)

end Word

end IntegerMachine
