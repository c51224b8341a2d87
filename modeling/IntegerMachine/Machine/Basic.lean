import IntegerMachine.Log
import IntegerMachine.Settings

/-!
# The machine

The state of a machine, the faults its operations end in, and the access to its memory.
Memory is one array of integers that holds code and data alike.  A machine whose memory
grows reads zero past the end and is extended by a write; one whose memory does not grow
faults there.

Numbers, arrays and lists have no bounds here.  What the interpreter and its host add to the rules
is left out: a memory that grows past the longest array or past the memory there is, and a number of
more digits than `Text.digitLimit` in a message or a line of the log, which cannot be written there.
-/

set_option autoImplicit false

namespace IntegerMachine

/-- What a machine last stopped for. -/
inductive Suspension where
  /-- It has not stopped since its last completed instruction. -/
  | active
  /-- An output was handed over. -/
  | output
  /-- An input instruction found no value queued. -/
  | blocked
  /-- A halt instruction was reached. -/
  | halted
  deriving DecidableEq, Repr

/-- The name of a suspension in messages. -/
def Suspension.name : Suspension → String
  | .active => "NONE"
  | .output => "OUTPUT"
  | .blocked => "BLOCKED"
  | .halted => "HALTED"

/-- What a completed step says about going on. -/
inductive Signal where
  /-- The next step may follow. -/
  | proceed
  /-- Nothing moves until a value is queued. -/
  | blocked
  /-- No step may follow. -/
  | halted
  deriving DecidableEq, Repr

/-- The name of a signal. -/
def Signal.name : Signal → String
  | .proceed => "CONTINUE"
  | .blocked => "BLOCKED"
  | .halted => "HALTED"

/-- Why an operation of a machine, or of a chain of machines, fails. -/
inductive Cause where
  /-- The word is negative or its code is not in the dialect. -/
  | illegalOpcode (code : Int)
  /-- No mode has the digit. -/
  | unknownMode (digit : Int)
  /-- The mode is not one of the dialect. -/
  | foreignMode (mode : Mode) (dialect : Dialect)
  /-- The operand, counted from one, is a value where an address is needed. -/
  | immediateDestination (operand : Nat)
  | readNegative (address : Int)
  | readBeyond (address : Int)
  | writeNegative (address : Int)
  | writeBeyond (address : Int)
  /-- A halted machine was asked for a step. -/
  | stepAfterHalt
  /-- A machine of a chain stopped before it gave a signal. -/
  | withoutOutput (state : Suspension)
  /-- A machine of a feedback loop waits for a value that never comes. -/
  | blockedInLoop (index : Nat)
  deriving DecidableEq, Repr

/-- The text of a cause. -/
def Cause.text : Cause → String
  | .illegalOpcode code => s!"Illegal opcode {code}"
  | .unknownMode digit => s!"Unknown addressing mode {digit}"
  | .foreignMode mode dialect => s!"Mode {mode.name} not in {dialect.name}"
  | .immediateDestination operand => s!"Immediate operand {operand} used as destination"
  | .readNegative address => s!"Read from negative address {address}"
  | .readBeyond address => s!"Read beyond memory at {address}"
  | .writeNegative address => s!"Write to negative address {address}"
  | .writeBeyond address => s!"Write beyond memory at {address}"
  | .stepAfterHalt => "Step after halt"
  | .withoutOutput state => s!"Amplifier {state.name} without output"
  | .blockedInLoop index => s!"Amplifier {index} blocked in feedback loop"

/-- A failure: its cause, the instruction pointer, and the opcode word concerned if there is
one. -/
structure Fault where
  cause : Cause
  ip : Int
  word : Option Int
  deriving DecidableEq, Repr

/-- The text of a fault: the cause, the instruction pointer and the word. -/
def Fault.message (fault : Fault) : String :=
  let word := match fault.word with
    | some word => toString word
    | none => "None"
  s!"{fault.cause.text} (IP:{fault.ip} OP:{word})"

/-- A decoded instruction: where it stands, its word, its opcode and one mode an operand. -/
structure Instruction where
  ip : Int
  word : Int
  opcode : Opcode
  modes : List Mode
  deriving DecidableEq, Repr

namespace Instruction

/-- The words the instruction takes, its opcode word included. -/
def size (instruction : Instruction) : Nat :=
  1 + instruction.modes.length

/-- The mode of an operand, counted from zero. -/
def mode (instruction : Instruction) (operand : Nat) : Mode :=
  instruction.modes.getD operand .position

end Instruction

/-- The state of a machine. -/
structure Machine where
  dialect : Dialect
  /-- Whether memory is extended on demand. -/
  grows : Bool
  /-- Whether every completed step is logged. -/
  traced : Bool
  memory : Array Int
  /-- The instruction pointer. -/
  ip : Int
  /-- The relative base. -/
  base : Int
  /-- The values waiting to be read, the next one first. -/
  inputs : List Int
  /-- The values written and not yet handed over, the oldest first. -/
  outputs : List Int
  state : Suspension
  /-- The instruction last begun, whose word a fault shows. -/
  current : Option Instruction
  /-- An input instruction that found no value and resumes once one is queued. -/
  pending : Option Instruction
  deriving DecidableEq, Repr

namespace Machine

/-- A machine about to run a program under settings; `padding` zero cells follow the program,
none if the number is negative. -/
def start (program : List Int) (settings : Settings) (dialect : Dialect) (padding : Int) :
    Machine where
  dialect
  grows := settings.growMemory.getD dialect.grows
  traced := settings.trace
  memory := program.toArray ++ Array.replicate padding.toNat 0
  ip := 0
  base := 0
  inputs := []
  outputs := []
  state := .active
  current := none
  pending := none

/-- A machine about to run a program, all choices taken from the settings. -/
def boot (program : List Int) (settings : Settings) : Machine :=
  start program settings settings.dialect settings.padding

/-- Whether a halt instruction was reached. -/
def isHalted (m : Machine) : Bool := m.state == .halted

/-- Whether the machine waits for a value. -/
def isBlocked (m : Machine) : Bool := m.state == .blocked

/-- Queues one value. -/
def feed (m : Machine) (value : Int) : Machine :=
  { m with inputs := m.inputs ++ [value] }

/-- Queues values, in order. -/
def feedAll (m : Machine) (values : List Int) : Machine :=
  { m with inputs := m.inputs ++ values }

/-- The value of the cell at an address, zero past the end. -/
def cell (m : Machine) (address : Int) : Int :=
  m.memory.getD address.toNat 0

/-- Why the cell at an address cannot be read. -/
def readCause? (m : Machine) (address : Int) : Option Cause :=
  if address < 0 then some (.readNegative address)
  else if m.memory.size ≤ address.toNat ∧ m.grows = false then some (.readBeyond address)
  else none

/-- Why the cell at an address cannot be written. -/
def writeCause? (m : Machine) (address : Int) : Option Cause :=
  if address < 0 then some (.writeNegative address)
  else if m.memory.size ≤ address.toNat ∧ m.grows = false then some (.writeBeyond address)
  else none

/-- The fault of a cause that arises now, while the current instruction is carried out. -/
def faultOf (m : Machine) (cause : Cause) : Fault :=
  ⟨cause, m.ip, m.current.map (·.word)⟩

/-- Reads a cell. -/
def read (m : Machine) (address : Int) : Except Fault Int :=
  match m.readCause? address with
  | some cause => .error (m.faultOf cause)
  | none => .ok (m.cell address)

/-- Puts a value into the cell at an address that is not negative, after zero cells up to it
where memory ends before. -/
def store (m : Machine) (address : Int) (value : Int) : Machine :=
  let a := address.toNat
  if m.memory.size ≤ a then
    { m with memory := (m.memory ++ Array.replicate (a - m.memory.size) 0).push value }
  else
    { m with memory := m.memory.setIfInBounds a value }

/-- Writes a cell; a write that is refused changes nothing. -/
def write (m : Machine) (address : Int) (value : Int) : Except Fault Unit × Machine :=
  match m.writeCause? address with
  | some cause => (.error (m.faultOf cause), m)
  | none => (.ok (), m.store address value)

/-- The line a completed step logs when steps are traced. -/
def traceLine (m : Machine) : Line :=
  .debug s!"IP:{m.ip} BASE:{m.base} STATE:{m.state.name} IN:{m.inputs.length} OUT:{m.outputs.length}"

/-- What a step logs once it has completed. -/
def traced? (m : Machine) : Array Line :=
  if m.traced then #[m.traceLine] else #[]

end Machine

end IntegerMachine
