import IntegerMachine.Machine.Basic

/-!
# One step

A step decodes the word under the instruction pointer, works out the effect of the instruction
from the state it finds, and only then changes the state.  Operands are resolved from left to
right, the destination last.  A step that faults leaves the state it found, except that a
pending input is given up, the instruction begun is remembered, and a value already taken from
the queue for a cell that cannot be written is gone.
-/

set_option autoImplicit false

namespace IntegerMachine

namespace Machine

/-- Reads the modes of an instruction from its digits; the first digit that is no mode of the
dialect is at fault. -/
def decodeModes (dialect : Dialect) : List Int → Except Cause (List Mode)
  | [] => .ok []
  | digit :: digits =>
    match Mode.ofDigit? digit with
    | none => .error (.unknownMode digit)
    | some mode =>
      if mode ∈ dialect.modes then
        match decodeModes dialect digits with
        | .ok modes => .ok (mode :: modes)
        | .error cause => .error cause
      else .error (.foreignMode mode dialect)

/-- Decodes the instruction under the instruction pointer.  Mode digits past the operands of the
opcode are ignored. -/
def decode (m : Machine) : Except Fault Instruction :=
  match m.readCause? m.ip with
  | some cause => .error ⟨cause, m.ip, none⟩
  | none =>
    let word := m.cell m.ip
    let (code, digits) := Word.split word
    match Opcode.ofCode? code with
    | none => .error ⟨.illegalOpcode code, m.ip, some word⟩
    | some opcode =>
      if word < 0 ∨ opcode ∉ m.dialect.opcodes then
        .error ⟨.illegalOpcode code, m.ip, some word⟩
      else
        match decodeModes m.dialect (digits.take opcode.operands) with
        | .error cause => .error ⟨cause, m.ip, some word⟩
        | .ok modes => .ok ⟨m.ip, word, opcode, modes⟩

/-- Decodes the instruction under the instruction pointer without carrying it out; the
instruction last begun is forgotten. -/
def examine (m : Machine) : Except Fault Instruction × Machine :=
  (m.decode, { m with current := none })

/-- The word written for an operand. -/
def operand (m : Machine) (i : Instruction) (n : Nat) : Except Fault Int :=
  m.read (i.ip + 1 + n)

/-- The address an operand stands for. -/
def address (m : Machine) (i : Instruction) (n : Nat) : Except Fault Int :=
  match i.mode n with
  | .immediate => .error (m.faultOf (.immediateDestination (n + 1)))
  | .relative => return m.base + (← m.operand i n)
  | .position => m.operand i n

/-- The value an operand stands for. -/
def value (m : Machine) (i : Instruction) (n : Nat) : Except Fault Int :=
  match i.mode n with
  | .immediate => m.operand i n
  | _ => do m.read (← m.address i n)

/-- What an instruction does, worked out from the state it is carried out in. -/
inductive Effect where
  /-- Writes a value to an address. -/
  | store (address value : Int)
  /-- Takes the first queued value, which is given, and writes it to an address. -/
  | take (address value : Int)
  /-- Appends a value to the outputs. -/
  | emit (value : Int)
  /-- Continues at an address. -/
  | jump (target : Int)
  /-- Changes nothing but the instruction pointer. -/
  | skip
  /-- Moves the relative base. -/
  | rebase (offset : Int)
  /-- Waits for a value. -/
  | wait
  /-- Stops for good. -/
  | stop
  deriving DecidableEq, Repr

/-- The effect of an operation on two sources and a destination. -/
def arithmetic (m : Machine) (i : Instruction) (op : Int → Int → Int) : Except Fault Effect := do
  let a ← m.value i 0
  let b ← m.value i 1
  return .store (← m.address i 2) (op a b)

/-- The effect of a jump taken when the first operand meets a condition; the target is read
only then. -/
def branch (m : Machine) (i : Instruction) (condition : Int → Bool) : Except Fault Effect := do
  if condition (← m.value i 0) then
    return .jump (← m.value i 1)
  else
    return .skip

/-- The effect of an instruction. -/
def effect (m : Machine) (i : Instruction) : Except Fault Effect :=
  match i.opcode with
  | .add => m.arithmetic i fun a b => a + b
  | .multiply => m.arithmetic i fun a b => a * b
  | .input =>
    match m.inputs with
    | [] => .ok .wait
    | value :: _ => return .take (← m.address i 0) value
  | .output => return .emit (← m.value i 0)
  | .jumpIfTrue => m.branch i fun a => a != 0
  | .jumpIfFalse => m.branch i fun a => a == 0
  | .lessThan => m.arithmetic i fun a b => if a < b then 1 else 0
  | .equals => m.arithmetic i fun a b => if a = b then 1 else 0
  | .adjustBase => return .rebase (← m.value i 0)
  | .halt => .ok .stop

/-- Ends an instruction that lets the next one follow, at the given address. -/
def advance (m : Machine) (target : Int) : Except Fault Signal × Machine :=
  (.ok .proceed, { m with ip := target, state := .active })

/-- Carries out the effect of an instruction. -/
def apply (m : Machine) (i : Instruction) : Effect → Except Fault Signal × Machine
  | .store address value =>
    match m.writeCause? address with
    | some cause => (.error (m.faultOf cause), m)
    | none =>
      let next := m.ip + i.size
      (m.store address value).advance next
  | .take address value =>
    match m.writeCause? address with
    | some cause => (.error (m.faultOf cause), { m with inputs := m.inputs.tail })
    | none =>
      let next := m.ip + i.size
      ({ m with inputs := m.inputs.tail }.store address value).advance next
  | .emit value =>
    let next := m.ip + i.size
    { m with outputs := m.outputs ++ [value] }.advance next
  | .jump target => m.advance target
  | .skip =>
    let next := m.ip + i.size
    m.advance next
  | .rebase offset =>
    let next := m.ip + i.size
    { m with base := m.base + offset }.advance next
  | .wait => (.ok .blocked, { m with pending := some i, state := .blocked })
  | .stop => (.ok .halted, { m with state := .halted })

/-- Carries out an instruction. -/
def perform (m : Machine) (i : Instruction) : Except Fault Signal × Machine :=
  let begun := { m with current := some i, pending := none }
  match begun.effect i with
  | .error fault => (.error fault, begun)
  | .ok effect => begun.apply i effect

/-- One step: the pending input instruction resumes if there is one, otherwise the instruction
under the instruction pointer is decoded and carried out.  A halted machine refuses. -/
def step (m : Machine) : Except Fault Signal × Machine :=
  if m.state = .halted then (.error ⟨.stepAfterHalt, m.ip, none⟩, m)
  else
    match m.pending with
    | some i => m.perform i
    | none =>
      match m.decode with
      | .error fault => (.error fault, { m with current := none })
      | .ok i => m.perform i

end Machine

end IntegerMachine
