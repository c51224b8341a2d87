import IntegerMachine.Assembly.Token
import IntegerMachine.Log
import IntegerMachine.Word

/-!
# The draft of a program

Assembling lays words out one after another while the labels that some of them stand for are
still unknown.  The draft holds what is laid out so far: words, references to labels, and the
places of the labels met.  The digits of the operands are added to the opcode word once each
operand is met.

An operation that fails leaves the draft as it was, with two exceptions: an operand whose value
is malformed has already added its digit, and of data the values before the malformed one stay.
-/

set_option autoImplicit false

namespace IntegerMachine.Assembly

open Text

/-- Why assembling fails. -/
inductive Fault where
  /-- No opcode has the number. -/
  | unknownOpcode (code : Int)
  /-- No mode has the mark. -/
  | unknownMark (mark : List Char)
  /-- The text of a value is no integer. -/
  | malformedNumber (text : List Char)
  /-- There is no token where one is needed. -/
  | missingToken
  /-- The destination of an instruction is a value. -/
  | immediateDestination (opcode : Opcode) (place : Nat)
  /-- An operand belongs to no instruction. -/
  | operandWithoutCommand (place : Nat)
  | redefinedLabel (name : List Char)
  | unknownCommand (text : List Char)
  | unknownLabel (name : List Char)
  deriving DecidableEq, Repr

/-- The text of a fault. -/
def Fault.message : Fault → String
  | unknownOpcode code => s!"Unknown opcode {code}"
  | unknownMark mark => s!"Unknown mark {String.ofList mark}"
  | malformedNumber text => s!"Malformed number {String.ofList text}"
  | missingToken => "Missing token"
  | immediateDestination opcode place =>
    s!"Immediate destination for {opcode.mnemonic} @ {place}"
  | operandWithoutCommand place => s!"Operand without command @ {place}"
  | redefinedLabel name => s!"Label {String.ofList name} redefined"
  | unknownCommand text => s!"Unknown command {String.ofList text}"
  | unknownLabel name => s!"Unknown label {String.ofList name}"

/-- What stands at one place of a draft. -/
inductive Item where
  /-- A word. -/
  | word (value : Int)
  /-- The place of the label of this name. -/
  | reference (name : List Char)
  deriving DecidableEq, Repr

/-- The scope of names before a source is entered. -/
def outerScope : List Char := "<global>".toList

/-- A program under assembly. -/
structure Draft where
  /-- What is laid out, in order. -/
  items : Array Item
  /-- The places of the labels met, each name once. -/
  labels : List (List Char × Nat)
  /-- The place of the next word. -/
  place : Nat
  /-- The scope that names without one belong to. -/
  scope : List Char
  /-- Where the opcode word stands that the next operand belongs to. -/
  opcodePlace : Option Nat
  /-- The opcode of that word. -/
  opcode : Opcode
  /-- The operands met for that word. -/
  operandCount : Nat
  deriving DecidableEq, Repr

/-- What an operation on a draft leaves. -/
abbrev Drafting := Reply Fault Draft Unit

/-- A name with its scope. -/
def qualified (scope name : List Char) : List Char :=
  scope ++ separator ++ name

/-- Whether a name has a scope. -/
def isQualified : List Char → Bool
  | ':' :: ':' :: _ => true
  | _ :: rest => isQualified rest
  | [] => false

namespace Draft

/-- A draft of nothing. -/
def empty : Draft where
  items := #[]
  labels := []
  place := 0
  scope := outerScope
  opcodePlace := none
  opcode := .halt
  operandCount := 0

/-- Goes on in a scope. -/
def enter (d : Draft) (scope : List Char) : Draft :=
  { d with scope }

/-- The name with its scope, that of the draft if it has none. -/
def resolve (d : Draft) (name : List Char) : List Char :=
  if isQualified name then name else qualified d.scope name

/-- Lays out one item. -/
def put (d : Draft) (item : Item) : Draft :=
  { d with items := d.items.push item, place := d.place + 1 }

/-- Lays out a word. -/
def putWord (d : Draft) (value : Int) : Draft :=
  d.put (.word value)

/-- Lays out a reference to a label. -/
def putReference (d : Draft) (name : List Char) : Drafting :=
  let label := d.resolve name
  ⟨.ok (), d.put (.reference label), #[.debug s!"Ref {String.ofList label}"]⟩

/-- Lays out a value: a reference if it begins with an ampersand, otherwise a number. -/
def putValue (d : Draft) (text : List Char) : Drafting :=
  match text with
  | '&' :: name => d.putReference name
  | _ =>
    match integerValue? text with
    | none => ⟨.error (.malformedNumber text), d, #[]⟩
    | some value => ⟨.ok (), d.putWord value, #[]⟩

/-- Lays out the opcode word of an instruction, to which the operands that follow belong. -/
def putOpcode (d : Draft) (code : Int) : Drafting :=
  match Opcode.ofCode? code with
  | none => ⟨.error (.unknownOpcode code), d, #[]⟩
  | some opcode =>
    let begun := { d with opcodePlace := some d.items.size, opcode, operandCount := 0 }
    ⟨.ok (), begun.putWord code, #[.debug s!"Issuing command {opcode.mnemonic} @ {d.place}"]⟩

/-- The mode that a mark stands for. -/
def modeOfMark? (mark : List Char) : Option Mode :=
  Mode.all.find? fun mode => mode.mark.toList == mark

/-- The item with the digit of a mode added for an operand. -/
def addMode (mode : Mode) (operand : Nat) : Item → Item
  | .word value => .word (value + Word.place mode operand)
  | .reference name => .reference name

/-- Adds the mode of the next operand to the opcode word at a place. -/
def addOperand (d : Draft) (place : Nat) (mode : Mode) : Draft :=
  { d with
    items := d.items.modify place (addMode mode d.operandCount)
    operandCount := d.operandCount + 1 }

/-- Lays out an operand with a mark, which is empty for the position mode. -/
def putMarked (d : Draft) (mark value : List Char) : Drafting :=
  match modeOfMark? mark with
  | none => ⟨.error (.unknownMark mark), d, #[]⟩
  | some mode =>
    if mode = .immediate ∧ d.opcode.destination? = some d.operandCount then
      ⟨.error (.immediateDestination d.opcode d.place), d, #[]⟩
    else
      match d.opcodePlace with
      | none => ⟨.error (.operandWithoutCommand d.place), d, #[]⟩
      | some place => (d.addOperand place mode).putValue value

/-- Lays out an operand from its tokens: a mark and a value, or else a value first. -/
def putOperand (d : Draft) : List (List Char) → Drafting
  | [] => ⟨.error .missingToken, d, #[]⟩
  | [mark, value] => d.putMarked mark value
  | value :: _ => d.putMarked [] value

/-- Lays out values. -/
def putData (d : Draft) (values : List (List Char)) : Drafting :=
  Reply.each putValue d values

/-- Sets a label, whose name is the first token, to the place of the next word. -/
def putLabel (d : Draft) : List (List Char) → Drafting
  | [] => ⟨.error .missingToken, d, #[]⟩
  | name :: _ =>
    let label := qualified d.scope name
    if (d.labels.lookup label).isSome then ⟨.error (.redefinedLabel label), d, #[]⟩
    else
      ⟨.ok (), { d with labels := d.labels ++ [(label, d.place)] },
        #[.debug s!"Label {String.ofList label} @ {d.place}"]⟩

/-- Refuses text that is no statement. -/
def refuse (d : Draft) : List (List Char) → Drafting
  | [] => ⟨.error .missingToken, d, #[]⟩
  | text :: _ => ⟨.error (.unknownCommand text), d, #[]⟩

end Draft

end IntegerMachine.Assembly
