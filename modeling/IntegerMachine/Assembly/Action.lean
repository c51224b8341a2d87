import IntegerMachine.Assembly.Draft
import IntegerMachine.Assembly.Statement

/-!
# Drafting actions

The operations on a draft as data, and the actions that each statement stands for.
-/

set_option autoImplicit false

namespace IntegerMachine.Assembly

/-- One operation on a draft. -/
inductive Action where
  | enter (scope : List Char)
  | word (value : Int)
  | value (text : List Char)
  | opcode (code : Int)
  | operand (tokens : List (List Char))
  | data (values : List (List Char))
  | label (tokens : List (List Char))
  | reference (name : List Char)
  | refuse (tokens : List (List Char))
  deriving DecidableEq, Repr

/-- Carries out an action. -/
def Draft.perform (d : Draft) : Action → Drafting
  | .enter scope => ⟨.ok (), d.enter scope, #[]⟩
  | .word value => ⟨.ok (), d.putWord value, #[]⟩
  | .value text => d.putValue text
  | .opcode code => d.putOpcode code
  | .operand tokens => d.putOperand tokens
  | .data values => d.putData values
  | .label tokens => d.putLabel tokens
  | .reference name => d.putReference name
  | .refuse tokens => d.refuse tokens

/-- Carries out actions up to the first that fails. -/
def Draft.performAll (d : Draft) (actions : List Action) : Drafting :=
  Reply.each Draft.perform d actions

/-- The tokens of an operand. -/
def Operand.tokens (operand : Operand) : List (List Char) :=
  match operand.mark with
  | none => [operand.value]
  | some mark => [[mark], operand.value]

/-- The actions that a statement stands for. -/
def Statement.actions : Statement → List Action
  | label name => [.label [name]]
  | command opcode operands =>
    .opcode opcode.code :: operands.map fun operand => .operand operand.tokens
  | data values => [.data values]
  | unknown text => [.refuse [text]]

end IntegerMachine.Assembly
