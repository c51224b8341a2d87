import IntegerMachine.Word

/-!
# Machine settings

The choices a machine is started with, and how a partial choice is laid over them.
-/

set_option autoImplicit false

namespace IntegerMachine

/-- The cells appended to a program when nothing else is asked for. -/
def defaultPadding : Nat := 0

/-- What a machine is started with. -/
structure Settings where
  /-- The opcodes and modes the machine knows. -/
  dialect : Dialect := .relative
  /-- The zero cells appended to the program. -/
  padding : Nat := defaultPadding
  /-- Whether memory grows on demand; without a choice the dialect decides. -/
  growMemory : Option Bool := none
  /-- Whether every completed step is logged. -/
  trace : Bool := false
  deriving DecidableEq, Repr

/-- A partial choice: what is absent leaves a setting alone. -/
structure Settings.Change where
  dialect : Option Dialect := none
  padding : Option Int := none
  growMemory : Option Bool := none
  trace : Option Bool := none
  deriving DecidableEq, Repr

/-- Why a change of settings is refused. -/
inductive Settings.Fault where
  /-- No dialect has the name. -/
  | unknownDialect (name : String)
  /-- A program cannot be padded by fewer than no cells. -/
  | negativePadding (padding : Int)
  deriving DecidableEq, Repr

namespace Settings

/-- The text of a refusal. -/
def Fault.message : Fault → String
  | .unknownDialect name => s!"'{name}' is not a valid Dialect"
  | .negativePadding padding => s!"Negative padding {padding}"

/-- Lays a change over the settings: the dialect first, then padding, growth and trace.  A
refused padding stops the change there, with the new dialect already in force. -/
def update (settings : Settings) (change : Change) : Except Fault Unit × Settings :=
  let chosen := { settings with dialect := change.dialect.getD settings.dialect }
  let rest := fun (padding : Nat) =>
    { chosen with
      padding
      growMemory := change.growMemory <|> settings.growMemory
      trace := change.trace.getD settings.trace }
  match change.padding with
  | none => (.ok (), rest settings.padding)
  | some padding =>
    if padding < 0 then (.error (.negativePadding padding), chosen)
    else (.ok (), rest padding.toNat)

end Settings

end IntegerMachine
