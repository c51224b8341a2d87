import IntegerMachine.Command.Assemble
import IntegerMachine.Program.Listing

/-!
# Listing a program file

The command `disasm` prints the listing of a program.
-/

set_option autoImplicit false

namespace IntegerMachine.Command

/-- What a call of `disasm` asks for. -/
structure Disassemble where
  program : Files.Location
  /-- Whether details are logged. -/
  verbose : Bool

namespace Disassemble

/-- The call that arguments make. -/
def ofArguments (arguments : List String) : Except Misuse Disassemble := do
  let arguments ← Arguments.parse detailSwitches arguments
  let program ← arguments.operand "PROGRAM"
  return {
    program := Files.Location.ofText program
    verbose := arguments.has .verbose }

/-- The line logged first. -/
def openingLine : Line := .info "INTCODE DISASM"

/-- Carries the call out. -/
def perform (call : Disassemble) (tree : Files.Tree) : Outcome :=
  .ofResult tree <| ((readProgram tree call.program).withLog #[openingLine]).andThen fun words =>
    .quiet (.ok (String.join ((Program.listing words).map (· ++ "\n")), tree))

end Disassemble

end IntegerMachine.Command
