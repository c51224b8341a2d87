import IntegerMachine.Assembly.File
import IntegerMachine.Command.Outcome

/-!
# Assembling files

The command `asm` assembles any number of source files into a program file, the last of its
operands.  It writes nothing unless all of them are assembled.
-/

set_option autoImplicit false

namespace IntegerMachine.Command

/-- The only option of `asm` and `disasm`. -/
inductive DetailOption where
  | verbose
  deriving DecidableEq, Repr

/-- The option of `asm` and `disasm` as it is given. -/
def detailSwitches : List (Switch DetailOption) :=
  [⟨.verbose, some 'v', "--verbose", false⟩]

/-- What a call of `asm` asks for. -/
structure Assemble where
  sources : List Files.Location
  binary : Files.Location
  /-- Whether details are logged. -/
  verbose : Bool

/-- The sources in files. -/
def readSources (tree : Files.Tree) :
    List Files.Location → Logged (Except Failure (List Assembly.Source))
  | [] => .quiet (.ok [])
  | location :: rest =>
    let log := #[Assembly.collectingLine location]
    match tree.read location with
    | .error fault => ⟨.error (.file fault), log⟩
    | .ok contents =>
      let ⟨sources, more⟩ := readSources tree rest
      ⟨sources.map (Assembly.Source.ofFile location contents :: ·), log ++ more⟩

namespace Assemble

/-- The call that arguments make. -/
def ofArguments (arguments : List String) : Except Misuse Assemble := do
  let arguments ← Arguments.parse detailSwitches arguments
  let locations := arguments.operands.map Files.Location.ofText
  match locations.getLast? with
  | none => throw (.missingOperand "BINARY")
  | some binary =>
    return {
      sources := locations.dropLast
      binary
      verbose := arguments.has .verbose }

/-- The line logged first. -/
def openingLine : Line := .info "INTCODE ASM"

/-- The words the sources are assembled to. -/
def words (call : Assemble) (tree : Files.Tree) : Logged (Except Failure (List Int)) :=
  (readSources tree call.sources).andThen fun sources =>
    let ⟨words, log⟩ := Assembly.assemble sources
    ⟨words.mapError .assembly, log⟩

/-- Carries the call out. -/
def perform (call : Assemble) (tree : Files.Tree) : Outcome :=
  .ofResult tree <| ((call.words tree).withLog #[openingLine]).andThen fun words =>
    .quiet <| match tree.write call.binary (Program.dump words ++ "\n") with
      | .error fault => .error (.file fault)
      | .ok after => .ok ("", after)

end Assemble

end IntegerMachine.Command
