import IntegerMachine.Command.Outcome

/-!
# Running a program file

The command `run` executes a program on the standard input.  Its settings are those of a
settings file, if one is named, with the options laid over them.  It passes no failure on but
logs it.
-/

set_option autoImplicit false

namespace IntegerMachine.Command

/-- The options of `run`. -/
inductive RunOption where
  | verbose
  | input
  | text
  | padding
  | dialect
  | trace
  | settings
  deriving DecidableEq, Repr

/-- The options of `run` as they are given. -/
def runSwitches : List (Switch RunOption) :=
  [⟨.verbose, some 'v', "--verbose", false⟩,
    ⟨.input, some 'i', "--input", true⟩,
    ⟨.text, none, "--ascii", false⟩,
    ⟨.padding, none, "--pad", true⟩,
    ⟨.dialect, none, "--dialect", true⟩,
    ⟨.trace, none, "--trace", false⟩,
    ⟨.settings, none, "--config", true⟩]

/-- What a call of `run` asks for. -/
structure Run where
  program : Files.Location
  settingsFile : Option Files.Location
  /-- The settings given by options. -/
  change : Settings.Change
  inputs : List Int
  style : Console.Style
  /-- Whether details are logged. -/
  verbose : Bool

/-- The integer given to an option. -/
def integerArgument (name text : String) : Except Misuse Int :=
  match Text.integerValue? text.toList with
  | some n => .ok n
  | none => .error (.noInteger name text)

/-- The dialect given to an option. -/
def dialectArgument (text : String) : Except Misuse Dialect :=
  match Dialect.ofName? text with
  | some dialect => .ok dialect
  | none => .error (.unknownDialect text)

/-- The file given to an option, which must exist. -/
def fileArgument (tree : Files.Tree) (text : String) : Except Misuse Files.Location :=
  let location := Files.Location.ofText text
  match tree.look location with
  | .file _ => if Files.Location.namesFolder text then .error (.noFile text) else .ok location
  | _ => .error (.noFile text)

namespace Run

/-- The call that arguments make. -/
def ofArguments (tree : Files.Tree) (arguments : List String) : Except Misuse Run := do
  let arguments ← Arguments.parse runSwitches arguments
  let inputs ← (arguments.values .input).mapM (integerArgument "--input")
  let padding ← (arguments.value? .padding).mapM (integerArgument "--pad")
  let dialect ← (arguments.value? .dialect).mapM dialectArgument
  let settingsFile ← (arguments.value? .settings).mapM (fileArgument tree)
  let program ← arguments.operand "PROGRAM_FILENAME"
  let trace := arguments.has .trace
  return {
    program := Files.Location.ofText program
    settingsFile
    change := { dialect, padding, trace := if trace then some true else none }
    inputs
    style := if arguments.has .text then .text else .numbers
    verbose := arguments.has .verbose || trace }

/-- The settings in the file named. -/
def declared (call : Run) (tree : Files.Tree) : Logged (Except Failure Settings.Declared) :=
  match call.settingsFile with
  | none => .quiet (.ok {})
  | some location =>
    let read := match tree.read location with
      | .error fault => .error (.file fault)
      | .ok contents => (Settings.parse contents).mapError .settings
    ⟨read, #[Settings.loadingLine location.text]⟩

/-- The machine that carries the program out, with the inputs queued. -/
def machine (call : Run) (tree : Files.Tree) : Logged (Except Failure Machine) :=
  (call.declared tree).andThen fun declared =>
  (Logged.quiet ((declared.update call.change).mapError .settings)).andThen fun declared =>
  (readProgram tree call.program).andThen fun program =>
  .quiet <| match declared.settings with
    | .error refusal => .error (.settings refusal)
    | .ok settings => .ok ((Machine.boot program settings).feedAll call.inputs)

/-- The line logged first. -/
def openingLine : Line := .info "INTCODE"

/-- The line logged about a failure. -/
def failureLine : Failure → Line
  | .machine fault => .error s!"Execution halted on machine error {fault.message}"
  | .program (.malformed fault) => .error s!"Cannot load program: {fault.message}"
  | failure => .info s!"Execution halted on general error {failure.message}"

/-- How the command ends after an execution, and the lines logged about that. -/
def ending : Except Failure Suspension → Exit × Array Line
  | .error failure => (.failed, #[failureLine failure])
  | .ok .blocked => (.blocked, #[])
  | .ok _ => (.done, #[.info "Execution halted gracefully"])

/-- Carries the call out on a standard input. -/
def perform (rounds : Nat) (call : Run) (tree : Files.Tree) (input : String) :
    Option Outcome :=
  match (call.machine tree).withLog #[openingLine] with
  | ⟨.error failure, log⟩ =>
    let (exit, last) := ending (.error failure)
    some ⟨exit, "", tree, none, log ++ last⟩
  | ⟨.ok m, log⟩ =>
    let lines := Text.lines (String.ofList (Text.unifyNewlines input.toList))
    (Console.converse rounds call.style lines m "" log).map fun execution =>
      let (exit, last) := ending (execution.outcome.mapError .ofExecution)
      ⟨exit, execution.output, tree, none, execution.log ++ last⟩

end Run

end IntegerMachine.Command
