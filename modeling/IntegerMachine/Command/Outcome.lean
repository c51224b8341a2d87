import IntegerMachine.Assembly.Program
import IntegerMachine.Command.Arguments
import IntegerMachine.Console.Execution
import IntegerMachine.Files.Tree
import IntegerMachine.SettingsFile

/-!
# What commands leave

A command ends with an exit code, what it printed, the files as they are then, and its log.
-/

set_option autoImplicit false

namespace IntegerMachine.Command

/-- How a command ends. -/
inductive Exit where
  | done
  /-- The program waits for input, and there is none left. -/
  | blocked
  /-- A failure is passed on to whoever called the command. -/
  | refused
  /-- The arguments are no use. -/
  | misused
  /-- The user stopped the program. -/
  | interrupted
  /-- The program could not be executed to its end. -/
  | failed
  deriving DecidableEq, Repr

/-- The exit code that tells how a command ended. -/
def Exit.code : Exit → Nat
  | done => 0
  | blocked => 1
  | refused => 1
  | misused => 2
  | interrupted => 3
  | failed => 100

/-- Why a command does not do what it is for. -/
inductive Failure where
  | file (fault : Files.Fault)
  | settings (refusal : Settings.Refusal)
  | program (refusal : Program.Refusal)
  | machine (fault : Fault)
  | assembly (fault : Assembly.Fault)

namespace Failure

/-- The text of a failure. -/
def message : Failure → String
  | file fault => fault.message
  | settings refusal => refusal.message
  | program refusal => refusal.message
  | machine fault => fault.message
  | assembly fault => fault.message

/-- The failure of an execution. -/
def ofExecution : Console.Failure → Failure
  | .machine fault => machine fault
  | .input refusal => program refusal

end Failure

/-- What a command leaves. -/
structure Outcome where
  exit : Exit
  output : String
  tree : Files.Tree
  /-- The failure passed on, if there is one. -/
  failure? : Option Failure
  log : Array Line

namespace Outcome

/-- What a command leaves that was called with useless arguments. -/
def misused (tree : Files.Tree) : Outcome :=
  ⟨.misused, "", tree, none, #[]⟩

/-- What a command leaves that passes its failures on. -/
def ofResult (tree : Files.Tree) : Logged (Except Failure (String × Files.Tree)) → Outcome
  | ⟨.ok (output, after), log⟩ => ⟨.done, output, after, none, log⟩
  | ⟨.error failure, log⟩ => ⟨.refused, "", tree, some failure, log⟩

end Outcome

/-- The words of a program file, without padding. -/
def readProgram (tree : Files.Tree) (location : Files.Location) :
    Logged (Except Failure (List Int)) :=
  match tree.read location with
  | .error fault => ⟨.error (.file fault), #[Program.loadingLine location.text]⟩
  | .ok contents =>
    let ⟨result, log⟩ := Program.loadFile location.text contents 0
    ⟨result.mapError .program, log⟩

end IntegerMachine.Command
