import IntegerMachine.Console.Text
import IntegerMachine.Program.Text
import IntegerMachine.Text.Escape

/-!
# Executing a program

A program runs until it halts.  Whenever it blocks, the next line of the standard input is fed
to it, and when there is none left the execution ends blocked.  What the machine wrote is
printed each time it stops; if it fails, what it wrote since the last stop is not.

The standard output is taken to be no terminal: control sequences are dropped from text that is
printed there (`Style.printed`), and only there.
-/

set_option autoImplicit false

namespace IntegerMachine.Console

/-- How input lines are read and outputs printed. -/
inductive Style where
  /-- Input lines are program texts; every output is printed on a line of its own. -/
  | numbers
  /-- Input lines are text; outputs that are characters are printed as text. -/
  | text
  deriving DecidableEq, Repr

/-- Why an execution fails. -/
inductive Failure where
  | machine (fault : Fault)
  /-- An input line is not loaded as a list of numbers. -/
  | input (refusal : Program.Refusal)
  deriving DecidableEq, Repr

/-- Numbers, each on a line. -/
def numberLines (values : List Int) : String :=
  String.join (values.map fun value => s!"{value}\n")

namespace Style

/-- What is printed for the outputs of one run, where the standard output is no terminal.  Text is
printed at once, and loses the control sequences that are whole within it. -/
def printed : Style → List Int → String
  | numbers, values => numberLines values
  | text, values =>
    String.ofList (Text.withoutEscapes (textOf values)) ++ numberLines (extraOf values)

/-- Feeds a line of the standard input to a machine. -/
def feed (style : Style) (m : Machine) (line : String) :
    Logged (Except Program.Refusal Machine) :=
  match style with
  | numbers =>
    match Program.load line 0 with
    | ⟨.error refusal, log⟩ => ⟨.error refusal, log⟩
    | ⟨.ok values, log⟩ => ⟨.ok (m.feedAll values), log⟩
  | text =>
    let (m, line) := m.sendLine (Text.withoutNewline line)
    ⟨.ok m, #[line]⟩

end Style

/-- How far a machine got before it stopped. -/
inductive Stop where
  | failed (fault : Fault)
  | halted
  /-- It waits for a line of input. -/
  | waiting (m : Machine)

/-- What a machine did until it stopped: where it stands, what it printed and what it logged. -/
structure Turn where
  stop : Stop
  output : String
  log : Array Line

/-- Runs a machine until it stops. -/
def turn (rounds : Nat) (style : Style) (m : Machine) : Option Turn :=
  (m.run rounds).map fun reply =>
    match reply with
    | ⟨.error fault, _, log⟩ => ⟨.failed fault, "", log⟩
    | ⟨.ok values, m, log⟩ =>
      ⟨if m.isHalted then .halted else .waiting m, style.printed values, log⟩

/-- The line logged when a machine waits and there is no input left. -/
def starvedLine (m : Machine) : Line :=
  .info s!"Blocked on input at IP:{m.ip}"

/-- How an execution ended, what it printed and what it logged. -/
structure Execution where
  outcome : Except Failure Suspension
  output : String
  log : Array Line

/-- The execution of a machine on the lines left of the standard input, after what was printed
and logged already. -/
def converse (rounds : Nat) (style : Style) (lines : List String) (m : Machine)
    (output : String) (log : Array Line) : Option Execution :=
  match turn rounds style m with
  | none => none
  | some ⟨.failed fault, printed, logged⟩ =>
    some ⟨.error (.machine fault), output ++ printed, log ++ logged⟩
  | some ⟨.halted, printed, logged⟩ => some ⟨.ok .halted, output ++ printed, log ++ logged⟩
  | some ⟨.waiting m, printed, logged⟩ =>
    match lines with
    | [] => some ⟨.ok .blocked, output ++ printed, (log ++ logged).push (starvedLine m)⟩
    | line :: rest =>
      match style.feed m line with
      | ⟨.error refusal, read⟩ =>
        some ⟨.error (.input refusal), output ++ printed, log ++ logged ++ read⟩
      | ⟨.ok m, read⟩ => converse rounds style rest m (output ++ printed) (log ++ logged ++ read)

/-- Executes a program with some values queued and a standard input. -/
def execute (rounds : Nat) (program : List Int) (settings : Settings) (inputs : List Int)
    (style : Style) (input : String) : Option Execution :=
  converse rounds style (Text.lines input) ((Machine.boot program settings).feedAll inputs) "" #[]

end IntegerMachine.Console
