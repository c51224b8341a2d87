import IntegerMachine.Command.Disassemble
import IntegerMachine.Command.Run

/-!
# The command line

The first argument names a command, `run`, `asm` or `disasm`, and the others are its arguments.
The files they can name are read before the command is carried out, and those it changed are
written after it; `run` reads the standard input line by line, when the program waits for it.
-/

set_option autoImplicit false

namespace IntegerMachine.CommandLine

open Command

/-- The rounds a run may take. -/
def rounds : Nat := Nat.pow 2 62

/-- Writes log lines to the standard error. -/
def report (details : Bool) (log : Array Line) : IO Unit :=
  for line in log do
    if line.isShown details then IO.eprintln line.render

/-- Adds what stands at a place to a tree; what cannot be read is left out. -/
def look (tree : Files.Tree) (place : Files.Location) : IO Files.Tree := do
  try
    let path ← IO.FS.realPath place.text
    if ← path.isDir then
      return { tree with folders := place :: tree.folders }
    else
      return tree.put place (← IO.FS.readFile path)
  catch _ => return tree

/-- The places on the way to a location, itself included. -/
def placesTo (location : Files.Location) : List Files.Location :=
  (List.range (location.names.length + 1)).map fun n =>
    { location with names := location.names.take n }.plain

/-- The files and folders that arguments can name. -/
def filesFor (arguments : List String) : IO Files.Tree :=
  (arguments.flatMap fun text => placesTo (Files.Location.ofText text)).foldlM look
    { files := [], folders := [] }

/-- Writes the files that were changed. -/
def writeChanged (after before : Files.Tree) : IO Unit :=
  for (location, text) in after.changed before do
    IO.FS.createDirAll location.parent.text
    IO.FS.writeFile location.text text

/-- Hands a machine the standard input, line by line, until it stops for good. -/
partial def converse (call : Run) (lines : List String) (m : Machine) :
    IO (Except Failure Suspension) := do
  match Console.turn rounds call.style m with
  | none => return .ok .active
  | some turn =>
    IO.print turn.output
    (← IO.getStdout).flush
    report call.verbose turn.log
    match turn.stop with
    | .failed fault => return .error (.machine fault)
    | .halted => return .ok .halted
    | .waiting m =>
      let lines ← match lines with
        | [] =>
          let read ← (← IO.getStdin).getLine
          pure (Text.lines (String.ofList (Text.unifyNewlines read.toList)))
        | _ => pure lines
      match lines with
      | [] =>
        report call.verbose #[Console.starvedLine m]
        return .ok .blocked
      | line :: rest =>
        let ⟨fed, log⟩ := call.style.feed m line
        report call.verbose log
        match fed with
        | .error fault => return .error (.program fault)
        | .ok m => converse call rest m

/-- Executes the program of a call. -/
def run (tree : Files.Tree) (call : Run) : IO Exit := do
  let ⟨machine, log⟩ := (call.machine tree).withLog #[Run.openingLine]
  report call.verbose log
  let outcome ← match machine with
    | .error failure => pure (.error failure)
    | .ok m => converse call [] m
  let (exit, log) := Run.ending outcome
  report call.verbose log
  return exit

/-- Shows and writes what a command left. -/
def conclude (tree : Files.Tree) (details : Bool) (outcome : Outcome) : IO Exit := do
  report details outcome.log
  IO.print outcome.output
  writeChanged outcome.tree tree
  if let some failure := outcome.failure? then IO.eprintln failure.message
  return outcome.exit

/-- Carries out a call, unless the arguments are no use. -/
def carry {α : Type} (perform : α → IO Exit) : Except Misuse α → IO Exit
  | .ok call => perform call
  | .error misuse => do
    IO.eprintln misuse.message
    return .misused

/-- Carries out the command of a name. -/
def dispatch (name : String) (arguments : List String) : IO Exit := do
  let tree ← filesFor arguments
  match name with
  | "run" => carry (run tree) (Run.ofArguments tree arguments)
  | "asm" =>
    carry (fun call => conclude tree call.verbose (call.perform tree))
      (Assemble.ofArguments arguments)
  | "disasm" =>
    carry (fun call => conclude tree call.verbose (call.perform tree))
      (Disassemble.ofArguments arguments)
  | _ =>
    IO.eprintln s!"No such command: {name}"
    return .misused

end IntegerMachine.CommandLine

/-- Carries out the command that the first argument names. -/
def main (arguments : List String) : IO UInt32 := do
  match arguments with
  | [] =>
    IO.eprintln "Missing command: run, asm or disasm"
    return IntegerMachine.Command.Exit.misused.code.toUInt32
  | name :: rest =>
    let exit ← IntegerMachine.CommandLine.dispatch name rest
    return exit.code.toUInt32
