import IntegerMachine.Assembly.Program
import IntegerMachine.Files.Location
import IntegerMachine.Text.Lines

/-!
# Assembly files

A file of assembly text is a module named for the file.
-/

set_option autoImplicit false

namespace IntegerMachine.Assembly

/-- The source in a file. -/
def Source.ofFile (location : Files.Location) (contents : String) : Source where
  package := none
  name := location.stem
  text := String.ofList (Text.unifyNewlines contents.toList)

/-- The line logged before an assembly file is read. -/
def collectingLine (location : Files.Location) : Line :=
  .debug s!"Collecting file {location.text}"

end IntegerMachine.Assembly
