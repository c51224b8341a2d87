import IntegerMachine.Log
import IntegerMachine.Settings
import IntegerMachine.Text.Lines
import IntegerMachine.Toml.Document

/-!
# Settings files

Machine settings are declared in the table `machine` of a TOML document.  The dialect and the
padding are checked when the file is read, though a padding may be a number that is no integer;
that is refused only when a machine is started.  Growth and trace are kept as they are declared
and count as true or false then.
-/

set_option autoImplicit false

namespace IntegerMachine

namespace Settings

/-- Settings as a file declares them; without a file nothing is declared. -/
structure Declared where
  dialect : Dialect := ({} : Settings).dialect
  padding : Toml.Value := .integer defaultPadding
  growMemory : Option Toml.Value := none
  trace : Toml.Value := .boolean ({} : Settings).trace
  deriving Repr

/-- Why a settings file is refused. -/
inductive Refusal where
  /-- The text is no TOML document. -/
  | malformed (fault : Toml.Malformed)
  /-- The settings are no table. -/
  | noTable (value : Toml.Value)
  | unknownDialect (value : Toml.Value)
  /-- The padding cannot be compared with a number. -/
  | noNumber (value : Toml.Value)
  | negativePadding (value : Toml.Value)
  /-- The padding is no count of cells. -/
  | noCount (value : Toml.Value)
  deriving Repr

/-- The text of a refusal. -/
def Refusal.message : Refusal → String
  | malformed fault => fault.message
  | noTable value => s!"'{value.kind}' object has no attribute 'get'"
  | unknownDialect value => s!"{value.shown} is not a valid Dialect"
  | noNumber value => s!"'<' not supported between instances of '{value.kind}' and 'int'"
  | negativePadding value => s!"Negative padding {value.shown}"
  | noCount value => s!"can't multiply sequence by non-int of type '{value.kind}'"

/-- Lays a change over what is declared. -/
def Declared.update (declared : Declared) (change : Change) : Except Refusal Declared := do
  let padding ← match change.padding with
    | none => pure declared.padding
    | some n => if n < 0 then throw (.negativePadding (.integer n)) else pure (.integer n)
  return {
    dialect := change.dialect.getD declared.dialect
    padding
    growMemory := (change.growMemory.map .boolean).or declared.growMemory
    trace := (change.trace.map .boolean).getD declared.trace }

/-- The settings a machine is started with. -/
def Declared.settings (declared : Declared) : Except Refusal Settings := do
  let padding ← match declared.padding with
    | .integer n => pure n.toNat
    | .boolean chosen => pure chosen.toNat
    | value => throw (.noCount value)
  return {
    dialect := declared.dialect
    padding
    growMemory := declared.growMemory.map Toml.Value.isTrue
    trace := declared.trace.isTrue }

/-- The dialect that is declared, the default if none is. -/
def declaredDialect : Option Toml.Value → Except Refusal Dialect
  | none => .ok ({} : Declared).dialect
  | some (.string name) =>
    match Dialect.ofName? name with
    | some dialect => .ok dialect
    | none => .error (.unknownDialect (.string name))
  | some value => .error (.unknownDialect value)

/-- The padding that is declared, the default if none is. -/
def declaredPadding : Option Toml.Value → Except Refusal Toml.Value
  | none => .ok ({} : Declared).padding
  | some (.integer n) =>
    if n < 0 then .error (.negativePadding (.integer n)) else .ok (.integer n)
  | some (.boolean value) => .ok (.boolean value)
  | some (.float x) =>
    if x.isNegative then .error (.negativePadding (.float x)) else .ok (.float x)
  | some value => .error (.noNumber value)

/-- The settings that a document declares. -/
def declared (document : Toml.Table) : Except Refusal Declared := do
  let table ← match document.lookup "machine" with
    | none => pure []
    | some (.table table) => pure table
    | some value => throw (.noTable value)
  let dialect ← declaredDialect (table.lookup "dialect")
  let padding ← declaredPadding (table.lookup "padding")
  return {
    dialect
    padding
    growMemory := table.lookup "grow_memory"
    trace := (table.lookup "trace").getD ({} : Declared).trace }

/-- The settings that the text of a file declares. -/
def parse (contents : String) : Except Refusal Declared :=
  match Toml.parse (Text.unifyNewlines contents.toList) with
  | .error fault => .error (.malformed fault)
  | .ok document => declared document

/-- The line logged before a settings file is read. -/
def loadingLine (path : String) : Line :=
  .debug s!"Loading settings from {path}"

end Settings

end IntegerMachine
