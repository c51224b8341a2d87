import IntegerMachine.Text.Literal

/-!
# Command line arguments

Options and operands stand in any order, and two dashes alone end the options.  An option is
named behind two dashes, and its value is the next argument or follows an equals sign.  It may
also have a letter behind one dash; letters are joined into one argument, of which the first
that takes a value takes all that follows it, or the next argument if nothing does.
-/

set_option autoImplicit false

namespace IntegerMachine.Command

/-- An option a command knows. -/
structure Switch (κ : Type) where
  key : κ
  letter? : Option Char
  /-- The name with its dashes. -/
  name : String
  takesValue : Bool
  deriving Repr

/-- Why arguments are refused. -/
inductive Misuse where
  | unknownOption (name : String)
  | missingValue (name : String)
  /-- A value is given to an option that takes none. -/
  | surplusValue (name : String)
  | missingOperand (name : String)
  | surplusOperand (text : String)
  | noInteger (name text : String)
  | unknownDialect (text : String)
  /-- No file is found under a name. -/
  | noFile (text : String)
  deriving DecidableEq, Repr

/-- The text of a refusal. -/
def Misuse.message : Misuse → String
  | unknownOption name => s!"No such option: {name}"
  | missingValue name => s!"Option '{name}' requires an argument."
  | surplusValue name => s!"Option '{name}' does not take a value."
  | missingOperand name => s!"Missing argument '{name}'."
  | surplusOperand text => s!"Got unexpected extra argument ({text})"
  | noInteger name text => s!"Invalid value for '{name}': '{text}' is not a valid integer."
  | unknownDialect text => s!"'{text}' is not a dialect."
  | noFile text => s!"File '{text}' does not exist."

/-- Arguments told apart: the options with their values, empty where none is taken, and the
operands, both in order. -/
structure Arguments (κ : Type) where
  options : List (κ × String)
  operands : List String
  deriving Repr

namespace Arguments

variable {κ : Type}

/-- The values given to an option. -/
def values [DecidableEq κ] (arguments : Arguments κ) (key : κ) : List String :=
  (arguments.options.filter fun option => option.1 == key).map Prod.snd

/-- The value that counts for an option: the last one given. -/
def value? [DecidableEq κ] (arguments : Arguments κ) (key : κ) : Option String :=
  (arguments.values key).getLast?

/-- Whether an option is given. -/
def has [DecidableEq κ] (arguments : Arguments κ) (key : κ) : Bool :=
  arguments.options.any fun option => option.1 == key

/-- The arguments with options before them. -/
def withOptions (options : List (κ × String)) (arguments : Arguments κ) : Arguments κ :=
  { arguments with options := options ++ arguments.options }

/-- The arguments with an operand before them. -/
def withOperand (operand : String) (arguments : Arguments κ) : Arguments κ :=
  { arguments with operands := operand :: arguments.operands }

/-- What one argument says: options with their values, and perhaps one whose value is the next
argument. -/
abbrev Reading (κ : Type) := List (κ × String) × Option (Switch κ)

/-- Reads joined letters. -/
def readLetters (switches : List (Switch κ)) : List Char → Except Misuse (Reading κ)
  | [] => .ok ([], none)
  | c :: rest =>
    match switches.find? fun switch => switch.letter? == some c with
    | none => .error (.unknownOption (String.ofList ['-', c]))
    | some switch =>
      if switch.takesValue then
        if rest.isEmpty then .ok ([], some switch)
        else .ok ([(switch.key, String.ofList rest)], none)
      else
        (readLetters switches rest).map fun (options, awaiting) =>
          ((switch.key, "") :: options, awaiting)

/-- Reads an option that is given by its name, with what follows an equals sign. -/
def readNamed (switch : Switch κ) : Option (List Char) → Except Misuse (Reading κ)
  | none => if switch.takesValue then .ok ([], some switch) else .ok ([(switch.key, "")], none)
  | some value =>
    if switch.takesValue then .ok ([(switch.key, String.ofList value)], none)
    else .error (.surplusValue switch.name)

/-- Reads an argument that begins with a dash. -/
def readOption (switches : List (Switch κ)) (argument : List Char) :
    Except Misuse (Reading κ) :=
  let (name, value?) :=
    match Text.splitAt? ['='] argument with
    | none => (argument, none)
    | some (name, value) => (name, some value)
  match switches.find? fun switch => switch.name.toList == name with
  | some switch => readNamed switch value?
  | none =>
    match argument with
    | '-' :: '-' :: _ => .error (.unknownOption (String.ofList name))
    | _ => readLetters switches argument.tail

/-- Whether an argument gives options: a dash and more. -/
def isOption (argument : String) : Bool :=
  match argument.toList with
  | '-' :: _ :: _ => true
  | _ => false

/-- Tells arguments apart. -/
def parse (switches : List (Switch κ)) : List String → Except Misuse (Arguments κ)
  | [] => .ok ⟨[], []⟩
  | argument :: rest =>
    if argument = "--" then .ok ⟨[], rest⟩
    else if isOption argument then
      match readOption switches argument.toList with
      | .error misuse => .error misuse
      | .ok (options, none) => (parse switches rest).map (withOptions options)
      | .ok (options, some switch) =>
        match rest with
        | [] => .error (.missingValue switch.name)
        | value :: rest =>
          (parse switches rest).map (withOptions (options ++ [(switch.key, value)]))
    else (parse switches rest).map (withOperand argument)

/-- The only operand. -/
def operand (arguments : Arguments κ) (name : String) : Except Misuse String :=
  match arguments.operands with
  | [] => .error (.missingOperand name)
  | [operand] => .ok operand
  | _ :: surplus :: _ => .error (.surplusOperand surplus)

end Arguments

end IntegerMachine.Command
