/-!
# Locations of files

A location is a list of names, each of a folder but the last, from the folder at hand or from
the root.  Names that are empty or a single dot are left out.
-/

set_option autoImplicit false

namespace IntegerMachine.Files

/-- A place in the file system. -/
structure Location where
  /-- What stands before the names: nothing, or the slashes of the root. -/
  root : String
  names : List String
  deriving DecidableEq, Repr

namespace Location

/-- The parts of a text between slashes. -/
def splitSlashes : List Char → List (List Char)
  | [] => [[]]
  | c :: rest =>
    if c = '/' then [] :: splitSlashes rest
    else
      match splitSlashes rest with
      | [] => [[c]]
      | part :: parts => (c :: part) :: parts

/-- The slashes of the root at the front of a text; just two stay two, more are one. -/
def rootOf (text : List Char) : String :=
  match text.takeWhile (· == '/') with
  | [] => ""
  | ['/', '/'] => "//"
  | _ => "/"

/-- The location a text names. -/
def ofText (text : String) : Location where
  root := rootOf text.toList
  names :=
    ((splitSlashes text.toList).filter fun name => !name.isEmpty && name != ['.']).map String.ofList

/-- Whether a text can name a folder only: nothing or a single dot stands after its last
slash. -/
def namesFolder (text : String) : Bool :=
  match (splitSlashes text.toList).getLast? with
  | none => true
  | some last => last.isEmpty || last == ['.']

/-- The text of a location; a dot stands for the folder at hand. -/
def text (location : Location) : String :=
  if location.root.isEmpty && location.names.isEmpty then "."
  else location.root ++ String.intercalate "/" location.names

/-- The location one name up. -/
def parent (location : Location) : Location :=
  { location with names := location.names.dropLast }

/-- The location of a name in a folder whose own location leads down only, from the folder at
hand, from the root or from a folder above.  Two dots lead up, from the root to itself. -/
def child (folder : Location) (name : String) : Location :=
  if name = ".." then
    match folder.names.getLast? with
    | none => if folder.root.isEmpty then { folder with names := [name] } else folder
    | some last =>
      if last = ".." then { folder with names := folder.names ++ [name] } else folder.parent
  else { folder with names := folder.names ++ [name] }

/-- The beginning of a location without its names: the folder at hand or the root. -/
def start (location : Location) : Location :=
  { location with names := [] }

/-- The same place with every step back up undone. -/
def plain (location : Location) : Location :=
  location.names.foldl child location.start

/-- Whether a location lies below the folder at hand, itself included. -/
def isBelow (location : Location) : Bool :=
  location.root.isEmpty && location.names.head? != some ".."

/-- Whether a folder is on the way to a location. -/
def isOnWay (folder location : Location) : Bool :=
  folder.root == location.root && folder.names.isPrefixOf location.names

/-- The last name of a location. -/
def name (location : Location) : String :=
  location.names.getLastD ""

/-- The last name without what follows its last dot, unless that dot begins or ends the name. -/
def stem (location : Location) : String :=
  let reversed := location.name.toList.reverse
  let ending := reversed.takeWhile (· != '.')
  match reversed.drop ending.length with
  | '.' :: before =>
    if ending.isEmpty || before.isEmpty then location.name else String.ofList before.reverse
  | _ => location.name

end Location

end IntegerMachine.Files
