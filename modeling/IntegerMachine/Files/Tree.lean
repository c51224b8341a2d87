import IntegerMachine.Files.Location
import IntegerMachine.Text.Quoted

/-!
# Trees of files

Text files and folders by their places.  A folder exists if it is listed or on the way to a
file; the folder at hand, those above it and the root always do.
-/

set_option autoImplicit false

namespace IntegerMachine.Files

/-- Files and folders by their plain locations. -/
structure Tree where
  files : List (Location × String)
  folders : List Location
  deriving Repr

/-- Why a file cannot be read or written. -/
inductive Fault where
  | missing (location : Location)
  | exists (location : Location)
  | notFolder (location : Location)
  | isFolder (location : Location)
  /-- A name, or the whole location, is longer than a file system takes. -/
  | overlong (location : Location)
  | nullCharacter
  deriving DecidableEq, Repr

/-- A location between quotes. -/
def quotedLocation (location : Location) : String :=
  Text.quoted location.text.toList

/-- The text of a fault. -/
def Fault.message : Fault → String
  | missing location => s!"[Errno 2] No such file or directory: {quotedLocation location}"
  | .exists location => s!"[Errno 17] File exists: {quotedLocation location}"
  | notFolder location => s!"[Errno 20] Not a directory: {quotedLocation location}"
  | isFolder location => s!"[Errno 21] Is a directory: {quotedLocation location}"
  | overlong location => s!"[Errno 36] File name too long: {quotedLocation location}"
  | nullCharacter => "embedded null byte"

/-- What stands at a location. -/
inductive Kind where
  | file (text : String)
  | folder
  /-- Nothing stands there, but it can be created. -/
  | vacant
  /-- A file stands where a folder is needed. -/
  | blocked
  /-- Nothing can stand there, as a name or the whole location is too long. -/
  | overlong
  /-- Nothing can stand there, as no name has a null character. -/
  | unnamable
  deriving DecidableEq, Repr

namespace Tree

/-- What stands at a plain location. -/
def kindAt (tree : Tree) (place : Location) : Kind :=
  match tree.files.lookup place with
  | some text => .file text
  | none =>
    if place.names.all (· == "..") || tree.folders.contains place ||
        tree.files.any fun file => place.isOnWay file.1 then .folder
    else .vacant

/-- The most bytes a name can have. -/
def maxNameSize : Nat := 255

/-- The most bytes a location can have. -/
def maxLocationSize : Nat := 4095

/-- Follows names from a place; every name but the last must be of a folder. -/
def follow (tree : Tree) (place : Location) : List String → Kind
  | [] => tree.kindAt place
  | name :: rest =>
    match tree.kindAt place with
    | .folder =>
      if name.utf8ByteSize ≤ maxNameSize then follow tree (place.child name) rest else .overlong
    | .vacant => .vacant
    | _ => .blocked

/-- What stands at a location. -/
def look (tree : Tree) (location : Location) : Kind :=
  if location.text.toList.contains '\x00' then .unnamable
  else if location.text.utf8ByteSize ≤ maxLocationSize then
    tree.follow location.start location.names
  else .overlong

/-- The text of a file. -/
def read (tree : Tree) (location : Location) : Except Fault String :=
  match tree.look location with
  | .file text => .ok text
  | .folder => .error (.isFolder location)
  | .vacant => .error (.missing location)
  | .blocked => .error (.notFolder location)
  | .overlong => .error (.overlong location)
  | .unnamable => .error .nullCharacter

/-- Lists a folder. -/
def addFolder (tree : Tree) (location : Location) : Tree :=
  { tree with folders := location.plain :: tree.folders }

/-- Creates the missing folders at the names that follow a folder, one after the other.  A name
that leads up again is followed only after the folder before it is there. -/
def makeFolders (tree : Tree) (folder : Location) : List String → Except Fault Tree
  | [] => .ok tree
  | name :: rest =>
    let location := { folder with names := folder.names ++ [name] }
    match tree.look location with
    | .folder => tree.makeFolders location rest
    | .vacant => (tree.addFolder location).makeFolders location rest
    | .file _ => .error (.exists location)
    | .blocked => .error (.notFolder location)
    | .overlong => .error (.overlong location)
    | .unnamable => .error .nullCharacter

/-- Creates a folder and the folders it lies in.  Where the location itself tells that there
can be no folder, nothing is created. -/
def makeFolder (tree : Tree) (location : Location) : Except Fault Tree :=
  match tree.look location with
  | .folder => .ok tree
  | .vacant => tree.makeFolders location.start location.names
  | .file _ => .error (.exists location)
  | .blocked => .error (.notFolder location)
  | .overlong => .error (.overlong location)
  | .unnamable => .error .nullCharacter

/-- Gives the file at a plain location a text. -/
def put (tree : Tree) (place : Location) (text : String) : Tree :=
  { tree with files := (place, text) :: tree.files.filter fun file => file.1 != place }

/-- Writes a file, and creates the folder it lies in. -/
def write (tree : Tree) (location : Location) (text : String) : Except Fault Tree := do
  let tree ← tree.makeFolder location.parent
  match tree.look location with
  | .folder => throw (.isFolder location)
  | .blocked => throw (.notFolder location)
  | .overlong => throw (.overlong location)
  | .unnamable => throw .nullCharacter
  | _ => return tree.put location.plain text

/-- The tree of files given by location and text. -/
def ofFiles (files : List (String × String)) : Tree where
  files := files.map fun file => ((Location.ofText file.1).plain, file.2)
  folders := []

/-- The files that are new or have another text than in an earlier tree. -/
def changed (tree before : Tree) : List (Location × String) :=
  tree.files.filter fun file => before.files.lookup file.1 != some file.2

end Tree

end IntegerMachine.Files
