import IntegerMachine.Toml.Scan

/-!
# Tables

Changing a table somewhere inside a table.  Tables on the way that do not exist are created;
an array of tables on the way stands for its last table.
-/

set_option autoImplicit false

namespace IntegerMachine.Toml

namespace Table

/-- Gives a key a value, in place if the table has the key. -/
def put (key : String) (value : Value) : Table → Table
  | [] => [(key, value)]
  | entry :: rest => if entry.1 = key then (key, value) :: rest else entry :: put key value rest

/-- Gives a new key a value; the cause is raised if the table has the key. -/
def add (cause : Cause) (key : String) (value : Value) (table : Table) : Except Cause Table :=
  if (table.lookup key).isSome then .error cause else .ok (table.put key value)

/-- Appends an empty table to the array of tables at a key. -/
def addItem (key : String) (table : Table) : Except Cause Table :=
  match table.lookup key with
  | none => .ok (table.put key (.array [.table []]))
  | some (.array items) => .ok (table.put key (.array (items ++ [.table []])))
  | some _ => .error .overwritten

/-- Changes the table at a path.  Arrays of tables are passed through if `throughArrays`. -/
def change (throughArrays : Bool) (f : Table → Except Cause Table) :
    Path → Table → Except Cause Table
  | [], table => f table
  | key :: path, table =>
    match table.lookup key with
    | none => (change throughArrays f path []).map fun inner => table.put key (.table inner)
    | some (.table inner) =>
      (change throughArrays f path inner).map fun inner => table.put key (.table inner)
    | some (.array items) =>
      match if throughArrays then items.getLast? else none with
      | some (.table inner) =>
        (change throughArrays f path inner).map fun inner =>
          table.put key (.array (items.dropLast ++ [.table inner]))
      | _ => .error .overwritten
    | some _ => .error .overwritten

end Table

end IntegerMachine.Toml
