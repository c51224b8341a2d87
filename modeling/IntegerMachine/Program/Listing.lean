import IntegerMachine.Word

/-!
# Listings

A listing names every word of a program: a word that begins an instruction whose operands all
follow it is shown with them as a command, any other word as data.  The entries follow each
other without gap or overlap.
-/

set_option autoImplicit false

namespace IntegerMachine.Program

/-- What one line of a listing shows. -/
inductive Entry where
  /-- A word that begins no instruction. -/
  | data (word : Int)
  /-- An instruction with the mode and the word of every operand. -/
  | command (opcode : Opcode) (operands : List (Mode × Int))
  deriving DecidableEq, Repr

namespace Entry

/-- The words an entry covers. -/
def size : Entry → Nat
  | data _ => 1
  | command _ operands => 1 + operands.length

/-- An operand with the mark of its mode. -/
def operandText (operand : Mode × Int) : String :=
  operand.1.mark ++ toString operand.2

/-- The text of an entry, in the form assembly text has. -/
def text : Entry → String
  | data word => s!".data {word}"
  | command opcode operands =>
    String.intercalate " " (opcode.mnemonic :: operands.map operandText)

/-- The instruction that a word and the words after it make up. -/
def command? (word : Int) (rest : List Int) : Option Entry := do
  let (code, digits) := Word.split word
  let opcode ← Opcode.ofCode? code
  if word < 0 ∨ rest.length < opcode.operands then none
  else
    let modes ← (digits.take opcode.operands).mapM Mode.ofDigit?
    return command opcode (modes.zip rest)

/-- The entry of a word that other words follow. -/
def ofWords (word : Int) (rest : List Int) : Entry :=
  (command? word rest).getD (data word)

/-- Every entry of a listing covers a word, so the listing moves on. -/
theorem one_le_size (entry : Entry) : 1 ≤ entry.size := by
  cases entry <;> simp [size]

end Entry

/-- The entry at an address, none past the end. -/
def entryAt? (words : List Int) (address : Nat) : Option Entry :=
  match words.drop address with
  | [] => none
  | word :: rest => some (.ofWords word rest)

/-- The entries of words that begin at an address, each with its own address. -/
def entriesFrom (address : Nat) (words : List Int) : List (Nat × Entry) :=
  match words with
  | [] => []
  | word :: rest =>
    let entry := Entry.ofWords word rest
    (address, entry) :: entriesFrom (address + entry.size) (rest.drop (entry.size - 1))
termination_by words.length
decreasing_by simp only [List.length_drop, List.length_cons]; omega

/-- The entries of a program. -/
def entries (words : List Int) : List (Nat × Entry) :=
  entriesFrom 0 words

/-- An address with at least five digits. -/
def addressText (address : Nat) : String :=
  let digits := toString address
  String.ofList (List.replicate (5 - digits.length) '0') ++ digits

/-- The line of a listing for an entry at an address. -/
def listingLine (entry : Nat × Entry) : String :=
  s!"{addressText entry.1}: {entry.2.text}"

/-- The lines of the listing of a program. -/
def listing (words : List Int) : List String :=
  (entries words).map listingLine

end IntegerMachine.Program
