import IntegerMachine.Assembly.Token
import IntegerMachine.Text.Lines
import IntegerMachine.Word

/-!
# Statements of assembly text

Assembly text is a sequence of statements: labels, commands, data, and what is none of these up
to the end of its line.  Blanks separate tokens but are needed only where tokens would join,
and comments stand between statements.  Every text is read to its end.
-/

set_option autoImplicit false

namespace IntegerMachine.Assembly

open Text

/-- A statement of assembly text. -/
inductive Statement where
  /-- Names the place of the next word. -/
  | label (name : List Char)
  /-- An instruction with its operands. -/
  | command (opcode : Opcode) (operands : List Operand)
  /-- Words as they are. -/
  | data (values : List (List Char))
  /-- The rest of a line that is no statement. -/
  | unknown (text : List Char)
  deriving DecidableEq, Repr

namespace Statement

/-- Whether the statement ends in a character that a mnemonic may not touch. -/
def endsInWord : Statement → Bool
  | label _ => false
  | command _ _ => true
  | data _ => true
  | unknown _ => false

end Statement

/-- The label at the front of a text: a name and a colon, with blanks before the colon or
none. -/
def scanLabel? (text : List Char) : Option (Statement × List Char) :=
  match scanName? text with
  | none => none
  | some (name, rest) =>
    match skipBlanks rest with
    | ':' :: rest => some (.label name, rest)
    | _ => none

/-- The command of an opcode at the front of a text: its mnemonic, which no further character of
a word follows, and as many operands as it takes. -/
def scanCommandOf? (opcode : Opcode) (text : List Char) : Option (Statement × List Char) :=
  match after? opcode.mnemonic.toList text with
  | none => none
  | some rest =>
    if rest.head?.any isWordPart then none
    else
      (scanOperands? opcode.operands rest).map fun (operands, rest) =>
        (.command opcode operands, rest)

/-- The command at the front of a text. -/
def scanCommand? (text : List Char) : Option (Statement × List Char) :=
  Opcode.all.findSome? fun opcode => scanCommandOf? opcode text

/-- The word that begins data. -/
def dataWord : List Char := ['.', 'd', 'a', 't', 'a']

/-- The data at the front of a text: the word that begins it and at least one value. -/
def scanData? (text : List Char) : Option (Statement × List Char) :=
  match after? dataWord text with
  | none => none
  | some rest =>
    match scanValues rest with
    | ([], _) => none
    | (values, rest) => some (.data values, rest)

/-- What is left of a text after its first line. -/
def skipLine (text : List Char) : List Char :=
  text.dropWhile (· != '\n')

/-- The label, command or data at the front of a text.  No command begins where a word ended
just before. -/
def scanKnown? (glued : Bool) (text : List Char) : Option (Statement × List Char) :=
  ((scanLabel? text).or (if glued then none else scanCommand? text)).or (scanData? text)

/-- The statement at the front of a text that begins with the given character, which is not
blank. -/
def scanStatement (glued : Bool) (c : Char) (rest : List Char) : Statement × List Char :=
  match scanKnown? glued (c :: rest) with
  | some found => found
  | none => (.unknown (c :: rest.takeWhile (· != '\n')), skipLine rest)

/-- A label takes characters from the text. -/
theorem length_lt_of_scanLabel? {text rest : List Char} {statement : Statement}
    (h : scanLabel? text = some (statement, rest)) : rest.length < text.length := by
  unfold scanLabel? at h
  split at h
  · exact absurd h (by simp)
  · rename_i name tail hname
    split at h
    · rename_i rest' hcolon
      obtain ⟨-, rfl⟩ := Prod.mk.inj (Option.some.inj h)
      have h₁ := length_skipBlanks_le tail
      rw [hcolon, List.length_cons] at h₁
      have h₂ := congrArg List.length (eq_append_of_scanWord? hname).1
      rw [List.length_append] at h₂
      omega
    · exact absurd h (by simp)

/-- A command takes characters from the text: no mnemonic is empty. -/
theorem length_lt_of_scanCommand? {text rest : List Char} {statement : Statement}
    (h : scanCommand? text = some (statement, rest)) : rest.length < text.length := by
  obtain ⟨opcode, -, hcommand⟩ := List.exists_of_findSome?_eq_some h
  unfold scanCommandOf? at hcommand
  split at hcommand
  · exact absurd hcommand (by simp)
  · rename_i tail hafter
    split at hcommand
    · exact absurd hcommand (by simp)
    · obtain ⟨⟨operands, rest'⟩, hoperands, hpair⟩ := Option.map_eq_some_iff.mp hcommand
      obtain ⟨-, rfl⟩ := Prod.mk.inj hpair
      have h₁ := length_le_of_scanOperands? hoperands
      have h₂ := congrArg List.length (eq_append_of_after? hafter)
      have h₃ : 0 < opcode.mnemonic.toList.length := by cases opcode <;> decide
      rw [List.length_append] at h₂
      omega

/-- Data takes characters from the text: the word that begins it is not empty. -/
theorem length_lt_of_scanData? {text rest : List Char} {statement : Statement}
    (h : scanData? text = some (statement, rest)) : rest.length < text.length := by
  unfold scanData? at h
  split at h
  · exact absurd h (by simp)
  · rename_i tail hafter
    have h₁ := length_scanValues_le tail
    have h₂ := congrArg List.length (eq_append_of_after? hafter)
    rw [List.length_append, dataWord] at h₂
    simp only [List.length_cons] at h₂
    split at h
    · exact absurd h (by simp)
    · rename_i values rest' _ hvalues
      obtain ⟨-, rfl⟩ := Prod.mk.inj (Option.some.inj h)
      rw [hvalues] at h₁
      simp only [List.length_nil] at h₂
      exact Nat.lt_of_le_of_lt h₁ (by omega)

/-- What is left after a line is no longer than the text. -/
theorem length_skipLine_le (text : List Char) : (skipLine text).length ≤ text.length :=
  (List.dropWhile_sublist _).length_le

/-- Whatever is found at the front takes characters from the text, on which the reading of the whole
text ends. -/
theorem length_lt_of_scanKnown? {glued : Bool} {text rest : List Char} {statement : Statement}
    (h : scanKnown? glued text = some (statement, rest)) : rest.length < text.length := by
  rcases Option.or_eq_some_iff.mp h with hfirst | ⟨-, hdata⟩
  · rcases Option.or_eq_some_iff.mp hfirst with hlabel | ⟨-, hcommand⟩
    · exact length_lt_of_scanLabel? hlabel
    · split at hcommand
      · exact absurd hcommand (by simp)
      · exact length_lt_of_scanCommand? hcommand
  · exact length_lt_of_scanData? hdata

/-- A statement is never empty. -/
theorem length_scanStatement_le (glued : Bool) (c : Char) (rest : List Char) :
    (scanStatement glued c rest).2.length ≤ rest.length := by
  unfold scanStatement
  split
  · rename_i found hfound
    exact Nat.le_of_lt_succ (length_lt_of_scanKnown? hfound)
  · exact length_skipLine_le rest

/-- Whether a text begins with a blank. -/
def startsBlank (text : List Char) : Bool :=
  text.head?.any isBlank

/-- The statements of a text free of tabs.  The text is glued to what stands before it if that
ends in a word. -/
def statementsFrom (glued : Bool) (text : List Char) : List Statement :=
  match h : skipBlanks text with
  | [] => []
  | '/' :: '/' :: rest =>
    have : (skipLine rest).length < text.length := by
      have h₁ := length_skipLine_le rest
      have h₂ := length_skipBlanks_le text
      rw [h] at h₂
      simp only [List.length_cons] at h₂
      omega
    statementsFrom false (skipLine rest)
  | c :: rest =>
    let found := scanStatement (glued && !startsBlank text) c rest
    have : found.2.length < text.length := by
      have h₁ : found.2.length ≤ rest.length := length_scanStatement_le _ c rest
      have h₂ := length_skipBlanks_le text
      rw [h, List.length_cons] at h₂
      omega
    found.1 :: statementsFrom found.1.endsInWord found.2
termination_by text.length

/-- The statements of assembly text. -/
def parse (text : List Char) : List Statement :=
  statementsFrom false (expandTabs text)

end IntegerMachine.Assembly
