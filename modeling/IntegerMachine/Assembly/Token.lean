import IntegerMachine.Text.Literal
import IntegerMachine.Text.Numeral

/-!
# Tokens of assembly text

Names, values and operands.  A scanner takes its token from the front of a text and gives what
follows it; what it takes and what it gives are the whole text.
-/

set_option autoImplicit false

namespace IntegerMachine.Assembly

open Text

/-- Whether a name may begin with a character. -/
def isNameStart (c : Char) : Bool :=
  c.isAlpha || c == '_'

/-- Whether a character may stand in a name. -/
def isNamePart (c : Char) : Bool :=
  c.isAlphanum || c == '_'

/-- Whether a character may stand in the name of a scope. -/
def isScopePart (c : Char) : Bool :=
  isNamePart c || c == '.'

/-- Whether a mnemonic may not touch a character. -/
def isWordPart (c : Char) : Bool :=
  isNamePart c || c == '$'

/-- What stands between the name of a scope and a name in it. -/
def separator : List Char := [':', ':']

/-- A character of one class and the characters of another that follow it. -/
def scanWord? (start part : Char → Bool) : List Char → Option (List Char × List Char)
  | [] => none
  | c :: rest =>
    if start c then some (c :: rest.takeWhile part, rest.dropWhile part) else none

/-- A word and what follows it are the whole text, and the word has a character. -/
theorem eq_append_of_scanWord? {start part : Char → Bool} {text word rest : List Char}
    (h : scanWord? start part text = some (word, rest)) : text = word ++ rest ∧ word ≠ [] := by
  cases text with
  | nil => exact absurd h (by simp [scanWord?])
  | cons c text =>
    rw [scanWord?] at h
    split at h
    · obtain ⟨rfl, rfl⟩ := Prod.mk.inj (Option.some.inj h)
      exact ⟨by rw [List.cons_append, List.takeWhile_append_dropWhile], by simp⟩
    · exact absurd h (by simp)

/-- The name at the front of a text. -/
def scanName? (text : List Char) : Option (List Char × List Char) :=
  scanWord? isNameStart isNamePart text

/-- The name of a scope at the front of a text with the separator after it, or nothing. -/
def scanScope (text : List Char) : List Char × List Char :=
  match scanWord? isNameStart isScopePart text with
  | none => ([], text)
  | some (scope, rest) =>
    match after? separator rest with
    | none => ([], text)
    | some rest => (scope ++ separator, rest)

/-- A scope, or nothing, and what follows it are the whole text. -/
theorem scanScope_append (text : List Char) :
    (scanScope text).1 ++ (scanScope text).2 = text := by
  unfold scanScope
  split
  · rfl
  · rename_i scope rest hword
    split
    · rfl
    · rename_i rest' hafter
      rw [(eq_append_of_scanWord? hword).1, eq_append_of_after? hafter, List.append_assoc]

/-- The reference at the front of a text: an ampersand and a name, with or without a scope. -/
def scanReference? : List Char → Option (List Char × List Char)
  | '&' :: text =>
    (scanName? (scanScope text).2).map fun (name, rest) =>
      ('&' :: ((scanScope text).1 ++ name), rest)
  | _ => none

/-- A reference and what follows it are the whole text. -/
theorem eq_append_of_scanReference? {text reference rest : List Char}
    (h : scanReference? text = some (reference, rest)) : text = reference ++ rest := by
  unfold scanReference? at h
  split at h
  · rename_i tail
    obtain ⟨⟨name, rest'⟩, hname, hpair⟩ := Option.map_eq_some_iff.mp h
    obtain ⟨rfl, rfl⟩ := Prod.mk.inj hpair
    have happend := scanScope_append tail
    rw [(eq_append_of_scanWord? hname).1] at happend
    rw [List.cons_append, List.append_assoc, happend]
  · exact absurd h (by simp)

/-- The value at the front of a text: a numeral or a reference. -/
def scanValue? (text : List Char) : Option (List Char × List Char) :=
  (scanNumeral text).or (scanReference? text)

/-- A value takes characters from the text. -/
theorem length_lt_of_scanValue? {text value rest : List Char}
    (h : scanValue? text = some (value, rest)) : rest.length < text.length := by
  unfold scanValue? at h
  rcases Option.or_eq_some_iff.mp h with hnumeral | ⟨-, hreference⟩
  · exact length_lt_of_scanNumeral hnumeral
  · have happend := eq_append_of_scanReference? hreference
    unfold scanReference? at hreference
    split at hreference
    · obtain ⟨⟨name, rest'⟩, -, hpair⟩ := Option.map_eq_some_iff.mp hreference
      obtain ⟨rfl, rfl⟩ := Prod.mk.inj hpair
      rw [happend]
      simp only [List.length_append, List.length_cons]
      omega
    · exact absurd hreference (by simp)

/-- An operand as it is written: its value, with a mark if one stands before it. -/
structure Operand where
  mark : Option Char
  value : List Char
  deriving DecidableEq, Repr

/-- The mark at the front of a text, if there is one. -/
def scanMark : List Char → Option Char × List Char
  | '#' :: rest => (some '#', rest)
  | '~' :: rest => (some '~', rest)
  | text => (none, text)

/-- What follows a mark, or no mark, is no longer than the text. -/
theorem length_scanMark_le (text : List Char) : (scanMark text).2.length ≤ text.length := by
  unfold scanMark
  split <;> simp

/-- The operand at the front of a text, after blanks. -/
def scanOperand? (text : List Char) : Option (Operand × List Char) :=
  let marked := scanMark (skipBlanks text)
  (scanValue? (skipBlanks marked.2)).map fun (value, rest) => (⟨marked.1, value⟩, rest)

/-- An operand takes characters from the text, those of its value at least. -/
theorem length_lt_of_scanOperand? {text rest : List Char} {operand : Operand}
    (h : scanOperand? text = some (operand, rest)) : rest.length < text.length := by
  unfold scanOperand? at h
  obtain ⟨⟨value, rest'⟩, hvalue, hpair⟩ := Option.map_eq_some_iff.mp h
  obtain ⟨-, rfl⟩ := Prod.mk.inj hpair
  have h₁ := length_lt_of_scanValue? hvalue
  have h₂ := length_skipBlanks_le (scanMark (skipBlanks text)).2
  have h₃ := length_scanMark_le (skipBlanks text)
  have h₄ := length_skipBlanks_le text
  omega

/-- A number of operands at the front of a text. -/
def scanOperands? : Nat → List Char → Option (List Operand × List Char)
  | 0, text => some ([], text)
  | count + 1, text =>
    match scanOperand? text with
    | none => none
    | some (operand, rest) =>
      (scanOperands? count rest).map fun (operands, rest) => (operand :: operands, rest)

/-- What follows operands, possibly none, is no longer than the text. -/
theorem length_le_of_scanOperands? {count : Nat} {text rest : List Char}
    {operands : List Operand} (h : scanOperands? count text = some (operands, rest)) :
    rest.length ≤ text.length := by
  induction count generalizing text operands with
  | zero =>
    obtain ⟨-, rfl⟩ := Prod.mk.inj (Option.some.inj h)
    exact Nat.le_refl _
  | succ count ih =>
    rw [scanOperands?] at h
    split at h
    · exact absurd h (by simp)
    · rename_i operand tail hoperand
      obtain ⟨⟨operands', rest'⟩, hmore, hpair⟩ := Option.map_eq_some_iff.mp h
      obtain ⟨-, rfl⟩ := Prod.mk.inj hpair
      have := ih hmore
      have := length_lt_of_scanOperand? hoperand
      omega

/-- The values at the front of a text, each after blanks. -/
def scanValues (text : List Char) : List (List Char) × List Char :=
  match h : scanValue? (skipBlanks text) with
  | none => ([], text)
  | some (value, rest) =>
    have : rest.length < text.length :=
      Nat.lt_of_lt_of_le (length_lt_of_scanValue? h) (length_skipBlanks_le text)
    let (values, rest) := scanValues rest
    (value :: values, rest)
termination_by text.length

/-- What follows as many values as there are is no longer than the text. -/
theorem length_scanValues_le (text : List Char) : (scanValues text).2.length ≤ text.length := by
  fun_induction scanValues text with
  | case1 => exact Nat.le_refl _
  | case2 text value rest hvalue hlt values rest' hmore ih =>
    rw [hmore] at ih
    exact Nat.le_trans ih (Nat.le_of_lt hlt)

end IntegerMachine.Assembly
