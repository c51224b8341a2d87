import IntegerMachine.Assembly.Program
import IntegerMachine.Proofs.Text.Numeral

/-!
# The form of what is read

Statements are lists of texts, and drafting them has a fault for each text that makes no sense.
The scanners never give such a text: a command has the operands of its opcode, a mark is one of
the two marks, and a value is a numeral or an ampersand and a name.  `isWritten_of_mem_parse`
says so of every statement of every text.
-/

set_option autoImplicit false

namespace IntegerMachine.Assembly

open Text

/-- A value in one of its two forms. -/
inductive IsValue : List Char → Prop where
  | numeral {text : List Char} (h : IsNumeral text) : IsValue text
  | reference (name : List Char) : IsValue ('&' :: name)

/-- An operand with a mark of a mode or none, before a value. -/
structure Operand.IsWritten (operand : Operand) : Prop where
  mark_eq : operand.mark = none ∨ operand.mark = some '#' ∨ operand.mark = some '~'
  isValue : IsValue operand.value

/-- A statement that the scanners give. -/
def Statement.IsWritten : Statement → Prop
  | label _ => True
  | command opcode operands =>
    operands.length = opcode.operands ∧ ∀ operand ∈ operands, operand.IsWritten
  | data values => ∀ value ∈ values, IsValue value
  | unknown _ => True

/-! ## Values and operands -/

/-- What is taken as a value has one of the two forms. -/
theorem isValue_of_scanValue? {text value rest : List Char}
    (h : scanValue? text = some (value, rest)) : IsValue value := by
  unfold scanValue? at h
  rcases Option.or_eq_some_iff.mp h with hnumeral | ⟨-, hreference⟩
  · exact .numeral (isNumeral_of_scanNumeral hnumeral)
  · unfold scanReference? at hreference
    split at hreference
    · obtain ⟨found, -, hpair⟩ := Option.map_eq_some_iff.mp hreference
      obtain ⟨rfl, -⟩ := Prod.mk.inj hpair
      exact .reference _
    · exact absurd hreference (by simp)

/-- A mark is a number sign or a tilde, if there is one. -/
theorem scanMark_eq (text : List Char) :
    (scanMark text).1 = none ∨ (scanMark text).1 = some '#' ∨ (scanMark text).1 = some '~' := by
  unfold scanMark
  split
  · exact .inr (.inl rfl)
  · exact .inr (.inr rfl)
  · exact .inl rfl

/-- What is taken as an operand is one as it can be written. -/
theorem isWritten_of_scanOperand? {text rest : List Char} {operand : Operand}
    (h : scanOperand? text = some (operand, rest)) : operand.IsWritten := by
  unfold scanOperand? at h
  obtain ⟨⟨value, rest'⟩, hvalue, hpair⟩ := Option.map_eq_some_iff.mp h
  obtain ⟨rfl, -⟩ := Prod.mk.inj hpair
  exact ⟨scanMark_eq _, isValue_of_scanValue? hvalue⟩

/-- As many operands are taken as are asked for, each as it can be written. -/
theorem isWritten_of_scanOperands? {count : Nat} {text rest : List Char}
    {operands : List Operand} (h : scanOperands? count text = some (operands, rest)) :
    operands.length = count ∧ ∀ operand ∈ operands, operand.IsWritten := by
  induction count generalizing text operands with
  | zero =>
    obtain ⟨rfl, -⟩ := Prod.mk.inj (Option.some.inj h)
    exact ⟨rfl, by simp⟩
  | succ count ih =>
    rw [scanOperands?] at h
    split at h
    · exact absurd h (by simp)
    · rename_i first tail hfirst
      obtain ⟨⟨others, rest'⟩, hothers, hpair⟩ := Option.map_eq_some_iff.mp h
      obtain ⟨rfl, rfl⟩ := Prod.mk.inj hpair
      obtain ⟨hlength, hwritten⟩ := ih hothers
      refine ⟨by rw [List.length_cons, hlength], ?_⟩
      intro operand hmem
      rcases List.mem_cons.mp hmem with rfl | hmem
      · exact isWritten_of_scanOperand? hfirst
      · exact hwritten operand hmem

/-- Whatever is taken among values has one of the two forms. -/
theorem isValue_of_mem_scanValues (text : List Char) :
    ∀ value ∈ (scanValues text).1, IsValue value := by
  fun_induction scanValues text with
  | case1 => simp
  | case2 text first rest hfirst hlt values rest' hmore ih =>
    intro value hmem
    rw [hmore] at ih
    rcases List.mem_cons.mp hmem with rfl | hmem
    · exact isValue_of_scanValue? hfirst
    · exact ih value hmem

/-! ## Statements -/

/-- A label that is found can be written. -/
theorem isWritten_of_scanLabel? {text rest : List Char} {statement : Statement}
    (h : scanLabel? text = some (statement, rest)) : statement.IsWritten := by
  unfold scanLabel? at h
  split at h
  · exact absurd h (by simp)
  · split at h
    · obtain ⟨rfl, -⟩ := Prod.mk.inj (Option.some.inj h)
      exact trivial
    · exact absurd h (by simp)

/-- A command that is found has as many operands as its opcode takes. -/
theorem isWritten_of_scanCommand? {text rest : List Char} {statement : Statement}
    (h : scanCommand? text = some (statement, rest)) : statement.IsWritten := by
  obtain ⟨opcode, -, hcommand⟩ := List.exists_of_findSome?_eq_some h
  unfold scanCommandOf? at hcommand
  split at hcommand
  · exact absurd hcommand (by simp)
  · split at hcommand
    · exact absurd hcommand (by simp)
    · obtain ⟨⟨operands, rest'⟩, hoperands, hpair⟩ := Option.map_eq_some_iff.mp hcommand
      obtain ⟨rfl, -⟩ := Prod.mk.inj hpair
      exact isWritten_of_scanOperands? hoperands

/-- Data that is found consists of values. -/
theorem isWritten_of_scanData? {text rest : List Char} {statement : Statement}
    (h : scanData? text = some (statement, rest)) : statement.IsWritten := by
  unfold scanData? at h
  split at h
  · exact absurd h (by simp)
  · rename_i tail _
    have hvalues := isValue_of_mem_scanValues tail
    split at h
    · exact absurd h (by simp)
    · rename_i values rest' _ hscan
      obtain ⟨rfl, -⟩ := Prod.mk.inj (Option.some.inj h)
      rw [hscan] at hvalues
      exact hvalues

/-- A statement that is found, or the unknown one, can be written. -/
theorem isWritten_scanStatement (glued : Bool) (c : Char) (rest : List Char) :
    (scanStatement glued c rest).1.IsWritten := by
  unfold scanStatement
  split
  · rename_i found hfound
    rcases Option.or_eq_some_iff.mp hfound with hfirst | ⟨-, hdata⟩
    · rcases Option.or_eq_some_iff.mp hfirst with hlabel | ⟨-, hcommand⟩
      · exact isWritten_of_scanLabel? hlabel
      · split at hcommand
        · exact absurd hcommand (by simp)
        · exact isWritten_of_scanCommand? hcommand
    · exact isWritten_of_scanData? hdata
  · exact trivial

/-- All statements read from a text can be written. -/
theorem isWritten_of_mem_statementsFrom (glued : Bool) (text : List Char) :
    ∀ statement ∈ statementsFrom glued text, statement.IsWritten := by
  fun_induction statementsFrom glued text with
  | case1 => simp
  | case2 glued text rest hblanks hlt ih => exact ih
  | case3 glued text c rest hblanks hcomment found hlt ih =>
    intro statement hmem
    rcases List.mem_cons.mp hmem with rfl | hmem
    · exact isWritten_scanStatement _ c rest
    · exact ih statement hmem

/-- Every statement of a text is in written form. -/
theorem isWritten_of_mem_parse (text : List Char) :
    ∀ statement ∈ parse text, statement.IsWritten :=
  isWritten_of_mem_statementsFrom false (expandTabs text)

end IntegerMachine.Assembly
