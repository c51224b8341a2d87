import IntegerMachine.Assembly.Action
import IntegerMachine.Proofs.Text.Numeral
import IntegerMachine.Proofs.Text.Tabs

/-!
# Renderings of statements

How assembly text is written, said without a scanner.  A statement is a row of tokens.  Blanks
stand between its tokens, and a comment, which goes to the end of its line, may stand between
two statements.  `Renders spaced apart statements text` says that a text shows the statements in
this way; it is spaced when tokens touch only where a reader cannot take them for one, and it
is apart when something must stand before its first statement.

Whether a text renders statements does not depend on its tabs: `Renders.detabs` puts spaces for
them and `Renders.of_detabs` takes them back.
-/

set_option autoImplicit false

namespace IntegerMachine.Assembly

open Text

/-! ## Tokens -/

/-- A character of one class, and characters of another behind it. -/
def IsWord (start part : Char → Bool) : List Char → Prop
  | [] => False
  | c :: rest => start c = true ∧ rest.all part = true

/-- A name. -/
abbrev IsName (text : List Char) : Prop := IsWord isNameStart isNamePart text

/-- The name of a scope. -/
abbrev IsScope (text : List Char) : Prop := IsWord isNameStart isScopePart text

/-- A signed decimal, or an ampersand and a name with its scope or without. -/
inductive IsProperValue : List Char → Prop
  | numeral {text : List Char} (h : IsNumeral text) : IsProperValue text
  | name {name : List Char} (h : IsName name) : IsProperValue ('&' :: name)
  | qualified {scope name : List Char} (hscope : IsScope scope) (hname : IsName name) :
    IsProperValue ('&' :: Assembly.qualified scope name)

/-- A proper value with a mark of a mode or none. -/
structure Operand.IsProper (operand : Operand) : Prop where
  mark_eq : operand.mark = none ∨ operand.mark = some '#' ∨ operand.mark = some '~'
  value : IsProperValue operand.value

namespace Statement

/-- A statement that can be written: a command has all its operands, data has a value. -/
def IsProper : Statement → Prop
  | label name => IsName name
  | command opcode operands =>
    operands.length = opcode.operands ∧ ∀ operand ∈ operands, operand.IsProper
  | data values => values ≠ [] ∧ ∀ value ∈ values, IsProperValue value
  | unknown _ => False

/-- The tokens of a statement. -/
def tokens : Statement → List (List Char)
  | label name => [name, [':']]
  | command opcode operands => opcode.mnemonic.toList :: operands.flatMap Operand.tokens
  | data values => dataWord :: values
  | unknown text => [text]

end Statement

/-! ## Renderings -/

/-- A mark of a mode. -/
def IsMark (token : List Char) : Prop :=
  token = ['#'] ∨ token = ['~']

/-- Two tokens of a statement may touch if they are a mark and its value or a name and its
colon. -/
def MayTouch (token next : List Char) : Prop :=
  IsMark token ∨ next = [':']

/-- A text of tokens behind a token, with a gap of blanks in front of each.  If it is spaced, the
gap is empty only where tokens may touch. -/
inductive Behind (spaced : Bool) : List Char → List (List Char) → List Char → Prop
  | nil (token : List Char) : Behind spaced token [] []
  | cons {token next gap text : List Char} {tokens : List (List Char)}
      (hblank : ∀ c ∈ gap, isBlank c = true)
      (hgap : spaced = true → ¬ MayTouch token next → gap ≠ [])
      (h : Behind spaced next tokens text) :
    Behind spaced token (next :: tokens) (gap ++ (next ++ text))

/-- A text of tokens. -/
def Written (spaced : Bool) : List (List Char) → List Char → Prop
  | [], _ => False
  | token :: tokens, text => ∃ tail, text = token ++ tail ∧ Behind spaced token tokens tail

/-- A text of proper statements with blanks and comments around them. -/
inductive Renders (spaced : Bool) : Bool → List Statement → List Char → Prop
  | nil (apart : Bool) : Renders spaced apart [] []
  | blank (apart : Bool) {statements : List Statement} {c : Char} {text : List Char}
      (hblank : isBlank c = true) (h : Renders spaced false statements text) :
    Renders spaced apart statements (c :: text)
  /-- A comment, which ends before the first line feed. -/
  | comment (apart : Bool) {statements : List Statement} {body text : List Char}
      (hbody : '\n' ∉ body) (hend : ∀ c ∈ text.head?, c = '\n')
      (h : Renders spaced false statements text) :
    Renders spaced apart statements ('/' :: '/' :: (body ++ text))
  | statement {statement : Statement} {statements : List Statement} {body text : List Char}
      (hproper : statement.IsProper) (hbody : Written spaced statement.tokens body)
      (h : Renders spaced spaced statements text) :
    Renders spaced false (statement :: statements) (body ++ text)

/-- A token behind a space. -/
theorem behind_bare (token : List Char) {value text : List Char} {tokens : List (List Char)}
    (h : Behind true value tokens text) :
    Behind true token (value :: tokens) ([' '] ++ (value ++ text)) :=
  .cons (by simp [isBlank]) (by simp) h

/-! ## What tokens are made of -/

/-- The blanks. -/
def blanks : List Char := [' ', '\t', '\r', '\n']

/-- Every blank is in the list of blanks. -/
theorem mem_blanks_of_isBlank {c : Char} (h : isBlank c = true) : c ∈ blanks := by
  simpa [isBlank, blanks, or_assoc] using h

/-- A class without blanks has no blank. -/
theorem isBlank_eq_false_of_class {p : Char → Bool} (hp : blanks.any p = false) {c : Char}
    (h : p c = true) : isBlank c = false := by
  rw [← Bool.not_eq_true]
  intro hblank
  exact List.any_eq_false.mp hp c (mem_blanks_of_isBlank hblank) h

/-- A text that is not empty and has no blank. -/
structure IsInk (text : List Char) : Prop where
  ne_nil : text ≠ []
  any_isBlank : text.any isBlank = false

/-- No character of ink is a blank. -/
theorem IsInk.isBlank_eq_false {text : List Char} (h : IsInk text) {c : Char} (hc : c ∈ text) :
    isBlank c = false :=
  eq_false_of_ne_true (List.any_eq_false.mp h.any_isBlank c hc)

/-- A text without blanks is ink, unless it is empty. -/
theorem isInk_of_forall {text : List Char} (hne : text ≠ [])
    (h : ∀ c ∈ text, isBlank c = false) : IsInk text := by
  refine ⟨hne, List.any_eq_false.mpr ?_⟩
  intro c hc
  rw [h c hc]
  decide

/-- A word of characters that are no blanks is ink. -/
theorem isInk_of_isWord {start part : Char → Bool} (hstart : blanks.any start = false)
    (hpart : blanks.any part = false) {text : List Char} (h : IsWord start part text) :
    IsInk text := by
  cases text with
  | nil => exact h.elim
  | cons c rest =>
    apply isInk_of_forall (by simp)
    intro d hd
    rcases List.mem_cons.mp hd with rfl | hd
    · exact isBlank_eq_false_of_class hstart h.1
    · exact isBlank_eq_false_of_class hpart (List.all_eq_true.mp h.2 d hd)

/-- A name is ink. -/
theorem isInk_of_isName {name : List Char} (h : IsName name) : IsInk name :=
  isInk_of_isWord (by decide) (by decide) h

/-- The name of a scope is ink. -/
theorem isInk_of_isScope {scope : List Char} (h : IsScope scope) : IsInk scope :=
  isInk_of_isWord (by decide) (by decide) h

/-- A numeral is ink. -/
theorem isInk_of_isNumeral {numeral : List Char} (h : IsNumeral numeral) : IsInk numeral := by
  apply isInk_of_forall
  · exact h.ne_nil
  · intro c hc
    rw [← signMark_append_splitSign numeral] at hc
    rcases List.mem_append.mp hc with hsign | hdigit
    · unfold signMark at hsign
      split at hsign
      · rw [List.mem_singleton.mp hsign]
        decide
      · rw [List.mem_singleton.mp hsign]
        decide
      · exact absurd hsign List.not_mem_nil
    · exact isBlank_eq_false_of_class (by decide) (h.isDigit_of_mem c hdigit)

/-- Ink behind ink is ink. -/
theorem IsInk.append {front back : List Char} (hfront : IsInk front) (hback : IsInk back) :
    IsInk (front ++ back) := by
  refine ⟨by simp [hfront.ne_nil], ?_⟩
  rw [List.any_append, hfront.any_isBlank, hback.any_isBlank, Bool.or_false]

/-- A value is ink. -/
theorem isInk_of_isProperValue {value : List Char} (h : IsProperValue value) : IsInk value := by
  have hampersand : IsInk ['&'] := ⟨by simp, rfl⟩
  have hseparator : IsInk separator := ⟨by decide, rfl⟩
  cases h with
  | numeral h => exact isInk_of_isNumeral h
  | name h => exact hampersand.append (isInk_of_isName h)
  | qualified hscope hname =>
    exact hampersand.append
      (((isInk_of_isScope hscope).append hseparator).append (isInk_of_isName hname))

/-- The tokens of a proper operand are ink. -/
theorem Operand.IsProper.isInk_of_mem_tokens {operand : Operand} (h : operand.IsProper) :
    ∀ token ∈ operand.tokens, IsInk token := by
  obtain ⟨mark, value⟩ := operand
  have hvalue := isInk_of_isProperValue h.value
  have hmark : ∀ c, mark = some c → IsInk [c] := by
    rintro c rfl
    rcases h.mark_eq with hc | hc | hc
    · exact absurd hc (by simp)
    · obtain rfl : c = '#' := Option.some.inj hc
      exact ⟨by simp, rfl⟩
    · obtain rfl : c = '~' := Option.some.inj hc
      exact ⟨by simp, rfl⟩
  intro token htoken
  cases mark with
  | none =>
    rw [List.mem_singleton.mp htoken]
    exact hvalue
  | some c =>
    rcases List.mem_cons.mp htoken with rfl | htoken
    · exact hmark c rfl
    · rw [List.mem_singleton.mp htoken]
      exact hvalue

/-- A mnemonic is ink. -/
theorem isInk_mnemonic (opcode : Opcode) : IsInk opcode.mnemonic.toList := by
  cases opcode <;> exact ⟨by decide, rfl⟩

/-- No token has a blank in it. -/
theorem Statement.IsProper.isInk_of_mem_tokens {statement : Statement} (h : statement.IsProper) :
    ∀ token ∈ statement.tokens, IsInk token := by
  intro token htoken
  cases statement with
  | label name =>
    rcases List.mem_cons.mp htoken with rfl | htoken
    · exact isInk_of_isName h
    · rw [List.mem_singleton.mp htoken]
      exact ⟨by simp, rfl⟩
  | command opcode operands =>
    rcases List.mem_cons.mp htoken with rfl | htoken
    · exact isInk_mnemonic opcode
    · obtain ⟨operand, hoperand, htoken⟩ := List.mem_flatMap.mp htoken
      exact (h.2 operand hoperand).isInk_of_mem_tokens token htoken
  | data values =>
    rcases List.mem_cons.mp htoken with rfl | htoken
    · exact ⟨by decide, rfl⟩
    · exact isInk_of_isProperValue (h.2 token htoken)
  | unknown text => exact h.elim

/-! ## Tabs -/

/-- No blank is in ink. -/
theorem IsInk.not_mem {text : List Char} (h : IsInk text) {c : Char} (hc : isBlank c = true) :
    c ∉ text := by
  intro hmem
  rw [h.isBlank_eq_false hmem] at hc
  exact absurd hc (by decide)

/-- A text that begins with ink begins with no blank. -/
theorem IsInk.isBlank_head {text : List Char} (h : IsInk text) (rest : List Char) :
    ∀ c ∈ (text ++ rest).head?, isBlank c = false := by
  intro c hc
  obtain ⟨d, text', rfl⟩ := List.exists_cons_of_ne_nil h.ne_nil
  obtain rfl : d = c := Option.some.inj hc
  exact h.isBlank_eq_false List.mem_cons_self

section Tokens

variable {spaced : Bool} {token : List Char} {tokens : List (List Char)}
  {text plain rest : List Char}

/-- Tabs turned to spaces stay between the tokens. -/
theorem Behind.detabs (h : Behind spaced token tokens text) (hink : ∀ token ∈ tokens, IsInk token)
    (htabs : Detabs text plain) : Behind spaced token tokens plain := by
  induction h generalizing plain with
  | nil token =>
    rw [htabs.eq_nil_iff.mp rfl]
    exact .nil token
  | cons hblank hgap h ih =>
    obtain ⟨gap', more, rfl, hgaps, hmore⟩ := htabs.append_inv
    obtain ⟨text', rfl, htext⟩ :=
      hmore.word_append_inv ((hink _ List.mem_cons_self).not_mem rfl)
    apply cons (hgaps.all_isBlank_iff.mp hblank)
    · intro hspaced htouch hnil
      exact hgap hspaced htouch (hgaps.eq_nil_iff.mpr hnil)
    · exact ih (fun token htoken => hink token (List.mem_cons_of_mem _ htoken)) htext

/-- Spaces turned back to tabs stay between the tokens, and what follows the tokens comes from what
followed them. -/
theorem Behind.of_detabs (h : Behind spaced token tokens plain)
    (hink : ∀ token ∈ tokens, IsInk token) (htabs : Detabs text (plain ++ rest)) :
    ∃ front back, text = front ++ back ∧ Behind spaced token tokens front ∧ Detabs back rest := by
  induction h generalizing text with
  | nil token => exact ⟨[], text, rfl, .nil token, htabs⟩
  | @cons token next gap plain tokens hblank hgap h ih =>
    have hnext := hink next List.mem_cons_self
    rw [List.append_assoc, List.append_assoc] at htabs
    have hspace : (next ++ (plain ++ rest)).head? ≠ some ' ' := fun hhead =>
      absurd (hnext.isBlank_head _ ' ' hhead) (by decide)
    obtain ⟨gap', more, rfl, hgaps, hmore⟩ := htabs.of_append hspace
    obtain ⟨text', rfl, htext⟩ := hmore.of_word_append (hnext.not_mem rfl)
    obtain ⟨front, back, rfl, hfront, hback⟩ :=
      ih (fun token htoken => hink token (List.mem_cons_of_mem _ htoken)) htext
    refine ⟨gap' ++ (next ++ front), back, by simp, ?_, hback⟩
    apply cons (hgaps.all_isBlank_iff.mpr hblank) _ hfront
    intro hspaced htouch hnil
    exact hgap hspaced htouch (hgaps.eq_nil_iff.mp hnil)

/-- A text of tokens is one still when its tabs are turned to spaces. -/
theorem Written.detabs (h : Written spaced tokens text) (hink : ∀ token ∈ tokens, IsInk token)
    (htabs : Detabs text plain) : Written spaced tokens plain := by
  cases tokens with
  | nil => exact h
  | cons token tokens =>
    obtain ⟨tail, rfl, hbehind⟩ := h
    obtain ⟨tail', rfl, htail⟩ :=
      htabs.word_append_inv ((hink token List.mem_cons_self).not_mem rfl)
    have hlater := fun token htoken => hink token (List.mem_cons_of_mem _ htoken)
    exact ⟨tail', rfl, hbehind.detabs hlater htail⟩

/-- A text of tokens came from one of the same tokens when its tabs were turned to spaces. -/
theorem Written.of_detabs (h : Written spaced tokens plain)
    (hink : ∀ token ∈ tokens, IsInk token) (htabs : Detabs text (plain ++ rest)) :
    ∃ front back, text = front ++ back ∧ Written spaced tokens front ∧ Detabs back rest := by
  cases tokens with
  | nil => exact h.elim
  | cons token tokens =>
    obtain ⟨tail, rfl, hbehind⟩ := h
    rw [List.append_assoc] at htabs
    obtain ⟨more, rfl, hmore⟩ :=
      htabs.of_word_append ((hink token List.mem_cons_self).not_mem rfl)
    have hlater := fun token htoken => hink token (List.mem_cons_of_mem _ htoken)
    obtain ⟨front, back, rfl, hfront, hback⟩ := hbehind.of_detabs hlater hmore
    exact ⟨token ++ front, back, by simp, ⟨front, rfl, hfront⟩, hback⟩

end Tokens

namespace Renders

variable {spaced apart : Bool} {statements : List Statement} {text plain : List Char}

/-- A text still renders its statements when spaces are put for its tabs. -/
theorem detabs (h : Renders spaced apart statements text) (htabs : Detabs text plain) :
    Renders spaced apart statements plain := by
  induction h generalizing plain with
  | nil apart =>
    rw [htabs.eq_nil_iff.mp rfl]
    exact .nil apart
  | @blank apart statements c text hblank h ih =>
    -- The spaces of one tab are as many blanks.
    generalize hcons : c :: text = whole at htabs
    induction htabs generalizing apart with
    | nil => exact absurd hcons (by simp)
    | last htail =>
      obtain ⟨rfl, rfl⟩ := List.cons.inj hcons
      exact .blank apart rfl (ih htail)
    | more _ ihmore => exact .blank apart rfl (ihmore false hcons)
    | keep _ htail =>
      obtain ⟨rfl, rfl⟩ := List.cons.inj hcons
      exact .blank apart hblank (ih htail)
  | @comment apart statements body text hbody hend h ih =>
    have htabs : Detabs (['/', '/'] ++ (body ++ text)) plain := htabs
    obtain ⟨rest, rfl, hrest⟩ := htabs.word_append_inv (by decide)
    obtain ⟨body', text', rfl, hbodies, htext⟩ := hrest.append_inv
    have hbody' : '\n' ∉ body' := by rwa [← hbodies.mem_iff (by decide) (by decide)]
    have hcomment := comment apart hbody' (htext.head_iff.mp hend) (ih htext)
    exact hcomment
  | statement hproper hbody h ih =>
    obtain ⟨body', text', rfl, hbodies, htext⟩ := htabs.append_inv
    exact .statement hproper (hbody.detabs hproper.isInk_of_mem_tokens hbodies) (ih htext)

/-- A text renders what it renders with spaces for its tabs. -/
theorem of_detabs (h : Renders false apart statements plain) (htabs : Detabs text plain) :
    Renders false false statements text := by
  induction h generalizing text with
  | nil apart =>
    rw [htabs.eq_nil_iff.mpr rfl]
    exact .nil false
  | blank apart hblank h ih =>
    cases htabs with
    | last htail => exact .blank false rfl (ih htail)
    | more htail => exact ih htail
    | keep _ htail => exact .blank false hblank (ih htail)
  | @comment apart statements body plain hbody hend h ih =>
    have htabs : Detabs text (['/', '/'] ++ (body ++ plain)) := htabs
    obtain ⟨rest, rfl, hrest⟩ := htabs.of_word_append (by decide)
    have hspace : plain.head? ≠ some ' ' := fun hhead => absurd (hend ' ' hhead) (by decide)
    obtain ⟨body', text', rfl, hbodies, htext⟩ := hrest.of_append hspace
    have hbody' : '\n' ∉ body' := by rwa [hbodies.mem_iff (by decide) (by decide)]
    have hcomment := comment false hbody' (htext.head_iff.mpr hend) (ih htext)
    exact hcomment
  | statement hproper hbody h ih =>
    obtain ⟨front, back, rfl, hfront, hback⟩ :=
      hbody.of_detabs hproper.isInk_of_mem_tokens htabs
    exact .statement hproper hfront (ih hback)

end Renders

end IntegerMachine.Assembly
