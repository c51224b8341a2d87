import IntegerMachine.Assembly.Program
import IntegerMachine.Proofs.Assembly.Scanning

/-!
# Reading renderings back

The statements of a text are what it renders.  `parse_eq_of_renders` reads a spaced rendering
back, whatever its gaps and comments are; the other way round, a text in which nothing is
refused renders its statements, so that nothing in it is skipped but blanks and comments.
-/

set_option autoImplicit false

namespace IntegerMachine.Assembly

open Text

/-! ## Where statements begin -/

/-- Every mnemonic could be a name. -/
theorem isName_mnemonic (opcode : Opcode) : IsName opcode.mnemonic.toList := by
  cases opcode <;> exact ⟨rfl, rfl⟩

/-- A text of tokens of which the first is a name begins with a character that can begin one. -/
theorem head_of_isName {spaced : Bool} {name body : List Char} {tokens : List (List Char)}
    (h : IsName name) (hbody : Written spaced (name :: tokens) body) (rest : List Char) :
    ∃ c tail, body ++ rest = c :: tail ∧ (c = '.' ∨ isNameStart c = true) := by
  obtain ⟨tail, rfl, -⟩ := hbody
  cases name with
  | nil => exact h.elim
  | cons c name => exact ⟨c, _, rfl, .inr h.1⟩

/-- A statement begins with a name or with the word of data. -/
theorem Statement.IsProper.head {statement : Statement} (h : statement.IsProper)
    {spaced : Bool} {body : List Char} (hbody : Written spaced statement.tokens body)
    (rest : List Char) :
    ∃ c tail, body ++ rest = c :: tail ∧ (c = '.' ∨ isNameStart c = true) := by
  cases statement with
  | label name => exact head_of_isName h hbody rest
  | command opcode operands => exact head_of_isName (isName_mnemonic opcode) hbody rest
  | data values =>
    obtain ⟨tail, rfl, -⟩ := hbody
    exact ⟨'.', _, rfl, .inl rfl⟩
  | unknown text => exact h.elim

/-- A statement begins with no blank and no comment. -/
theorem Statement.IsProper.head_ink {statement : Statement} (h : statement.IsProper)
    {spaced : Bool} {body : List Char} (hbody : Written spaced statement.tokens body)
    (rest : List Char) :
    ∃ c tail, body ++ rest = c :: tail ∧ isBlank c = false ∧ c ≠ '/' := by
  obtain ⟨c, tail, heq, hstart⟩ := h.head hbody rest
  refine ⟨c, tail, heq, ?_, ?_⟩
  · rcases hstart with rfl | hstart
    · rfl
    · exact isBlank_eq_false_of_class rfl hstart
  · rintro rfl
    exact absurd hstart (by decide)

/-- A character that begins no value and is neither blank nor a colon makes a text clear. -/
theorem clear_cons {c : Char} (hink : isBlank c = false) (hstart : isValueStart c = false)
    (hcolon : c ≠ ':') (text : List Char) : Clear (c :: text) := by
  have hskip : skipBlanks (c :: text) = c :: text := by
    apply skipBlanks_of_head
    intro d hd
    obtain rfl : c = d := Option.some.inj hd
    exact hink
  intro d hd
  rw [hskip] at hd
  obtain rfl : c = d := Option.some.inj hd
  exact ⟨hstart, hcolon⟩

/-- A blank in front changes nothing in whether a text is clear. -/
theorem clear_blank {c : Char} (hblank : isBlank c = true) {text : List Char} :
    Clear (c :: text) ↔ Clear text := by
  unfold Clear skipBlanks
  rw [List.dropWhile_cons, if_pos hblank]

/-- A rendering begins with no value and with no colon. -/
theorem Renders.clear {spaced apart : Bool} {statements : List Statement} {text : List Char}
    (h : Renders spaced apart statements text) : Clear text := by
  induction h with
  | nil apart =>
    intro c hc
    exact absurd hc (by simp [skipBlanks])
  | blank apart hblank h ih => exact (clear_blank hblank).mpr ih
  | comment apart hbody hend h ih => exact clear_cons rfl rfl (by decide) _
  | statement hproper hbody h ih =>
    obtain ⟨c, tail, heq, hstart⟩ := hproper.head hbody _
    rw [heq]
    rcases hstart with rfl | hstart
    · exact clear_cons rfl rfl (by decide) tail
    · refine clear_cons ?_ (isValueStart_of_isNameStart hstart) ?_ tail
      · exact isBlank_eq_false_of_class rfl hstart
      · rintro rfl
        exact absurd hstart (by decide)

/-- A rendering that is apart begins where no token goes on. -/
theorem Renders.ends {spaced : Bool} {statements : List Statement} {text : List Char}
    (h : Renders spaced true statements text) : Ends text := by
  intro c hc
  cases h with
  | nil _ => exact absurd hc (by simp)
  | blank _ hblank _ =>
    obtain rfl := Option.some.inj hc
    exact .inl hblank
  | comment _ _ _ _ =>
    obtain rfl := Option.some.inj hc
    exact .inr rfl

/-! ## Single statements -/

/-- Behind a literal stands what was put there. -/
theorem after?_append (literal rest : List Char) :
    after? literal (literal ++ rest) = some rest := by
  induction literal with
  | nil => rfl
  | cons c literal ih => rw [List.cons_append, after?, if_pos rfl, ih]

/-- A name and a colon, with any blanks between them, are read as a label. -/
theorem scanLabel?_append {name text rest : List Char} (h : IsName name)
    (hbehind : Behind true name [[':']] text) :
    scanLabel? (name ++ (text ++ rest)) = some (.label name, rest) := by
  cases hbehind with
  | @cons _ _ gap tail _ hblank _ hnil =>
    cases hnil with
    | nil _ =>
      have hcolon : ∀ c ∈ (([':'] ++ []) ++ rest).head?, isBlank c = false := by
        intro c hc
        obtain rfl : ':' = c := Option.some.inj hc
        rfl
      have hstop : ∀ c ∈ ((gap ++ ([':'] ++ [])) ++ rest).head?, isNamePart c = false := by
        cases gap with
        | nil =>
          intro c hc
          obtain rfl : ':' = c := Option.some.inj hc
          decide
        | cons d gap =>
          rw [List.append_assoc]
          exact (ends_append hblank (by simp) _).head rfl
      have hname : scanName? (name ++ ((gap ++ ([':'] ++ [])) ++ rest)) =
          some (name, (gap ++ ([':'] ++ [])) ++ rest) := scanWord?_append h hstop
      have hskip : skipBlanks ((gap ++ ([':'] ++ [])) ++ rest) = ':' :: rest := by
        rw [List.append_assoc, skipBlanks_append hblank hcolon]
        rfl
      rw [scanLabel?, hname]
      simp only [hskip]

/-- A word that no colon follows is no label. -/
theorem scanLabel?_eq_none {word text : List Char} (h : IsName word) (hends : Ends text)
    (hcolon : ∀ c ∈ (skipBlanks text).head?, c ≠ ':') : scanLabel? (word ++ text) = none := by
  have hname : scanName? (word ++ text) = some (word, text) :=
    scanWord?_append h (hends.head rfl)
  rw [scanLabel?, hname]
  split
  · rfl
  · rename_i word' text' heq
    obtain ⟨rfl, rfl⟩ := Prod.mk.inj (Option.some.inj heq)
    split
    · rename_i tail hskip
      rw [hskip] at hcolon
      exact absurd rfl (hcolon ':' rfl)
    · rfl

/-- No colon stands in front of operands. -/
theorem ne_colon_of_scanOperands? {count : Nat} {text rest : List Char} {operands : List Operand}
    (h : scanOperands? count text = some (operands, rest)) (hclear : Clear rest) :
    ∀ c ∈ (skipBlanks text).head?, c ≠ ':' := by
  cases count with
  | zero =>
    obtain ⟨-, rfl⟩ := Prod.mk.inj (Option.some.inj h)
    exact fun c hc => (hclear c hc).2
  | succ count =>
    rintro c hc rfl
    obtain ⟨tail, hskip⟩ := List.head?_eq_some_iff.mp hc
    have hnone : scanOperand? text = none := by
      rw [scanOperand?, hskip]
      rfl
    rw [scanOperands?, hnone] at h
    exact absurd h (by simp)

/-- No mnemonic begins with another. -/
theorem after?_mnemonic_of_ne {opcode other : Opcode} (h : other ≠ opcode) (rest : List Char) :
    after? other.mnemonic.toList (opcode.mnemonic.toList ++ rest) = none := by
  cases opcode <;> cases other <;> first | exact absurd rfl h | rfl

/-- Every opcode is among those that are tried. -/
theorem mem_all (opcode : Opcode) : opcode ∈ Opcode.all := by
  cases opcode <;> decide

/-- A mnemonic that no word part follows is read as its command, with the operands found behind it.
-/
theorem scanCommand?_append {opcode : Opcode} {operands : List Operand} {text rest : List Char}
    (hends : Ends text) (h : scanOperands? opcode.operands text = some (operands, rest)) :
    scanCommand? (opcode.mnemonic.toList ++ text) = some (.command opcode operands, rest) := by
  have hword : text.head?.any isWordPart = false := by
    have hhead := hends.head (p := isWordPart) rfl
    cases hfirst : text.head? with
    | none => rfl
    | some c => exact hhead c hfirst
  have hown : scanCommandOf? opcode (opcode.mnemonic.toList ++ text) =
      some (.command opcode operands, rest) := by
    rw [scanCommandOf?, after?_append]
    simp only [hword, h, Option.map_some]
    rfl
  -- no mnemonic is the beginning of another
  have hother : ∀ other, other ≠ opcode →
      scanCommandOf? other (opcode.mnemonic.toList ++ text) = none := by
    intro other hne
    rw [scanCommandOf?, after?_mnemonic_of_ne hne]
  rw [scanCommand?]
  cases hfind : Opcode.all.findSome? fun other =>
      scanCommandOf? other (opcode.mnemonic.toList ++ text) with
  | none =>
    have hnone := List.findSome?_eq_none_iff.mp hfind opcode (mem_all opcode)
    rw [hown] at hnone
    exact absurd hnone (by simp)
  | some found =>
    obtain ⟨other, -, hfound⟩ := List.exists_of_findSome?_eq_some hfind
    by_cases heq : other = opcode
    · rw [heq, hown] at hfound
      exact hfound.symm
    · rw [hother other heq] at hfound
      exact absurd hfound (by simp)

/-- The data word is read as data with the values found behind it, if there is one. -/
theorem scanData?_append {values : List (List Char)} {text rest : List Char} (hne : values ≠ [])
    (h : scanValues text = (values, rest)) :
    scanData? (dataWord ++ text) = some (.data values, rest) := by
  obtain ⟨value, values, rfl⟩ := List.exists_cons_of_ne_nil hne
  rw [scanData?, after?_append]
  simp only [h]

/-- A name is no mark. -/
theorem not_isMark_of_isName {name : List Char} (h : IsName name) : ¬ IsMark name := by
  rintro (rfl | rfl)
  · exact absurd h.1 (by decide)
  · exact absurd h.1 (by decide)

/-- A proper statement is taken from the front of a text in which no token goes on behind it. -/
theorem scanKnown?_append {statement : Statement} {body rest : List Char}
    (hproper : statement.IsProper) (hbody : Written true statement.tokens body)
    (hends : Ends rest) (hclear : Clear rest) :
    scanKnown? false (body ++ rest) = some (statement, rest) := by
  cases statement with
  | label name =>
    obtain ⟨tail, rfl, hbehind⟩ := hbody
    rw [List.append_assoc, scanKnown?, scanLabel?_append hproper hbehind, Option.some_or,
      Option.some_or]
  | command opcode operands =>
    obtain ⟨tail, rfl, hbehind⟩ := hbody
    have hname := isName_mnemonic opcode
    obtain ⟨hends', hscan⟩ :=
      scanOperands?_append (not_isMark_of_isName hname) hbehind hproper.2 hends
    rw [hproper.1] at hscan
    have hlabel := scanLabel?_eq_none hname hends' (ne_colon_of_scanOperands? hscan hclear)
    rw [List.append_assoc, scanKnown?, hlabel, Option.none_or, if_neg (by decide),
      scanCommand?_append hends' hscan, Option.some_or]
  | data values =>
    obtain ⟨tail, rfl, hbehind⟩ := hbody
    have hmark : ¬ IsMark dataWord := by
      rintro (hmark | hmark) <;> exact absurd hmark (by decide)
    obtain ⟨-, hscan⟩ := scanValues_append hmark hbehind hproper.2 hends hclear
    have hlabel : scanLabel? (dataWord ++ (tail ++ rest)) = none := rfl
    have hcommand : scanCommand? (dataWord ++ (tail ++ rest)) = none := rfl
    rw [List.append_assoc, scanKnown?, hlabel, hcommand, Option.none_or, ite_self, Option.none_or,
      scanData?_append hproper.1 hscan]
  | unknown text => exact hproper.elim

/-! ## Texts -/

/-- Blanks alone are no statement. -/
theorem statementsFrom_of_nil (glued : Bool) {text : List Char} (h : skipBlanks text = []) :
    statementsFrom glued text = [] := by
  rw [statementsFrom]
  split
  · rfl
  · rename_i hskip
    rw [h] at hskip
    exact absurd hskip (by simp)
  · rename_i hskip
    rw [h] at hskip
    exact absurd hskip (by simp)

/-- A comment is skipped up to the end of its line, and no statement ended just before what follows.
-/
theorem statementsFrom_of_comment (glued : Bool) {text rest : List Char}
    (h : skipBlanks text = '/' :: '/' :: rest) :
    statementsFrom glued text = statementsFrom false (skipLine rest) := by
  rw [statementsFrom]
  split
  · rename_i hskip
    rw [h] at hskip
    exact absurd hskip (by simp)
  · rename_i rest' hskip
    rw [h] at hskip
    obtain rfl : rest = rest' := by simpa using hskip
    rfl
  · rename_i hcomment hskip
    rw [h] at hskip
    obtain ⟨rfl, rfl⟩ := List.cons.inj hskip
    exact absurd rfl (hcomment rest rfl)

/-- At any other character one statement is read, and reading goes on where it ended. -/
theorem statementsFrom_of_cons (glued : Bool) {c : Char} {text rest : List Char}
    (h : skipBlanks text = c :: rest) (hcomment : ∀ tail, c = '/' → rest ≠ '/' :: tail) :
    statementsFrom glued text =
      (scanStatement (glued && !startsBlank text) c rest).1 ::
        statementsFrom (scanStatement (glued && !startsBlank text) c rest).1.endsInWord
          (scanStatement (glued && !startsBlank text) c rest).2 := by
  rw [statementsFrom]
  split
  · rename_i hskip
    rw [h] at hskip
    exact absurd hskip (by simp)
  · rename_i rest' hskip
    rw [h] at hskip
    obtain ⟨rfl, rfl⟩ := List.cons.inj hskip
    exact absurd rfl (hcomment rest' rfl)
  · rename_i hskip
    rw [h] at hskip
    obtain ⟨rfl, rfl⟩ := List.cons.inj hskip
    rfl

/-- Behind a blank nothing is glued. -/
theorem statementsFrom_blank (glued : Bool) {c : Char} (hblank : isBlank c = true)
    (text : List Char) : statementsFrom glued (c :: text) = statementsFrom false text := by
  have hskip : skipBlanks (c :: text) = skipBlanks text := by
    rw [skipBlanks, List.dropWhile_cons, if_pos hblank]
    rfl
  have hstarts : startsBlank (c :: text) = true := hblank
  cases htext : skipBlanks text with
  | nil =>
    rw [statementsFrom_of_nil glued (hskip.trans htext), statementsFrom_of_nil false htext]
  | cons d rest =>
    by_cases hcomment : ∃ tail, d :: rest = '/' :: '/' :: tail
    · obtain ⟨tail, htail⟩ := hcomment
      rw [htail] at htext
      rw [statementsFrom_of_comment glued (hskip.trans htext),
        statementsFrom_of_comment false htext]
    · have hno : ∀ tail, d = '/' → rest ≠ '/' :: tail := by
        rintro tail rfl rfl
        exact hcomment ⟨tail, rfl⟩
      rw [statementsFrom_of_cons glued (hskip.trans htext) hno,
        statementsFrom_of_cons false htext hno, hstarts, Bool.not_true, Bool.and_false,
        Bool.false_and]

/-- A line and what is left behind it. -/
theorem exists_line (text : List Char) :
    ∃ line, text = line ++ skipLine text ∧ line = text.takeWhile (· != '\n') ∧ '\n' ∉ line ∧
      ∀ c ∈ (skipLine text).head?, c = '\n' := by
  refine ⟨_, List.takeWhile_append_dropWhile.symm, rfl, ?_, ?_⟩
  · intro hmem
    have hne := List.all_eq_true.mp List.all_takeWhile '\n' hmem
    exact absurd hne (by decide)
  · intro c hc
    simpa using head_dropWhile (· != '\n') text c hc

/-- A line that holds no line feed is taken as a whole, up to one or to the end. -/
theorem skipLine_append {line rest : List Char} (hline : '\n' ∉ line)
    (hend : ∀ c ∈ rest.head?, c = '\n') :
    (line ++ rest).takeWhile (· != '\n') = line ∧ skipLine (line ++ rest) = rest := by
  have hfront : ∀ c ∈ line, (c != '\n') = true := by
    intro c hc
    rw [bne_iff_ne]
    rintro rfl
    exact hline hc
  have hrest : ∀ c ∈ rest.head?, (c != '\n') = false := by
    intro c hc
    rw [hend c hc]
    rfl
  exact ⟨takeWhile_append_of_head hfront hrest, dropWhile_append_of_head hfront hrest⟩

/-- A comment at the very front is skipped with its line. -/
theorem statementsFrom_comment (glued : Bool) {body text : List Char} (hbody : '\n' ∉ body)
    (hend : ∀ c ∈ text.head?, c = '\n') :
    statementsFrom glued ('/' :: '/' :: (body ++ text)) = statementsFrom false text := by
  have hskip : skipBlanks ('/' :: '/' :: (body ++ text)) = '/' :: '/' :: (body ++ text) := rfl
  rw [statementsFrom_of_comment glued hskip, (skipLine_append hbody hend).2]

/-- No blank stands in front of a text, so nothing changes what it is glued to. -/
theorem statementsFrom_of_ink (glued : Bool) {c : Char} {rest : List Char}
    (hink : isBlank c = false) (hcomment : ∀ tail, c = '/' → rest ≠ '/' :: tail) :
    statementsFrom glued (c :: rest) =
      (scanStatement glued c rest).1 ::
        statementsFrom (scanStatement glued c rest).1.endsInWord (scanStatement glued c rest).2 := by
  have hskip : skipBlanks (c :: rest) = c :: rest := by
    rw [skipBlanks, List.dropWhile_cons, hink, if_neg (by decide)]
  have hstarts : startsBlank (c :: rest) = false := hink
  rw [statementsFrom_of_cons glued hskip hcomment, hstarts, Bool.not_false, Bool.and_true]

/-- A proper statement as it may be written is read back as itself. -/
theorem statementsFrom_statement {statement : Statement} {body rest : List Char}
    (hproper : statement.IsProper) (hbody : Written true statement.tokens body)
    (hends : Ends rest) (hclear : Clear rest) :
    statementsFrom false (body ++ rest) =
      statement :: statementsFrom statement.endsInWord rest := by
  have hknown := scanKnown?_append hproper hbody hends hclear
  obtain ⟨c, tail, heq, hink, hslash⟩ := hproper.head_ink hbody rest
  rw [heq] at hknown ⊢
  have hscan : scanStatement false c tail = (statement, rest) := by
    rw [scanStatement, hknown]
  rw [statementsFrom_of_ink false hink fun _ h => absurd h hslash, hscan]

/-- A rendering is read as the statements it renders, if it keeps apart from a word that ended just
before. -/
theorem statementsFrom_of_renders {apart : Bool} {statements : List Statement} {text : List Char}
    (h : Renders true apart statements text) {glued : Bool} (hglued : glued = true → apart = true) :
    statementsFrom glued text = statements := by
  induction h generalizing glued with
  | nil apart => exact statementsFrom_of_nil glued rfl
  | blank apart hblank h ih =>
    rw [statementsFrom_blank glued hblank]
    exact ih id
  | comment apart hbody hend h ih =>
    rw [statementsFrom_comment glued hbody hend]
    exact ih id
  | statement hproper hbody h ih =>
    have hfalse : glued = false := by
      cases glued with
      | false => rfl
      | true => exact absurd (hglued rfl) (by decide)
    rw [hfalse, statementsFrom_statement hproper hbody h.ends h.clear, ih fun _ => rfl]

/-- A spaced rendering is read back. -/
theorem parse_eq_of_renders {statements : List Statement} {text : List Char}
    (h : Renders true false statements text) : parse text = statements :=
  statementsFrom_of_renders (h.detabs (detabs_expandTabs text)) id

/-! ## Nothing is skipped -/

/-- A label that is read is written in front of the rest. -/
theorem written_of_scanLabel? {text rest : List Char} {statement : Statement}
    (h : scanLabel? text = some (statement, rest)) :
    statement.IsProper ∧ ∃ body, text = body ++ rest ∧ Written false statement.tokens body := by
  unfold scanLabel? at h
  split at h
  · exact absurd h (by simp)
  · rename_i name tail hname
    split at h
    · rename_i rest' hcolon
      obtain ⟨rfl, rfl⟩ := Prod.mk.inj (Option.some.inj h)
      obtain ⟨gap, hblank, hgap⟩ := exists_gap tail
      rw [hcolon] at hgap
      refine ⟨isWord_of_scanWord? hname, name ++ (gap ++ ([':'] ++ [])), ?_, ?_⟩
      · rw [(eq_append_of_scanWord? hname).1, hgap]
        simp
      · exact ⟨_, rfl, .loose name hblank (.nil [':'])⟩
    · exact absurd h (by simp)

/-- A command that is read is proper and written in front of the rest. -/
theorem written_of_scanCommand? {text rest : List Char} {statement : Statement}
    (h : scanCommand? text = some (statement, rest)) :
    statement.IsProper ∧ ∃ body, text = body ++ rest ∧ Written false statement.tokens body := by
  obtain ⟨opcode, -, hcommand⟩ := List.exists_of_findSome?_eq_some h
  unfold scanCommandOf? at hcommand
  split at hcommand
  · exact absurd hcommand (by simp)
  · rename_i tail hafter
    split at hcommand
    · exact absurd hcommand (by simp)
    · obtain ⟨⟨operands, rest'⟩, hoperands, hpair⟩ := Option.map_eq_some_iff.mp hcommand
      obtain ⟨rfl, rfl⟩ := Prod.mk.inj hpair
      have hlength := (isWritten_of_scanOperands? hoperands).1
      obtain ⟨hproper, body, rfl, hbody⟩ := behind_of_scanOperands? hoperands
      refine ⟨⟨hlength, hproper⟩, opcode.mnemonic.toList ++ body, ?_, body, rfl, hbody _⟩
      rw [eq_append_of_after? hafter, List.append_assoc]

/-- Data that is read has a value and is written in front of the rest. -/
theorem written_of_scanData? {text rest : List Char} {statement : Statement}
    (h : scanData? text = some (statement, rest)) :
    statement.IsProper ∧ ∃ body, text = body ++ rest ∧ Written false statement.tokens body := by
  unfold scanData? at h
  split at h
  · exact absurd h (by simp)
  · rename_i tail hafter
    obtain ⟨hproper, body, htail, hbody⟩ := behind_scanValues tail
    split at h
    · exact absurd h (by simp)
    · rename_i values rest' hne hvalues
      obtain ⟨rfl, rfl⟩ := Prod.mk.inj (Option.some.inj h)
      rw [hvalues] at hproper htail hbody
      refine ⟨⟨?_, hproper⟩, dataWord ++ body, ?_, body, rfl, hbody _⟩
      · rintro rfl
        exact hne rfl
      · rw [eq_append_of_after? hafter, htail, List.append_assoc]

/-- What is read from the front of a text and known is a proper statement, written there. -/
theorem written_of_scanKnown? {glued : Bool} {text rest : List Char} {statement : Statement}
    (h : scanKnown? glued text = some (statement, rest)) :
    statement.IsProper ∧ ∃ body, text = body ++ rest ∧ Written false statement.tokens body := by
  rcases Option.or_eq_some_iff.mp h with hfirst | ⟨-, hdata⟩
  · rcases Option.or_eq_some_iff.mp hfirst with hlabel | ⟨-, hcommand⟩
    · exact written_of_scanLabel? hlabel
    · split at hcommand
      · exact absurd hcommand (by simp)
      · exact written_of_scanCommand? hcommand
  · exact written_of_scanData? hdata

/-- Blanks may be put in front of a rendering. -/
theorem Renders.append_left {spaced : Bool} {statements : List Statement} {gap text : List Char}
    (hblank : ∀ c ∈ gap, isBlank c = true) (h : Renders spaced false statements text) :
    Renders spaced false statements (gap ++ text) := by
  induction gap with
  | nil => exact h
  | cons c gap ih =>
    exact .blank false (hblank c List.mem_cons_self)
      (ih fun d hd => hblank d (List.mem_cons_of_mem _ hd))

/-- A text of known statements renders them. -/
theorem renders_statementsFrom (glued : Bool) (text : List Char)
    (h : ∀ rest, Statement.unknown rest ∉ statementsFrom glued text) :
    Renders false false (statementsFrom glued text) text := by
  -- in the cases of the reading: nothing left, a comment, a statement
  fun_induction statementsFrom glued text with
  | case1 glued text hskip =>
    obtain ⟨gap, hblank, hgap⟩ := exists_gap text
    rw [hgap, hskip]
    exact .append_left hblank (.nil false)
  | case2 glued text rest hskip hlt ih =>
    obtain ⟨gap, hblank, hgap⟩ := exists_gap text
    obtain ⟨line, hsplit, -, hline, hend⟩ := exists_line rest
    have hcomment := Renders.comment false hline hend (ih h)
    rw [← hsplit] at hcomment
    rw [hgap, hskip]
    exact .append_left hblank hcomment
  | case3 glued text c rest hcomment hskip found hlt ih =>
    obtain ⟨gap, hblank, hgap⟩ := exists_gap text
    obtain ⟨hproper, body, hcut, hbody⟩ : found.1.IsProper ∧
        ∃ body, c :: rest = body ++ found.2 ∧ Written false found.1.tokens body := by
      have hfound : found = scanStatement (glued && !startsBlank text) c rest := rfl
      rw [scanStatement] at hfound
      split at hfound
      · rename_i known hknown
        rw [hfound]
        exact written_of_scanKnown? hknown
      · rw [hfound] at h
        exact absurd List.mem_cons_self (h _)
    rw [hgap, hskip, hcut]
    have hrest := ih fun tail htail => h tail (List.mem_cons_of_mem _ htail)
    exact .append_left hblank (.statement hproper hbody hrest)

/-- A text in which nothing is refused renders its statements. -/
theorem renders_parse {text : List Char} (h : ∀ rest, Statement.unknown rest ∉ parse text) :
    Renders false false (parse text) text :=
  (renders_statementsFrom false (expandTabs text) h).of_detabs (detabs_expandTabs text)

/-! ## Sources -/

/-- Only proper statements are rendered. -/
theorem Renders.isProper_of_mem {spaced apart : Bool} {statements : List Statement}
    {text : List Char} (h : Renders spaced apart statements text) :
    ∀ statement ∈ statements, statement.IsProper := by
  induction h with
  | nil _ => exact List.forall_mem_nil _
  | blank _ _ _ ih => exact ih
  | comment _ _ _ _ ih => exact ih
  | statement hproper _ _ ih => exact List.forall_mem_cons.mpr ⟨hproper, ih⟩

/-- Only text that is no statement is refused. -/
theorem refuse_mem_actions {statement : Statement} {tokens : List (List Char)} :
    Action.refuse tokens ∈ statement.actions ↔
      ∃ text, statement = .unknown text ∧ tokens = [text] := by
  cases statement <;> simp [Statement.actions]

/-- What is refused in a source is the text of an unknown statement. -/
theorem refuse_mem_source_actions {source : Source} {tokens : List (List Char)} :
    Action.refuse tokens ∈ source.actions ↔
      ∃ text, Statement.unknown text ∈ parse source.text.toList ∧ tokens = [text] := by
  have hactions : Action.refuse tokens ∈ source.actions ↔
      Action.refuse tokens ∈ (parse source.text.toList).flatMap Statement.actions := by
    simp [Source.actions]
  rw [hactions, List.mem_flatMap]
  constructor
  · rintro ⟨statement, hmem, hrefuse⟩
    obtain ⟨text, rfl, rfl⟩ := refuse_mem_actions.mp hrefuse
    exact ⟨text, hmem, rfl⟩
  · rintro ⟨text, hmem, rfl⟩
    exact ⟨.unknown text, hmem, refuse_mem_actions.mpr ⟨text, rfl, rfl⟩⟩

/-- A source with a spaced rendering of statements stands for just the actions of these
statements, and none of them refuses text.  A source that stands for no refusal renders the
statements whose actions it stands for. -/
theorem Source.actions_of_rendering (source : Source) :
    (∀ statements, Renders true false statements source.text.toList →
      source.actions = .enter source.scope.toList :: statements.flatMap Statement.actions ∧
        ∀ tokens, Action.refuse tokens ∉ source.actions) ∧
    ((∀ tokens, Action.refuse tokens ∉ source.actions) →
      ∃ statements, Renders false false statements source.text.toList ∧
        source.actions = .enter source.scope.toList :: statements.flatMap Statement.actions) := by
  constructor
  · intro statements hrenders
    have hparse := parse_eq_of_renders hrenders
    refine ⟨by rw [Source.actions, hparse], ?_⟩
    intro tokens hrefuse
    obtain ⟨text, hmem, -⟩ := refuse_mem_source_actions.mp hrefuse
    rw [hparse] at hmem
    exact hrenders.isProper_of_mem _ hmem
  · intro hrefuse
    refine ⟨parse source.text.toList, ?_, rfl⟩
    apply renders_parse
    intro text hmem
    exact hrefuse [text] (refuse_mem_source_actions.mpr ⟨text, hmem, rfl⟩)

/-- A label named as a mnemonic, a mark apart from its value and a comment that touches it. -/
theorem Source.actions_of_rendering_out :
    let source : Source := ⟨none, "m", "out: out\t# &a.b::c//d\n.data -4"⟩
    (source.actions = [.enter "m".toList, .label ["out".toList], .opcode 4,
        .operand [['#'], "&a.b::c".toList], .data [['-', '4']]] ∧
      ∀ tokens, Action.refuse tokens ∉ source.actions) ∧
    ∃ statements, Renders false false statements source.text.toList ∧
      source.actions = .enter source.scope.toList :: statements.flatMap Statement.actions := by
  intro source
  have hspace : ∀ c ∈ [' '], isBlank c = true := by simp [isBlank]
  have hscope : IsScope ['a', '.', 'b'] := ⟨rfl, rfl⟩
  have hreference : IsProperValue "&a.b::c".toList := .qualified hscope ⟨rfl, rfl⟩
  have hlabel : (Statement.label "out".toList).IsProper := ⟨by decide, by decide⟩
  have hout : (Statement.command .output [⟨some '#', "&a.b::c".toList⟩]).IsProper :=
    ⟨rfl, by simpa using ⟨.inr (.inl rfl), hreference⟩⟩
  have hscan : scanNumeral ['-', '4'] = some (['-', '4'], []) := rfl
  have hdata : (Statement.data [['-', '4']]).IsProper :=
    ⟨by simp, by simpa using .numeral (isNumeral_of_scanNumeral hscan)⟩
  have hcolon : Behind true "out".toList [[':']] ([] ++ ([':'] ++ [])) :=
    .cons (by simp) (fun _ htouch => absurd (.inr rfl) htouch) (.nil _)
  have hvalue : Behind true ['#'] ["&a.b::c".toList] ([' '] ++ ("&a.b::c".toList ++ [])) :=
    .cons hspace (by simp) (.nil _)
  have hmark : Behind true "out".toList [['#'], "&a.b::c".toList]
      (['\t'] ++ (['#'] ++ ([' '] ++ ("&a.b::c".toList ++ [])))) :=
    .cons (by simp [isBlank]) (by simp) hvalue
  have hword : Behind true dataWord [['-', '4']] ([' '] ++ (['-', '4'] ++ [])) :=
    .cons hspace (by simp) (.nil _)
  have hbody : '\n' ∉ ['d'] := by decide
  have hlast := Renders.statement hdata ⟨_, rfl, hword⟩ (.nil true)
  have hcomment := Renders.comment true hbody (by simp) (.blank false (c := '\n') rfl hlast)
  have hsecond := Renders.blank true (c := ' ') rfl (.statement hout ⟨_, rfl, hmark⟩ hcomment)
  have hwhole := Renders.statement hlabel ⟨_, rfl, hcolon⟩ hsecond
  have hrenders : Renders true false _ "out: out\t# &a.b::c//d\n.data -4".toList :=
    Eq.subst (motive := Renders true false _) (by decide) hwhole
  have hread := (Source.actions_of_rendering source).1 _ hrenders
  exact ⟨hread, (Source.actions_of_rendering source).2 hread.2⟩

end IntegerMachine.Assembly
