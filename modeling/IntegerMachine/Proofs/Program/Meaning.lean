import IntegerMachine.Proofs.Assembly.Layout
import IntegerMachine.Proofs.Machine.Faults
import IntegerMachine.Proofs.Machine.Stepping
import IntegerMachine.Proofs.Program.Decoding

/-!
# What assembled words mean

A command that is assembled is read back as it was written.  Its opcode word begins an instruction
with the modes of its operands (`begins_opcodeWord`), and it stands behind as many words as the
statements before it take.  So a listing shows the command there, and a machine decodes it there and
never finds a value as its destination.  Without data nothing else is listed: `assembled_commands`.
-/

set_option autoImplicit false

namespace IntegerMachine

/-! ## Steps at an instruction -/

namespace Machine

variable {m : Machine} {i : Instruction}

/-- A destination that is no value is not found to be one. -/
theorem step_ne_immediateDestination (hm : m.KeepsDue) (hdecode : m.decode = .ok i)
    (hmode : ∀ n, i.opcode.destination? = some n → i.mode n ≠ .immediate) {fault : Fault}
    (h : m.step.1 = .error fault) (operand : Nat) :
    fault.cause ≠ .immediateDestination operand := by
  intro hcause
  by_cases hhalted : m.state = .halted
  · rw [step, if_pos hhalted] at h
    obtain rfl := Except.error.inj h
    exact absurd hcause (by simp)
  · rw [step_eq hhalted, hm.due_eq, hdecode] at h
    have hoperand := m.failsByOperand_perform i fault h
    rw [hcause] at hoperand
    cases hoperand with
    | reach hreach => exact absurd hreach (by rintro ⟨⟩)
    | destination hdestination himmediate => exact hmode _ hdestination himmediate

end Machine

namespace Program

open Assembly

/-! ## Opcode words -/

/-- Codes have two digits. -/
theorem code_bounds (opcode : Opcode) : 0 ≤ opcode.code ∧ opcode.code < 100 := by
  cases opcode <;> decide

/-- Modes have one digit. -/
theorem digit_bounds (mode : Mode) : 0 ≤ mode.digit ∧ mode.digit < 10 := by
  cases mode <;> decide

/-- A code and three digits come back out of the word that they make up. -/
theorem split_of_digits {code a b c : Int} (hcode : 0 ≤ code ∧ code < 100)
    (ha : 0 ≤ a ∧ a < 10) (hb : 0 ≤ b ∧ b < 10) (hc : 0 ≤ c ∧ c < 10) :
    Word.split (code + (a * 100 + (b * 1000 + c * 10000))) = (code, [a, b, c]) := by
  have hlow : (code + (a * 100 + (b * 1000 + c * 10000))) % 100 = code := by omega
  have hfirst : (code + (a * 100 + (b * 1000 + c * 10000))) / 100 % 10 = a := by omega
  have hsecond : (code + (a * 100 + (b * 1000 + c * 10000))) / 1000 % 10 = b := by omega
  have hthird : (code + (a * 100 + (b * 1000 + c * 10000))) / 10000 % 10 = c := by omega
  rw [Word.split, hlow, hfirst, hsecond, hthird]

/-- A code with three digits above it stands for the operation and the modes of as many digits as it
has operands. -/
theorem begins_of_split {opcode : Opcode} {modes : List Mode} {word a b c : Int}
    (hword : word = opcode.code + (a * 100 + (b * 1000 + c * 10000)))
    (ha : 0 ≤ a ∧ a < 10) (hb : 0 ≤ b ∧ b < 10) (hc : 0 ≤ c ∧ c < 10)
    (hdigits : modes.map Mode.digit = [a, b, c].take opcode.operands) :
    Word.Begins word opcode modes := by
  have hcode := code_bounds opcode
  have hsplit := split_of_digits hcode ha hb hc
  rw [← hword] at hsplit
  refine ⟨by omega, ?_, ?_⟩
  · exact (congrArg Prod.fst hsplit).symm
  · rw [hsplit, hdigits]

/-- Three modes at most are three digits, some of them zero. -/
theorem exists_digits {modes : List Mode} (h : modes.length ≤ 3) :
    ∃ a b c : Int, (0 ≤ a ∧ a < 10) ∧ (0 ≤ b ∧ b < 10) ∧ (0 ≤ c ∧ c < 10) ∧
      (modes.mapIdx fun k mode => mode.digit * 10 ^ (k + 2)).sum =
        a * 100 + (b * 1000 + c * 10000) ∧
      modes.map Mode.digit = [a, b, c].take modes.length := by
  have hzero : 0 ≤ (0 : Int) ∧ (0 : Int) < 10 := by decide
  match modes, h with
  | [], _ => exact ⟨0, 0, 0, hzero, hzero, hzero, by simp, rfl⟩
  | [a], _ => exact ⟨a.digit, 0, 0, digit_bounds a, hzero, hzero, by simp, rfl⟩
  | [a, b], _ =>
    exact ⟨a.digit, b.digit, 0, digit_bounds a, digit_bounds b, hzero, by simp, rfl⟩
  | [a, b, c], _ =>
    exact ⟨a.digit, b.digit, c.digit, digit_bounds a, digit_bounds b, digit_bounds c, by simp, rfl⟩
  | _ :: _ :: _ :: _ :: _, h => exact absurd h (by simp)

/-- The word of a code and modes begins that instruction. -/
theorem begins_of_length {opcode : Opcode} {modes : List Mode}
    (h : modes.length = opcode.operands) :
    Word.Begins (opcode.code + (modes.mapIdx fun k mode => mode.digit * 10 ^ (k + 2)).sum)
      opcode modes := by
  obtain ⟨a, b, c, ha, hb, hc, hsum, hdigits⟩ := exists_digits (h.trans_le (operands_le_three opcode))
  exact begins_of_split (congrArg _ hsum) ha hb hc (h ▸ hdigits)

/-- An opcode word is the code and the digits of the modes. -/
theorem opcodeWord_eq_modes (opcode : Opcode) (operands : List Operand) :
    opcodeWord opcode operands = opcode.code +
      ((operands.map Operand.mode).mapIdx fun k mode => mode.digit * 10 ^ (k + 2)).sum := by
  have hdigits : ((operands.map Operand.mode).mapIdx fun k mode => mode.digit * 10 ^ (k + 2)) =
      operands.mapIdx fun k operand => operand.mode.digit * 10 ^ (k + 2) := by
    apply List.ext_getElem?
    intro k
    simp [Function.comp_def]
  rw [opcodeWord, ← hdigits]

/-- The opcode word of a command begins its instruction. -/
theorem begins_opcodeWord {opcode : Opcode} {operands : List Operand}
    (h : operands.length = opcode.operands) :
    Word.Begins (opcodeWord opcode operands) opcode (operands.map Operand.mode) := by
  rw [opcodeWord_eq_modes]
  exact begins_of_length (by rw [List.length_map, h])

/-- An opcode word has the two digits of its code and three of modes at most. -/
theorem natAbs_opcodeWord_lt {opcode : Opcode} {operands : List Operand}
    (h : operands.length = opcode.operands) : (opcodeWord opcode operands).natAbs < 10 ^ 5 := by
  have hcode := code_bounds opcode
  have hthree : (operands.map Operand.mode).length ≤ 3 := by
    rw [List.length_map, h]
    exact operands_le_three opcode
  obtain ⟨a, b, c, ha, hb, hc, hsum, -⟩ := exists_digits hthree
  rw [opcodeWord_eq_modes, hsum]
  omega

/-! ## Places -/

/-- The words of statements that stand in a script; those of all its statements are its layout. -/
def wordsIn (script : Script) (entries : Script) : List Int :=
  entries.flatMap fun entry => entry.2.head ++ entry.2.values.map (valueWord script entry.1)

/-- Statements one after the other have the words of both. -/
theorem wordsIn_append (script first second : Script) :
    wordsIn script (first ++ second) = wordsIn script first ++ wordsIn script second :=
  List.flatMap_append

/-- Every statement takes the words that its form tells. -/
theorem length_wordsIn {script entries : Script} (h : ∀ entry ∈ entries, entry.2.IsWritten) :
    (wordsIn script entries).length = extent entries := by
  rw [wordsIn, List.length_flatMap, extent]
  congr 1
  apply List.map_congr_left
  intro entry hentry
  have hlength := length_itemsOf entry (h entry hentry)
  simpa [itemsOf] using hlength

/-- The operands of a command as they are listed: their modes, and the words of their values. -/
def shownOperands (script : Script) (scope : List Char) (operands : List Operand) :
    List (Mode × Int) :=
  operands.map fun operand => (operand.mode, valueWord script scope operand.value)

/-- A command has its opcode word and the words of its operands. -/
theorem wordsIn_command (script : Script) (scope : List Char) (opcode : Opcode)
    (operands : List Operand) (rest : Script) :
    wordsIn script ((scope, .command opcode operands) :: rest) =
      opcodeWord opcode operands ::
        ((shownOperands script scope operands).map Prod.snd ++ wordsIn script rest) := by
  simp [wordsIn, Statement.head, Statement.values, shownOperands]

/-! ## What is listed -/

/-- The words of a command are listed as that command. -/
theorem ofWords_of_begins {word : Int} {opcode : Opcode} {modes : List Mode} {values : List Int}
    (h : Word.Begins word opcode modes) (hvalues : values.length = opcode.operands)
    (rest : List Int) :
    Entry.ofWords word (values ++ rest) = .command opcode (modes.zip values) := by
  have hlength : opcode.operands ≤ (values ++ rest).length := by
    rw [List.length_append]
    omega
  have hzip : modes.zip (values ++ rest) = modes.zip values := by
    have hsame : modes.length = values.length := by rw [h.length_modes, hvalues]
    have happend : (modes ++ []).zip (values ++ rest) = modes.zip values ++ [].zip rest :=
      List.zip_append hsame
    rwa [List.append_nil, List.zip_nil_left, List.append_nil] at happend
  have hcommand := Entry.command?_eq_some_iff.mpr ⟨opcode, modes, h, hlength, rfl⟩
  rw [Entry.ofWords, hcommand, Option.getD_some, hzip]

/-- The operands shown have the modes they are written with. -/
theorem zip_shownOperands (script : Script) (scope : List Char) (operands : List Operand) :
    (operands.map Operand.mode).zip ((shownOperands script scope operands).map Prod.snd) =
      shownOperands script scope operands := by
  rw [shownOperands, List.map_map, List.zip_map']
  rfl

/-- A command that is laid out is the entry of its words. -/
theorem ofWords_command (script : Script) (scope : List Char) {opcode : Opcode}
    {operands : List Operand} (h : operands.length = opcode.operands) (rest : List Int) :
    Entry.ofWords (opcodeWord opcode operands)
        ((shownOperands script scope operands).map Prod.snd ++ rest) =
      .command opcode (shownOperands script scope operands) := by
  have hvalues : ((shownOperands script scope operands).map Prod.snd).length = opcode.operands := by
    rw [List.length_map, shownOperands, List.length_map, h]
  rw [ofWords_of_begins (begins_opcodeWord h) hvalues, zip_shownOperands]

/-- The entry of a command that stands in a script. -/
def shownCommand? (script : Script) : List Char × Statement → Option Entry
  | (scope, .command opcode operands) =>
    some (.command opcode (shownOperands script scope operands))
  | _ => none

/-- The commands among statements that stand in a script from an address on. -/
def placedCommands (script : Script) (address : Nat) : Script → List (Nat × Entry)
  | [] => []
  | entry :: rest =>
    (shownCommand? script entry).toList.map (fun shown => (address, shown)) ++
      placedCommands script (address + entry.2.size) rest

/-- Statements without data are listed command by command. -/
theorem entriesFrom_wordsIn (script : Script) (address : Nat) {entries : Script}
    (hwritten : ∀ entry ∈ entries, entry.2.IsWritten)
    (hdata : ∀ scope values, (scope, Statement.data values) ∉ entries) :
    entriesFrom address (wordsIn script entries) = placedCommands script address entries := by
  induction entries generalizing address with
  | nil => rw [wordsIn, List.flatMap_nil, entriesFrom, placedCommands]
  | cons entry rest ih =>
    have hrest (address : Nat) :
        entriesFrom address (wordsIn script rest) = placedCommands script address rest := by
      apply ih
      · intro later hlater
        exact hwritten later (List.mem_cons_of_mem entry hlater)
      · intro scope values hmem
        exact hdata scope values (List.mem_cons_of_mem entry hmem)
    obtain ⟨scope, statement⟩ := entry
    cases statement with
    | label name => exact hrest address
    | unknown text => exact hrest address
    | data values => exact absurd List.mem_cons_self (hdata scope values)
    | command opcode operands =>
      have hlength : operands.length = opcode.operands := (hwritten _ List.mem_cons_self).1
      have hsize : (shownOperands script scope operands).length = opcode.operands := by
        rw [shownOperands, List.length_map, hlength]
      rw [wordsIn_command, entriesFrom, ofWords_command script scope hlength, Entry.size, hsize,
        Nat.add_sub_cancel_left, List.drop_left' (by rw [List.length_map, hsize]), hrest]
      rfl

/-! ## What is carried out -/

/-- What is decoded at the place of a word that begins an instruction. -/
theorem decode_of_append {m : Machine} {front behind : List Int} {word : Int} {opcode : Opcode}
    {modes : List Mode} (hdialect : m.dialect = .relative)
    (hmemory : front ++ word :: behind <+: m.memory.toList) (hip : m.ip = front.length)
    (h : Word.Begins word opcode modes) :
    m.decode = .ok ⟨front.length, word, opcode, modes⟩ := by
  have hlength : front.length < (front ++ word :: behind).length := by simp
  obtain ⟨hread, hcell⟩ := cell_of_memory hmemory hlength
  rw [List.getElem_append_right (Nat.le_refl _)] at hcell
  simp only [Nat.sub_self, List.getElem_cons_zero] at hcell
  rw [← hip] at hread hcell
  have hdecode := Machine.decode_of_begins hdialect hread (hcell ▸ h)
  rwa [hcell, hip] at hdecode

section Assembled

variable {sources : List Source} {words : List Int}

/-- What is assembled are the words of all statements. -/
theorem words_eq_wordsIn (h : (assemble sources).result = .ok words) :
    words = wordsIn (scriptOf sources) (scriptOf sources) :=
  (result_eq_ok_iff.mp h).2

/-- A command of the sources stands behind as many words as the statements before it take. -/
theorem words_at_command (h : (assemble sources).result = .ok words) {before after : Script}
    {scope : List Char} {opcode : Opcode} {operands : List Operand}
    (hscript : scriptOf sources = before ++ (scope, .command opcode operands) :: after) :
    operands.length = opcode.operands ∧
      (wordsIn (scriptOf sources) before).length = extent before ∧
      words = wordsIn (scriptOf sources) before ++ opcodeWord opcode operands ::
        ((shownOperands (scriptOf sources) scope operands).map Prod.snd ++
          wordsIn (scriptOf sources) after) := by
  have hwritten := isWritten_of_mem_scriptOf sources
  have hcommand := hwritten (scope, .command opcode operands) (by simp [hscript])
  refine ⟨hcommand.1, ?_, ?_⟩
  · apply length_wordsIn
    intro entry hentry
    apply hwritten
    rw [hscript]
    exact List.mem_append_left _ hentry
  · have hwords := words_eq_wordsIn h
    generalize hall : scriptOf sources = script at hwords ⊢
    rw [hscript] at hall
    rw [hwords, ← wordsIn_command, ← wordsIn_append, hall]

/-- No destination of a command is a value. -/
theorem mode_ne_immediate (h : (assemble sources).result = .ok words) {scope : List Char}
    {opcode : Opcode} {operands : List Operand}
    (hmem : (scope, .command opcode operands) ∈ scriptOf sources) {n : Nat}
    (hdestination : opcode.destination? = some n) :
    (operands.map Operand.mode).getD n .position ≠ .immediate := by
  obtain ⟨⟨hsound, -⟩, -⟩ := result_eq_ok_iff.mp h
  rw [List.getD_eq_getElem?_getD, List.getElem?_map]
  cases hoperand : operands[n]? with
  | none => simp
  | some operand => exact hsound.writable scope opcode operands hmem n hdestination operand hoperand

/-- Assembled code means what was written.  At the place of every command a listing shows that
command with its values, and a machine decodes it with its modes and never finds its destination to
be a value.  Without data, the listing is the commands. -/
theorem assembled_commands (h : (assemble sources).result = .ok words) :
    (∀ before scope opcode operands after,
      scriptOf sources = before ++ (scope, .command opcode operands) :: after →
        operands.length = opcode.operands ∧
        (∃ entry, entryAt? words (extent before) = some entry ∧
          entry = .command opcode (shownOperands (scriptOf sources) scope operands) ∧
          entry.size = 1 + opcode.operands ∧
          entry.text = String.intercalate " " (opcode.mnemonic :: operands.map fun operand =>
            operand.mode.mark ++ toString (valueWord (scriptOf sources) scope operand.value))) ∧
        ∀ m : Machine, m.dialect = .relative → words <+: m.memory.toList → m.ip = extent before →
          m.decode = .ok ⟨extent before, opcodeWord opcode operands, opcode,
            operands.map Operand.mode⟩ ∧
          (m.KeepsDue → ∀ fault operand, m.step.1 = .error fault →
            fault.cause ≠ .immediateDestination operand)) ∧
    ((∀ scope values, (scope, Statement.data values) ∉ scriptOf sources) →
      listing words =
        (placedCommands (scriptOf sources) 0 (scriptOf sources)).map listingLine) := by
  constructor
  · intro before scope opcode operands after hscript
    obtain ⟨hlength, hplace, hwords⟩ := words_at_command h hscript
    refine ⟨hlength, ⟨_, ?_, rfl, ?_, ?_⟩, ?_⟩
    · have hentry := ofWords_command (scriptOf sources) scope hlength
        (wordsIn (scriptOf sources) after)
      rw [entryAt?, hwords, ← hplace, List.drop_left, ← hentry]
    · rw [Entry.size, shownOperands, List.length_map, hlength]
    · rw [Entry.text, shownOperands, List.map_map]
      rfl
    · intro m hdialect hmemory hip
      rw [← hplace] at hip ⊢
      have hdecode := decode_of_append hdialect (hwords ▸ hmemory) hip (begins_opcodeWord hlength)
      refine ⟨hdecode, ?_⟩
      intro hm fault operand hfault
      have hmem : (scope, .command opcode operands) ∈ scriptOf sources := by simp [hscript]
      apply Machine.step_ne_immediateDestination hm hdecode ?_ hfault operand
      intro n hdestination
      exact mode_ne_immediate h hmem hdestination
  · intro hdata
    rw [listing, entries, words_eq_wordsIn h,
      entriesFrom_wordsIn _ 0 (isWritten_of_mem_scriptOf sources) hdata]

/-- An input and a jump back to it. -/
theorem assembled_commands_jump_back :
    let sources : List Source := [⟨some "p", "m", "top: in ~3 jt #1 #&top"⟩]
    let words : List Int := [203, 3, 1105, 1, 0]
    let m : Machine := { Machine.boot words {} with ip := 2 }
    (assemble sources).result = .ok words ∧
      (∃ entry, entryAt? words 2 = some entry ∧ entry.size = 3 ∧ entry.text = "jt #1 #0") ∧
      m.decode = .ok ⟨2, 1105, .jumpIfTrue, [.immediate, .immediate]⟩ ∧
      (∀ fault operand, m.step.1 = .error fault → fault.cause ≠ .immediateDestination operand) ∧
      listing words = ["00000: in ~3", "00002: jt #1 #0"] := by
  intro sources words m
  have hresult : (assemble sources).result = .ok words := by decide +kernel +zetaReduce
  let before : Script :=
    [("p.m".toList, .label "top".toList), ("p.m".toList, .command .input [⟨some '~', ['3']⟩])]
  let operands : List Operand := [⟨some '#', ['1']⟩, ⟨some '#', "&top".toList⟩]
  have hscript : scriptOf sources =
      before ++ ("p.m".toList, .command .jumpIfTrue operands) :: [] := by decide +kernel +zetaReduce
  obtain ⟨hcommands, hlisting⟩ := assembled_commands hresult
  obtain ⟨-, ⟨entry, hentry, -, hsize, htext⟩, hmachine⟩ :=
    hcommands before "p.m".toList .jumpIfTrue operands [] hscript
  have hmemory : words <+: m.memory.toList := List.prefix_refl words
  have hkept : m.KeepsDue := by
    intro i hi
    exact absurd hi (by simp [m, Machine.boot, Machine.start])
  obtain ⟨hdecode, hfaults⟩ := hmachine m rfl hmemory rfl
  refine ⟨hresult, ⟨entry, hentry, hsize, ?_⟩, hdecode, hfaults hkept, ?_⟩
  · rw [htext]
    decide +kernel +zetaReduce
  · rw [hlisting]
    · decide +kernel +zetaReduce
    · rw [hscript]
      simp [before]

end Assembled

end Program

end IntegerMachine
