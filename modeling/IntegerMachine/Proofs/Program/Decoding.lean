import IntegerMachine.Machine.Step
import IntegerMachine.Proofs.Program.Listing

/-!
# Listings and the machine

A listing and a machine each read instructions off words, with code of their own.  A listing shows
a command where a word begins an instruction and its operands are all there.  A machine that knows
every operation and mode decodes a word just if it begins an instruction (`decode_eq_ok_iff`), also
where memory ends before the operands do.  `entryAt?_iff_decode` compares the two at every address.
-/

set_option autoImplicit false

namespace IntegerMachine

namespace Machine

variable {m : Machine} {i : Instruction}

/-! ## What a machine decodes -/

/-- The relative dialect has every opcode. -/
theorem mem_opcodes_relative (opcode : Opcode) : opcode ∈ Dialect.relative.opcodes := by
  cases opcode <;> decide

/-- The relative dialect has every mode. -/
theorem mem_modes_relative (mode : Mode) : mode ∈ Dialect.relative.modes := by
  cases mode <;> decide

/-- The digits of modes are decoded as these modes. -/
theorem decodeModes_digits (modes : List Mode) :
    decodeModes .relative (modes.map Mode.digit) = .ok modes := by
  induction modes with
  | nil => rfl
  | cons mode modes ih =>
    have hmode := mem_modes_relative mode
    simp only [List.map_cons, decodeModes, Mode.ofDigit?_digit, if_pos hmode, ih]

/-- With every mode known, only a digit that is none is at fault. -/
theorem decodeModes_relative (digits : List Int) :
    (∃ modes, decodeModes .relative digits = .ok modes ∧ modes.map Mode.digit = digits) ∨
      ∃ digit, decodeModes .relative digits = .error (.unknownMode digit) := by
  induction digits with
  | nil => exact .inl ⟨[], rfl, rfl⟩
  | cons digit digits ih =>
    rw [decodeModes]
    cases hdigit : Mode.ofDigit? digit with
    | none => exact .inr ⟨digit, rfl⟩
    | some mode =>
      simp only [if_pos (mem_modes_relative mode)]
      rcases ih with ⟨modes, hmodes, hmap⟩ | ⟨other, hfault⟩
      · refine .inl ⟨mode :: modes, by rw [hmodes], ?_⟩
        rw [List.map_cons, hmap, Program.Entry.digit_of_ofDigit? hdigit]
      · exact .inr ⟨other, by rw [hfault]⟩

/-- Why a word that is read is no instruction. -/
def IsIllegal (cause : Cause) : Prop :=
  (∃ code, cause = .illegalOpcode code) ∨ ∃ digit, cause = .unknownMode digit

/-- A word that begins an instruction is decoded as it, whatever digits stand above. -/
theorem decode_of_begins (hdialect : m.dialect = .relative) (hread : m.readCause? m.ip = none)
    {opcode : Opcode} {modes : List Mode} (h : Word.Begins (m.cell m.ip) opcode modes) :
    m.decode = .ok ⟨m.ip, m.cell m.ip, opcode, modes⟩ := by
  have hlegal : ¬ (m.cell m.ip < 0 ∨ opcode ∉ Dialect.relative.opcodes) := by
    rw [not_or, not_not]
    exact ⟨Int.not_lt.mpr h.nonneg, mem_opcodes_relative opcode⟩
  unfold decode
  simp only [hread, hdialect, h.ofCode?_eq, if_neg hlegal, ← h.digits_eq, decodeModes_digits]

/-- A machine that knows every operation and mode decodes a word that begins an instruction, and
finds an illegal opcode or mode in any other. -/
theorem decode_cases (hdialect : m.dialect = .relative) (hread : m.readCause? m.ip = none) :
    (∃ opcode modes, Word.Begins (m.cell m.ip) opcode modes) ∨
      ∃ cause, m.decode = .error ⟨cause, m.ip, some (m.cell m.ip)⟩ ∧ IsIllegal cause := by
  unfold decode
  simp only [hread, hdialect]
  generalize m.cell m.ip = word
  cases hopcode : Opcode.ofCode? (Word.split word).1 with
  | none => exact .inr ⟨_, rfl, .inl ⟨_, rfl⟩⟩
  | some opcode =>
    simp only [mem_opcodes_relative, not_true_eq_false, or_false]
    split
    · exact .inr ⟨_, rfl, .inl ⟨_, rfl⟩⟩
    · rename_i hneg
      rcases decodeModes_relative ((Word.split word).2.take opcode.operands) with
        ⟨modes, -, hmap⟩ | ⟨digit, hfault⟩
      · have hcode := Program.Entry.code_of_ofCode? hopcode
        exact .inl ⟨opcode, modes, Int.not_lt.mp hneg, hcode, hmap⟩
      · rw [hfault]
        exact .inr ⟨_, rfl, .inr ⟨digit, rfl⟩⟩

/-- A word that is read and not decoded has an illegal opcode or mode. -/
theorem isIllegal_of_decode (hdialect : m.dialect = .relative) (hread : m.readCause? m.ip = none)
    {fault : Fault} (h : m.decode = .error fault) : IsIllegal fault.cause := by
  rcases decode_cases hdialect hread with ⟨opcode, modes, hbegins⟩ | ⟨cause, hcause, hillegal⟩
  · rw [decode_of_begins hdialect hread hbegins] at h
    exact absurd h (by simp)
  · rw [hcause] at h
    obtain rfl := Except.error.inj h
    exact hillegal

/-- A word that is read is decoded as an instruction exactly if it begins it. -/
theorem decode_eq_ok_iff (hdialect : m.dialect = .relative) (hread : m.readCause? m.ip = none) :
    m.decode = .ok i ↔
      i.ip = m.ip ∧ i.word = m.cell m.ip ∧ Word.Begins i.word i.opcode i.modes := by
  constructor
  · intro h
    rcases decode_cases hdialect hread with ⟨opcode, modes, hbegins⟩ | ⟨cause, hfault, -⟩
    · rw [decode_of_begins hdialect hread hbegins] at h
      obtain rfl := Except.ok.inj h
      exact ⟨rfl, rfl, hbegins⟩
    · rw [hfault] at h
      exact absurd h (by simp)
  · rintro ⟨hip, hword, hbegins⟩
    rw [hword] at hbegins
    rw [decode_of_begins hdialect hread hbegins, ← hword, ← hip]

end Machine

/-! ## Listings and machines -/

namespace Program

open Entry

variable {words : List Int} {address : Nat} {m : Machine}

/-- The texts of operands, from their modes and the words from an address on. -/
def operandTexts (words : List Int) (address : Nat) (modes : List Mode) : List String :=
  modes.mapIdx fun n mode => mode.mark ++ toString (words.getD (address + n) 0)

/-- The operands of an entry are written as the words behind its first are, each with its mode. -/
theorem map_operandText_zip {modes : List Mode} (h : address + modes.length ≤ words.length) :
    (modes.zip (words.drop address)).map operandText = operandTexts words address modes := by
  apply List.ext_getElem
  · rw [operandTexts, List.length_map, List.length_zip, List.length_mapIdx, List.length_drop]
    omega
  · intro n hleft hright
    have hn : n < modes.length := by simpa [operandTexts] using hright
    have hword : address + n < words.length := by omega
    simp [operandTexts, operandText, List.getD_eq_getElem?_getD, hword]

/-- A machine whose memory begins with words reads the one at an address. -/
theorem cell_of_memory (hmemory : words <+: m.memory.toList) (haddress : address < words.length) :
    m.readCause? address = none ∧ m.cell address = words[address] := by
  obtain ⟨behind, hmemory⟩ := hmemory
  have hsize : ¬ (m.memory.size ≤ (address : Int).toNat ∧ m.grows = false) := by
    rw [← Array.length_toList, ← hmemory, List.length_append, Int.toNat_natCast]
    omega
  constructor
  · rw [Machine.readCause?, if_neg (by omega), if_neg hsize]
  · have hcell : m.memory[address]? = some words[address] := by
      rw [← Array.getElem?_toList, ← hmemory, List.getElem?_append_left haddress,
        List.getElem?_eq_getElem haddress]
    rw [Machine.cell, Int.toNat_natCast, Array.getD_eq_getD_getElem?, hcell, Option.getD_some]

/-- Every address of the words has an entry. -/
theorem entryAt?_of_lt (haddress : address < words.length) :
    entryAt? words address = some (ofWords words[address] (words.drop (address + 1))) := by
  rw [entryAt?, List.drop_eq_getElem_cons haddress]

/-- The command shown at an address is the instruction decoded there, if that ends in memory. -/
theorem command?_iff_decode (haddress : address < words.length) (hdialect : m.dialect = .relative)
    (hmemory : words <+: m.memory.toList) (hip : m.ip = address) {entry : Entry} :
    command? words[address] (words.drop (address + 1)) = some entry ↔
      ∃ i, m.decode = .ok i ∧ address + i.size ≤ words.length ∧
        entry = .command i.opcode (i.modes.zip (words.drop (address + 1))) := by
  obtain ⟨hread, hcell⟩ := cell_of_memory hmemory haddress
  rw [← hip] at hread hcell
  rw [command?_eq_some_iff, List.length_drop]
  constructor
  · rintro ⟨opcode, modes, hbegins, hlength, rfl⟩
    have hdecode := Machine.decode_of_begins hdialect hread (hcell ▸ hbegins)
    refine ⟨_, hdecode, ?_, rfl⟩
    rw [Instruction.size, hbegins.length_modes]
    omega
  · rintro ⟨i, hdecode, hsize, rfl⟩
    obtain ⟨-, hword, hbegins⟩ := (Machine.decode_eq_ok_iff hdialect hread).mp hdecode
    rw [hword, hcell] at hbegins
    refine ⟨i.opcode, i.modes, hbegins, ?_, rfl⟩
    rw [Instruction.size, hbegins.length_modes] at hsize
    omega

/-- What the machine decodes is listed as a command, if its operands are among the words. -/
theorem entryAt?_of_decode (haddress : address < words.length) (hdialect : m.dialect = .relative)
    (hmemory : words <+: m.memory.toList) (hip : m.ip = address) {i : Instruction}
    (hdecode : m.decode = .ok i) (hsize : address + i.size ≤ words.length) :
    entryAt? words address =
      some (.command i.opcode (i.modes.zip (words.drop (address + 1)))) := by
  have hcommand := (command?_iff_decode haddress hdialect hmemory hip).mpr ⟨i, hdecode, hsize, rfl⟩
  rw [entryAt?_of_lt haddress, ofWords, hcommand, Option.getD_some]

/-- What the machine does not decode, or the words cut off, is listed as data. -/
theorem entryAt?_of_not_decode (haddress : address < words.length)
    (hdialect : m.dialect = .relative) (hmemory : words <+: m.memory.toList) (hip : m.ip = address)
    (h : ¬ ∃ i, m.decode = .ok i ∧ address + i.size ≤ words.length) :
    entryAt? words address = some (.data words[address]) := by
  rw [entryAt?_of_lt haddress, ofWords]
  cases hentry : command? words[address] (words.drop (address + 1)) with
  | none => rfl
  | some entry =>
    obtain ⟨i, hdecode, hsize, -⟩ := (command?_iff_decode haddress hdialect hmemory hip).mp hentry
    exact absurd ⟨i, hdecode, hsize⟩ h

/-- An instruction that ends in memory is shown with its size, its mnemonic and its operands. -/
theorem shown_command {i : Instruction} (hsize : address + i.size ≤ words.length) :
    (Entry.command i.opcode (i.modes.zip (words.drop (address + 1)))).size = i.size ∧
      (Entry.command i.opcode (i.modes.zip (words.drop (address + 1)))).text =
        String.intercalate " " (i.opcode.mnemonic :: operandTexts words (address + 1) i.modes) := by
  rw [Instruction.size] at hsize ⊢
  have hfits : address + 1 + i.modes.length ≤ words.length := by omega
  constructor
  · rw [Entry.size, List.length_zip, List.length_drop]
    omega
  · rw [Entry.text, map_operandText_zip hfits]

/-- A listing shows a command just where a machine decodes an instruction that ends in memory, and
shows that instruction.  Everywhere else it shows one word of data: the word is illegal as an
instruction, or memory ends before its operands do. -/
theorem entryAt?_iff_decode (words : List Int) (address : Nat) (haddress : address < words.length)
    (m : Machine) (hdialect : m.dialect = .relative) (hmemory : m.memory = words.toArray)
    (hip : m.ip = address) :
    ∃ entry, entryAt? words address = some entry ∧
      ((∃ opcode operands, entry = .command opcode operands) ↔
        ∃ i, m.decode = .ok i ∧ address + i.size ≤ words.length) ∧
      (∀ i, m.decode = .ok i → address + i.size ≤ words.length →
        entry = .command i.opcode (i.modes.zip (words.drop (address + 1))) ∧
          entry.size = i.size ∧
          entry.text = String.intercalate " "
            (i.opcode.mnemonic :: operandTexts words (address + 1) i.modes)) ∧
      ((¬ ∃ i, m.decode = .ok i ∧ address + i.size ≤ words.length) →
        entry = .data words[address] ∧ entry.size = 1 ∧ entry.text = s!".data {words[address]}" ∧
          ∀ fault, m.decode = .error fault → Machine.IsIllegal fault.cause) := by
  have hbehind : words <+: m.memory.toList := by simp [hmemory]
  by_cases h : ∃ i, m.decode = .ok i ∧ address + i.size ≤ words.length
  · obtain ⟨i, hdecode, hsize⟩ := h
    have hentry := entryAt?_of_decode haddress hdialect hbehind hip hdecode hsize
    refine ⟨_, hentry, ⟨fun _ => ⟨i, hdecode, hsize⟩, fun _ => ⟨_, _, rfl⟩⟩, ?_, ?_⟩
    · intro i' hdecode' _
      obtain rfl := Except.ok.inj (hdecode.symm.trans hdecode')
      exact ⟨rfl, shown_command hsize⟩
    · intro hnone
      exact absurd ⟨i, hdecode, hsize⟩ hnone
  · have hentry := entryAt?_of_not_decode haddress hdialect hbehind hip h
    refine ⟨_, hentry, ⟨by simp, fun hsome => absurd hsome h⟩, ?_, ?_⟩
    · intro i hdecode hsize
      exact absurd ⟨i, hdecode, hsize⟩ h
    · intro _
      refine ⟨rfl, rfl, rfl, ?_⟩
      intro fault hfault
      have hread := (cell_of_memory hbehind haddress).1
      rw [← hip] at hread
      exact Machine.isIllegal_of_decode hdialect hread hfault

/-- A product of two values that goes to a cell, behind a halt. -/
theorem entryAt?_iff_decode_product :
    let words : List Int := [99, 21102, -7, 6, 0]
    let m : Machine := { Machine.boot words {} with ip := 1 }
    1 < words.length ∧ m.dialect = .relative ∧ m.memory = words.toArray ∧ m.ip = (1 : Nat) ∧
      m.decode = .ok ⟨1, 21102, .multiply, [.immediate, .immediate, .relative]⟩ ∧
      ∃ entry, entryAt? words 1 = some entry ∧ entry.size = 4 ∧ entry.text = "mul #-7 #6 ~0" := by
  intro words m
  have hlength : 1 < words.length := by decide
  have hmemory : m.memory = words.toArray := by decide
  have hdecode : m.decode = .ok ⟨1, 21102, .multiply, [.immediate, .immediate, .relative]⟩ := by
    decide
  obtain ⟨entry, hentry, -, hshown, -⟩ :=
    entryAt?_iff_decode words 1 hlength m rfl hmemory rfl
  obtain ⟨-, hsize, htext⟩ := hshown _ hdecode (by decide)
  refine ⟨hlength, rfl, hmemory, rfl, hdecode, entry, hentry, hsize, ?_⟩
  rw [htext]
  cbv

end Program

end IntegerMachine
