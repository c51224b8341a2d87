import IntegerMachine.Program.Listing
import Mathlib.Algebra.Order.Ring.Int

/-!
# What a listing shows

A listing goes through the words of a program from entry to entry.  A word begins an instruction
if it is not negative, its two lowest digits are the code of an operation, and the digits above
name a mode for every operand (`Word.Begins`).  `Entry.Shows` says what an entry has to do with the
word it begins with and the words behind it: data is the word itself, and a command has the operands
that follow and the modes in the digits of the word.  Above these digits the word may have others,
which a command does not show; `plainWord` is the word without them, and `plainWord_eq_emod` says so.

From one entry the results go on to all of them by the recursion of `entriesFrom`: the entries
cover every address once, and their plain words are those of the program but for the digits
that are not shown.
-/

set_option autoImplicit false

namespace IntegerMachine

/-! ## Words that begin an instruction -/

/-- No opcode takes more than three operands. -/
theorem Program.operands_le_three (opcode : Opcode) : opcode.operands ≤ 3 := by
  cases opcode <;> decide

/-- The operation and the modes that a word stands for.  Digits above those of the operands do not
count. -/
structure Word.Begins (word : Int) (opcode : Opcode) (modes : List Mode) : Prop where
  nonneg : 0 ≤ word
  code_eq : opcode.code = word % 100
  digits_eq : modes.map Mode.digit = (split word).2.take opcode.operands

namespace Word.Begins

variable {word : Int} {opcode : Opcode} {modes : List Mode}

/-- A word stands for a mode for each operand of its operation. -/
theorem length_modes (h : Begins word opcode modes) : modes.length = opcode.operands := by
  have hthree := Program.operands_le_three opcode
  have hlength := congrArg List.length h.digits_eq
  rw [List.length_map, List.length_take] at hlength
  have hsplit : (split word).2.length = 3 := rfl
  omega

/-- The operation of a word is the one of its code. -/
theorem ofCode?_eq (h : Begins word opcode modes) :
    Opcode.ofCode? (split word).1 = some opcode := by
  have hcode : (split word).1 = opcode.code := h.code_eq.symm
  rw [hcode, Opcode.ofCode?_code]

end Word.Begins

/-- The digits of modes are those of these modes. -/
theorem Mode.mapM_ofDigit?_digit (modes : List Mode) :
    (modes.map digit).mapM ofDigit? = some modes := by
  induction modes with
  | nil => rfl
  | cons mode modes ih =>
    rw [List.map_cons, List.mapM_cons, ih, ofDigit?_digit]
    rfl

namespace Program

/-! ## Single entries -/

/-- The mode of an operand is the digit above the code at its place. -/
theorem place_eq (mode : Mode) (operand : Nat) :
    Word.place mode operand = mode.digit * 10 ^ (operand + 2) :=
  rfl

/-- The opcode word of an instruction: the code, and above it a digit for each operand. -/
def plainWord (opcode : Opcode) (operands : List (Mode × Int)) : Int :=
  opcode.code + (operands.mapIdx fun k operand => Word.place operand.1 k).sum

/-- The operand that is written to is a value. -/
def HasImmediateDestination (opcode : Opcode) (operands : List (Mode × Int)) : Prop :=
  ∃ k word, opcode.destination? = some k ∧ operands[k]? = some (.immediate, word)

namespace Entry

/-- The first word that an entry shows. -/
def first : Entry → Int
  | data word => word
  | command opcode operands => plainWord opcode operands

/-- The words that an entry shows. -/
def words : Entry → List Int
  | data word => [word]
  | command opcode operands => plainWord opcode operands :: operands.map Prod.snd

/-- An entry shows a word and the words behind it. -/
inductive Shows (word : Int) (rest : List Int) : Entry → Prop
  | data : Shows word rest (data word)
  | command {opcode : Opcode} {modes : List Mode} (hword : 0 ≤ word)
      (hcode : opcode.code = word % 100) (hlength : opcode.operands ≤ rest.length)
      (hmodes : modes.map Mode.digit = (Word.split word).2.take opcode.operands) :
    Shows word rest (command opcode (modes.zip rest))

/-- An operation found for a code has that code. -/
theorem code_of_ofCode? {code : Int} {opcode : Opcode} (h : Opcode.ofCode? code = some opcode) :
    opcode.code = code := by
  have hfound := List.find?_some h
  exact beq_iff_eq.mp hfound

/-- A mode found for a digit has that digit. -/
theorem digit_of_ofDigit? {digit : Int} {mode : Mode} (h : Mode.ofDigit? digit = some mode) :
    mode.digit = digit := by
  have hfound := List.find?_some h
  exact beq_iff_eq.mp hfound

/-- Modes found for digits have these digits. -/
theorem map_digit_of_mapM {digits : List Int} {modes : List Mode}
    (h : digits.mapM Mode.ofDigit? = some modes) : modes.map Mode.digit = digits := by
  induction digits generalizing modes with
  | nil =>
    obtain rfl : [] = modes := Option.some.inj h
    rfl
  | cons digit digits ih =>
    rw [List.mapM_cons] at h
    obtain ⟨mode, hmode, hrest⟩ := Option.bind_eq_some_iff.mp h
    obtain ⟨modes', hmodes, hcons⟩ := Option.bind_eq_some_iff.mp hrest
    obtain rfl := Option.some.inj hcons
    rw [List.map_cons, digit_of_ofDigit? hmode, ih hmodes]

/-- A command is shown where a word begins an instruction and all its operands follow. -/
theorem command?_eq_some_iff {word : Int} {rest : List Int} {entry : Entry} :
    command? word rest = some entry ↔
      ∃ opcode modes, Word.Begins word opcode modes ∧ opcode.operands ≤ rest.length ∧
        entry = command opcode (modes.zip rest) := by
  constructor
  · intro h
    obtain ⟨opcode, hopcode, hrest⟩ := Option.bind_eq_some_iff.mp h
    split at hrest
    · exact absurd hrest (by simp)
    · rename_i hguard
      obtain ⟨modes, hmodes, hentry⟩ := Option.bind_eq_some_iff.mp hrest
      rw [not_or, Int.not_lt, Nat.not_lt] at hguard
      have hcode := code_of_ofCode? hopcode
      have hdigits := map_digit_of_mapM hmodes
      exact ⟨opcode, modes, ⟨hguard.1, hcode, hdigits⟩, hguard.2, (Option.some.inj hentry).symm⟩
  · rintro ⟨opcode, modes, hbegins, hlength, rfl⟩
    have hguard : ¬ (word < 0 ∨ rest.length < opcode.operands) := by
      have := hbegins.nonneg
      omega
    unfold command?
    simp only [hbegins.ofCode?_eq, ← hbegins.digits_eq, Mode.mapM_ofDigit?_digit, if_neg hguard,
      bind, Option.bind]
    rfl

/-- The entry of words shows the first of them. -/
theorem shows_ofWords (word : Int) (rest : List Int) : Shows word rest (ofWords word rest) := by
  unfold ofWords
  cases h : command? word rest with
  | none => exact .data
  | some entry =>
    obtain ⟨opcode, modes, hbegins, hlength, rfl⟩ := command?_eq_some_iff.mp h
    exact .command hbegins.nonneg hbegins.code_eq hlength hbegins.digits_eq

namespace Shows

variable {word : Int} {rest : List Int} {opcode : Opcode} {operands : List (Mode × Int)}

/-- A command shows as many operands as its operation takes, and they are among the words. -/
theorem length_operands (h : Shows word rest (.command opcode operands)) :
    operands.length = opcode.operands ∧ opcode.operands ≤ rest.length := by
  cases h with
  | @command opcode modes _ _ hlength hmodes =>
    have hthree := operands_le_three opcode
    have hdigits := congrArg List.length hmodes
    rw [List.length_map, List.length_take] at hdigits
    have hsplit : (Word.split word).2.length = 3 := rfl
    refine ⟨?_, hlength⟩
    rw [List.length_zip]
    omega

/-- The operands of a command are the words behind its own. -/
theorem map_snd_operands (h : Shows word rest (.command opcode operands)) :
    operands.map Prod.snd = rest.take opcode.operands := by
  obtain ⟨hcount, hle⟩ := h.length_operands
  cases h with
  | @command opcode modes _ _ _ _ =>
    rw [List.length_zip] at hcount
    rw [List.zip_eq_zip_take_min, hcount]
    apply List.map_snd_zip
    rw [List.length_take, List.length_take]
    omega

/-- A command shows the modes of its word. -/
theorem map_digit_operands (h : Shows word rest (.command opcode operands)) :
    operands.map (fun operand => operand.1.digit) =
      (Word.split word).2.take opcode.operands := by
  obtain ⟨hcount, -⟩ := h.length_operands
  cases h with
  | @command opcode modes _ _ hle hmodes =>
    have hmodesLength := congrArg List.length hmodes
    rw [List.length_map, List.length_take] at hmodesLength
    have hfst : (modes.zip rest).map Prod.fst = modes := by
      apply List.map_fst_zip
      omega
    have hmap : (modes.zip rest).map (fun operand => operand.1.digit) =
        ((modes.zip rest).map Prod.fst).map Mode.digit := by
      rw [List.map_map]
      rfl
    rw [hmap, hfst, hmodes]

/-- A plain word is what is left of the word without the digits above those of the operands. -/
theorem plainWord_eq_emod (h : Shows word rest (.command opcode operands)) :
    plainWord opcode operands = word % 10 ^ (opcode.operands + 2) := by
  have hdigits := h.map_digit_operands
  have hcode : opcode.code = word % 100 := by
    cases h with
    | command _ hcode _ _ => exact hcode
  have hsum : (operands.mapIdx fun k operand => Word.place operand.1 k) =
      (operands.map fun operand => operand.1.digit).mapIdx fun k d => d * 10 ^ (k + 2) := by
    apply List.ext_getElem?
    intro k
    simp [place_eq, Function.comp_def]
  rw [plainWord, hsum, hdigits, hcode]
  have hthree := operands_le_three opcode
  generalize opcode.operands = n at hthree
  obtain rfl | rfl | rfl | rfl : n = 0 ∨ n = 1 ∨ n = 2 ∨ n = 3 := by omega
  all_goals
    simp only [Word.split, List.take, List.mapIdx_cons, List.mapIdx_nil, List.sum_cons,
      List.sum_nil]
    omega

/-- An entry covers no more words than there are. -/
theorem size_le {entry : Entry} (h : Shows word rest entry) : entry.size ≤ rest.length + 1 := by
  cases entry with
  | data word => exact Nat.le_add_left 1 _
  | command opcode operands =>
    obtain ⟨hcount, hle⟩ := h.length_operands
    rw [size, hcount]
    omega

/-- An entry shows the operand words as they are, and of its first word the digits that count. -/
theorem words_eq {entry : Entry} (h : Shows word rest entry) :
    entry.words = entry.first :: rest.take (entry.size - 1) := by
  cases entry with
  | data word => rfl
  | command opcode operands =>
    rw [words, h.map_snd_operands, size, h.length_operands.1, Nat.add_sub_cancel_left, first]

end Shows

/-- An entry shows as many words as it covers. -/
theorem length_words (entry : Entry) : entry.words.length = entry.size := by
  cases entry with
  | data word => rfl
  | command opcode operands => simp [words, size, Nat.add_comm]

end Entry

/-! ## All entries -/

open Entry

/-- What stands behind the entry of the first word. -/
theorem entryAt?_cons (word : Int) (rest : List Int) {size : Nat} (h : 1 ≤ size) (i : Nat) :
    entryAt? (word :: rest) (size + i) = entryAt? (rest.drop (size - 1)) i := by
  obtain ⟨n, rfl⟩ : ∃ n, size = n + 1 := ⟨size - 1, by omega⟩
  have hdrop : (word :: rest).drop (n + 1 + i) = (rest.drop n).drop i := by
    rw [List.drop_drop, Nat.add_right_comm, List.drop_succ_cons]
  rw [entryAt?, entryAt?, hdrop, Nat.add_sub_cancel]

/-- No entry has an address before the first. -/
theorem le_of_mem_entriesFrom {address : Nat} {words : List Int} {entry : Nat × Entry}
    (h : entry ∈ entriesFrom address words) : address ≤ entry.1 := by
  fun_induction entriesFrom address words with
  | case1 => exact absurd h List.not_mem_nil
  | case2 address word rest first ih =>
    rcases List.mem_cons.mp h with rfl | hmem
    · exact Nat.le_refl _
    · have := ih hmem
      omega

/-- The entries are those decoded at their addresses. -/
theorem entryAt?_of_mem {address : Nat} {words : List Int} {entry : Nat × Entry}
    (h : entry ∈ entriesFrom address words) :
    entryAt? words (entry.1 - address) = some entry.2 := by
  fun_induction entriesFrom address words with
  | case1 => exact absurd h List.not_mem_nil
  | case2 address word rest first ih =>
    rcases List.mem_cons.mp h with rfl | hmem
    · rw [Nat.sub_self]
      rfl
    · have hle := le_of_mem_entriesFrom hmem
      have hsum : entry.1 - address = first.size + (entry.1 - (address + first.size)) := by
        omega
      rw [hsum, entryAt?_cons word rest first.one_le_size]
      exact ih hmem

/-- Each entry shows the words at its address. -/
theorem shows_of_mem {address : Nat} {words : List Int} {entry : Nat × Entry}
    (h : entry ∈ entriesFrom address words) :
    ∃ word rest, words.drop (entry.1 - address) = word :: rest ∧ entry.2.Shows word rest := by
  have hat := entryAt?_of_mem h
  unfold entryAt? at hat
  split at hat
  · exact absurd hat (by simp)
  · rename_i word rest hdrop
    refine ⟨word, rest, hdrop, ?_⟩
    rw [← Option.some.inj hat]
    exact shows_ofWords word rest

/-- The entries cover every address once. -/
theorem covers_entriesFrom (address : Nat) (words : List Int) :
    (entriesFrom address words).flatMap (fun entry => List.range' entry.1 entry.2.size) =
      List.range' address words.length := by
  fun_induction entriesFrom address words with
  | case1 => rfl
  | case2 address word rest first ih =>
    have hle : first.size ≤ rest.length + 1 := (shows_ofWords word rest).size_le
    have hsum : (word :: rest).length = first.size + (rest.drop (first.size - 1)).length := by
      have := first.one_le_size
      rw [List.length_cons, List.length_drop]
      omega
    rw [List.flatMap_cons, ih, hsum, ← List.range'_append, Nat.one_mul]

/-- The words shown are those of the program, but for the first word of each entry. -/
theorem getElem?_words_entriesFrom (address : Nat) (words : List Int) (i : Nat) :
    ((entriesFrom address words).flatMap fun entry => entry.2.words)[i]? =
      if address + i ∈ (entriesFrom address words).map Prod.fst then
        (entryAt? words i).map Entry.first
      else words[i]? := by
  fun_induction entriesFrom address words generalizing i with
  | case1 => rfl
  | case2 address word rest first ih =>
    have hwords : first.words = first.first :: rest.take (first.size - 1) :=
      (shows_ofWords word rest).words_eq
    have hone := first.one_le_size
    rw [List.flatMap_cons]
    dsimp only
    -- the place lies in the first entry, or behind it
    rcases Nat.lt_or_ge i first.size with hinside | hbehind
    · have hlength : i < first.words.length := by rwa [first.length_words]
      rw [List.getElem?_append_left hlength, hwords]
      cases i with
      | zero =>
        rw [if_pos (by simp)]
        rfl
      | succ j =>
        -- The addresses behind are too large, and its own is too small.
        have hnot : address + (j + 1) ∉ ((address, first) ::
            entriesFrom (address + first.size) (rest.drop (first.size - 1))).map Prod.fst := by
          rw [List.map_cons, List.mem_cons, not_or]
          refine ⟨by simp, ?_⟩
          intro hmem
          obtain ⟨entry, hentry, heq⟩ := List.mem_map.mp hmem
          have := le_of_mem_entriesFrom hentry
          omega
        rw [if_neg hnot, List.getElem?_cons_succ, List.getElem?_cons_succ,
          List.getElem?_take_of_lt (by omega)]
    · obtain ⟨k, rfl⟩ : ∃ k, i = first.size + k := ⟨i - first.size, by omega⟩
      have hsucc : first.size + k = (first.size - 1 + k) + 1 := by omega
      have hmem : address + (first.size + k) ∈ ((address, first) ::
          entriesFrom (address + first.size) (rest.drop (first.size - 1))).map Prod.fst ↔
            address + first.size + k ∈
              (entriesFrom (address + first.size) (rest.drop (first.size - 1))).map Prod.fst := by
        rw [List.map_cons, List.mem_cons, Nat.add_assoc]
        exact or_iff_right (by omega)
      have hword : (word :: rest)[first.size + k]? = (rest.drop (first.size - 1))[k]? := by
        rw [hsucc, List.getElem?_cons_succ, List.getElem?_drop]
      have hright : first.words.length ≤ first.size + k := by
        rw [first.length_words]
        omega
      rw [List.getElem?_append_right hright, first.length_words, Nat.add_sub_cancel_left, ih,
        entryAt?_cons word rest hone, hword]
      simp only [hmem]

/-! ## The words shown -/

/-- The words that the listing of a program shows. -/
def shownWords (words : List Int) : List Int :=
  (entries words).flatMap fun entry => entry.2.words

/-- A listing shows as many words as the program has. -/
theorem length_shownWords (words : List Int) : (shownWords words).length = words.length := by
  have hcovers := congrArg List.length (covers_entriesFrom 0 words)
  rw [List.length_flatMap, List.length_range'] at hcovers
  rw [shownWords, List.length_flatMap, ← hcovers]
  simp only [length_words, List.length_range']
  rfl

section Commands

variable {words : List Int} {address : Nat} {opcode : Opcode} {operands : List (Mode × Int)}

/-- A command shows the words at its address. -/
theorem shows_command (h : (address, .command opcode operands) ∈ entries words) :
    ∃ word rest, words[address]? = some word ∧ Shows word rest (.command opcode operands) := by
  obtain ⟨word, rest, hdrop, hshows⟩ := shows_of_mem h
  refine ⟨word, rest, ?_, hshows⟩
  have hhead := congrArg List.head? hdrop
  rw [List.head?_drop, Nat.sub_zero] at hhead
  exact hhead

/-- Where a command stands, its plain word is shown. -/
theorem getElem?_shownWords_of_command (h : (address, .command opcode operands) ∈ entries words) :
    (shownWords words)[address]? = some (plainWord opcode operands) := by
  have hat := entryAt?_of_mem h
  have hmem : 0 + address ∈ (entriesFrom 0 words).map Prod.fst := by
    rw [Nat.zero_add]
    exact List.mem_map_of_mem h
  rw [shownWords, entries, getElem?_words_entriesFrom, if_pos hmem]
  rw [Nat.sub_zero] at hat
  rw [hat]
  rfl

/-- Where no command stands, the word of the program is shown. -/
theorem getElem?_shownWords_of_not_command
    (h : ∀ opcode operands, (address, Entry.command opcode operands) ∉ entries words) :
    (shownWords words)[address]? = words[address]? := by
  rw [shownWords, entries, getElem?_words_entriesFrom, Nat.zero_add]
  split
  · rename_i hmem
    obtain ⟨⟨address', entry⟩, hentry, rfl⟩ := List.mem_map.mp hmem
    obtain ⟨word, rest, hdrop, hshows⟩ := shows_of_mem hentry
    have hat := entryAt?_of_mem hentry
    have hhead := congrArg List.head? hdrop
    rw [List.head?_drop] at hhead
    rw [Nat.sub_zero] at hat hhead
    rw [hat, hhead]
    cases hshows with
    | data => rfl
    | command _ _ _ _ => exact absurd hentry (h _ _)
  · rfl

/-- A plain word is the word without the digits beyond its operands, so it is another word just
if there are such digits. -/
theorem plainWord_ne_iff {word : Int} {rest : List Int}
    (h : Shows word rest (.command opcode operands)) :
    plainWord opcode operands ≠ word ↔ word / 10 ^ (opcode.operands + 2) ≠ 0 := by
  have hsplit := Int.mul_ediv_add_emod word (10 ^ (opcode.operands + 2))
  have hpos : (10 : Int) ^ (opcode.operands + 2) ≠ 0 := Int.ne_of_gt (Int.pow_pos (by decide))
  rw [h.plainWord_eq_emod]
  apply not_congr
  constructor
  · intro heq
    have hzero : (10 : Int) ^ (opcode.operands + 2) * (word / 10 ^ (opcode.operands + 2)) = 0 := by
      omega
    exact (Int.mul_eq_zero.mp hzero).resolve_left hpos
  · intro hzero
    rw [hzero, Int.mul_zero, Int.zero_add] at hsplit
    exact hsplit

/-- The word shown for a command is its word without the digits beyond its operands. -/
theorem getElem?_shownWords_eq_emod (h : (address, .command opcode operands) ∈ entries words)
    {word : Int} (hword : words[address]? = some word) :
    (shownWords words)[address]? = some (word % 10 ^ (opcode.operands + 2)) := by
  obtain ⟨word', rest, hword', hshows⟩ := shows_command h
  obtain rfl : word = word' := Option.some.inj (hword.symm.trans hword')
  rw [getElem?_shownWords_of_command h, hshows.plainWord_eq_emod]

/-- The words shown differ from those of the program where a command has further digits. -/
theorem getElem?_shownWords_ne_iff :
    (shownWords words)[address]? ≠ words[address]? ↔
      ∃ opcode operands word, (address, Entry.command opcode operands) ∈ entries words ∧
        words[address]? = some word ∧ word / 10 ^ (opcode.operands + 2) ≠ 0 := by
  constructor
  · intro hne
    by_cases hcommand : ∃ opcode operands, (address, Entry.command opcode operands) ∈ entries words
    · obtain ⟨opcode, operands, hmem⟩ := hcommand
      obtain ⟨word, rest, hword, hshows⟩ := shows_command hmem
      refine ⟨opcode, operands, word, hmem, hword, (plainWord_ne_iff hshows).mp ?_⟩
      intro heq
      rw [getElem?_shownWords_of_command hmem, hword, heq] at hne
      exact hne rfl
    · refine absurd (getElem?_shownWords_of_not_command ?_) hne
      intro opcode operands hmem
      exact hcommand ⟨opcode, operands, hmem⟩
  · rintro ⟨opcode, operands, word, hmem, hword, hdigits⟩ heq
    obtain ⟨word', rest, hword', hshows⟩ := shows_command hmem
    obtain rfl : word = word' := Option.some.inj (hword.symm.trans hword')
    rw [getElem?_shownWords_of_command hmem, hword] at heq
    exact (plainWord_ne_iff hshows).mpr hdigits (Option.some.inj heq)

/-- The words shown are those of the program if every command has a plain word. -/
theorem shownWords_eq_iff :
    shownWords words = words ↔
      ∀ address opcode operands, (address, Entry.command opcode operands) ∈ entries words →
        words[address]? = some (plainWord opcode operands) := by
  constructor
  · intro heq address opcode operands hmem
    have hshown := getElem?_shownWords_of_command hmem
    rw [heq] at hshown
    exact hshown
  · intro hplain
    apply List.ext_getElem?
    intro address
    by_cases hcommand : ∃ opcode operands, (address, Entry.command opcode operands) ∈ entries words
    · obtain ⟨opcode, operands, hmem⟩ := hcommand
      rw [getElem?_shownWords_of_command hmem, hplain address opcode operands hmem]
    · apply getElem?_shownWords_of_not_command
      intro opcode operands hmem
      exact hcommand ⟨opcode, operands, hmem⟩

end Commands

end Program

end IntegerMachine
