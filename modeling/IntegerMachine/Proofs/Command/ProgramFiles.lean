import IntegerMachine.Command.Assemble
import IntegerMachine.Command.Disassemble
import IntegerMachine.Command.Run
import IntegerMachine.Proofs.Files.Writing
import IntegerMachine.Proofs.Program.Dump
import IntegerMachine.Proofs.Program.Meaning

/-!
# Program files between commands

The command `asm` writes a file that `disasm` and `run` read.  A file is read as it was written
(`Tree.read_of_write`), and what was dumped is loaded (`loadFile_dump`), so both find the words that
were assembled: `dumped_programs`.  No numeral of these has too many digits to be read again, since
none was read that has (`allFit_of_assemble`).
-/

set_option autoImplicit false

namespace IntegerMachine.Command

open Files

/-- The settings of a run, from its settings file and its options. -/
def Run.settled (call : Run) (tree : Tree) : Except Failure Settings := do
  let declared ← (call.declared tree).result
  let changed ← (declared.update call.change).mapError .settings
  changed.settings.mapError .settings

/-- The commands that read a program file find the words in it. -/
structure Finds (tree : Tree) (location : Location) (words : List Int) : Prop where
  read : (readProgram tree location).result = .ok words
  disassemble : ∀ call : Disassemble, call.program = location →
    (call.perform tree).exit = .done ∧
      (call.perform tree).output = String.join ((Program.listing words).map (· ++ "\n"))
  run : ∀ call : Run, call.program = location →
    (call.machine tree).result =
      (call.settled tree).map fun settings => (Machine.boot words settings).feedAll call.inputs

section Reading

variable {tree : Tree} {location : Location} {words : List Int}

/-- A command whose work succeeded is done and leaves its output and its files. -/
theorem ofResult_ok {logged : Logged (Except Failure (String × Tree))} {output : String}
    {after : Tree} (h : logged.result = .ok (output, after)) :
    Outcome.ofResult tree logged = ⟨.done, output, after, none, logged.log⟩ := by
  obtain ⟨result, log⟩ := logged
  obtain rfl : result = .ok (output, after) := h
  rfl

/-- A command whose work failed is refused, and leaves no output and the files as they were. -/
theorem ofResult_error {logged : Logged (Except Failure (String × Tree))} {failure : Failure}
    (h : logged.result = .error failure) :
    Outcome.ofResult tree logged = ⟨.refused, "", tree, some failure, logged.log⟩ := by
  obtain ⟨result, log⟩ := logged
  obtain rfl : result = .error failure := h
  rfl

/-- Once its file is read as a program, the disassembler succeeds and prints the listing. -/
theorem Disassemble.perform_of_read {call : Disassemble}
    (h : (readProgram tree call.program).result = .ok words) :
    (call.perform tree).exit = .done ∧
      (call.perform tree).output = String.join ((Program.listing words).map (· ++ "\n")) := by
  unfold Disassemble.perform
  rw [ofResult_ok]
  · exact ⟨rfl, rfl⟩
  · rw [Logged.result_andThen, Logged.withLog, h]
    rfl

/-- Once its file is read as a program, the machine to run depends on the settings only. -/
theorem Run.machine_of_read {call : Run}
    (h : (readProgram tree call.program).result = .ok words) :
    (call.machine tree).result =
      (call.settled tree).map fun settings =>
        (Machine.boot words settings).feedAll call.inputs := by
  unfold Run.machine Run.settled
  simp only [Logged.result_andThen, Logged.quiet, h]
  cases (call.declared tree).result with
  | error failure => rfl
  | ok declared =>
    rw [ok_bind, ok_bind]
    cases declared.update call.change with
    | error refusal => rfl
    | ok changed =>
      rw [Except.mapError, ok_bind, ok_bind, ok_bind]
      cases changed.settings with
      | error refusal => rfl
      | ok settings => rfl

/-- Both commands find the words that reading the file gives. -/
theorem finds_of_readProgram (h : (readProgram tree location).result = .ok words) :
    Finds tree location words where
  read := h
  disassemble := by
    rintro call rfl
    exact Disassemble.perform_of_read h
  run := by
    rintro call rfl
    exact Run.machine_of_read h

/-- A file that holds the dump of words is read as these words. -/
theorem readProgram_of_read (hfit : Program.AllFit (Program.numeralsOf words))
    (h : tree.read location = .ok (Program.dump words ++ "\n")) :
    (readProgram tree location).result = .ok words := by
  have hload := Program.loadFile_dump location.text hfit 0
  rw [readProgram, h]
  simp only [hload]
  simp [Except.mapError]

end Reading

namespace Assemble

variable {call : Assemble} {tree : Tree} {words : List Int}

/-- Words that cannot be written to their file make the assembler refuse. -/
theorem perform_of_write_error (h : (call.words tree).result = .ok words) {fault : Files.Fault}
    (hwrite : tree.write call.binary (Program.dump words ++ "\n") = .error fault) :
    (call.perform tree).exit = .refused ∧ (call.perform tree).failure? = some (.file fault) := by
  obtain ⟨log, hperform⟩ :
      ∃ log, call.perform tree = ⟨.refused, "", tree, some (.file fault), log⟩ := by
    refine ⟨_, ofResult_error ?_⟩
    rw [Logged.result_andThen, Logged.withLog, h, ok_bind, hwrite]
    rfl
  rw [hperform]
  exact ⟨rfl, rfl⟩

/-- Words that are written to their file make the assembler succeed. -/
theorem perform_of_write_ok (h : (call.words tree).result = .ok words) {after : Tree}
    (hwrite : tree.write call.binary (Program.dump words ++ "\n") = .ok after) :
    ∃ log, call.perform tree = ⟨.done, "", after, none, log⟩ := by
  refine ⟨_, ofResult_ok ?_⟩
  rw [Logged.result_andThen, Logged.withLog, h, ok_bind, hwrite]
  rfl

/-- Sources that are read and assembled give the assembler its words. -/
theorem result_words {sources : List Assembly.Source}
    (hsources : (readSources tree call.sources).result = .ok sources)
    (hwords : (Assembly.assemble sources).result = .ok words) :
    (call.words tree).result = .ok words := by
  rw [Assemble.words, Logged.result_andThen, hsources, ok_bind]
  change (Assembly.assemble sources).result.mapError Failure.assembly = .ok words
  rw [hwords]
  rfl

end Assemble

/-! ## Words that were assembled -/

section Assembled

open Assembly Text

/-- A value that was read is laid out as a word with no more digits than may be read, as long as
the words of the script can be counted with so many. -/
theorem digitCount_valueWord_le {script : Script} (hextent : extent script < 10 ^ digitLimit)
    (scope : List Char) {value : List Char} (h : IsValue value)
    (hreadable : isOverlong value = false) :
    digitCount (toString (valueWord script scope value)).toList ≤ digitLimit := by
  cases h with
  | numeral hnumeral =>
    rw [isOverlong_of_isNumeral hnumeral] at hreadable
    rw [valueWord, reference?_of_isNumeral hnumeral]
    exact (digitCount_numeralValue_le hnumeral).trans (Nat.not_lt.mp (of_decide_eq_false hreadable))
  | reference name =>
    have hoffset : ∀ label, digitCount (toString (offsetOf script label : Int)).toList ≤ digitLimit :=
      fun label => digitCount_toString_le (by decide)
        ((offsetOf_le_extent script label).trans_lt hextent)
    exact hoffset _

/-- What was assembled can be dumped and read again, as long as its words can be counted with no
more digits than may be read. -/
theorem allFit_of_assemble {sources : List Source} {words : List Int}
    (h : (assemble sources).result = .ok words) (hlength : words.length < 10 ^ digitLimit) :
    Program.AllFit (Program.numeralsOf words) := by
  have hwritten := isWritten_of_mem_scriptOf sources
  obtain ⟨⟨-, hreadable⟩, -⟩ := result_eq_ok_iff.mp h
  have hwords := Program.words_eq_wordsIn h
  have hextent : extent (scriptOf sources) < 10 ^ digitLimit := by
    rwa [← Program.length_wordsIn hwritten, ← hwords]
  intro numeral hmem
  obtain ⟨word, hword, rfl⟩ := List.mem_map.mp hmem
  rw [hwords] at hword
  obtain ⟨⟨scope, statement⟩, hentry, hword⟩ := List.mem_flatMap.mp hword
  rcases List.mem_append.mp hword with hhead | hbehind
  · cases statement with
    | command opcode operands =>
      obtain rfl := List.mem_singleton.mp hhead
      have hopcode := Program.natAbs_opcodeWord_lt (hwritten _ hentry).1
      exact (digitCount_toString_le (by decide) hopcode).trans (by decide)
    | label name => exact absurd hhead List.not_mem_nil
    | data values => exact absurd hhead List.not_mem_nil
    | unknown text => exact absurd hhead List.not_mem_nil
  · obtain ⟨value, hvalue, rfl⟩ := List.mem_map.mp hbehind
    exact digitCount_valueWord_le hextent scope ((hwritten _ hentry).isValue value hvalue)
      (hreadable _ hentry value hvalue)

end Assembled

/-- What is dumped is loaded again, with the zeros asked for behind it, also from a file that ends
the line, if no number in it has too many digits to be read.  A text and the dump of what it is
loaded as are loaded alike.  Once sources are assembled, to words that can be counted with no more
digits than that, `asm` fails only where their words cannot be written, and otherwise leaves a file
in which the commands that read a program file find just these words. -/
theorem dumped_programs :
    (∀ (words : List Int) (padding : Int), Program.AllFit (Program.numeralsOf words) →
      (Program.load (Program.dump words) padding).result =
          .ok (words ++ List.replicate padding.toNat 0) ∧
        ∀ path, (Program.loadFile path (Program.dump words ++ "\n") padding).result =
          .ok (words ++ List.replicate padding.toNat 0)) ∧
      (∀ text padding, ((Program.load text padding).result >>= fun words =>
        (Program.load (Program.dump words) 0).result) = (Program.load text padding).result) ∧
      ∀ (call : Assemble) (tree : Tree) sources words,
        (readSources tree call.sources).result = .ok sources →
        (Assembly.assemble sources).result = .ok words →
        words.length < 10 ^ Text.digitLimit →
        (∃ fault, tree.write call.binary (Program.dump words ++ "\n") = .error fault ∧
          (call.perform tree).exit = .refused ∧
          (call.perform tree).failure? = some (.file fault)) ∨
        ∃ after log, call.perform tree = ⟨.done, "", after, none, log⟩ ∧
          after.read call.binary = .ok (Program.dump words ++ "\n") ∧
          Finds after call.binary words := by
  refine ⟨?_, ?_, ?_⟩
  · intro words padding hfit
    exact ⟨Program.load_dump hfit padding, fun path => Program.loadFile_dump path hfit padding⟩
  · intro text padding
    cases hload : (Program.load text padding).result with
    | error refusal => rfl
    | ok words =>
      rw [ok_bind, Program.load_dump (Program.allFit_of_load hload)]
      simp
  · intro call tree sources words hsources hwords hlength
    have hfit := allFit_of_assemble hwords hlength
    have hcall := Assemble.result_words hsources hwords
    cases hwrite : tree.write call.binary (Program.dump words ++ "\n") with
    | error fault =>
      exact .inl ⟨fault, rfl, Assemble.perform_of_write_error hcall hwrite⟩
    | ok after =>
      obtain ⟨log, hperform⟩ := Assemble.perform_of_write_ok hcall hwrite
      have hread := Tree.read_of_write hwrite
      exact .inr ⟨after, log, hperform, hread, finds_of_readProgram (readProgram_of_read hfit hread)⟩

/-- A command with a jump back to it, assembled into a folder that is not there yet. -/
theorem dumped_programs_new_folder :
    let call : Assemble := ⟨[Location.ofText "a.iasm"], Location.ofText "out/a.bin", false⟩
    let tree := Tree.ofFiles [("a.iasm", "x: out ~-3 jt #1 #&x")]
    ∃ after log, call.perform tree = ⟨.done, "", after, none, log⟩ ∧
      after.read call.binary = .ok "204,-3,1105,1,0\n" ∧
      (Disassemble.perform ⟨call.binary, false⟩ after).output =
        "00000: out ~-3\n00002: jt #1 #0\n" ∧
      (Run.machine ⟨call.binary, none, {}, [7], .numbers, false⟩ after).result =
        .ok ((Machine.boot [204, -3, 1105, 1, 0] {}).feedAll [7]) := by
  intro call tree
  have hsources : (readSources tree call.sources).result =
      .ok [⟨none, "a", "x: out ~-3 jt #1 #&x"⟩] := by rfl
  have hwords : (Assembly.assemble [⟨none, "a", "x: out ~-3 jt #1 #&x"⟩]).result =
      .ok [204, -3, 1105, 1, 0] := by decide +kernel
  have hdump : Program.dump [204, -3, 1105, 1, 0] ++ "\n" = "204,-3,1105,1,0\n" := by decide +kernel
  obtain ⟨-, -, hassembled⟩ := dumped_programs
  have hlength : [204, -3, 1105, 1, (0 : Int)].length < 10 ^ Text.digitLimit :=
    Nat.lt_of_lt_of_le (by decide : 5 < 10 ^ 1) (Nat.pow_le_pow_right (by decide) (by decide))
  rcases hassembled call tree _ _ hsources hwords hlength with
    ⟨fault, hwrite, -⟩ | ⟨after, log, hperform, hread, hfinds⟩
  · have hwritten : (Tree.write (Tree.ofFiles [("a.iasm", "x: out ~-3 jt #1 #&x")])
        (Location.ofText "out/a.bin") "204,-3,1105,1,0\n").isOk = true := by rfl
    rw [hdump] at hwrite
    have hfailed := congrArg Except.isOk hwrite
    exact absurd (hwritten.symm.trans hfailed) (by simp [Except.isOk, Except.toBool])
  · refine ⟨after, log, hperform, hread.trans (congrArg Except.ok hdump), ?_, ?_⟩
    · rw [(hfinds.disassemble ⟨call.binary, false⟩ rfl).2]
      decide +kernel
    · rw [hfinds.run ⟨call.binary, none, {}, [7], .numbers, false⟩ rfl]
      rfl

end IntegerMachine.Command
