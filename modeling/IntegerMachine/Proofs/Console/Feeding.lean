import IntegerMachine.Proofs.Console.Conversation
import IntegerMachine.Proofs.Text.Escape

/-!
# Input fed on demand and input queued beforehand

The lines of the standard input may be fed to a machine when it waits for them, or their values
may all be queued before it starts.  Both lead to the same end.  They print the same, too, where
numbers are printed, since every number has a line of its own; where text is printed a control
sequence that a stop cuts in two makes the difference, and nothing else does.
-/

set_option autoImplicit false

namespace IntegerMachine.Console

open Machine

/-! ## What is printed in pieces -/

/-- Numbers are written line by line. -/
theorem numberLines_append (first second : List Int) :
    numberLines (first ++ second) = numberLines first ++ numberLines second := by
  simp [numberLines]

/-- As numbers, pieces print no differently than the values in them. -/
theorem printedAll_numbers (pieces : List (List Int)) :
    Style.numbers.printedAll pieces = numberLines pieces.flatten := by
  induction pieces with
  | nil => rfl
  | cons piece pieces ih =>
    rw [List.flatten_cons, numberLines_append, ← ih, Style.printedAll_cons, Style.printed]

/-- The text of pieces is that of each, one after the other. -/
theorem textOf_flatten (pieces : List (List Int)) :
    textOf pieces.flatten = (pieces.map textOf).flatten := by
  unfold textOf
  rw [List.filter_flatten, List.map_flatten, List.map_map]
  rfl

/-- As text, a piece of text values prints without its control sequences. -/
theorem printed_text {values : List Int} (h : ∀ value ∈ values, isText value = true) :
    Style.text.printed values = String.ofList (Text.withoutEscapes (textOf values)) := by
  have hextra : extraOf values = [] := by
    rw [extraOf, List.filter_eq_nil_iff]
    intro value hvalue
    simp [h value hvalue]
  rw [Style.printed, hextra, numberLines, List.map_nil, String.join_nil, String.append_empty]

/-- As text, pieces lose the control sequences that lie in one piece, and no other. -/
theorem printedAll_text {pieces : List (List Int)}
    (h : ∀ value ∈ pieces.flatten, isText value = true) :
    Style.text.printedAll pieces =
      String.ofList ((pieces.map textOf).map Text.withoutEscapes).flatten := by
  induction pieces with
  | nil => rfl
  | cons piece pieces ih =>
    rw [List.flatten_cons, List.forall_mem_append] at h
    rw [Style.printedAll_cons, printed_text h.1, ih h.2, List.map_cons, List.map_cons,
      List.flatten_cons, String.ofList_append]

/-- Text is printed in pieces as it is printed at once exactly if no control sequence is cut. -/
theorem printedAll_text_iff {pieces : List (List Int)}
    (h : ∀ value ∈ pieces.flatten, isText value = true) :
    Style.text.printedAll pieces = Style.text.printed pieces.flatten ↔
      Text.Unbroken (pieces.map textOf) := by
  rw [printedAll_text h, printed_text h, textOf_flatten, String.ofList_inj,
    Text.flatten_withoutEscapes_iff]

/-! ## Lines of input -/

/-- A line that is read as numbers queues them. -/
theorem feeds_numbers {line : String} {batch : List Int}
    (h : (Program.load line 0).result = .ok batch) : Feeds .numbers line batch := by
  intro m
  refine ⟨(Program.load line 0).log, ?_⟩
  rw [Style.feed]
  rcases hload : Program.load line 0 with ⟨fault | values, log⟩
  · rw [hload] at h
    exact absurd h (by simp)
  · rw [hload] at h
    obtain rfl := Except.ok.inj h
    rfl

/-- The values of each line of a text. -/
def typedLines (input : String) : List (List Int) :=
  (Text.lines input).map fun line => lineValues (Text.withoutNewline line)

/-- As text, each line queues its code points and a line feed, whether or not it ends in one. -/
theorem feeds_text (lines : List String) :
    List.Forall₂ (Feeds .text) lines
      (lines.map fun line => lineValues (Text.withoutNewline line)) := by
  rw [List.forall₂_map_right_iff, List.forall₂_same]
  exact fun line _ m => ⟨_, rfl⟩

/-- The text with a line feed at its end, unless it is empty or has one there. -/
def completed (text : List Char) : List Char :=
  if text = [] ∨ text.getLast? = some '\n' then text else text ++ ['\n']

/-- The code points of a text, whose last line is ended if it is not. -/
def typed (input : String) : List Int :=
  (completed input.toList).map fun c => (c.toNat : Int)

/-- Completing a text looks at its last line only. -/
theorem completed_append_newline (front rest : List Char) :
    completed (front ++ '\n' :: rest) = front ++ '\n' :: completed rest := by
  unfold completed
  cases rest with
  | nil => simp
  | cons c rest =>
    have hlast : (front ++ '\n' :: c :: rest).getLast? = (c :: rest).getLast? := by
      rw [List.getLast?_append, List.getLast?_cons_cons,
        List.getLast?_eq_some_getLast (List.cons_ne_nil c rest), Option.some_or]
    have hfront : front ++ '\n' :: c :: rest ≠ [] := by simp
    simp only [hlast, hfront, List.cons_ne_nil, false_or]
    split
    · rfl
    · simp

/-- A last line without a line feed is completed by one. -/
theorem completed_line {line : List Char} (h : '\n' ∉ line) (hne : line ≠ []) :
    completed line = line ++ ['\n'] := by
  unfold completed
  rw [if_neg]
  rintro (hnil | hlast)
  · exact hne hnil
  · exact h (List.mem_of_getLast? hlast)

/-- Nothing is trimmed from a line that holds no line feed. -/
theorem trimmed_line {line : List Char} (h : '\n' ∉ line) :
    (line.reverse.dropWhile (· == '\n')).reverse = line := by
  cases hline : line.reverse with
  | nil => rw [List.reverse_eq_nil_iff.mp hline]; rfl
  | cons c rest =>
    have hc : c ≠ '\n' := by
      rintro rfl
      exact h (List.mem_reverse.mp (by rw [hline]; exact List.mem_cons_self))
    rw [List.dropWhile_cons_of_neg (by simpa using hc), ← hline, List.reverse_reverse]

/-- The lines of a text, each with one line feed at its end, are the text completed. -/
theorem flatMap_linesFrom (line rest : List Char) (h : '\n' ∉ line) :
    (Text.linesFrom line rest).flatMap
        (fun l => (l.reverse.dropWhile (· == '\n')).reverse ++ ['\n']) =
      completed (line.reverse ++ rest) := by
  have hreverse : '\n' ∉ line.reverse := by rwa [List.mem_reverse]
  induction rest generalizing line with
  | nil =>
    rw [Text.linesFrom, List.append_nil]
    cases line with
    | nil => rfl
    | cons c line =>
      rw [completed_line hreverse (by simp), List.isEmpty_cons, if_neg Bool.false_ne_true,
        List.flatMap_singleton, trimmed_line hreverse]
  | cons c rest ih =>
    rw [Text.linesFrom]
    split
    · rename_i hc
      subst hc
      have hdrop : ((('\n' :: line).reverse.reverse.dropWhile (· == '\n'))).reverse =
          line.reverse := by
        rw [List.reverse_reverse, List.dropWhile_cons_of_pos (by simp)]
        simpa using trimmed_line hreverse
      rw [List.flatMap_cons, hdrop, ih [] (by simp) (by simp), completed_append_newline]
      simp
    · rename_i hc
      have hline : '\n' ∉ c :: line := by simp [Ne.symm hc, h]
      rw [ih (c :: line) hline (by rwa [List.mem_reverse])]
      simp

/-- A line loses the line feeds at its end and is given one. -/
theorem lineValues_withoutNewline (line : List Char) :
    lineValues (Text.withoutNewline (String.ofList line)) =
      ((line.reverse.dropWhile (· == '\n')).reverse ++ ['\n']).map fun c => (c.toNat : Int) := by
  simp only [lineValues, Text.withoutNewline, String.toList_ofList, List.map_append, List.map_cons,
    List.map_nil]
  rfl

/-- The values of all lines are those of the whole text, completed. -/
theorem flatten_typedLines (input : String) : (typedLines input).flatten = typed input := by
  have hlines := flatMap_linesFrom [] input.toList (by simp)
  rw [List.reverse_nil, List.nil_append] at hlines
  rw [typed, ← hlines, List.map_flatMap, typedLines, Text.lines, List.map_map,
    ← List.flatMap_def]
  simp only [Function.comp_def, lineValues_withoutNewline]

/-! ## Feeding on demand -/

/-- A conversation yields the same with its pieces in one if they print the same so. -/
theorem reported_asOne {style : Style} {pieces : List (List Int)}
    {ending : Except Fault Suspension}
    (h : ∀ state, ending = .ok state → style.printedAll pieces = style.printed pieces.flatten) :
    reported style (asOne pieces ending) ending = reported style pieces ending := by
  cases ending with
  | error fault => rfl
  | ok state => simp [reported_ok, asOne, h state rfl]

section Queued

variable {program : List Int} {settings : Settings} {inputs : List Int} {style : Style}
  {input : String} {batches : List (List Int)}

/-- No line queues nothing. -/
theorem feeds_nothing (style : Style) : List.Forall₂ (Feeds style) (Text.lines "") [] := .nil

/-- An execution with the values queued beforehand reports the pieces of the conversation as
one. -/
theorem yields_queued {result : Except Failure (Suspension × String)} :
    Yields program settings (inputs ++ batches.flatten) style "" result ↔ ∃ pieces ending,
      Converses ((boot program settings).feedAll inputs) batches pieces ending ∧
        reported style (asOne pieces ending) ending = result := by
  rw [yields_iff (feeds_nothing style)]
  constructor
  · rintro ⟨whole, ending, h, rfl⟩
    obtain ⟨pieces, hpieces, rfl⟩ := converses_boot_iff.mp h
    exact ⟨pieces, ending, hpieces, rfl⟩
  · rintro ⟨pieces, ending, h, rfl⟩
    exact ⟨_, ending, converses_boot_iff.mpr ⟨pieces, h, rfl⟩, rfl⟩

/-- Fed on demand or queued beforehand, the values of the lines lead to the same result if the
pieces are printed as they are printed at once. -/
theorem yields_fed_iff (hfeeds : List.Forall₂ (Feeds style) (Text.lines input) batches)
    (hprinted : ∀ pieces state,
      Converses ((boot program settings).feedAll inputs) batches pieces (.ok state) →
        style.printedAll pieces = style.printed pieces.flatten)
    (result : Except Failure (Suspension × String)) :
    Yields program settings inputs style input result ↔
      Yields program settings (inputs ++ batches.flatten) style "" result := by
  rw [yields_iff hfeeds, yields_queued]
  constructor
  · rintro ⟨pieces, ending, h, rfl⟩
    refine ⟨pieces, ending, h, reported_asOne ?_⟩
    rintro state rfl
    exact hprinted pieces state h
  · rintro ⟨pieces, ending, h, rfl⟩
    refine ⟨pieces, ending, h, (reported_asOne ?_).symm⟩
    rintro state rfl
    exact hprinted pieces state h

/-- Fed on demand or queued beforehand, the values of the lines lead to the same end. -/
theorem endsIn_fed_iff (hfeeds : List.Forall₂ (Feeds style) (Text.lines input) batches)
    (outcome : Except Failure Suspension) :
    EndsIn program settings inputs style input outcome ↔
      EndsIn program settings (inputs ++ batches.flatten) style "" outcome := by
  rw [endsIn_iff hfeeds, endsIn_iff (feeds_nothing style)]
  constructor
  · rintro ⟨pieces, ending, h, rfl⟩
    exact ⟨_, ending, converses_boot_iff.mpr ⟨pieces, h, rfl⟩, rfl⟩
  · rintro ⟨whole, ending, h, rfl⟩
    obtain ⟨pieces, hpieces, -⟩ := converses_boot_iff.mp h
    exact ⟨pieces, ending, hpieces, rfl⟩

/-- Lines that can be fed are no reason to fail. -/
theorem not_endsIn_input (hfeeds : List.Forall₂ (Feeds style) (Text.lines input) batches)
    (refusal : Program.Refusal) :
    ¬ EndsIn program settings inputs style input (.error (.input refusal)) := by
  rw [endsIn_iff hfeeds]
  rintro ⟨pieces, fault' | state, -, h⟩
  · exact absurd (Except.error.inj h) (by simp)
  · exact absurd h (by simp [Except.mapError])

/-- An execution that prints text yields the same with the values queued beforehand exactly if
no control sequence is cut between its pieces. -/
theorem yields_text_iff {pieces : List (List Int)} {state : Suspension}
    (hfeeds : List.Forall₂ (Feeds .text) (Text.lines input) batches)
    (h : Converses ((boot program settings).feedAll inputs) batches pieces (.ok state))
    (htext : ∀ value ∈ pieces.flatten, isText value = true) :
    (∀ result, Yields program settings inputs .text input result ↔
      Yields program settings (inputs ++ batches.flatten) .text "" result) ↔
        Text.Unbroken (pieces.map textOf) := by
  rw [← printedAll_text_iff htext]
  constructor
  · intro hsame
    obtain ⟨pieces', ending, h', hreported⟩ :=
      yields_queued.mp ((hsame _).mp ((yields_iff hfeeds).mpr ⟨pieces, _, h, rfl⟩))
    obtain ⟨rfl, rfl⟩ := h'.unique h
    have houtput := congrArg Prod.snd (Except.ok.inj hreported)
    simpa [asOne] using houtput.symm
  · intro hprinted
    refine yields_fed_iff hfeeds fun pieces' state' h' => ?_
    obtain ⟨rfl, -⟩ := h'.unique h
    exact hprinted

end Queued

/-- Adds two values it reads. -/
def addition : List Int := [3, 0, 3, 1, 1, 0, 1, 0, 4, 0, 99]

/-- Writes a control sequence, reads a value and writes a letter. -/
def boldThenRead : List Int := [104, 27, 104, 91, 104, 49, 104, 109, 3, 0, 104, 120, 99]

/-- Writes an escape character, reads a value and writes the rest of a control sequence and a
letter. -/
def boldAcrossRead : List Int := [104, 27, 3, 0, 104, 91, 104, 49, 104, 109, 104, 120, 99]

end IntegerMachine.Console
