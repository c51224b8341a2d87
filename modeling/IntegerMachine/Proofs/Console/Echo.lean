import IntegerMachine.Console.Text
import IntegerMachine.Proofs.Machine.Standing

/-!
# A machine that answers with what it is told

A session sends a machine lines of text, a batch at a time, and reads after each batch what it
writes.  The program `echo` writes every value it reads until it reads zero, and keeps the value in
a cell behind itself, where memory ends at first.  There is one lemma for each of its instructions,
from which a turn of its loop is put together (`Stands.echo_turn`), a run on all that is queued
(`Stands.echo_run`) and a session of any number of batches (`Stands.echo_talks`).  Such a session
gives back every line, whichever way the lines are cut into batches.
-/

set_option autoImplicit false

namespace IntegerMachine

/-! ## Sessions -/

namespace Console

/-- The code points of a text.  A line of input may also have code points that are no
characters. -/
def codePoints (text : String) : List Nat :=
  text.toList.map Char.toNat

/-- The values that stand for a line of code points. -/
def pointValues (line : List Nat) : List Int :=
  line.map Int.ofNat ++ [newline]

/-- The text in a line: its characters below the limit, and the line feed. -/
def shown (line : List Nat) : List Char :=
  (line.filter (· < 128)).map Char.ofNat ++ ['\n']

/-- The code points of a line that are no text. -/
def beyond (line : List Nat) : List Int :=
  (line.filter (128 ≤ ·)).map Int.ofNat

/-- A line is queued as its code points with a line feed behind them. -/
theorem lineValues_eq (text : String) : lineValues text = pointValues (codePoints text) := by
  rw [lineValues, pointValues, codePoints, List.map_map]
  rfl

/-- The code points that are shown as text are those below 128. -/
theorem isText_ofNat (point : Nat) : isText (Int.ofNat point) = decide (point < 128) := by
  rw [isText, textLimit, ← Bool.decide_and, decide_eq_decide]
  show (0 : Int) ≤ (point : Int) ∧ (point : Int) < 128 ↔ point < 128
  omega

/-- The text among the values of a line is what is shown of it. -/
theorem textOf_pointValues (line : List Nat) : textOf (pointValues line) = shown line := by
  have hkept : isText ∘ Int.ofNat = fun point => decide (point < 128) := by
    funext point
    rw [Function.comp_apply, isText_ofNat]
  rw [textOf, pointValues, List.filter_append, List.map_append, List.filter_map, List.map_map,
    hkept]
  rfl

/-- The values of a line that are no text are those beyond it. -/
theorem extraOf_pointValues (line : List Nat) : extraOf (pointValues line) = beyond line := by
  have hkept : (fun value => !isText value) ∘ Int.ofNat = fun point => decide (128 ≤ point) := by
    funext point
    rw [Function.comp_apply, isText_ofNat, ← decide_not, decide_eq_decide]
    omega
  rw [extraOf, pointValues, List.filter_append, List.filter_map, hkept]
  exact List.append_nil _

/-- The text among the values of lines is what is shown of each, one after the other. -/
theorem textOf_lines (lines : List (List Nat)) :
    textOf (lines.flatMap pointValues) = lines.flatMap shown := by
  rw [textOf, List.filter_flatMap, List.map_flatMap]
  exact congrArg (List.flatMap · lines) (funext textOf_pointValues)

/-- The values of lines that are no text are those beyond it of each, one after the other. -/
theorem extraOf_lines (lines : List (List Nat)) :
    extraOf (lines.flatMap pointValues) = lines.flatMap beyond := by
  rw [extraOf, List.filter_flatMap]
  exact congrArg (List.flatMap · lines) (funext extraOf_pointValues)

/-- A line feed is not zero, so only a code point of the line can be. -/
theorem pointValues_ne_zero {line : List Nat} (h : 0 ∉ line) :
    ∀ value ∈ pointValues line, value ≠ 0 := by
  intro value hvalue
  rcases List.mem_append.mp hvalue with hpoint | hnewline
  · obtain ⟨point, hmem, rfl⟩ := List.mem_map.mp hpoint
    intro hzero
    obtain rfl : point = 0 := Int.ofNat.inj hzero
    exact h hmem
  · rw [List.mem_singleton.mp hnewline]
    decide

end Console

namespace Machine

open Console

variable {m w : Machine} {address : Int} {queue : List Int}

/-- Queues lines of code points. -/
def sendPoints (m : Machine) (lines : List (List Nat)) : Machine :=
  lines.foldl (fun m line => m.feedAll (pointValues line)) m

/-- Lines of text are sent as their code points. -/
theorem sendLines_eq (m : Machine) (texts : List String) :
    texts.foldl (fun m text => (m.sendLine text).1) m = m.sendPoints (texts.map codePoints) := by
  rw [sendPoints, List.foldl_map]
  simp only [sendLine, lineValues_eq]

/-- Sending lines queues the values of all of them. -/
theorem sendPoints_eq_feedAll (m : Machine) (lines : List (List Nat)) :
    m.sendPoints lines = m.feedAll (lines.flatMap pointValues) := by
  rw [sendPoints]
  induction lines generalizing m with
  | nil => rw [List.foldl_nil, List.flatMap_nil, feedAll_nil]
  | cons line lines ih => rw [List.foldl_cons, ih, feedAll_feedAll, List.flatMap_cons]

/-- A reading, given enough rounds, gives a text and the values that are no text, and leaves the
machine as said. -/
def Reads (m : Machine) (reading : List Char × List Int) (w : Machine) : Prop :=
  ∃ rounds log, m.readText rounds = some ⟨.ok reading, w, log⟩

/-- A session: batches of lines are sent one after another, and each is followed by a reading. -/
inductive Talks :
    Machine → List (List (List Nat)) → List (List Char × List Int) → Machine → Prop
  | done (m : Machine) : Talks m [] [] m
  | read {m v w : Machine} {batch : List (List Nat)} {batches : List (List (List Nat))}
      {reading : List Char × List Int} {readings : List (List Char × List Int)}
      (h : (m.sendPoints batch).Reads reading v) (rest : Talks v batches readings w) :
      Talks m (batch :: batches) (reading :: readings) w

/-- A reading splits what a run gives. -/
theorem reads_iff {reading : List Char × List Int} :
    m.Reads reading w ↔
      ∃ values, (∃ rounds log, m.run rounds = some ⟨.ok values, w, log⟩) ∧
        reading = (textOf values, extraOf values) := by
  constructor
  · rintro ⟨rounds, log, h⟩
    obtain ⟨⟨fault | values, after, logged⟩, hrun, hreply⟩ := Option.map_eq_some_iff.mp h
    · exact absurd (congrArg Reply.outcome hreply) (by simp [Except.map])
    · obtain rfl : after = w := congrArg Reply.after hreply
      have hreading := Except.ok.inj (congrArg Reply.outcome hreply)
      exact ⟨values, ⟨rounds, logged, hrun⟩, hreading.symm⟩
  · rintro ⟨values, ⟨rounds, log, hrun⟩, rfl⟩
    refine ⟨rounds, log, ?_⟩
    rw [readText, hrun]
    rfl

/-- A reading gives one thing and leaves one machine. -/
theorem Reads.unique {reading other : List Char × List Int} {v : Machine}
    (h₁ : m.Reads reading w) (h₂ : m.Reads other v) : reading = other ∧ w = v := by
  obtain ⟨values, ⟨rounds, log, hrun⟩, rfl⟩ := reads_iff.mp h₁
  obtain ⟨found, ⟨rounds', log', hrun'⟩, rfl⟩ := reads_iff.mp h₂
  have hfirst : m.Settles (.ok (values, w)) := ⟨rounds, _, hrun, rfl⟩
  have hsecond : m.Settles (.ok (found, v)) := ⟨rounds', _, hrun', rfl⟩
  obtain ⟨rfl, rfl⟩ := Prod.mk.inj (Except.ok.inj (hfirst.unique hsecond))
  exact ⟨rfl, rfl⟩

/-- The same batches lead to the same readings. -/
theorem Talks.unique {batches : List (List (List Nat))}
    {readings others : List (List Char × List Int)} {v : Machine}
    (h₁ : Talks m batches readings w) (h₂ : Talks m batches others v) :
    readings = others ∧ w = v := by
  induction h₁ generalizing others with
  | done m =>
    cases h₂
    exact ⟨rfl, rfl⟩
  | read hread _ ih =>
    cases h₂ with
    | read hread' hrest' =>
      obtain ⟨rfl, rfl⟩ := hread.unique hread'
      obtain ⟨rfl, rfl⟩ := ih hrest'
      exact ⟨rfl, rfl⟩

/-! ## The echo program -/

/-- Writes what it reads until it reads zero. -/
def echo : List Int := [3, 20, 1006, 20, 10, 4, 20, 1105, 1, 0, 99]

/-- The input at the head of its loop. -/
def echoInput : Instruction := ⟨0, 3, .input, [.position]⟩

/-- The loop of the program begins with its input. -/
theorem echoInput_at : InstructionAt echo 0 echoInput :=
  ⟨by decide, by decide, rfl⟩

namespace Stands

/-- The input takes the value at the front of the queue into the cell, which may grow memory, and
control moves to the test. -/
theorem echo_input {value : Int} {rest : List Int} (h : Stands echo 0 (value :: rest) m) :
    ∃ w, Advances m [] w ∧ Stands echo 2 rest w ∧ w.cell 20 = value := by
  have haddress : (m.begun echoInput).address echoInput 0 = .ok 20 :=
    h.read_program echoInput (k := 1) (by decide) (by decide)
  have he : (m.begun echoInput).effect echoInput = .ok (.take 20 value) :=
    (input_eq_ok rfl).mpr (.inr ⟨value, rest, 20, h.inputs_eq, haddress, rfl⟩)
  exact h.takes echoInput_at he (by decide)

/-- The loop is left when the value is zero. -/
theorem echo_test (h : Stands echo 2 queue m) :
    ∃ w, Advances m [] w ∧ Stands echo (if m.cell 20 = 0 then 10 else 5) queue w ∧
      w.cell 20 = m.cell 20 := by
  let i : Instruction := ⟨2, 1006, .jumpIfFalse, [.position, .immediate]⟩
  have hi : InstructionAt echo 2 i := ⟨by decide, by decide, rfl⟩
  have haddress : (m.begun i).address i 0 = .ok 20 :=
    h.read_program i (k := 3) (by decide) (by decide)
  have hvalue : (m.begun i).value i 0 = .ok (m.cell 20) := h.value_eq rfl (by decide) haddress
  have htarget : (m.begun i).value i 1 = .ok 10 := h.read_program i (k := 4) (by decide) (by decide)
  by_cases hzero : m.cell 20 = 0
  · rw [if_pos hzero]
    have he : (m.begun i).effect i = .ok (.jump 10) :=
      branch_eq_ok.mpr ⟨m.cell 20, hvalue, .inl ⟨by simpa using hzero, 10, htarget, rfl⟩⟩
    obtain ⟨w, hsteps, hw, hmemory⟩ := h.jumps hi he
    exact ⟨w, hsteps, hw, by rw [cell, cell, hmemory]⟩
  · rw [if_neg hzero]
    have he : (m.begun i).effect i = .ok .skip :=
      branch_eq_ok.mpr ⟨m.cell 20, hvalue, .inr ⟨by simpa using hzero, rfl⟩⟩
    obtain ⟨w, hsteps, hw, hmemory⟩ := h.skips hi he
    exact ⟨w, hsteps, hw, by rw [cell, cell, hmemory]⟩

/-- The output writes the value of the cell. -/
theorem echo_output (h : Stands echo 5 queue m) :
    ∃ w, Advances m [m.cell 20] w ∧ Stands echo 7 queue w := by
  let i : Instruction := ⟨5, 4, .output, [.position]⟩
  have hi : InstructionAt echo 5 i := ⟨by decide, by decide, rfl⟩
  have haddress : (m.begun i).address i 0 = .ok 20 :=
    h.read_program i (k := 6) (by decide) (by decide)
  have hvalue : (m.begun i).value i 0 = .ok (m.cell 20) := h.value_eq rfl (by decide) haddress
  exact h.emits hi ((output_eq_ok rfl).mpr ⟨m.cell 20, hvalue, rfl⟩)

/-- The jump at the end of the loop leads back to its input. -/
theorem echo_back (h : Stands echo 7 queue m) :
    ∃ w, Advances m [] w ∧ Stands echo 0 queue w := by
  let i : Instruction := ⟨7, 1105, .jumpIfTrue, [.immediate, .immediate]⟩
  have hi : InstructionAt echo 7 i := ⟨by decide, by decide, rfl⟩
  have hvalue : (m.begun i).value i 0 = .ok 1 := h.read_program i (k := 8) (by decide) (by decide)
  have htarget : (m.begun i).value i 1 = .ok 0 := h.read_program i (k := 9) (by decide) (by decide)
  have he : (m.begun i).effect i = .ok (.jump 0) :=
    branch_eq_ok.mpr ⟨1, hvalue, .inl ⟨rfl, 0, htarget, rfl⟩⟩
  obtain ⟨w, hsteps, hw, -⟩ := h.jumps hi he
  exact ⟨w, hsteps, hw⟩

/-- Behind the loop the machine halts. -/
theorem echo_halt (h : Stands echo 10 queue m) : ∃ w, m.step = (.ok .halted, w) := by
  let i : Instruction := ⟨10, 99, .halt, []⟩
  have hi : InstructionAt echo 10 i := ⟨by decide, by decide, rfl⟩
  exact ⟨_, h.step_eq hi rfl⟩

/-- One turn of the loop writes the value it reads. -/
theorem echo_turn {value : Int} {rest : List Int} (h : Stands echo 0 (value :: rest) m)
    (hvalue : value ≠ 0) : ∃ w, Advances m [value] w ∧ Stands echo 0 rest w := by
  obtain ⟨v₁, h₁, hv₁, hcell₁⟩ := h.echo_input
  obtain ⟨v₂, h₂, hv₂, hcell₂⟩ := hv₁.echo_test
  rw [hcell₁, if_neg hvalue] at hv₂
  obtain ⟨v₃, h₃, hv₃⟩ := hv₂.echo_output
  rw [hcell₂, hcell₁] at h₃
  obtain ⟨w, h₄, hw⟩ := hv₃.echo_back
  exact ⟨w, h₁.trans (h₂.trans (h₃.trans h₄)), hw⟩

/-- The loop writes all that is queued, by induction on the queue. -/
theorem echo_turns (h : Stands echo 0 queue m) (hqueue : ∀ value ∈ queue, value ≠ 0) :
    ∃ w, Advances m queue w ∧ Stands echo 0 [] w := by
  induction queue generalizing m with
  | nil => exact ⟨m, .refl m, h⟩
  | cons value rest ih =>
    obtain ⟨v, hturn, hv⟩ := h.echo_turn (hqueue value List.mem_cons_self)
    obtain ⟨w, hrest, hw⟩ := ih hv fun other hmem => hqueue other (List.mem_cons_of_mem _ hmem)
    exact ⟨w, hturn.trans hrest, hw⟩

/-- Whatever is queued, a run writes it and waits for more. -/
theorem echo_run (h : Stands echo 0 queue m) (hqueue : ∀ value ∈ queue, value ≠ 0)
    (hout : m.outputs = []) :
    ∃ w, (∃ rounds log, m.run rounds = some ⟨.ok queue, w, log⟩) ∧ Stands echo 0 [] w ∧
      w.outputs = [] ∧ w.state = .blocked := by
  obtain ⟨u, hsteps, hu⟩ := h.echo_turns hqueue
  obtain ⟨hstep, hwaiting⟩ := hu.waits echoInput_at rfl
  have hvalues : queue = m.outputs ++ queue := by rw [hout, List.nil_append]
  have hrun := (run_eq_ok_iff h.state_ne).mpr
    ⟨queue, u, .blocked, _, hsteps, hstep, by decide, rfl, hvalues, rfl⟩
  exact ⟨_, hrun, { hwaiting with }, rfl, rfl⟩

/-- On a zero a run halts, with nothing written. -/
theorem echo_run_zero (h : Stands echo 0 [0] m) (hout : m.outputs = []) :
    ∃ w, (∃ rounds log, m.run rounds = some ⟨.ok [], w, log⟩) ∧ w.state = .halted := by
  obtain ⟨v, htaken, hv, hcell⟩ := h.echo_input
  obtain ⟨u, hleft, hu, -⟩ := hv.echo_test
  rw [if_pos hcell] at hu
  obtain ⟨w, hstep⟩ := hu.echo_halt
  have hstate : w.state = .halted := state_of_step hstep
  have hvalues : [] = m.outputs ++ ([] ++ []) := by rw [hout, List.nil_append, List.nil_append]
  have hrun := (run_eq_ok_iff h.state_ne).mpr
    ⟨_, u, .halted, w, htaken.trans hleft, hstep, by decide, hstate, hvalues, rfl⟩
  exact ⟨_, hrun, hstate⟩

/-- What a reading answers to a batch. -/
theorem echo_reads (h : Stands echo 0 [] m) (hout : m.outputs = []) {batch : List (List Nat)}
    (hbatch : ∀ line ∈ batch, 0 ∉ line) :
    ∃ w, (m.sendPoints batch).Reads (batch.flatMap shown, batch.flatMap beyond) w ∧
      Stands echo 0 [] w ∧ w.outputs = [] ∧ w.state = .blocked := by
  have hqueue : ∀ value ∈ batch.flatMap pointValues, value ≠ 0 := by
    intro value hvalue
    obtain ⟨line, hline, hpoint⟩ := List.mem_flatMap.mp hvalue
    exact pointValues_ne_zero (hbatch line hline) value hpoint
  have hfed : Stands echo 0 (batch.flatMap pointValues) (m.feedAll (batch.flatMap pointValues)) :=
    h.feedAll _
  obtain ⟨w, hrun, hw⟩ := hfed.echo_run hqueue hout
  rw [sendPoints_eq_feedAll]
  exact ⟨w, reads_iff.mpr ⟨_, hrun, by rw [textOf_lines, extraOf_lines]⟩, hw⟩

/-- Batch by batch each reading gives back its own lines. -/
theorem echo_talks (h : Stands echo 0 [] m) (hout : m.outputs = [])
    {batches : List (List (List Nat))} (hstate : batches = [] → m.state = .blocked)
    (hlines : ∀ line ∈ batches.flatten, 0 ∉ line) :
    ∃ w, Talks m batches
        (batches.map fun batch => (batch.flatMap shown, batch.flatMap beyond)) w ∧
      Stands echo 0 [] w ∧ w.outputs = [] ∧ w.state = .blocked := by
  induction batches generalizing m with
  | nil => exact ⟨m, .done m, h, hout, hstate rfl⟩
  | cons batch batches ih =>
    rw [List.flatten_cons] at hlines
    obtain ⟨v, hreads, hv, hvout, hvstate⟩ :=
      h.echo_reads hout fun line hline => hlines line (List.mem_append_left _ hline)
    obtain ⟨w, htalks, hw⟩ :=
      ih hv hvout (fun _ => hvstate) fun line hline => hlines line (List.mem_append_right _ hline)
    exact ⟨w, .read hreads htalks, hw⟩

end Stands

/-- What is made of every line, put together batch by batch. -/
theorem flatten_map_flatMap {α β : Type} (batches : List (List α)) (f : α → List β) :
    (batches.map fun batch => batch.flatMap f).flatten = batches.flatten.flatMap f := by
  rw [← List.flatMap_def, ← List.flatMap_id, List.flatMap_assoc]
  rfl

/-- A session with a fresh machine that runs the echo program, whichever way its lines are cut into
batches: the readings come back, and put together their texts are the text of all lines, each with
its line feed, and their other values the code points that are no text.  The machine then waits with
nothing queued on either side.  Given a zero it halts and writes nothing. -/
theorem echo_session (batches : List (List (List Nat))) (hbatches : batches ≠ [])
    (hlines : ∀ line ∈ batches.flatten, 0 ∉ line) :
    (∀ (m : Machine) (texts : List String),
      texts.foldl (fun m text => (m.sendLine text).1) m = m.sendPoints (texts.map codePoints)) ∧
    (∃ readings w, Talks (boot echo {}) batches readings w) ∧
    ∀ readings w, Talks (boot echo {}) batches readings w →
      (readings.map Prod.fst).flatten = batches.flatten.flatMap shown ∧
      (readings.map Prod.snd).flatten = batches.flatten.flatMap beyond ∧
      w.isHalted = false ∧ w.isBlocked = true ∧ w.inputs = [] ∧ w.outputs = [] ∧
      ∃ v, (w.feed 0).Reads ([], []) v ∧ v.isHalted = true := by
  obtain ⟨v, htalks, hv, hout, hstate⟩ :=
    (stands_boot echo).echo_talks rfl (fun hnil => absurd hnil hbatches) hlines
  refine ⟨sendLines_eq, ⟨_, v, htalks⟩, fun readings w h => ?_⟩
  obtain ⟨rfl, rfl⟩ := h.unique htalks
  obtain ⟨u, hrun, hhalted⟩ := (hv.feedAll [0]).echo_run_zero hout
  have hzero : (w.feed 0).Reads ([], []) u := reads_iff.mpr ⟨[], hrun, rfl⟩
  refine ⟨?_, ?_, ?_, ?_, hv.inputs_eq, hout, u, hzero, ?_⟩
  · rw [List.map_map]
    exact flatten_map_flatMap batches shown
  · rw [List.map_map]
    exact flatten_map_flatMap batches beyond
  · rw [isHalted, hstate]
    rfl
  · rw [isBlocked, hstate]
    rfl
  · rw [isHalted, hhalted]
    rfl

/-- Two batches with an empty one between them, a line with a character beyond the limit, and an
empty line. -/
theorem echo_session_two_batches :
    let batches : List (List (List Nat)) := [[[104, 105]], [], [[233, 116], []]]
    batches ≠ [] ∧ (∀ line ∈ batches.flatten, 0 ∉ line) ∧
      ∃ readings w, Talks (boot echo {}) batches readings w ∧
        (readings.map Prod.fst).flatten = ['h', 'i', '\n', 't', '\n', '\n'] ∧
        (readings.map Prod.snd).flatten = [233] ∧ w.isBlocked = true := by
  intro batches
  have hbatches : batches ≠ [] := by decide
  have hlines : ∀ line ∈ batches.flatten, 0 ∉ line := by decide
  obtain ⟨-, ⟨readings, w, htalks⟩, hgiven⟩ := echo_session batches hbatches hlines
  obtain ⟨htext, hextra, -, hblocked, -⟩ := hgiven readings w htalks
  exact ⟨hbatches, hlines, readings, w, htalks, htext.trans (by decide), hextra.trans (by decide),
    hblocked⟩

end Machine

end IntegerMachine
