import IntegerMachine.Console.Execution
import IntegerMachine.Proofs.Machine.Resumption
import Mathlib.Data.List.Forall2

/-!
# Executions as conversations

An execution gives its machine a line of the standard input each time it waits.  `Ends` has a rule
for each way in which a turn of it ends, and no count of rounds; `exists_converse_iff_ends` says that
it is what executions do.  `Converses` is an execution seen from the machine: the values of each
line, and the values written from one stop to the next.  `exists_execute_iff` says that executions
are conversations whose pieces are printed, and `converses_queued_iff` that a machine with all the
values queued comes to the same end and writes the pieces as one.
-/

set_option autoImplicit false

namespace IntegerMachine.Console

open Machine

/-! ## Executions and what the machine writes -/

/-- A machine is fed batches one by one, each when it waits.  It writes pieces from one stop to
the next, and it ends halted, waiting with no batch left, or with a fault. -/
inductive Converses :
    Machine → List (List Int) → List (List Int) → Except Fault Suspension → Prop
  | failed {m : Machine} {batches : List (List Int)} {fault : Fault}
      (h : m.Settles (.error fault)) : Converses m batches [] (.error fault)
  | halted {m w : Machine} {batches : List (List Int)} {piece : List Int}
      (h : m.Settles (.ok (piece, w))) (hw : w.isHalted = true) :
      Converses m batches [piece] (.ok .halted)
  | starved {m w : Machine} {piece : List Int} (h : m.Settles (.ok (piece, w)))
      (hw : w.isHalted = false) : Converses m [] [piece] (.ok .blocked)
  | fed {m w : Machine} {batch piece : List Int} {batches pieces : List (List Int)}
      {ending : Except Fault Suspension} (h : m.Settles (.ok (piece, w)))
      (hw : w.isHalted = false) (rest : Converses (w.feedAll batch) batches pieces ending) :
      Converses m (batch :: batches) (piece :: pieces) ending

/-- Feeding a line queues these values. -/
def Feeds (style : Style) (line : String) (batch : List Int) : Prop :=
  ∀ m, ∃ log, style.feed m line = ⟨.ok (m.feedAll batch), log⟩

/-- What is printed for pieces. -/
def Style.printedAll (style : Style) (pieces : List (List Int)) : String :=
  String.join (pieces.map style.printed)

/-- No pieces print nothing. -/
@[simp] theorem Style.printedAll_nil (style : Style) : style.printedAll [] = "" := rfl

/-- Pieces are printed one by one, so what is stripped from one depends on no other. -/
@[simp] theorem Style.printedAll_cons (style : Style) (piece : List Int)
    (pieces : List (List Int)) :
    style.printedAll (piece :: pieces) = style.printed piece ++ style.printedAll pieces := by
  simp [printedAll]

/-- One piece is printed by itself. -/
theorem Style.printedAll_singleton (style : Style) (piece : List Int) :
    style.printedAll [piece] = style.printed piece := by
  simp

/-- The stop a run comes to, and what is printed there. -/
def stopped (style : Style) : Except Fault (List Int × Machine) → Stop × String
  | .error fault => (.failed fault, "")
  | .ok (piece, w) => (if w.isHalted then .halted else .waiting w, style.printed piece)

section Stops

variable {style : Style} {given : Except Fault (List Int × Machine)} {printed : String}

/-- A turn fails exactly with the fault of its run, and prints nothing. -/
theorem stopped_eq_failed {fault : Fault} :
    stopped style given = (.failed fault, printed) ↔ given = .error fault ∧ "" = printed := by
  rcases given with fault' | ⟨piece, w⟩
  · simp [stopped]
  · cases hw : w.isHalted <;> simp [stopped, hw]

/-- A turn halts exactly if its run leaves a halted machine, and prints what the run gave. -/
theorem stopped_eq_halted :
    stopped style given = (.halted, printed) ↔
      ∃ piece w, given = .ok (piece, w) ∧ w.isHalted = true ∧ style.printed piece = printed := by
  rcases given with fault' | ⟨piece, w⟩
  · simp [stopped]
  · cases hw : w.isHalted <;> simp [stopped, hw]

/-- A turn waits exactly if its run leaves a machine that has not halted, and prints what the run
gave. -/
theorem stopped_eq_waiting {w : Machine} :
    stopped style given = (.waiting w, printed) ↔
      ∃ piece, given = .ok (piece, w) ∧ w.isHalted = false ∧ style.printed piece = printed := by
  rcases given with fault' | ⟨piece, w'⟩
  · simp [stopped]
  · cases hw : w'.isHalted
    · simp only [stopped, hw, Bool.false_eq_true, if_false, Prod.mk.injEq, Stop.waiting.injEq,
        Except.ok.injEq]
      constructor
      · rintro ⟨rfl, rfl⟩
        exact ⟨piece, ⟨rfl, rfl⟩, hw, rfl⟩
      · rintro ⟨piece', ⟨rfl, rfl⟩, -, rfl⟩
        exact ⟨rfl, rfl⟩
    · simp only [stopped, hw, if_true, Prod.mk.injEq, Except.ok.injEq]
      constructor
      · rintro ⟨hstop, -⟩
        exact absurd hstop (by simp)
      · rintro ⟨piece', ⟨rfl, rfl⟩, hw', -⟩
        exact absurd (hw.symm.trans hw') (by simp)

/-- A turn, given enough rounds, stops as the run of the machine settles. -/
theorem exists_turn_iff {m : Machine} {stop : Stop} :
    (∃ n log, turn n style m = some ⟨stop, printed, log⟩) ↔
      ∃ given, m.Settles given ∧ stopped style given = (stop, printed) := by
  constructor
  · rintro ⟨n, log, h⟩
    obtain ⟨reply, hrun, hturn⟩ := Option.map_eq_some_iff.mp h
    refine ⟨settled reply, ⟨n, reply, hrun, rfl⟩, ?_⟩
    obtain ⟨fault | piece, w, logged⟩ := reply <;> cases hturn <;> rfl
  · rintro ⟨given, ⟨n, reply, hrun, rfl⟩, hstop⟩
    refine ⟨n, reply.log, ?_⟩
    rw [turn, hrun]
    obtain ⟨fault | piece, w, logged⟩ := reply <;> cases hstop <;> rfl

end Stops

/-- A turn that stops within some rounds stops so within more. -/
theorem turn_add {n : Nat} {style : Style} {m : Machine} {t : Turn} (h : turn n style m = some t)
    (more : Nat) : turn (n + more) style m = some t := by
  obtain ⟨reply, hrun, rfl⟩ := Option.map_eq_some_iff.mp h
  rw [turn, run_add hrun more]
  rfl

/-- An execution that ends within some rounds ends so within more. -/
theorem converse_add {n : Nat} {style : Style} {lines : List String} {m : Machine}
    {output : String} {log : Array Line} {e : Execution}
    (h : converse n style lines m output log = some e) (more : Nat) :
    converse (n + more) style lines m output log = some e := by
  fun_induction converse n style lines m output log with
  | case1 => exact absurd h (by simp)
  | case2 _ _ _ _ _ _ _ hturn => rw [converse.eq_def, turn_add hturn more]; exact h
  | case3 _ _ _ _ _ _ hturn => rw [converse.eq_def, turn_add hturn more]; exact h
  | case4 _ _ _ _ _ _ hturn => rw [converse.eq_def, turn_add hturn more]; exact h
  | case5 _ _ _ _ _ _ hturn _ _ _ _ hfeed =>
    rw [converse.eq_def, turn_add hturn more]
    simp only [hfeed]
    exact h
  | case6 _ _ _ _ _ _ hturn _ _ _ _ hfeed ih =>
    rw [converse.eq_def, turn_add hturn more]
    simp only [hfeed]
    exact ih h

/-! ## Turns of an execution -/

/-- An execution with these lines left comes to this end and prints this on the way. -/
inductive Ends (style : Style) :
    List String → Machine → Except Failure Suspension → String → Prop
  | failed {lines : List String} {m : Machine} {fault : Fault} (h : m.Settles (.error fault)) :
    Ends style lines m (.error (.machine fault)) ""
  | halted {lines : List String} {m w : Machine} {piece : List Int}
      (h : m.Settles (.ok (piece, w))) (hw : w.isHalted = true) :
    Ends style lines m (.ok .halted) (style.printed piece)
  | starved {m w : Machine} {piece : List Int} (h : m.Settles (.ok (piece, w)))
      (hw : w.isHalted = false) :
    Ends style [] m (.ok .blocked) (style.printed piece)
  | refused {line : String} {lines : List String} {m w : Machine} {piece : List Int}
      {refusal : Program.Refusal} {log : Array Line} (h : m.Settles (.ok (piece, w)))
      (hw : w.isHalted = false) (hfeed : style.feed w line = ⟨.error refusal, log⟩) :
    Ends style (line :: lines) m (.error (.input refusal)) (style.printed piece)
  | fed {line : String} {lines : List String} {m w v : Machine} {piece : List Int}
      {log : Array Line} {outcome : Except Failure Suspension} {printed : String}
      (h : m.Settles (.ok (piece, w))) (hw : w.isHalted = false)
      (hfeed : style.feed w line = ⟨.ok v, log⟩) (rest : Ends style lines v outcome printed) :
    Ends style (line :: lines) m outcome (style.printed piece ++ printed)

section Turns

variable {style : Style} {lines : List String} {m : Machine} {output printed : String}
  {log log' : Array Line} {outcome : Except Failure Suspension}

/-- An execution goes by the rules, whatever it was given as printed and logged before. -/
theorem ends_of_converse {rounds : Nat}
    (h : converse rounds style lines m output log = some ⟨outcome, printed, log'⟩) :
    ∃ shown, Ends style lines m outcome shown ∧ printed = output ++ shown := by
  -- in the cases of the loop: out of rounds, failed, halted, starved, refused, fed
  fun_induction converse rounds style lines m output log with
  | case1 => exact absurd h (by simp)
  | case2 lines m output log fault _ logged hturn =>
    obtain ⟨given, hm, hstop⟩ := exists_turn_iff.mp ⟨rounds, logged, hturn⟩
    obtain ⟨rfl, rfl⟩ := stopped_eq_failed.mp hstop
    cases h
    exact ⟨"", .failed hm, rfl⟩
  | case3 lines m output log _ logged hturn =>
    obtain ⟨given, hm, hstop⟩ := exists_turn_iff.mp ⟨rounds, logged, hturn⟩
    obtain ⟨piece, w, rfl, hw, rfl⟩ := stopped_eq_halted.mp hstop
    cases h
    exact ⟨_, .halted hm hw, rfl⟩
  | case4 m output log w _ logged hturn =>
    obtain ⟨given, hm, hstop⟩ := exists_turn_iff.mp ⟨rounds, logged, hturn⟩
    obtain ⟨piece, rfl, hw, rfl⟩ := stopped_eq_waiting.mp hstop
    cases h
    exact ⟨_, .starved hm hw, rfl⟩
  | case5 m output log w _ logged hturn line rest refusal read hfeed =>
    obtain ⟨given, hm, hstop⟩ := exists_turn_iff.mp ⟨rounds, logged, hturn⟩
    obtain ⟨piece, rfl, hw, rfl⟩ := stopped_eq_waiting.mp hstop
    cases h
    exact ⟨_, .refused hm hw hfeed, rfl⟩
  | case6 m output log w _ logged hturn line rest v read hfeed ih =>
    obtain ⟨given, hm, hstop⟩ := exists_turn_iff.mp ⟨rounds, logged, hturn⟩
    obtain ⟨piece, rfl, hw, rfl⟩ := stopped_eq_waiting.mp hstop
    obtain ⟨shown, hrest, rfl⟩ := ih h
    exact ⟨_, .fed hm hw hfeed hrest, String.append_assoc⟩

/-- A turn that waits for a line which can be fed goes on with the turns behind it. -/
theorem exists_converse_of_fed {line : String} {w v : Machine} {piece : List Int} {shown : String}
    {read : Array Line} (hm : m.Settles (.ok (piece, w))) (hw : w.isHalted = false)
    (hfeed : style.feed w line = ⟨.ok v, read⟩)
    (hrest : ∀ output log, ∃ rounds log', converse rounds style lines v output log =
      some ⟨outcome, output ++ shown, log'⟩) (output : String) (log : Array Line) :
    ∃ rounds log', converse rounds style (line :: lines) m output log =
      some ⟨outcome, output ++ (style.printed piece ++ shown), log'⟩ := by
  obtain ⟨n, logged, hturn⟩ :=
    exists_turn_iff.mpr ⟨_, hm, stopped_eq_waiting.mpr ⟨piece, rfl, hw, rfl⟩⟩
  obtain ⟨k, log', hk⟩ := hrest (output ++ style.printed piece) (log ++ logged ++ read)
  -- one number of rounds has to do for the first turn and for those after it
  refine ⟨n + k, log', ?_⟩
  rw [converse.eq_def, turn_add hturn k]
  simp only [hfeed]
  rw [Nat.add_comm n k, converse_add hk n, String.append_assoc]

/-- What goes by the rules is an execution, given enough rounds. -/
theorem Ends.exists_converse {shown : String} (h : Ends style lines m outcome shown)
    (output : String) (log : Array Line) :
    ∃ rounds log', converse rounds style lines m output log =
      some ⟨outcome, output ++ shown, log'⟩ := by
  induction h generalizing output log with
  | @failed lines m fault hm =>
    have hstop : stopped style (.error fault) = (.failed fault, "") := rfl
    obtain ⟨n, logged, hturn⟩ := exists_turn_iff.mpr ⟨_, hm, hstop⟩
    exact ⟨n, log ++ logged, by rw [converse.eq_def, hturn]⟩
  | halted hm hw =>
    obtain ⟨n, logged, hturn⟩ :=
      exists_turn_iff.mpr ⟨_, hm, stopped_eq_halted.mpr ⟨_, _, rfl, hw, rfl⟩⟩
    exact ⟨n, log ++ logged, by rw [converse.eq_def, hturn]⟩
  | @starved m w piece hm hw =>
    obtain ⟨n, logged, hturn⟩ :=
      exists_turn_iff.mpr ⟨_, hm, stopped_eq_waiting.mpr ⟨_, rfl, hw, rfl⟩⟩
    exact ⟨n, (log ++ logged).push (starvedLine w), by rw [converse.eq_def, hturn]⟩
  | @refused line lines m w piece refusal read hm hw hfeed =>
    obtain ⟨n, logged, hturn⟩ :=
      exists_turn_iff.mpr ⟨_, hm, stopped_eq_waiting.mpr ⟨_, rfl, hw, rfl⟩⟩
    refine ⟨n, log ++ logged ++ read, ?_⟩
    rw [converse.eq_def, hturn]
    simp only [hfeed]
  | fed hm hw hfeed _ ih => exact exists_converse_of_fed hm hw hfeed ih output log

/-- An execution is what the rules allow, behind what was printed before. -/
theorem exists_converse_iff_ends :
    (∃ rounds log', converse rounds style lines m output log = some ⟨outcome, printed, log'⟩) ↔
      ∃ shown, Ends style lines m outcome shown ∧ printed = output ++ shown := by
  constructor
  · rintro ⟨rounds, log', h⟩
    exact ends_of_converse h
  · rintro ⟨shown, h, rfl⟩
    exact h.exists_converse output log

end Turns

/-! ## Lines that can be fed -/

section Conversations

variable {style : Style} {lines : List String} {batches : List (List Int)} {m : Machine}
  {outcome : Except Failure Suspension}

/-- An execution whose lines can be fed is a conversation with their values. -/
theorem Ends.converses (hfeeds : List.Forall₂ (Feeds style) lines batches) {shown : String}
    (h : Ends style lines m outcome shown) :
    ∃ pieces ending, Converses m batches pieces ending ∧ outcome = ending.mapError .machine ∧
      shown = style.printedAll pieces := by
  induction h generalizing batches with
  | failed hm => exact ⟨[], .error _, .failed hm, rfl, rfl⟩
  | halted hm hw => exact ⟨[_], .ok .halted, .halted hm hw, rfl, by simp⟩
  | starved hm hw =>
    cases hfeeds
    exact ⟨[_], .ok .blocked, .starved hm hw, rfl, by simp⟩
  | @refused line lines m w piece refusal log hm hw hfeed =>
    cases hfeeds with
    | cons hline _ =>
      obtain ⟨log', hfed⟩ := hline w
      exact absurd (hfeed.symm.trans hfed) (by simp)
  | @fed line lines m w v piece log outcome printed hm hw hfeed _ ih =>
    cases hfeeds with
    | @cons _ batch _ batches hline hrest =>
      obtain ⟨log', hfed⟩ := hline w
      obtain rfl : v = w.feedAll batch :=
        Except.ok.inj (congrArg Logged.result (hfeed.symm.trans hfed))
      obtain ⟨pieces, ending, hconverses, rfl, rfl⟩ := ih hrest
      exact ⟨piece :: pieces, ending, .fed hm hw hconverses, rfl, by simp⟩

/-- A conversation is an execution on lines with these values. -/
theorem Converses.ends {pieces : List (List Int)} {ending : Except Fault Suspension}
    (hfeeds : List.Forall₂ (Feeds style) lines batches) (h : Converses m batches pieces ending) :
    Ends style lines m (ending.mapError .machine) (style.printedAll pieces) := by
  induction h generalizing lines with
  | failed hm => exact .failed hm
  | halted hm hw =>
    rw [Style.printedAll_singleton]
    exact .halted hm hw
  | starved hm hw =>
    cases hfeeds
    rw [Style.printedAll_singleton]
    exact .starved hm hw
  | @fed m w batch piece batches pieces ending hm hw _ ih =>
    cases hfeeds with
    | cons hline hrest =>
      obtain ⟨log, hfed⟩ := hline w
      rw [Style.printedAll_cons]
      exact .fed hm hw hfed (ih hrest)

/-- An execution is a conversation of its machine, whose pieces it prints. -/
theorem exists_converse_iff (hfeeds : List.Forall₂ (Feeds style) lines batches) {output : String}
    {log : Array Line} {printed : String} :
    (∃ rounds log', converse rounds style lines m output log = some ⟨outcome, printed, log'⟩) ↔
      ∃ pieces ending, Converses m batches pieces ending ∧ outcome = ending.mapError .machine ∧
        printed = output ++ style.printedAll pieces := by
  rw [exists_converse_iff_ends]
  constructor
  · rintro ⟨shown, h, rfl⟩
    obtain ⟨pieces, ending, hconverses, rfl, rfl⟩ := h.converses hfeeds
    exact ⟨pieces, ending, hconverses, rfl, rfl⟩
  · rintro ⟨pieces, ending, h, rfl, rfl⟩
    exact ⟨_, h.ends hfeeds, rfl⟩

end Conversations

/-! ## Values queued beforehand -/

/-- The pieces as one; a run that fails hands over none. -/
def asOne (pieces : List (List Int)) : Except Fault Suspension → List (List Int)
  | .error _ => []
  | .ok _ => [pieces.flatten]

/-- A run as a conversation without batches. -/
def alone : Except Fault (List Int × Machine) → List (List Int) × Except Fault Suspension
  | .error fault => ([], .error fault)
  | .ok (piece, w) => ([piece], .ok (if w.isHalted then .halted else .blocked))

/-- A conversation without batches is a single run. -/
theorem converses_nil_iff {m : Machine} {pieces : List (List Int)}
    {ending : Except Fault Suspension} :
    Converses m [] pieces ending ↔ ∃ given, m.Settles given ∧ alone given = (pieces, ending) := by
  constructor
  · intro h
    cases h with
    | failed hm => exact ⟨_, hm, rfl⟩
    | halted hm hw => exact ⟨_, hm, by rw [alone, hw, if_pos rfl]⟩
    | starved hm hw => exact ⟨_, hm, by rw [alone, hw, if_neg Bool.false_ne_true]⟩
  · rintro ⟨fault | ⟨piece, w⟩, hm, heq⟩
    · cases heq
      exact .failed hm
    · cases hw : w.isHalted with
      | true =>
        rw [alone, hw, if_pos rfl] at heq
        cases heq
        exact .halted hm hw
      | false =>
        rw [alone, hw, if_neg Bool.false_ne_true] at heq
        cases heq
        exact .starved hm hw

/-- Values handed over before a run that goes on are in front of those it gives, or are lost with
them if it fails. -/
theorem alone_following (first : List Int) (given : Except Fault (List Int × Machine))
    {pieces : List (List Int)} {ending : Except Fault Suspension}
    (h : alone given = (asOne pieces ending, ending)) :
    alone (given.map fun rest => (first ++ rest.1, rest.2)) =
      (asOne (first :: pieces) ending, ending) := by
  rcases given with fault | ⟨piece, w⟩
  · obtain ⟨-, rfl⟩ := Prod.mk.inj h
    rfl
  · obtain ⟨hpieces, rfl⟩ := Prod.mk.inj h
    obtain rfl : piece = pieces.flatten := by simpa [asOne] using hpieces
    rfl

/-- A machine that converses does in one run what it does in all, once the batches are queued. -/
theorem Converses.settles {m : Machine} {batches pieces : List (List Int)}
    {ending : Except Fault Suspension} (h : Converses m batches pieces ending)
    (hm : m.state ≠ .halted) :
    ∃ given, (m.feedAll batches.flatten).Settles given ∧
      alone given = (asOne pieces ending, ending) := by
  induction h with
  | failed h => exact ⟨_, (settles_feedAll_iff hm _).mpr ⟨_, h, rfl⟩, rfl⟩
  | @halted m w batches piece h hw =>
    refine ⟨.ok (piece, w.feedAll batches.flatten), (settles_feedAll_iff hm _).mpr ⟨_, h, ?_⟩, ?_⟩
    · rw [GoesOn, if_pos hw]
    · have hfed : (w.feedAll batches.flatten).isHalted = true := hw
      rw [alone, hfed, if_pos rfl]
      simp [asOne]
  | @starved m w piece h hw =>
    refine ⟨.ok (piece, w), by simpa using h, ?_⟩
    rw [alone, hw, if_neg Bool.false_ne_true]
    simp [asOne]
  | @fed m w batch piece batches pieces ending h hw _ ih =>
    obtain ⟨given, hgiven, halone⟩ := ih (by simpa [isHalted] using hw)
    refine ⟨given.map fun rest => (piece ++ rest.1, rest.2),
      (settles_feedAll_iff hm _).mpr ⟨_, h, ?_⟩, alone_following piece given halone⟩
    rw [GoesOn, if_neg (by simp [hw]), List.flatten_cons, ← feedAll_feedAll]
    exact ⟨given, hgiven, rfl⟩

/-- A machine that comes to an end on queued values converses when it is fed them. -/
theorem exists_converses {m : Machine} (hm : m.state ≠ .halted) {batches : List (List Int)}
    {given : Except Fault (List Int × Machine)} (h : (m.feedAll batches.flatten).Settles given) :
    ∃ pieces ending, Converses m batches pieces ending := by
  induction batches generalizing m given with
  | nil =>
    rw [List.flatten_nil, feedAll_nil] at h
    exact ⟨_, _, converses_nil_iff.mpr ⟨given, h, rfl⟩⟩
  | cons batch batches ih =>
    obtain ⟨first, hfirst, hon⟩ := (settles_feedAll_iff hm _).mp h
    rcases first with fault | ⟨piece, w⟩
    · exact ⟨[], .error fault, .failed hfirst⟩
    · by_cases hw : w.isHalted = true
      · exact ⟨[piece], .ok .halted, .halted hfirst hw⟩
      · rw [GoesOn, if_neg hw, List.flatten_cons] at hon
        obtain ⟨z, hz, -⟩ := hon
        rw [← feedAll_feedAll] at hz
        obtain ⟨pieces, ending, hrest⟩ := ih (by simpa [isHalted] using hw) hz
        exact ⟨piece :: pieces, ending, .fed hfirst (by simpa using hw) hrest⟩

/-- A machine with all batches queued comes to the end of the conversation, and writes its pieces
as one. -/
theorem converses_queued_iff {m : Machine} (hm : m.state ≠ .halted) {batches : List (List Int)}
    {whole : List (List Int)} {ending : Except Fault Suspension} :
    Converses (m.feedAll batches.flatten) [] whole ending ↔
      ∃ pieces, Converses m batches pieces ending ∧ whole = asOne pieces ending := by
  rw [converses_nil_iff]
  constructor
  · rintro ⟨given, hgiven, halone⟩
    obtain ⟨pieces, ending', hconverses⟩ := exists_converses hm hgiven
    obtain ⟨given', hgiven', halone'⟩ := hconverses.settles hm
    rw [hgiven'.unique hgiven, halone] at halone'
    obtain ⟨rfl, rfl⟩ := Prod.mk.inj halone'
    exact ⟨pieces, hconverses, rfl⟩
  · rintro ⟨pieces, hconverses, rfl⟩
    exact hconverses.settles hm

/-- A conversation has one course. -/
theorem Converses.unique {m : Machine} {batches pieces pieces' : List (List Int)}
    {ending ending' : Except Fault Suspension} (h : Converses m batches pieces ending)
    (h' : Converses m batches pieces' ending') : pieces = pieces' ∧ ending = ending' := by
  -- on the first conversation; a run settles in one way, so that the second has the same rule
  induction h generalizing pieces' ending' with
  | failed hm =>
    cases h' with
    | failed hm' => cases hm.unique hm'; exact ⟨rfl, rfl⟩
    | halted hm' _ | starved hm' _ | fed hm' _ _ => exact absurd (hm.unique hm') (by simp)
  | halted hm hw =>
    cases h' with
    | failed hm' => exact absurd (hm.unique hm') (by simp)
    | halted hm' _ => cases hm.unique hm'; exact ⟨rfl, rfl⟩
    | starved hm' hw' | fed hm' hw' _ =>
      cases hm.unique hm'
      exact absurd (hw.symm.trans hw') (by simp)
  | starved hm hw =>
    cases h' with
    | failed hm' => exact absurd (hm.unique hm') (by simp)
    | halted hm' hw' =>
      cases hm.unique hm'
      exact absurd (hw'.symm.trans hw) (by simp)
    | starved hm' _ => cases hm.unique hm'; exact ⟨rfl, rfl⟩
  | fed hm hw _ ih =>
    cases h' with
    | failed hm' => exact absurd (hm.unique hm') (by simp)
    | halted hm' hw' =>
      cases hm.unique hm'
      exact absurd (hw'.symm.trans hw) (by simp)
    | fed hm' _ hrest =>
      cases hm.unique hm'
      obtain ⟨rfl, rfl⟩ := ih hrest
      exact ⟨rfl, rfl⟩

/-! ## What executions yield -/

/-- What an execution yields: its failure, or the state it ended in and what it printed. -/
def Execution.result (e : Execution) : Except Failure (Suspension × String) :=
  e.outcome.map fun state => (state, e.output)

/-- An execution, given enough rounds, ends and yields this. -/
def Yields (program : List Int) (settings : Settings) (inputs : List Int) (style : Style)
    (input : String) (result : Except Failure (Suspension × String)) : Prop :=
  ∃ rounds e, execute rounds program settings inputs style input = some e ∧ e.result = result

/-- An execution, given enough rounds, ends in this way, whatever it printed. -/
def EndsIn (program : List Int) (settings : Settings) (inputs : List Int) (style : Style)
    (input : String) (outcome : Except Failure Suspension) : Prop :=
  ∃ rounds e, execute rounds program settings inputs style input = some e ∧ e.outcome = outcome

/-- What a conversation yields once its pieces are printed. -/
def reported (style : Style) (pieces : List (List Int)) (ending : Except Fault Suspension) :
    Except Failure (Suspension × String) :=
  (ending.mapError .machine).map fun state => (state, style.printedAll pieces)

/-- A conversation without fault yields its state and what its pieces print. -/
theorem reported_ok (style : Style) (pieces : List (List Int)) (state : Suspension) :
    reported style pieces (.ok state) = .ok (state, style.printedAll pieces) := rfl

section Executions

variable {program : List Int} {settings : Settings} {inputs : List Int} {style : Style}
  {input : String} {batches : List (List Int)}

/-- What can be said of the end of an execution and its output is what can be said of the
conversation with the batches of its lines. -/
theorem exists_execute_iff (hfeeds : List.Forall₂ (Feeds style) (Text.lines input) batches)
    {p : Except Failure Suspension → String → Prop} :
    (∃ rounds e, execute rounds program settings inputs style input = some e ∧
        p e.outcome e.output) ↔
      ∃ pieces ending,
        Converses ((boot program settings).feedAll inputs) batches pieces ending ∧
          p (ending.mapError .machine) (style.printedAll pieces) := by
  constructor
  · rintro ⟨n, ⟨outcome, printed, log⟩, h, hp⟩
    obtain ⟨pieces, ending, hconverses, rfl, rfl⟩ :=
      (exists_converse_iff hfeeds).mp ⟨n, log, h⟩
    rw [String.empty_append] at hp
    exact ⟨pieces, ending, hconverses, hp⟩
  · rintro ⟨pieces, ending, hconverses, hp⟩
    obtain ⟨n, log, h⟩ := (exists_converse_iff hfeeds).mpr ⟨pieces, ending, hconverses, rfl, rfl⟩
    rw [String.empty_append] at h
    exact ⟨n, _, h, hp⟩

/-- An execution yields what the conversation with the batches of its lines does. -/
theorem yields_iff (hfeeds : List.Forall₂ (Feeds style) (Text.lines input) batches)
    {result : Except Failure (Suspension × String)} :
    Yields program settings inputs style input result ↔ ∃ pieces ending,
      Converses ((boot program settings).feedAll inputs) batches pieces ending ∧
        reported style pieces ending = result :=
  exists_execute_iff hfeeds (p := fun outcome printed =>
    (outcome.map fun state => (state, printed)) = result)

/-- An execution ends as the conversation with the batches of its lines does, whatever was printed.
-/
theorem endsIn_iff (hfeeds : List.Forall₂ (Feeds style) (Text.lines input) batches)
    {outcome : Except Failure Suspension} :
    EndsIn program settings inputs style input outcome ↔ ∃ pieces ending,
      Converses ((boot program settings).feedAll inputs) batches pieces ending ∧
        ending.mapError .machine = outcome :=
  exists_execute_iff hfeeds (p := fun ended _ => ended = outcome)

/-- A machine with the values queued converses without a line of input. -/
theorem converses_boot_iff {whole : List (List Int)} {ending : Except Fault Suspension} :
    Converses ((boot program settings).feedAll (inputs ++ batches.flatten)) [] whole ending ↔
      ∃ pieces, Converses ((boot program settings).feedAll inputs) batches pieces ending ∧
        whole = asOne pieces ending := by
  rw [← feedAll_feedAll]
  exact converses_queued_iff (show Suspension.active ≠ .halted by decide)

end Executions

end IntegerMachine.Console
