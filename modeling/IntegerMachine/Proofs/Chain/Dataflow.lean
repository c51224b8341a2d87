import IntegerMachine.Chain.Basic
import IntegerMachine.Proofs.Machine.Emission
import Mathlib.Data.Int.CardIntervalMod

/-!
# A feedback loop as a flow of signals

In a feedback loop the amplifiers take turns, and each is fed a signal at a time.  Seen from one
amplifier nothing depends on the others but the signals: it answers what a machine of its own answers
that has all of them queued from the beginning.  `InStep` is this as an invariant of the turns, and
`feedbackEnds_iff` says that the loop ends as the flow of signals does.
-/

set_option autoImplicit false

namespace IntegerMachine.Chain

/-! ### Turns -/

/-- The turns of an amplifier among the first `n` of a loop of the given size. -/
def turnsOf (size index n : Nat) : List Nat :=
  (List.range n).filter fun turn => turn % size = index

/-- The signals that an amplifier is fed in the first `n` turns, where `s` has the signal of every
turn. -/
def fedIn (s : Nat → Int) (size index n : Nat) : List Int := (turnsOf size index n).map s

/-- The signals that an amplifier emits in the first `n` turns: those of the turns after its own. -/
def emittedIn (s : Nat → Int) (size index n : Nat) : List Int :=
  (turnsOf size index n).map fun turn => s (turn + 1)

/-- The turn at which an amplifier is due is one of its own. -/
theorem turnsOf_succ (size n : Nat) :
    turnsOf size (n % size) (n + 1) = turnsOf size (n % size) n ++ [n] := by
  simp [turnsOf, List.range_succ]

/-- The turn of another amplifier adds nothing to those of one. -/
theorem turnsOf_succ_of_ne {size index n : Nat} (h : n % size ≠ index) :
    turnsOf size index (n + 1) = turnsOf size index n := by
  simp [turnsOf, List.range_succ, h]

/-- An amplifier has had a turn in every round that is over. -/
theorem length_turnsOf {size : Nat} (h : 0 < size) (k : Nat) :
    (turnsOf size (k % size) k).length = k / size := by
  have hcount : k.count (· ≡ k [MOD size]) = k / size := by
    rw [Nat.count_modEq_card k h, if_neg (Nat.lt_irrefl _), Nat.add_zero]
  rw [← hcount, Nat.count_eq_card_filter_range]
  rfl

/-! ### Amplifiers alone and in the loop -/

section Flow

variable (program : List Int) (settings : Settings) (phases : List Int)

/-- An amplifier alone, with its phase and all of its signals queued from the beginning. -/
def alone (phase : Int) (signals : List Int) : Machine :=
  (Machine.boot program settings).feedAll (phase :: signals)

/-- The amplifier of turn `k`, alone on its signals up to this turn and asked for an output once for
every turn that it has by then, ends the last wait as said. -/
def AnswersAt (s : Nat → Int) (k : Nat) (x : Except Fault (Option Int × Machine)) : Prop :=
  ∃ earlier v, earlier.length = k / phases.length ∧
    (alone program settings (phases.getD (k % phases.length) 0)
      (fedIn s phases.length (k % phases.length) (k + 1))).GivesAll earlier v ∧ v.Gives x

/-- Signals flow through `n` turns: each is what the amplifier of the turn before emits alone. -/
def Flows (signal : Int) (s : Nat → Int) (n : Nat) : Prop :=
  s 0 = signal ∧ ∀ k < n, ∃ w, AnswersAt program settings phases s k (.ok (some (s (k + 1)), w))

/-- The feedback loop, given enough rounds, ends with the outcome. -/
def FeedbackEnds (signal : Int) (x : Except Fault Int) : Prop :=
  ∃ rounds, (feedback rounds program settings phases signal).map Logged.result = some x

/-- The feedback loop before its first turn. -/
def firstLoop (signal : Int) : Loop :=
  ⟨(boot program settings phases).toArray, 0, signal, #[]⟩

/-- The loop after `k` turns is where the flow of signals is: every amplifier is left as it is alone
on the signals it was fed. -/
structure InStep (s : Nat → Int) (k : Nat) (loop : Loop) : Prop where
  turn_eq : loop.turn = k
  signal_eq : loop.signal = s k
  size_eq : loop.amplifiers.size = phases.length
  gives : ∀ j m, loop.amplifiers[j]? = some m →
    (alone program settings (phases.getD j 0) (fedIn s phases.length j k)).GivesAll
      ((emittedIn s phases.length j k).map some) m

variable {program settings phases} {s : Nat → Int} {k : Nat} {loop : Loop} {m : Machine}

/-- Before the first turn the loop is where the flow begins. -/
theorem inStep_firstLoop (s : Nat → Int) :
    InStep program settings phases s 0 (firstLoop program settings phases (s 0)) where
  turn_eq := rfl
  signal_eq := rfl
  size_eq := by simp [firstLoop, boot]
  gives := by
    intro j m hm
    simp only [firstLoop, boot, List.getElem?_toArray, List.getElem?_map,
      Option.map_eq_some_iff] at hm
    obtain ⟨phase, hphase, rfl⟩ := hm
    rw [List.getD_eq_getElem?_getD, hphase]
    rfl

/-- The amplifier that is due is the one whose turn it is, the amplifiers taken round and round. -/
theorem InStep.index_eq (h : InStep program settings phases s k loop) :
    loop.index = k % phases.length := by
  rw [Loop.index, h.turn_eq, h.size_eq]

/-- There is an amplifier whose turn it is. -/
theorem InStep.exists_amplifier (h : InStep program settings phases s k loop)
    (hphases : phases ≠ []) : ∃ m, loop.amplifiers[loop.index]? = some m := by
  have hindex : loop.index < loop.amplifiers.size := by
    rw [h.index_eq, h.size_eq]
    exact Nat.mod_lt _ (List.length_pos_iff.mpr hphases)
  exact ⟨_, Array.getElem?_eq_getElem hindex⟩

/-- Fed the signal of its turn, the amplifier is left as it is alone on this signal as well. -/
theorem InStep.gives_feed (h : InStep program settings phases s k loop)
    (hm : loop.amplifiers[loop.index]? = some m) :
    (alone program settings (phases.getD (k % phases.length) 0)
      (fedIn s phases.length (k % phases.length) (k + 1))).GivesAll
      ((emittedIn s phases.length (k % phases.length) k).map some) (m.feed loop.signal) := by
  rw [h.index_eq] at hm
  have hgives := (h.gives _ m hm).feedAll [s k]
  rw [alone, Machine.feedAll_feedAll, List.cons_append] at hgives
  rw [fedIn, turnsOf_succ, List.map_append, h.signal_eq]
  exact hgives

/-- What the amplifier answers alone is what it answers in the loop. -/
theorem InStep.answersAt_iff (h : InStep program settings phases s k loop) (hphases : phases ≠ [])
    (hm : loop.amplifiers[loop.index]? = some m) {x : Except Fault (Option Int × Machine)} :
    AnswersAt program settings phases s k x ↔ (m.feed loop.signal).Gives x := by
  have hfed := h.gives_feed hm
  have hlength : ((emittedIn s phases.length (k % phases.length) k).map some).length =
      k / phases.length := by
    rw [List.length_map, emittedIn, List.length_map,
      length_turnsOf (List.length_pos_iff.mpr hphases)]
  constructor
  · rintro ⟨earlier, v, hearlier, hall, hx⟩
    obtain ⟨-, rfl⟩ := hall.unique hfed (hearlier.trans hlength.symm)
    exact hx
  · intro hx
    exact ⟨_, _, hlength, hfed, hx⟩

/-- The loop after a turn, where the amplifier emitted a signal. -/
def Loop.after (loop : Loop) (m : Machine) (output : Int) (lines : Array Line) : Loop where
  amplifiers := loop.amplifiers.setIfInBounds loop.index m
  turn := loop.turn + 1
  signal := output
  log := loop.log ++ lines

/-- A turn in which a signal is emitted keeps in step. -/
theorem InStep.after (h : InStep program settings phases s k loop)
    (hm : loop.amplifiers[loop.index]? = some m) {w : Machine}
    (hgives : (m.feed loop.signal).Gives (.ok (some (s (k + 1)), w))) (lines : Array Line) :
    InStep program settings phases s (k + 1) (loop.after w (s (k + 1)) lines) where
  turn_eq := congrArg (· + 1) h.turn_eq
  signal_eq := rfl
  size_eq := by simp only [Loop.after, Array.size_setIfInBounds, h.size_eq]
  gives := by
    intro j u hu
    simp only [Loop.after, Array.getElem?_setIfInBounds] at hu
    by_cases hj : k % phases.length = j
    · -- the amplifier of the turn: one more signal fed and one more emitted
      subst hj
      have hindex := (Array.getElem?_eq_some_iff.mp hm).1
      rw [if_pos h.index_eq, if_pos hindex] at hu
      obtain rfl := Option.some.inj hu
      have hfed := h.gives_feed hm
      rw [emittedIn, turnsOf_succ, List.map_append, List.map_append]
      exact Machine.givesAll_append_iff.mpr ⟨_, hfed, Machine.givesAll_singleton_iff.mpr hgives⟩
    · rw [if_neg (by rwa [h.index_eq])] at hu
      rw [fedIn, emittedIn, turnsOf_succ_of_ne hj]
      exact h.gives j u hu

/-! ### Turns that go on and turns that end the loop -/

/-- How the loop ends after what the amplifier at an index gave, fed a signal; a signal that is
emitted goes on. -/
def turnEnd (index : Nat) (signal : Int) :
    Except Fault (Option Int × Machine) → Option (Except Fault Int)
  | .error fault => some (.error fault)
  | .ok (some _, _) => none
  | .ok (none, w) =>
    some (if w.isHalted then .ok signal else .error ⟨.blockedInLoop index, w.ip, none⟩)

/-- The loop returns the signal that was fed to an amplifier that halts. -/
theorem turnEnd_eq_ok {index : Nat} {signal r : Int} {x : Except Fault (Option Int × Machine)} :
    turnEnd index signal x = some (.ok r) ↔
      ∃ w, x = .ok (none, w) ∧ w.state = .halted ∧ signal = r := by
  rcases x with fault | ⟨_ | output, w⟩
  · simp [turnEnd]
  · by_cases hw : w.state = .halted <;> simp [turnEnd, Machine.isHalted, hw]
  · simp [turnEnd]

/-- The loop fails with the amplifier, or because the amplifier stopped and has not halted. -/
theorem turnEnd_eq_error {index : Nat} {signal : Int} {fault : Fault}
    {x : Except Fault (Option Int × Machine)} :
    turnEnd index signal x = some (.error fault) ↔
      x = .error fault ∨ ∃ w, x = .ok (none, w) ∧ w.state ≠ .halted ∧
        ⟨.blockedInLoop index, w.ip, none⟩ = fault := by
  rcases x with other | ⟨_ | output, w⟩
  · simp [turnEnd]
  · by_cases hw : w.state = .halted <;> simp [turnEnd, Machine.isHalted, hw]
  · simp [turnEnd]

/-- The loop goes on from a turn if the amplifier gave an output, which is the next signal. -/
theorem advance_eq_inl {rounds : Nat} (hm : loop.amplifiers[loop.index]? = some m) {next : Loop} :
    loop.advance rounds = .inl next ↔ ∃ output w lines,
      amplify rounds m loop.signal = some ⟨.ok (some output), w, lines⟩ ∧
        next = loop.after w output lines := by
  simp only [Loop.advance, hm]
  rcases amplify rounds m loop.signal with _ | ⟨_ | _ | output, w, lines⟩
  · simp
  · simp
  · by_cases hw : w.isHalted = true <;> simp [hw]
  · constructor
    · intro h
      exact ⟨output, w, lines, rfl, (Sum.inl.inj h).symm⟩
    · rintro ⟨output', w', lines', h, rfl⟩
      cases h
      rfl

/-- The loop ends at a turn as what the amplifier gave says, if that was no output. -/
theorem advance_eq_inr {rounds : Nat} (hm : loop.amplifiers[loop.index]? = some m)
    {x : Except Fault Int} :
    (∃ log, loop.advance rounds = .inr (some ⟨x, log⟩)) ↔ ∃ reply,
      amplify rounds m loop.signal = some reply ∧
        turnEnd loop.index loop.signal (Machine.given reply) = some x := by
  simp only [Loop.advance, hm]
  rcases amplify rounds m loop.signal with _ | ⟨_ | _ | output, w, lines⟩
  · simp
  · simp [turnEnd, Machine.given, Except.map]
  · by_cases hw : w.isHalted = true <;> simp [turnEnd, Machine.given, Except.map, hw]
  · simp [turnEnd, Machine.given, Except.map]

/-- A loop that goes on from its first turn does so in step with the signals that it carries, and
these flow. -/
theorem inStep_of_reach {rounds : Nat} {signal : Int} (hphases : phases ≠ [])
    (hs : ∀ k loop, reach? (Loop.advance rounds) (firstLoop program settings phases signal) k =
      some loop → loop.signal = s k)
    (h : reach? (Loop.advance rounds) (firstLoop program settings phases signal) k = some loop) :
    InStep program settings phases s k loop ∧ Flows program settings phases signal s k := by
  have hsignal : s 0 = signal := (hs 0 _ rfl).symm
  induction k generalizing loop with
  | zero =>
    obtain rfl := Option.some.inj h
    exact ⟨hsignal ▸ inStep_firstLoop s, hsignal, fun _ hk => absurd hk (Nat.not_lt_zero _)⟩
  | succ k ih =>
    obtain ⟨last, hlast, hgo⟩ := reach?_succ_eq_some.mp h
    obtain ⟨hstep, -, hflows⟩ := ih hlast
    obtain ⟨m, hm⟩ := hstep.exists_amplifier hphases
    obtain ⟨output, w, lines, hreply, rfl⟩ := (advance_eq_inl hm).mp hgo
    have houtput : output = s (k + 1) := hs (k + 1) _ h
    subst houtput
    have hgives : (m.feed last.signal).Gives (.ok (some (s (k + 1)), w)) :=
      Machine.gives_ok_iff.mpr ⟨rounds, lines, hreply⟩
    refine ⟨hstep.after hm hgives lines, hsignal, fun j hj => ?_⟩
    rcases Nat.lt_succ_iff_lt_or_eq.mp hj with hlt | rfl
    · exact hflows j hlt
    · exact ⟨w, (hstep.answersAt_iff hphases hm).mpr hgives⟩

/-- Where signals flow, a loop with enough rounds goes on in step with them. -/
theorem reach_of_flows {signal : Int} {n : Nat} (hphases : phases ≠ [])
    (h : Flows program settings phases signal s n) :
    ∃ least last, InStep program settings phases s n last ∧ ∀ rounds, least ≤ rounds →
      reach? (Loop.advance rounds) (firstLoop program settings phases signal) n = some last := by
  obtain ⟨rfl, hflows⟩ := h
  induction n with
  | zero => exact ⟨0, _, inStep_firstLoop s, fun _ _ => rfl⟩
  | succ n ih =>
    obtain ⟨least, last, hstep, hreach⟩ := ih fun k hk => hflows k (by omega)
    obtain ⟨w, hanswers⟩ := hflows n (by omega)
    obtain ⟨m, hm⟩ := hstep.exists_amplifier hphases
    have hgives := (hstep.answersAt_iff hphases hm).mp hanswers
    obtain ⟨needed, lines, hreply⟩ := Machine.gives_ok_iff.mp hgives
    refine ⟨max least needed, _, hstep.after hm hgives lines, fun rounds hrounds => ?_⟩
    have hmore := Machine.runUntilOutput_mono hreply (by omega : needed ≤ rounds)
    refine reach?_succ_eq_some.mpr ⟨last, hreach rounds (by omega), ?_⟩
    exact (advance_eq_inl hm).mpr ⟨_, w, lines, hmore, rfl⟩

/-- A feedback loop that ends has gone through turns in step with a flow of signals, which are those
it carried, and the turn after them ended it. -/
theorem exists_turns_of_feedback {rounds : Nat} {signal : Int} (hphases : phases ≠ [])
    {x : Except Fault Int} {log : Array Line}
    (h : feedback rounds program settings phases signal = some ⟨x, log⟩) :
    ∃ n s last, InStep program settings phases s n last ∧
      Flows program settings phases signal s n ∧
      (∀ k loop, reach? (Loop.advance rounds) (firstLoop program settings phases signal) k =
        some loop → loop.signal = s k) ∧
      reach? (Loop.advance rounds) (firstLoop program settings phases signal) n = some last ∧
      last.advance rounds = .inr (some ⟨x, log⟩) := by
  obtain ⟨n, -, last, hlast, hend⟩ := repeatUntil_eq_some_iff.mp (Option.join_eq_some_iff.mp h)
  let s := fun k =>
    ((reach? (Loop.advance rounds) (firstLoop program settings phases signal) k).map
      Loop.signal).getD 0
  have hs : ∀ k loop, reach? (Loop.advance rounds) (firstLoop program settings phases signal) k =
      some loop → loop.signal = s k := by
    intro k loop hloop
    simp only [s, hloop, Option.map_some, Option.getD_some]
  obtain ⟨hstep, hflows⟩ := inStep_of_reach hphases hs hlast
  exact ⟨n, s, last, hstep, hflows, hs, hlast, hend⟩

/-- The feedback loop ends as the flow of signals does: with what the amplifier of the last turn
answers alone. -/
theorem feedbackEnds_iff {signal : Int} (hphases : phases ≠ []) {x : Except Fault Int} :
    FeedbackEnds program settings phases signal x ↔
      ∃ n s y, Flows program settings phases signal s n ∧
        AnswersAt program settings phases s n y ∧
        turnEnd (n % phases.length) (s n) y = some x := by
  constructor
  · rintro ⟨rounds, hends⟩
    obtain ⟨⟨result, log⟩, h, rfl⟩ := Option.map_eq_some_iff.mp hends
    obtain ⟨n, s, last, hstep, hflows, -, -, hend⟩ := exists_turns_of_feedback hphases h
    obtain ⟨m, hm⟩ := hstep.exists_amplifier hphases
    obtain ⟨reply, hreply, hx⟩ := (advance_eq_inr hm).mp ⟨log, hend⟩
    rw [hstep.index_eq, hstep.signal_eq] at hx
    exact ⟨n, s, _, hflows, (hstep.answersAt_iff hphases hm).mpr ⟨rounds, reply, hreply, rfl⟩, hx⟩
  · rintro ⟨n, s, y, hflows, hanswers, hx⟩
    obtain ⟨least, last, hstep, hreach⟩ := reach_of_flows hphases hflows
    obtain ⟨m, hm⟩ := hstep.exists_amplifier hphases
    obtain ⟨needed, reply, hreply, rfl⟩ := (hstep.answersAt_iff hphases hm).mp hanswers
    rw [← hstep.index_eq, ← hstep.signal_eq] at hx
    let rounds := least + needed + n + 1
    have hmore := Machine.runUntilOutput_mono hreply (by omega : needed ≤ rounds)
    have hlast := hreach rounds (by omega)
    obtain ⟨log, hend⟩ := (advance_eq_inr hm).mpr ⟨reply, hmore, hx⟩
    have hloop := repeatUntil_eq_some_iff.mpr ⟨n, (by omega : n < rounds), last, hlast, hend⟩
    exact ⟨rounds, Option.map_eq_some_iff.mpr ⟨_, Option.join_eq_some_iff.mpr hloop, rfl⟩⟩

/-- Where signals flow, no amplifier fails for the way it is used. -/
theorem inProtocol_of_answersAt {signal : Int} {n : Nat} (hphases : phases ≠ [])
    (hflows : Flows program settings phases signal s n)
    {x : Except Fault (Option Int × Machine)} (h : AnswersAt program settings phases s n x) :
    Machine.InProtocol x := by
  obtain ⟨-, last, hstep, -⟩ := reach_of_flows hphases hflows
  obtain ⟨m, hm⟩ := hstep.exists_amplifier hphases
  have hfed : (m.feed last.signal).state ≠ .halted :=
    (hstep.gives_feed hm).state_ne_halted (show Suspension.active ≠ .halted by decide)
  exact ((hstep.answersAt_iff hphases hm).mp h).inProtocol hfed

/-- Every amplifier, alone on all the signals that it is fed up to a turn, emits what it emits in the
loop before that turn. -/
theorem InStep.gives_all (h : InStep program settings phases s k loop) {j : Nat}
    (hj : j < phases.length) :
    ∃ w, (alone program settings (phases.getD j 0) (fedIn s phases.length j (k + 1))).GivesAll
      ((emittedIn s phases.length j k).map some) w := by
  by_cases hturn : k % phases.length = j
  · subst hturn
    obtain ⟨m, hm⟩ := h.exists_amplifier (List.length_pos_iff.mp (Nat.zero_lt_of_lt hj))
    exact ⟨_, h.gives_feed hm⟩
  · have hsize : j < loop.amplifiers.size := by rwa [h.size_eq]
    rw [fedIn, turnsOf_succ_of_ne hturn]
    exact ⟨_, h.gives j _ (Array.getElem?_eq_getElem hsize)⟩

end Flow

/-- A feedback loop is a flow of signals through amplifiers that know nothing of each other.  It
returns a signal exactly if signals flow up to it from the first one, where each amplifier is alone
with its phase and all signals of its turns queued up front, and the amplifier fed the last one
halts.  It fails for its use exactly if the last amplifier blocks instead, and then names this
amplifier.  When it returns, each amplifier alone on its whole stream emits, one by one, the signals
that it emitted in the loop. -/
theorem feedback_iff_flow (program : List Int) (settings : Settings) (phases : List Int)
    (signal : Int) (hphases : phases ≠ []) :
    (∀ r, FeedbackEnds program settings phases signal (.ok r) ↔
      ∃ n s w, Flows program settings phases signal s n ∧ s n = r ∧
        AnswersAt program settings phases s n (.ok (none, w)) ∧ w.state = .halted) ∧
    (∀ fault, FeedbackEnds program settings phases signal (.error fault) ∧
        fault.cause.isProtocol = true ↔
      ∃ n s w, Flows program settings phases signal s n ∧
        AnswersAt program settings phases s n (.ok (none, w)) ∧ w.state = .blocked ∧
        fault = ⟨.blockedInLoop (n % phases.length), w.ip, none⟩) ∧
    (∀ rounds r log, feedback rounds program settings phases signal = some ⟨.ok r, log⟩ →
      ∃ n s, Flows program settings phases signal s n ∧ s n = r ∧
        (∀ k ≤ n, ∃ loop, loop.signal = s k ∧
          reach? (Loop.advance rounds) (firstLoop program settings phases signal) k =
            some loop) ∧
        reach? (Loop.advance rounds) (firstLoop program settings phases signal) (n + 1) = none ∧
        ∀ j < phases.length, ∃ w,
          (alone program settings (phases.getD j 0) (fedIn s phases.length j (n + 1))).GivesAll
            ((emittedIn s phases.length j n).map some) w) := by
  refine ⟨fun r => ?_, fun fault => ?_, ?_⟩
  · rw [feedbackEnds_iff hphases]
    constructor
    · rintro ⟨n, s, y, hflows, hanswers, hend⟩
      obtain ⟨w, rfl, hw, hr⟩ := turnEnd_eq_ok.mp hend
      exact ⟨n, s, w, hflows, hr, hanswers, hw⟩
    · rintro ⟨n, s, w, hflows, hr, hanswers, hw⟩
      exact ⟨n, s, _, hflows, hanswers, turnEnd_eq_ok.mpr ⟨w, rfl, hw, hr⟩⟩
  · rw [feedbackEnds_iff hphases]
    constructor
    · rintro ⟨⟨n, s, y, hflows, hanswers, hend⟩, hprotocol⟩
      rcases turnEnd_eq_error.mp hend with rfl | ⟨w, rfl, hw, hfault⟩
      · -- a fault of the machine is none of its use
        have hother := inProtocol_of_answersAt hphases hflows hanswers fault rfl
        rw [hprotocol] at hother
        exact absurd hother (by decide)
      · obtain ⟨earlier, v, -, -, hgives⟩ := id hanswers
        exact ⟨n, s, w, hflows, hanswers, hgives.state_of_none.resolve_right hw, hfault.symm⟩
    · rintro ⟨n, s, w, hflows, hanswers, hw, rfl⟩
      have hhalted : w.state ≠ .halted := by
        rw [hw]
        decide
      exact ⟨⟨n, s, _, hflows, hanswers, turnEnd_eq_error.mpr (.inr ⟨w, rfl, hhalted, rfl⟩)⟩, rfl⟩
  · intro rounds r log h
    -- the turn that ends the loop has no turn after it
    obtain ⟨n, s, last, hstep, hflows, hs, hlast, hend⟩ := exists_turns_of_feedback hphases h
    obtain ⟨m, hm⟩ := hstep.exists_amplifier hphases
    obtain ⟨reply, -, hx⟩ := (advance_eq_inr hm).mp ⟨log, hend⟩
    obtain ⟨-, -, -, hr⟩ := turnEnd_eq_ok.mp hx
    refine ⟨n, s, hflows, hstep.signal_eq.symm.trans hr, fun k hk => ?_, ?_, fun j hj => ?_⟩
    · obtain ⟨loop, hloop⟩ := reach?_of_le hlast hk
      exact ⟨loop, hs k loop hloop, hloop⟩
    · simp only [reach?, hlast, Option.bind_some, hend, Sum.getLeft?_inr]
    · exact hstep.gives_all hj

/-- Two amplifiers that add one to the first signal they are fed and halt at the second: the signal
passes both and is returned. -/
theorem feedback_iff_flow_two_amplifiers :
    ([5, 6] : List Int) ≠ [] ∧
      FeedbackEnds [3, 11, 3, 11, 101, 1, 11, 11, 4, 11, 99] {} [5, 6] 7 (.ok 9) ∧
      ∃ n s w, Flows [3, 11, 3, 11, 101, 1, 11, 11, 4, 11, 99] {} [5, 6] 7 s n ∧ s n = 9 ∧
        AnswersAt [3, 11, 3, 11, 101, 1, 11, 11, 4, 11, 99] {} [5, 6] s n (.ok (none, w)) ∧
        w.state = .halted :=
  have hphases : ([5, 6] : List Int) ≠ [] := by decide
  have hends : FeedbackEnds [3, 11, 3, 11, 101, 1, 11, 11, 4, 11, 99] {} [5, 6] 7 (.ok 9) :=
    ⟨20, by decide +kernel⟩
  ⟨hphases, hends, ((feedback_iff_flow _ {} [5, 6] 7 hphases).1 9).mp hends⟩

end IntegerMachine.Chain
