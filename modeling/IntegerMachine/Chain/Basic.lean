import IntegerMachine.Machine.Run

/-!
# Chains of machines

Machines on one program, the amplifiers, pass a signal on: each is fed its phase when it is
booted and the signal when its turn comes, and the next output is the new signal.  A signal
passes a forward chain once; in a feedback loop it goes round until an amplifier halts.
-/

set_option autoImplicit false

namespace IntegerMachine.Chain

/-- The amplifiers of a chain, one for each phase. -/
def boot (program : List Int) (settings : Settings) (phases : List Int) : List Machine :=
  phases.map (Machine.boot program settings).feed

/-- Feeds an amplifier a signal and waits for its output. -/
def amplify (rounds : Nat) (m : Machine) (signal : Int) : Option (Reply Fault Machine (Option Int)) :=
  (m.feed signal).runUntilOutput rounds

/-- Passes a signal through amplifiers, each of which has to give an output. -/
def pass (rounds : Nat) (log : Array Line) (signal : Int) :
    List Machine → Option (Logged (Except Fault Int))
  | [] => some ⟨.ok signal, log⟩
  | m :: rest =>
    match amplify rounds m signal with
    | none => none
    | some ⟨.error fault, _, lines⟩ => some ⟨.error fault, log ++ lines⟩
    | some ⟨.ok none, m, lines⟩ =>
      some ⟨.error ⟨.withoutOutput m.state, m.ip, none⟩, log ++ lines⟩
    | some ⟨.ok (some output), _, lines⟩ => pass rounds (log ++ lines) output rest

/-- The signal that leaves a forward chain. -/
def forward (rounds : Nat) (program : List Int) (settings : Settings) (phases : List Int)
    (signal : Int) : Option (Logged (Except Fault Int)) :=
  pass rounds #[] signal (boot program settings phases)

/-- A feedback loop under way.  The turns are counted from zero, and turn `k` is that of
amplifier `k` modulo their number. -/
structure Loop where
  amplifiers : Array Machine
  turn : Nat
  signal : Int
  log : Array Line

namespace Loop

/-- The amplifier whose turn it is. -/
def index (loop : Loop) : Nat :=
  loop.turn % loop.amplifiers.size

/-- One turn.  The loop ends with the signal that an amplifier was fed before it halted; a loop
of no amplifiers never ends. -/
def advance (rounds : Nat) (loop : Loop) : Loop ⊕ Option (Logged (Except Fault Int)) :=
  match loop.amplifiers[loop.index]? with
  | none => .inl loop
  | some m =>
    match amplify rounds m loop.signal with
    | none => .inr none
    | some ⟨.error fault, _, lines⟩ => .inr (some ⟨.error fault, loop.log ++ lines⟩)
    | some ⟨.ok none, m, lines⟩ =>
      if m.isHalted then
        let line := .debug s!"Amplifier {loop.index} halted, last signal {loop.signal}"
        .inr (some ⟨.ok loop.signal, (loop.log ++ lines).push line⟩)
      else
        .inr (some ⟨.error ⟨.blockedInLoop loop.index, m.ip, none⟩, loop.log ++ lines⟩)
    | some ⟨.ok (some output), m, lines⟩ =>
      .inl
        { amplifiers := loop.amplifiers.setIfInBounds loop.index m
          turn := loop.turn + 1
          signal := output
          log := loop.log ++ lines }

end Loop

/-- The last signal of a feedback loop. -/
def feedback (rounds : Nat) (program : List Int) (settings : Settings) (phases : List Int)
    (signal : Int) : Option (Logged (Except Fault Int)) :=
  (repeatUntil (Loop.advance rounds) rounds
    ⟨(boot program settings phases).toArray, 0, signal, #[]⟩).join

end IntegerMachine.Chain
