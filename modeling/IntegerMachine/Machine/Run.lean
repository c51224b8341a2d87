import IntegerMachine.Machine.Step

/-!
# Running a machine

A run is repeated stepping.  Whether it ends cannot be read off a program, so every loop takes
a number of rounds it may use up and answers `none` when they do not suffice; a loop that
answers gives the same answer with more rounds.
-/

set_option autoImplicit false

namespace IntegerMachine

/-- Repeats `next` until it gives a result, for at most the given number of rounds. -/
def repeatUntil {σ ρ : Type} (next : σ → σ ⊕ ρ) : Nat → σ → Option ρ
  | 0, _ => none
  | rounds + 1, s =>
    match next s with
    | .inl s => repeatUntil next rounds s
    | .inr r => some r

/-- More rounds do not change an answer. -/
theorem repeatUntil_add {σ ρ : Type} {next : σ → σ ⊕ ρ} {rounds : Nat} {s : σ} {r : ρ}
    (h : repeatUntil next rounds s = some r) (more : Nat) :
    repeatUntil next (rounds + more) s = some r := by
  induction rounds generalizing s with
  | zero => simp [repeatUntil] at h
  | succ n ih =>
    rw [Nat.succ_add, repeatUntil]
    rw [repeatUntil] at h
    cases hs : next s with
    | inl t => rw [hs] at h; exact ih h
    | inr t => rw [hs] at h; exact h

namespace Machine

/-- One round of waiting for an output: a queued value is handed over, otherwise a step is
made, and a step that does not proceed ends the wait with nothing. -/
def awaitOutput : Machine × Array Line → Machine × Array Line ⊕ Reply Fault Machine (Option Int)
  | (m, log) =>
    match m.outputs with
    | value :: rest => .inr ⟨.ok (some value), { m with outputs := rest, state := .output }, log⟩
    | [] =>
      match m.step with
      | (.error fault, m) => .inr ⟨.error fault, m, log⟩
      | (.ok .proceed, m) =>
        let log := log ++ m.traced?
        .inl (m, log)
      | (.ok _, m) =>
        let log := log ++ m.traced?
        .inr ⟨.ok none, m, log⟩

/-- Runs until there is an output, and hands it over; nothing if the machine blocks or halts
first. -/
def runUntilOutput (rounds : Nat) (m : Machine) : Option (Reply Fault Machine (Option Int)) :=
  repeatUntil awaitOutput rounds (m, #[])

/-- A run under way: the machine, the outputs handed over and the lines logged. -/
structure Progress where
  machine : Machine
  produced : Array Int
  log : Array Line

/-- One round of a run: a queued value is handed over, otherwise a step is made. -/
def runRound (p : Progress) : Progress ⊕ Reply Fault Machine (List Int) :=
  match p with
  | ⟨m, produced, log⟩ =>
    match m.outputs with
    | value :: rest =>
      .inl ⟨{ m with outputs := rest, state := .output }, produced.push value, log⟩
    | [] =>
      match m.step with
      | (.error fault, m) => .inr ⟨.error fault, m, log⟩
      | (.ok .proceed, m) =>
        let log := log ++ m.traced?
        .inl ⟨m, produced, log⟩
      | (.ok _, m) =>
        let log := log ++ m.traced?
        .inr ⟨.ok produced.toList, m, log⟩

/-- Runs until the machine blocks or halts, and gives every output on the way. -/
def run (rounds : Nat) (m : Machine) : Option (Reply Fault Machine (List Int)) :=
  repeatUntil runRound rounds ⟨m, #[], #[]⟩

end Machine

end IntegerMachine
