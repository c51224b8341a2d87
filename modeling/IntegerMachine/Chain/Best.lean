import IntegerMachine.Chain.Arrangement
import IntegerMachine.Chain.Basic

/-!
# The best order of phases

Every arrangement of the phases is tried from the start signal zero, in order, and the first
that gives the largest signal is kept.
-/

set_option autoImplicit false

namespace IntegerMachine.Chain

/-- How the amplifiers are connected. -/
inductive Wiring where
  | forward
  | feedback
  deriving DecidableEq, Repr

/-- The signal of a chain of the given wiring. -/
def Wiring.run (wiring : Wiring) (rounds : Nat) (program : List Int) (settings : Settings)
    (phases : List Int) (signal : Int) : Option (Logged (Except Fault Int)) :=
  match wiring with
  | .forward => Chain.forward rounds program settings phases signal
  | .feedback => Chain.feedback rounds program settings phases signal

/-- A signal and the phases that give it. -/
structure Candidate where
  signal : Int
  phases : List Int
  deriving DecidableEq, Repr

/-- Phases between parentheses; a comma stands after a single one. -/
def phasesText : List Int → String
  | [phase] => s!"({phase},)"
  | phases => "(" ++ String.intercalate ", " (phases.map toString) ++ ")"

/-- The line logged for the best candidate. -/
def Candidate.line (best : Candidate) : Line :=
  .info s!"Best signal {best.signal} with phases {phasesText best.phases}"

/-- Tries further orders against the best so far, which only a larger signal replaces. -/
def improve (run : List Int → Option (Logged (Except Fault Int))) (best : Candidate)
    (log : Array Line) : List (List Int) → Option (Logged (Except Fault Candidate))
  | [] => some ⟨.ok best, log⟩
  | phases :: rest =>
    match run phases with
    | none => none
    | some ⟨.error fault, lines⟩ => some ⟨.error fault, log ++ lines⟩
    | some ⟨.ok signal, lines⟩ =>
      let best := if best.signal < signal then ⟨signal, phases⟩ else best
      improve run best (log ++ lines) rest

/-- The largest signal that an arrangement of the phases gives, and the first that gives it.
The phases as they are come first. -/
def maxSignal (wiring : Wiring) (rounds : Nat) (program : List Int) (settings : Settings)
    (phases : List Int) : Option (Logged (Except Fault Candidate)) :=
  let run := fun phases => wiring.run rounds program settings phases 0
  match run phases with
  | none => none
  | some ⟨.error fault, lines⟩ => some ⟨.error fault, lines⟩
  | some ⟨.ok signal, lines⟩ =>
    match improve run ⟨signal, phases⟩ lines (arrangements phases).tail with
    | none => none
    | some ⟨.error fault, lines⟩ => some ⟨.error fault, lines⟩
    | some ⟨.ok best, lines⟩ => some ⟨.ok best, lines.push best.line⟩

end IntegerMachine.Chain
