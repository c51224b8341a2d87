import IntegerMachine.Proofs.Machine.Stepping

/-!
# The input that is kept

An input instruction that finds no value is kept, so that the step that resumes it need not decode
it again.  What is kept is as good as what would be decoded: along all calls it stays the instruction
under the instruction pointer, as nothing that decoding looks at moves while it is kept.  Blocking
again is harmless.
-/

set_option autoImplicit false

namespace IntegerMachine.Machine

variable {m w : Machine} {i : Instruction}

/-- An instruction is kept only as long as the machine has not halted. -/
def KeepsAwake (m : Machine) : Prop :=
  ∀ i, m.pending = some i → m.state ≠ .halted

/-- A step that halts keeps nothing for later. -/
theorem keepsAwake_step (m : Machine) (hm : m.KeepsAwake) : m.step.2.KeepsAwake := by
  intro i hi
  rcases pending_of_step hi with ⟨hsame, hkept⟩ | ⟨-, -, hwaiting⟩
  · rw [hsame]
    exact hm i hkept
  · rw [hwaiting]
    show Suspension.blocked ≠ .halted
    decide

/-- No call makes a halted machine keep an instruction for later: outputs handed over set no halt.
-/
theorem kept_keepsAwake : Kept KeepsAwake where
  step := keepsAwake_step
  handedOver _ _ _ _ _ _ _ := by
    show Suspension.output ≠ .halted
    decide
  feedAll _ _ hm := hm

/-- Whatever calls a machine has had, what it keeps for later is an input. -/
theorem Reachable.keepsInput (h : Reachable m) : m.KeepsInput :=
  h.of_kept kept_keepsInput keepsInput_start fun _ hm => hm

/-- Whatever calls a machine has had, it keeps an instruction only if it has not halted. -/
theorem Reachable.keepsAwake (h : Reachable m) : m.KeepsAwake := by
  refine h.of_kept kept_keepsAwake ?_ fun _ hm => hm
  intro program settings dialect padding i hi
  exact absurd hi (by simp [Machine.start])

/-- The instruction decoded is that under the instruction pointer. -/
theorem ip_of_decode (h : m.decode = .ok i) : i.ip = m.ip := by
  unfold decode at h
  split at h
  · exact absurd h (by simp)
  · simp only at h
    split at h
    · exact absurd h (by simp)
    · split at h
      · exact absurd h (by simp)
      · split at h
        · exact absurd h (by simp)
        · exact Except.ok.inj h ▸ rfl

/-- To resume what is kept is to decode afresh. -/
theorem KeepsDue.step_eq (hm : m.KeepsDue) (hawake : m.state ≠ .halted) :
    m.step = { m with pending := none }.step := by
  have hfresh : ({ m with pending := none } : Machine).state ≠ .halted := hawake
  have hdue : ({ m with pending := none } : Machine).due = m.decode := rfl
  rw [Machine.step_eq hawake, Machine.step_eq hfresh, hm.due_eq, hdue]
  cases hdecode : m.decode with
  | ok i => rfl
  | error fault =>
    -- a machine that keeps an instruction decodes it
    have hnone : m.pending = none := by
      apply Option.eq_none_iff_forall_ne_some.mpr
      intro i hi
      exact absurd (hdecode.symm.trans (hm i hi)) (by simp)
    simp only [← hnone]

/-- A machine that waits is left as it is by another step, whatever was looked at in between. -/
theorem step_waiting (hin : m.inputs = []) (hop : i.opcode = .input)
    (current : Option Instruction) :
    { m.waiting i with current }.step = (.ok .blocked, m.waiting i) := by
  have hstate : ({ m.waiting i with current } : Machine).state ≠ .halted := by
    show Suspension.blocked ≠ .halted
    decide
  have hdue : ({ m.waiting i with current } : Machine).due = .ok i := rfl
  have heffect : (({ m.waiting i with current } : Machine).begun i).effect i = .ok .wait :=
    (input_eq_ok hop).mpr (.inl ⟨hin, rfl⟩)
  rw [Machine.step_eq hstate, hdue]
  simp only [perform_eq, heffect]
  rfl

/-- The input kept is a coherent cache.  Whatever is called, it is the instruction under the
instruction pointer, and to resume it is to decode afresh.  A step that blocks moves nothing, and
with nothing queued it blocks again and changes nothing more. -/
theorem kept_input_is_due (hm : Reachable m) :
    (∀ i, m.pending = some i → i.opcode.code = 3 ∧ i.ip = m.ip ∧ m.decode = .ok i ∧
      m.step = { m with pending := none }.step) ∧
    (∀ w, m.step = (.ok .blocked, w) → m.inputs = [] ∧
      ∃ i, w = { m with current := some i, pending := some i, state := .blocked } ∧
        ∀ current, { w with current }.step = (.ok .blocked, w)) := by
  constructor
  · intro i hi
    have hdecode := hm.keepsDue i hi
    refine ⟨?_, ip_of_decode hdecode, hdecode, hm.keepsDue.step_eq (hm.keepsAwake i hi)⟩
    rw [hm.keepsInput i hi]
    rfl
  · intro w h
    obtain ⟨hin, i, -, hop, rfl⟩ := step_eq_blocked h
    exact ⟨hin, i, rfl, step_waiting hin hop⟩

/-- An input that waits twice, with its word looked at in between, and resumes once a value is
queued. -/
theorem kept_input_is_due_resumed :
    let fresh : Machine := boot [3, 7, 99] {}
    let i : Instruction := ⟨0, 3, .input, [.position]⟩
    let w : Machine := { fresh with current := some i, pending := some i, state := .blocked }
    Reachable fresh ∧ fresh.step = (.ok .blocked, w) ∧ w.examine.2.step = (.ok .blocked, w) ∧
      Reachable (w.feed 5) ∧ (w.feed 5).pending = some i ∧
      (w.feed 5).step = { w.feed 5 with pending := none }.step := by
  intro fresh i w
  have hfresh : Reachable fresh := .start _ {} .relative 0
  have hblocked : fresh.step = (.ok .blocked, w) := rfl
  have hafter : fresh.after? .step = some w := rfl
  have hfeed : w.after? (.feed 5) = some (w.feed 5) := rfl
  have hfed : Reachable (w.feed 5) := (hfresh.call hafter).call hfeed
  obtain ⟨-, j, -, hagain⟩ := (kept_input_is_due hfresh).2 w hblocked
  obtain ⟨-, -, -, hresumed⟩ := (kept_input_is_due hfed).1 i rfl
  exact ⟨hfresh, hblocked, hagain none, hfed, rfl, hresumed⟩

end IntegerMachine.Machine
