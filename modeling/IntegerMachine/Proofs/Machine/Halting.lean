import IntegerMachine.Proofs.Machine.Calls
import IntegerMachine.Proofs.Machine.Effect

/-!
# After a halt

A machine that has halted refuses every step, as long as it is marked as halted.  Handing over an
output marks it otherwise, so a machine that halts with outputs still queued takes another step
after one of them was handed over.  `stays_halted_iff` says that this is the only way to lose the
mark, and that even then nothing moves: the step taken is the halt again.
-/

set_option autoImplicit false

namespace IntegerMachine.Machine

/-- The instruction kept for later is an input, as no other one waits. -/
def KeepsInput (m : Machine) : Prop :=
  ∀ i, m.pending = some i → i.opcode = .input

/-- An effect keeps what is pending, unless it waits for an input, which is then pending. -/
theorem pending_of_apply {m : Machine} {i : Instruction} {e : Effect} :
    (m.apply i e).2.pending = m.pending ∨ (m.apply i e).2.pending = some i ∧ e = .wait := by
  cases e with
  | store target value | take target value =>
    left
    simp only [apply]
    split
    · rfl
    · simp only [advance, store]
      split <;> rfl
  | emit value | jump target | skip | rebase offset | stop => exact .inl rfl
  | wait => exact .inr ⟨rfl, rfl⟩

/-- After a step an instruction is kept only if the step found it due and waits with it.  A halted
machine keeps what it kept. -/
theorem pending_of_step {m : Machine} {i : Instruction} (h : m.step.2.pending = some i) :
    (m.step.2 = m ∧ m.pending = some i) ∨
      (m.due = .ok i ∧ i.opcode = .input ∧ m.step.2 = m.waiting i) := by
  by_cases hhalted : m.state = .halted
  · rw [step, if_pos hhalted] at h ⊢
    exact .inl ⟨rfl, h⟩
  · rw [step_eq hhalted] at h ⊢
    cases hdue : m.due with
    | error fault =>
      rw [hdue] at h
      have hkept : m.pending = some i := h
      rw [due, hkept] at hdue
      exact absurd hdue (by simp)
    | ok due =>
      simp only [hdue, perform_eq] at h ⊢
      cases he : (m.begun due).effect due with
      | error fault =>
        rw [he] at h
        exact absurd h (by simp [begun])
      | ok e =>
        simp only [he] at h ⊢
        rcases pending_of_apply (m := m.begun due) (i := due) (e := e) with hp | ⟨hp, rfl⟩
        · rw [hp] at h
          exact absurd h (by simp [begun])
        · rw [hp] at h
          obtain rfl := Option.some.inj h
          cases origin_of_effect he with
          | wait hop hin => exact .inr ⟨rfl, hop, rfl⟩

/-- After a step what is kept for later is an input. -/
theorem keepsInput_step (m : Machine) (hm : m.KeepsInput) : m.step.2.KeepsInput := by
  intro i hi
  rcases pending_of_step hi with ⟨-, hkept⟩ | ⟨-, hop, -⟩
  · exact hm i hkept
  · exact hop

/-- Calls only ever keep an input for later. -/
theorem kept_keepsInput : Kept KeepsInput where
  step := keepsInput_step
  handedOver _ _ _ _ hm := hm
  feedAll _ _ hm := hm

/-- A fresh machine keeps nothing for later. -/
theorem keepsInput_start (program : List Int) (settings : Settings) (dialect : Dialect)
    (padding : Int) : (start program settings dialect padding).KeepsInput := by
  intro i hi
  exact absurd hi (by simp [start])

/-- What calls can still do to a machine that has halted: queue values, and hand over outputs,
which takes the mark away until a step sets it again. -/
def AtRest (w v : Machine) : Prop :=
  ∃ more handed, w.outputs = handed ++ v.outputs ∧
    v = { w with inputs := w.inputs ++ more, outputs := v.outputs, state := v.state } ∧
    (v.state = .halted ∨ v.state = .output ∧ handed ≠ [])

variable {m w v : Machine}

/-- A step of a halted machine fails and changes nothing. -/
theorem step_of_halted (h : v.state = .halted) :
    v.step = (.error ⟨.stepAfterHalt, v.ip, none⟩, v) := by
  rw [step, if_pos h]

/-- The instruction that a halted machine stopped at is the halt, and would be decoded again. -/
theorem decode_of_step_halted (hm : m.KeepsInput) (h : m.step = (.ok .halted, w)) :
    ∃ i, w.decode = .ok i ∧ i.opcode = .halt ∧ w.current = some i := by
  obtain ⟨i, hdue, hop, rfl⟩ := step_eq_halted h
  refine ⟨i, ?_, hop, rfl⟩
  have hpending : m.pending = none := by
    cases hp : m.pending with
    | none => rfl
    | some kept =>
      have hi : kept = i := by
        rw [due, hp] at hdue
        exact Except.ok.inj hdue
      rw [hi] at hp
      exact absurd ((hm i hp).symm.trans hop) (by decide)
  rw [due, hpending] at hdue
  exact hdue

/-- A halted machine whose mark was taken by an output handed over carries out its halt once more.
-/
theorem step_of_atRest {i : Instruction} (hpending : w.pending = none) (hdecode : w.decode = .ok i)
    (hop : i.opcode = .halt) (hcurrent : w.current = some i) (hv : AtRest w v)
    (hstate : v.state = .output) : v.step = (.ok .halted, { v with state := .halted }) := by
  obtain ⟨more, handed, -, heq, -⟩ := hv
  have hkept : v.pending = none := by rw [heq, hpending]
  have hbegun : v.begun i = v := by
    rw [heq, begun]
    simp only [hcurrent, hpending]
  have hdue : v.due = .ok i := by
    rw [due, hkept]
    rw [heq]
    exact hdecode
  rw [step_eq (by rw [hstate]; decide), hdue]
  simp only [perform_eq, hbegun, effect, hop, apply]

/-- Whatever is called on a machine that has halted, it stays at rest. -/
theorem kept_atRest (hpending : w.pending = none)
    (hagain : w.outputs ≠ [] → ∃ i, w.decode = .ok i ∧ i.opcode = .halt ∧ w.current = some i) :
    Kept (AtRest w) where
  step v hv := by
    obtain ⟨more, handed, hout, heq, hstate⟩ := id hv
    rcases hstate with hhalted | ⟨houtput, hhanded⟩
    · rw [step_of_halted hhalted]
      exact hv
    · have hne : w.outputs ≠ [] := by
        rw [hout]
        exact List.append_ne_nil_of_left_ne_nil hhanded _
      obtain ⟨i, hdecode, hop, hcurrent⟩ := hagain hne
      rw [step_of_atRest hpending hdecode hop hcurrent hv houtput]
      refine ⟨more, handed, hout, ?_, .inl rfl⟩
      rw [heq]
  handedOver v value left hcons hv := by
    obtain ⟨more, handed, hout, heq, -⟩ := hv
    refine ⟨more, handed ++ [value], ?_, ?_, .inr ⟨rfl, by simp⟩⟩
    · rw [hout, hcons, List.append_assoc]
      rfl
    · rw [heq]
      rfl
  feedAll v values hv := by
    obtain ⟨more, handed, hout, heq, hstate⟩ := hv
    refine ⟨more ++ values, handed, hout, ?_, hstate⟩
    rw [heq]
    simp only [feedAll, List.append_assoc]

/-- Right after it halts a machine is at rest. -/
theorem atRest_of_step_halted (h : m.step = (.ok .halted, w)) : AtRest w w := by
  obtain ⟨i, -, -, rfl⟩ := step_eq_halted h
  exact ⟨[], [], rfl, by simp, .inl rfl⟩

/-- Nothing is pending when a machine halts. -/
theorem pending_of_step_halted (h : m.step = (.ok .halted, w)) : w.pending = none := by
  obtain ⟨i, -, -, rfl⟩ := step_eq_halted h
  rfl

/-- Once a step has halted, the machine stays marked as halted and refuses every later step
unchanged, whatever is called, exactly if it halted with no output left in its queue.  With
outputs left it can be brought to take one more step, by handing one over, and that step is the
same halt: memory, registers and the values queued for input are never changed again. -/
theorem stays_halted_iff (h : m.step = (.ok .halted, w)) :
    ((∀ calls v, w.afterAll? calls = some v →
        v.state = .halted ∧ v.step = (.error ⟨.stepAfterHalt, v.ip, none⟩, v)) ↔
      w.outputs = []) ∧
    (m.KeepsInput → ∀ calls v, w.afterAll? calls = some v →
      AtRest w v ∧ (v.state = .output → v.step = (.ok .halted, { v with state := .halted }))) := by
  have hpending := pending_of_step_halted h
  have hrest := atRest_of_step_halted h
  refine ⟨⟨?_, ?_⟩, ?_⟩
  · intro hstays
    cases hout : w.outputs with
    | nil => rfl
    | cons value rest =>
      have hcall : w.afterAll? [.runUntilOutput 1] = some (w.handedOver rest) := by
        simp [afterAll?, after?, runUntilOutput, repeatUntil, awaitOutput, hout, handedOver]
      exact absurd (hstays _ _ hcall).1 (by simp [handedOver])
  · intro hempty calls v hcalls
    obtain ⟨more, handed, hout, -, hstate⟩ :=
      (kept_atRest hpending fun hne => absurd hempty hne).afterAll? hrest hcalls
    have hnone : handed = [] := (List.append_eq_nil_iff.mp (hout.symm.trans hempty)).1
    have hhalted : v.state = .halted := by
      rcases hstate with hhalted | ⟨-, hhanded⟩
      · exact hhalted
      · exact absurd hnone hhanded
    exact ⟨hhalted, step_of_halted hhalted⟩
  · intro hm calls v hcalls
    obtain ⟨i, hdecode, hop, hcurrent⟩ := decode_of_step_halted hm h
    have hv := (kept_atRest hpending fun _ => ⟨i, hdecode, hop, hcurrent⟩).afterAll? hrest hcalls
    exact ⟨hv, step_of_atRest hpending hdecode hop hcurrent hv⟩

/-- A machine that halts at once, with nothing written, halts for good. -/
theorem stays_halted_nothing_written :
    ∃ w, (boot [99] {}).step = (.ok .halted, w) ∧ (boot [99] {}).KeepsInput ∧ w.outputs = [] ∧
      ∀ calls v, w.afterAll? calls = some v →
        v.state = .halted ∧ v.step = (.error ⟨.stepAfterHalt, v.ip, none⟩, v) ∧ AtRest w v := by
  let w : Machine :=
    { boot [99] {} with state := .halted, current := some ⟨0, 99, .halt, []⟩ }
  have hhalt : (boot [99] {}).step = (.ok .halted, w) := by cbv
  have hkeeps : (boot [99] {}).KeepsInput := keepsInput_start _ _ _ _
  obtain ⟨hstays, hrest⟩ := stays_halted_iff hhalt
  refine ⟨w, hhalt, hkeeps, rfl, fun calls v hcalls => ?_⟩
  obtain ⟨hstate, hstep⟩ := hstays.mpr rfl calls v hcalls
  exact ⟨hstate, hstep, (hrest hkeeps calls v hcalls).1⟩

/-- A machine that writes a value and halts, step by step, is no longer marked as halted once the
value is handed over, and takes another step. -/
theorem not_stays_halted_output_left :
    ¬ ∀ m w : Machine, m.step = (.ok .halted, w) → ∀ calls v, w.afterAll? calls = some v →
        v.state = .halted ∧ v.step = (.error ⟨.stepAfterHalt, v.ip, none⟩, v) := by
  intro hall
  let written : Machine :=
    { boot [104, 7, 99] {} with
      ip := 2, outputs := [7], current := some ⟨0, 104, .output, [.immediate]⟩ }
  let halted : Machine :=
    { written with state := .halted, current := some ⟨2, 99, .halt, []⟩ }
  have hhalt : written.step = (.ok .halted, halted) := by cbv
  have hcalls : halted.afterAll? [.runUntilOutput 1] = some (halted.handedOver []) := by cbv
  have hstate := (hall written halted hhalt _ _ hcalls).1
  exact absurd hstate (by decide)

end IntegerMachine.Machine
