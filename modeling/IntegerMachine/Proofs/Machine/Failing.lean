import IntegerMachine.Proofs.Machine.Faults
import IntegerMachine.Proofs.Machine.InstructionTable
import IntegerMachine.Proofs.Machine.Waiting

/-!
# What a failing step leaves

A step works out its effect before it changes anything, so a step that fails leaves the machine it
found.  There is one exception: an input takes its value from the queue before it writes it, and the
value is gone if the cell is out of reach.  `fails_of_step` lists the ways in which a step fails that
begins an instruction, and `fault_of_step` is what follows for every machine that is reached.
-/

set_option autoImplicit false

namespace IntegerMachine.Machine

variable {m w : Machine} {fault : Fault}

/-- The instruction due is an input that finds a value and has an address to write it to, but the
cell there is out of reach. -/
def DropsInput (m : Machine) : Prop :=
  m.state ≠ .halted ∧ m.inputs ≠ [] ∧ ∃ i target, m.decode = .ok i ∧ i.opcode = .input ∧
    (m.begun i).address i 0 = .ok target ∧ m.IsOutOfReach target

/-- How a step fails that begins an instruction, and what it leaves. -/
inductive Fails (m : Machine) : Fault → Machine → Prop
  /-- The word under the instruction pointer cannot be read. -/
  | unread {cause : Cause} (hread : m.readCause? m.ip = some cause) :
      Fails m ⟨cause, m.ip, none⟩ { m with current := none }
  /-- The word is no instruction. -/
  | illegal {cause : Cause} (hread : m.readCause? m.ip = none)
      (hdecode : m.decode = .error ⟨cause, m.ip, some m.word⟩) :
      Fails m ⟨cause, m.ip, some m.word⟩ { m with current := none }
  /-- The operands of the instruction cannot be resolved. -/
  | refused {op : Opcode} {cause : Cause} (hread : m.readCause? m.ip = none)
      (hdecode : m.decode = .ok (m.instruction op))
      (hcause : firstCause (m.operandCauses op) = some cause) :
      Fails m ⟨cause, m.ip, some m.word⟩
        { m with current := some (m.instruction op), inputs := m.inputsAfterFault op }

/-- A step that begins an instruction and fails, fails in one of these ways. -/
theorem fails_of_step (hm : m.state ≠ .halted) (hpending : m.pending = none)
    (h : m.step = (.error fault, w)) : Fails m fault w := by
  have hdue : m.due = m.decode := by simp only [due, hpending]
  rw [step_eq hm, hdue] at h
  -- in the order in which a step looks: the word, its opcode, its modes, its operands
  cases hread : m.readCause? m.ip with
  | some cause =>
    have hdecode : m.decode = .error ⟨cause, m.ip, none⟩ := by rw [decode_eq, hread]
    rw [hdecode] at h
    cases h
    exact .unread hread
  | none =>
    cases hop : m.opcode? with
    | none =>
      have hdecode : m.decode = .error ⟨.illegalOpcode m.code, m.ip, some m.word⟩ := by
        rw [decode_eq, hread, hop]
      rw [hdecode] at h
      cases h
      exact .illegal hread hdecode
    | some op =>
      have hjudged : m.decode = m.judged (m.modeCauses op) (m.instruction op) := by
        rw [decode_eq, hread, hop]
      unfold judged at hjudged
      cases hmodes : firstCause (m.modeCauses op) with
      | some cause =>
        rw [hmodes] at hjudged
        rw [hjudged] at h
        cases h
        exact .illegal hread hjudged
      | none =>
        rw [hmodes] at hjudged
        rw [hjudged] at h
        simp only [perform_instruction hpending op] at h
        cases hcause : firstCause (m.operandCauses op) with
        | some cause =>
          rw [hcause] at h
          cases h
          exact .refused hread hjudged hcause
        | none =>
          rw [hcause] at h
          exact absurd (Prod.mk.inj h).1 (by simp)

/-- A value is gone exactly if the instruction that fails is an input that had its address. -/
theorem dropsInput_iff {op : Opcode} {cause : Cause} (hm : m.state ≠ .halted)
    (hdecode : m.decode = .ok (m.instruction op))
    (hcause : firstCause (m.operandCauses op) = some cause) :
    m.DropsInput ↔ op = .input ∧ firstCause (m.addressCauses 0) = none := by
  have haddress : op = .input → (m.begun (m.instruction op)).address (m.instruction op) 0 =
      m.judged (m.addressCauses 0) (m.placeOf 0) := by
    rintro rfl
    exact address_begun (m.fits_instruction .input) Nat.zero_lt_one
  constructor
  · rintro ⟨-, -, i, target, hi, hop, htarget, -⟩
    obtain rfl := Except.ok.inj (hdecode.symm.trans hi)
    refine ⟨hop, ?_⟩
    rw [haddress hop, judged] at htarget
    cases hfirst : firstCause (m.addressCauses 0) with
    | some cause =>
      rw [hfirst] at htarget
      exact absurd htarget (by simp)
    | none => rfl
  · rintro ⟨rfl, hfirst⟩
    have hqueued : m.inputs ≠ [] := by
      intro hin
      rw [operandCauses, if_pos hin] at hcause
      exact absurd hcause (by simp [firstCause])
    -- with a value queued and the address found, only the cell is left to blame
    have hrefused : ¬ m.writeCause? (m.placeOf 0) = none := by
      intro hwrite
      rw [operandCauses, if_neg hqueued, destinationCauses, firstCause_append, hfirst, hwrite]
        at hcause
      exact absurd hcause (by simp [firstCause])
    have hplace := haddress rfl
    rw [judged, hfirst] at hplace
    refine ⟨hm, hqueued, m.instruction .input, m.placeOf 0, hdecode, rfl, hplace, ?_⟩
    exact Decidable.not_not.mp (mt writeCause?_eq_none_iff.mpr hrefused)

/-- What a failing step leaves of the queue: all of it, or all but the value that is gone. -/
theorem Fails.inputs_eq (hm : m.state ≠ .halted) (h : Fails m fault w) :
    (m.DropsInput → ∃ value, m.inputs = value :: w.inputs) ∧
      (¬ m.DropsInput → w.inputs = m.inputs) := by
  cases h with
  | unread hread =>
    refine ⟨?_, fun _ => rfl⟩
    rintro ⟨-, -, i, -, hi, -⟩
    rw [decode_eq, hread] at hi
    exact absurd hi (by simp)
  | illegal _ hdecode =>
    refine ⟨?_, fun _ => rfl⟩
    rintro ⟨-, -, i, -, hi, -⟩
    exact absurd (hdecode.symm.trans hi) (by simp)
  | refused _ hdecode hcause =>
    have hdrops := dropsInput_iff hm hdecode hcause
    constructor
    · intro h
      have hqueued : m.inputs ≠ [] := h.2.1
      refine ⟨m.inputs.head hqueued, ?_⟩
      simp only [inputsAfterFault, if_pos (hdrops.mp h), List.cons_head_tail]
    · intro h
      simp only [inputsAfterFault, if_neg (mt hdrops.mpr h)]

/-- What a failing step leaves of everything else, and where the fault is reported. -/
theorem Fails.frame (h : Fails m fault w) :
    (∃ current, w = { m with inputs := w.inputs, current }) ∧ fault.ip = m.ip ∧
      fault.word = if m.IsOutOfReach m.ip then none else some (m.cell m.ip) := by
  cases h with
  | unread hread =>
    have hreach : m.IsOutOfReach m.ip := by
      by_contra hreach
      rw [readCause?_eq_none_iff.mpr hreach] at hread
      exact absurd hread (by simp)
    exact ⟨⟨none, rfl⟩, rfl, (if_pos hreach).symm⟩
  | illegal hread =>
    exact ⟨⟨none, rfl⟩, rfl, (if_neg (readCause?_eq_none_iff.mp hread)).symm⟩
  | refused hread =>
    exact ⟨⟨_, rfl⟩, rfl, (if_neg (readCause?_eq_none_iff.mp hread)).symm⟩

/-- A step that fails leaves the machine as it was, whatever was called before.  Only the instruction
that is kept is given up, and an input that has its address but cannot write there has taken its
value.  The fault names the instruction pointer and the word there, unless there is none to read or
the machine has halted. -/
theorem fault_of_step (hm : Reachable m) (h : m.step = (.error fault, w)) :
    (∃ left current, w = { m with inputs := left, pending := none, current } ∧
      (m.DropsInput → ∃ value, m.inputs = value :: left) ∧
      (¬ m.DropsInput → left = m.inputs)) ∧
    fault.ip = m.ip ∧
    fault.word =
      (if m.state = .halted ∨ m.IsOutOfReach m.ip then none else some (m.cell m.ip)) ∧
    (fault.cause = .stepAfterHalt ↔ m.state = .halted) := by
  by_cases hhalted : m.state = .halted
  · rw [step_of_halted hhalted] at h
    cases h
    have hpending : m.pending = none := by
      apply Option.eq_none_iff_forall_ne_some.mpr
      intro i hi
      exact hm.keepsAwake i hi hhalted
    refine ⟨⟨m.inputs, m.current, by simp only [← hpending], ?_, fun _ => rfl⟩, rfl, ?_, ?_⟩
    · intro hdrops
      exact absurd hhalted hdrops.1
    · rw [if_pos (.inl hhalted)]
    · exact ⟨fun _ => hhalted, fun _ => rfl⟩
  · have hcause : fault.cause.isProtocol = false :=
      inProtocol_step hhalted fault (congrArg Prod.fst h)
    -- what is kept is what decoding gives, so the step is the one that begins the instruction
    rw [hm.keepsDue.step_eq hhalted] at h
    have hfails := fails_of_step (m := { m with pending := none }) hhalted rfl h
    obtain ⟨hdropped, hkept⟩ := Fails.inputs_eq (m := { m with pending := none }) hhalted hfails
    obtain ⟨⟨current, hw⟩, hip, hword⟩ := hfails.frame
    refine ⟨⟨w.inputs, current, hw, hdropped, hkept⟩, hip, ?_, ?_⟩
    · rw [hword]
      simp only [hhalted, false_or]
      rfl
    · refine ⟨fun hstep => ?_, fun h => absurd h hhalted⟩
      rw [hstep] at hcause
      exact absurd hcause (by decide)

/-- An input that waits, and once values are queued fails to write the first of them. -/
theorem fault_of_step_resumed :
    let m : Machine := ((boot [3, -1, 99] {}).step.2).feedAll [7, 8]
    Reachable m ∧ m.step = (.error ⟨.writeNegative (-1), 0, some 3⟩, m.step.2) ∧
      m.DropsInput ∧ m.step.2.inputs = [8] ∧ m.step.2.pending = none := by
  intro m
  have hwaiting : (boot [3, -1, 99] {}).after? .step = some (boot [3, -1, 99] {}).step.2 := rfl
  have hfed : (boot [3, -1, 99] {}).step.2.after? (.feedAll [7, 8]) = some m := rfl
  have hm : Reachable m := ((Reachable.start _ {} .relative 0).call hwaiting).call hfed
  have hstep : m.step = (.error ⟨.writeNegative (-1), 0, some 3⟩, m.step.2) := rfl
  have hdrops : m.DropsInput := by
    refine ⟨by decide, by decide, ⟨0, 3, .input, [.position]⟩, -1, rfl, rfl, rfl, ?_⟩
    decide
  obtain ⟨⟨left, current, hw, hdropped, -⟩, -⟩ := fault_of_step hm hstep
  obtain ⟨value, hin⟩ := hdropped hdrops
  obtain ⟨-, rfl⟩ := List.cons.inj (show [7, 8] = value :: left from hin)
  rw [hw]
  exact ⟨hm, hw ▸ hstep, hdrops, rfl, rfl⟩

end IntegerMachine.Machine
