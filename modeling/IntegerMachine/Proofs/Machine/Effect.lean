import IntegerMachine.Machine.Run
import IntegerMachine.Proofs.Reply

/-!
# What the effect of an instruction tells

The effect of an instruction is worked out operand by operand.  Each family of operations has
one statement that says what must have been found when there is an effect; from these follow
which instruction an effect comes from and what was queued then.  `step_eq_ok` puts a completed
step together from the instruction due, its effect and the effect carried out, and `outputs_step`
says what a step writes.
-/

set_option autoImplicit false

namespace IntegerMachine

namespace Machine

/-- The machine with an instruction begun, the pending one given up. -/
def begun (m : Machine) (i : Instruction) : Machine :=
  { m with current := some i, pending := none }

/-- An instruction is carried out on the machine that has begun it. -/
theorem perform_eq (m : Machine) (i : Instruction) :
    m.perform i =
      match (m.begun i).effect i with
      | .error fault => (.error fault, m.begun i)
      | .ok effect => (m.begun i).apply i effect := rfl

/-- The instruction due: the pending one, or the one under the instruction pointer. -/
def due (m : Machine) : Except Fault Instruction :=
  match m.pending with
  | some i => .ok i
  | none => m.decode

/-- A machine that has not halted carries out the instruction due. -/
theorem step_eq {m : Machine} (h : m.state ≠ .halted) :
    m.step =
      match m.due with
      | .error fault => (.error fault, { m with current := none })
      | .ok i => m.perform i := by
  unfold step due
  rw [if_neg h]
  cases m.pending <;> rfl

variable {m : Machine} {i : Instruction} {e : Effect}

/-- An operation on two sources writes its result to its destination. -/
theorem arithmetic_eq_ok {op : Int → Int → Int} :
    m.arithmetic i op = .ok e ↔
      ∃ a b target, m.value i 0 = .ok a ∧ m.value i 1 = .ok b ∧ m.address i 2 = .ok target ∧
        e = .store target (op a b) := by
  unfold arithmetic
  constructor
  · intro h
    obtain ⟨a, ha, h⟩ := bind_eq_ok.mp h
    obtain ⟨b, hb, h⟩ := bind_eq_ok.mp h
    obtain ⟨target, htarget, h⟩ := bind_eq_ok.mp h
    exact ⟨a, b, target, ha, hb, htarget, (Except.ok.inj h).symm⟩
  · rintro ⟨a, b, target, ha, hb, htarget, rfl⟩
    rw [ha, hb, htarget]
    rfl

/-- A jump that is taken goes to its target; otherwise the next instruction follows. -/
theorem branch_eq_ok {condition : Int → Bool} :
    m.branch i condition = .ok e ↔
      ∃ a, m.value i 0 = .ok a ∧
        ((condition a = true ∧ ∃ target, m.value i 1 = .ok target ∧ e = .jump target) ∨
          (condition a = false ∧ e = .skip)) := by
  unfold branch
  constructor
  · intro h
    obtain ⟨a, ha, h⟩ := bind_eq_ok.mp h
    refine ⟨a, ha, ?_⟩
    cases hc : condition a with
    | true =>
      rw [hc, if_pos rfl] at h
      obtain ⟨target, htarget, h⟩ := bind_eq_ok.mp h
      exact .inl ⟨rfl, target, htarget, (Except.ok.inj h).symm⟩
    | false =>
      rw [hc, if_neg (by decide)] at h
      exact .inr ⟨rfl, (Except.ok.inj h).symm⟩
  · rintro ⟨a, ha, ⟨hc, target, htarget, rfl⟩ | ⟨hc, rfl⟩⟩
    · rw [ha]
      simp only [bind, Except.bind, hc, if_true, htarget]
      rfl
    · rw [ha]
      simp only [bind, Except.bind, hc]
      rfl

/-- An input instruction waits on an empty queue, and otherwise takes the first value. -/
theorem input_eq_ok (hop : i.opcode = .input) :
    m.effect i = .ok e ↔
      (m.inputs = [] ∧ e = .wait) ∨
        ∃ value rest target, m.inputs = value :: rest ∧ m.address i 0 = .ok target ∧
          e = .take target value := by
  unfold effect
  rw [hop]
  cases hin : m.inputs with
  | nil =>
    constructor
    · intro h
      exact .inl ⟨rfl, (Except.ok.inj h).symm⟩
    · rintro (⟨-, rfl⟩ | ⟨value, rest, target, hcons, -⟩)
      · rfl
      · exact absurd hcons (by simp)
  | cons value rest =>
    constructor
    · intro h
      obtain ⟨target, htarget, h⟩ := bind_eq_ok.mp h
      exact .inr ⟨value, rest, target, rfl, htarget, (Except.ok.inj h).symm⟩
    · rintro (⟨hnil, -⟩ | ⟨value', rest', target, hcons, htarget, rfl⟩)
      · exact absurd hnil (by simp)
      · cases hcons
        simp only [htarget]
        rfl

/-- Which operation an effect belongs to, and what was queued if it concerns the queue. -/
inductive Origin (m : Machine) (i : Instruction) : Effect → Prop
  /-- Arithmetic and comparisons write a cell. -/
  | store {target value : Int} (hop : i.opcode ≠ .input) : Origin m i (.store target value)
  /-- Only an input instruction takes a value, the first one queued. -/
  | take {target value : Int} {rest : List Int} (hop : i.opcode = .input)
      (hin : m.inputs = value :: rest) : Origin m i (.take target value)
  /-- Only an output instruction writes a value. -/
  | emit {value : Int} (hop : i.opcode = .output) : Origin m i (.emit value)
  /-- Jumps go to an address. -/
  | jump {target : Int} (hop : i.opcode ≠ .input) : Origin m i (.jump target)
  /-- Jumps that are not taken change nothing. -/
  | skip (hop : i.opcode ≠ .input) : Origin m i .skip
  /-- Only an adjustment moves the relative base. -/
  | rebase {offset : Int} (hop : i.opcode = .adjustBase) : Origin m i (.rebase offset)
  /-- Only an input instruction waits, on an empty queue. -/
  | wait (hop : i.opcode = .input) (hin : m.inputs = []) : Origin m i .wait
  /-- Only a halt instruction stops the machine. -/
  | stop (hop : i.opcode = .halt) : Origin m i .stop

/-- Every effect has an origin. -/
theorem origin_of_effect (h : m.effect i = .ok e) : Origin m i e := by
  cases hop : i.opcode with
  | input =>
    rcases (input_eq_ok hop).mp h with ⟨hin, rfl⟩ | ⟨value, rest, target, hin, -, rfl⟩
    · exact .wait hop hin
    · exact .take hop hin
  | add | multiply | lessThan | equals =>
    unfold effect at h
    rw [hop] at h
    obtain ⟨a, b, target, -, -, -, rfl⟩ := arithmetic_eq_ok.mp h
    exact .store (by rw [hop]; decide)
  -- a branch jumps or skips, by its condition
  | jumpIfTrue | jumpIfFalse =>
    unfold effect at h
    rw [hop] at h
    obtain ⟨a, -, ⟨-, target, -, rfl⟩ | ⟨-, rfl⟩⟩ := branch_eq_ok.mp h
    · exact .jump (by rw [hop]; decide)
    · exact .skip (by rw [hop]; decide)
  | output =>
    unfold effect at h
    rw [hop] at h
    obtain ⟨value, -, h⟩ := bind_eq_ok.mp h
    cases Except.ok.inj h
    exact .emit hop
  | adjustBase =>
    unfold effect at h
    rw [hop] at h
    obtain ⟨offset, -, h⟩ := bind_eq_ok.mp h
    cases Except.ok.inj h
    exact .rebase hop
  | halt =>
    unfold effect at h
    rw [hop] at h
    cases Except.ok.inj h
    exact .stop hop

/-- A completed step carries out the effect of the instruction due. -/
theorem step_eq_ok {w : Machine} {signal : Signal} :
    m.step = (.ok signal, w) ↔
      m.state ≠ .halted ∧ ∃ i e, m.due = .ok i ∧ (m.begun i).effect i = .ok e ∧
        (m.begun i).apply i e = (.ok signal, w) := by
  by_cases hm : m.state = .halted
  · simp [step, hm]
  · rw [step_eq hm]
    constructor
    · intro h
      refine ⟨hm, ?_⟩
      cases hdue : m.due with
      | error fault => simp [hdue] at h
      | ok i =>
        simp only [hdue, perform_eq] at h
        cases he : (m.begun i).effect i with
        | error fault => simp [he] at h
        | ok e =>
          simp only [he] at h
          exact ⟨i, e, rfl, he, h⟩
    · rintro ⟨-, i, e, hdue, he, h⟩
      simp only [hdue, perform_eq, he, h]

/-- Only waiting blocks. -/
theorem apply_eq_blocked {w : Machine} (h : m.apply i e = (.ok .blocked, w)) :
    e = .wait ∧ w = { m with pending := some i, state := .blocked } := by
  cases e with
  | wait => exact ⟨rfl, (Prod.mk.inj h).2.symm⟩
  | store target value | take target value =>
    simp only [apply] at h
    split at h <;> simp [advance] at h
  | emit value | jump target | skip | rebase offset | stop => simp [apply, advance] at h

/-- Only stopping halts. -/
theorem apply_eq_halted {w : Machine} (h : m.apply i e = (.ok .halted, w)) :
    e = .stop ∧ w = { m with state := .halted } := by
  cases e with
  | stop => exact ⟨rfl, (Prod.mk.inj h).2.symm⟩
  | store target value | take target value =>
    simp only [apply] at h
    split at h <;> simp [advance] at h
  | emit value | jump target | skip | rebase offset | wait => simp [apply, advance] at h

/-- After a step that proceeds the machine is active. -/
theorem state_of_apply_proceed {w : Machine} (h : m.apply i e = (.ok .proceed, w)) :
    w.state = .active := by
  cases e with
  | store target value | take target value =>
    simp only [apply] at h
    split at h
    · simp at h
    · exact (Prod.mk.inj h).2 ▸ rfl
  | emit value | jump target | skip | rebase offset => exact (Prod.mk.inj h).2 ▸ rfl
  | wait | stop => simp [apply] at h

/-- A step after which the machine proceeds leaves it active. -/
theorem state_of_step_proceed {w : Machine} (h : m.step = (.ok .proceed, w)) :
    w.state = .active := by
  obtain ⟨-, i, e, -, -, happly⟩ := step_eq_ok.mp h
  exact state_of_apply_proceed happly

/-- The machine that keeps an input instruction until a value is queued. -/
def waiting (m : Machine) (i : Instruction) : Machine :=
  { m with current := some i, pending := some i, state := .blocked }

/-- A step blocks on an input instruction with nothing queued, and keeps the instruction. -/
theorem step_eq_blocked {w : Machine} (h : m.step = (.ok .blocked, w)) :
    m.inputs = [] ∧ ∃ i, m.due = .ok i ∧ i.opcode = .input ∧ w = m.waiting i := by
  obtain ⟨-, i, e, hdue, he, happly⟩ := step_eq_ok.mp h
  obtain ⟨rfl, rfl⟩ := apply_eq_blocked happly
  cases origin_of_effect he with
  | wait hop hin => exact ⟨hin, i, hdue, hop, rfl⟩

/-- A step that halts changes only the suspension and which instruction was begun. -/
theorem step_eq_halted {w : Machine} (h : m.step = (.ok .halted, w)) :
    ∃ i, m.due = .ok i ∧ i.opcode = .halt ∧
      w = { m with current := some i, pending := none, state := .halted } := by
  obtain ⟨-, i, e, hdue, he, happly⟩ := step_eq_ok.mp h
  obtain ⟨rfl, rfl⟩ := apply_eq_halted happly
  cases origin_of_effect he with
  | stop hop => exact ⟨i, hdue, hop, rfl⟩

/-! ### What a step writes -/

/-- An output instruction writes its operand. -/
theorem output_eq_ok (hop : i.opcode = .output) :
    m.effect i = .ok e ↔ ∃ value, m.value i 0 = .ok value ∧ e = .emit value := by
  unfold effect
  rw [hop]
  constructor
  · intro h
    obtain ⟨value, hvalue, h⟩ := bind_eq_ok.mp h
    exact ⟨value, hvalue, (Except.ok.inj h).symm⟩
  · rintro ⟨value, hvalue, rfl⟩
    simp only [hvalue]
    rfl

/-- What an effect appends to the outputs. -/
def Effect.written : Effect → List Int
  | .emit value => [value]
  | _ => []

/-- What a step appends to the outputs: the value of the output instruction that is due. -/
def stepWritten (m : Machine) : List Int :=
  if m.state = .halted then []
  else
    match m.due with
    | .error _ => []
    | .ok i => if i.opcode = .output then ((m.begun i).value i 0).toOption.toList else []

/-- Only output instructions write. -/
theorem written_of_effect (h : m.effect i = .ok e) :
    e.written = if i.opcode = .output then (m.value i 0).toOption.toList else [] := by
  by_cases hop : i.opcode = .output
  · obtain ⟨value, hvalue, rfl⟩ := (output_eq_ok hop).mp h
    rw [if_pos hop, hvalue]
    rfl
  · rw [if_neg hop]
    cases e with
    | emit value =>
      cases origin_of_effect h with
      | emit hemit => exact absurd hemit hop
    | store | take | jump | skip | rebase | wait | stop => rfl

/-- Storing a value leaves the outputs as they are. -/
theorem store_outputs (m : Machine) (address value : Int) :
    (m.store address value).outputs = m.outputs := by
  by_cases hsize : m.memory.size ≤ address.toNat
  · simp only [store, if_pos hsize]
  · simp only [store, if_neg hsize]

/-- Applying an effect puts what it writes behind the outputs that wait. -/
theorem outputs_apply (m : Machine) (i : Instruction) (e : Effect) :
    (m.apply i e).2.outputs = m.outputs ++ e.written := by
  cases e with
  | store address value | take address value =>
    simp only [apply, Effect.written, List.append_nil]
    split
    · rfl
    · exact store_outputs _ address value
  | emit value => rfl
  | jump target | skip | rebase offset | wait | stop =>
    exact (List.append_nil m.outputs).symm

/-- A step, also one that fails, appends to the outputs what it writes. -/
theorem outputs_step (m : Machine) : m.step.2.outputs = m.outputs ++ m.stepWritten := by
  by_cases hm : m.state = .halted
  · rw [stepWritten, step, if_pos hm, if_pos hm, List.append_nil]
  · rw [stepWritten, step_eq hm, if_neg hm]
    cases hdue : m.due with
    | error fault => exact (List.append_nil m.outputs).symm
    | ok i =>
      simp only [perform_eq]
      cases he : (m.begun i).effect i with
      | ok e =>
        rw [← written_of_effect he]
        exact outputs_apply (m.begun i) i e
      | error fault =>
        by_cases hop : i.opcode = .output
        · -- an output that has no effect has no value either
          cases hvalue : (m.begun i).value i 0 with
          | error fault' =>
            rw [if_pos hop]
            exact (List.append_nil m.outputs).symm
          | ok value =>
            have hemit := (output_eq_ok hop).mpr ⟨value, hvalue, rfl⟩
            rw [he] at hemit
            exact absurd hemit (by simp)
        · rw [if_neg hop]
          exact (List.append_nil m.outputs).symm

/-- A step that writes lets the next one follow. -/
theorem stepWritten_of_stop (h : m.step.1 ≠ .ok .proceed) : m.stepWritten = [] := by
  unfold stepWritten
  split
  · rfl
  · rename_i hm
    split
    · rfl
    · rename_i i hdue
      split
      · rename_i hop
        cases hvalue : (m.begun i).value i 0 with
        | error fault => rfl
        | ok value =>
          have hemit := (output_eq_ok hop).mpr ⟨value, hvalue, rfl⟩
          refine absurd ?_ h
          rw [step_eq hm, hdue]
          simp only [perform_eq, hemit]
          rfl
      · rfl

end Machine

end IntegerMachine
