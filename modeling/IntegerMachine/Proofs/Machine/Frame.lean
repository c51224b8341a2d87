import IntegerMachine.Proofs.Machine.Effect

/-!
# What a step does not look at

A step reads memory, the registers and the front of the input queue.  Outputs written earlier,
values queued behind those that are there, and the suspension that a machine carries along do
not matter to it, as long as the machine has not halted and does not wait for a value.  The
main statement `step_amid` says so of a step, with the machine laid between outputs that are
already there and inputs that are queued behind.
-/

set_option autoImplicit false

namespace IntegerMachine.Machine

/-- The machine with outputs in front of its own, inputs behind its own, and another
suspension. -/
def amid (m : Machine) (earlier : List Int) (state : Suspension) (later : List Int) : Machine :=
  { m with inputs := m.inputs ++ later, outputs := earlier ++ m.outputs, state }

/-- What a step of the machine laid between outputs and inputs leaves, given what the step of
the machine itself leaves: a completed step sets the suspension, a fault keeps it. -/
def amidResult {α : Type} (earlier : List Int) (state : Suspension) (later : List Int) :
    Except Fault α × Machine → Except Fault α × Machine
  | (.ok a, m) => (.ok a, m.amid earlier m.state later)
  | (.error fault, m) => (.error fault, m.amid earlier state later)

/-- Laying a machine between outputs and inputs changes no outcome. -/
@[simp] theorem amidResult_fst {α : Type} (earlier : List Int) (state : Suspension)
    (later : List Int) (result : Except Fault α × Machine) :
    (amidResult earlier state later result).1 = result.1 := by
  obtain ⟨outcome, m⟩ := result
  cases outcome <;> rfl

/-- Queueing values is laying the machine in front of them. -/
theorem feedAll_eq_amid (m : Machine) (values : List Int) :
    m.feedAll values = m.amid [] m.state values := rfl

/-- Values are queued one list after another. -/
theorem feedAll_feedAll (m : Machine) (first second : List Int) :
    (m.feedAll first).feedAll second = m.feedAll (first ++ second) := by
  simp only [feedAll, List.append_assoc]

/-- Feeding nothing changes nothing. -/
@[simp] theorem feedAll_nil (m : Machine) : m.feedAll [] = m := by
  simp only [feedAll, List.append_nil]

/-- Feeding values keeps the suspension. -/
@[simp] theorem feedAll_state (m : Machine) (values : List Int) :
    (m.feedAll values).state = m.state := rfl

section Effect

variable (m : Machine) (i : Instruction) (earlier : List Int) (state : Suspension)
  (later : List Int)

/-- A cell is written alike. -/
theorem amid_store (address value : Int) :
    (m.amid earlier state later).store address value =
      (m.store address value).amid earlier state later := by
  by_cases hsize : m.memory.size ≤ address.toNat
  · simp only [store, amid, hsize, if_true]
  · simp only [store, amid, hsize, if_false]

/-- The effect of an instruction is worked out alike, unless it waits for a value that is
queued behind. -/
theorem effect_amid (h : m.effect i = .ok .wait → later = []) :
    (m.amid earlier state later).effect i = m.effect i := by
  unfold effect at h ⊢
  cases hop : i.opcode with
  | input =>
    rw [hop] at h
    cases hin : m.inputs with
    | nil =>
      rw [hin] at h
      have hlater : later = [] := h rfl
      simp only [amid, hin, hlater, List.append_nil]
    | cons value rest =>
      simp only [amid, hin, List.cons_append]
      rfl
  | add => rfl
  | multiply => rfl
  | output => rfl
  | jumpIfTrue => rfl
  | jumpIfFalse => rfl
  | lessThan => rfl
  | equals => rfl
  | adjustBase => rfl
  | halt => rfl

/-- Carrying out an effect leaves the same, with the outputs in front and the inputs behind. -/
theorem apply_amid {e : Effect} (h : m.effect i = .ok e) :
    (m.amid earlier state later).apply i e = amidResult earlier state later (m.apply i e) := by
  cases origin_of_effect h with
  | store hop =>
    rename_i target value
    have hwritable : (m.amid earlier state later).writeCause? target = m.writeCause? target := rfl
    simp only [apply, hwritable]
    cases m.writeCause? target with
    | some cause => rfl
    | none => simp only [amid_store]; rfl
  | take hop hin =>
    rename_i target value rest
    have hwritable : (m.amid earlier state later).writeCause? target = m.writeCause? target := rfl
    have htail : { m.amid earlier state later with
        inputs := (m.amid earlier state later).inputs.tail } =
          { m with inputs := m.inputs.tail }.amid earlier state later := by
      simp only [amid, hin, List.cons_append, List.tail_cons]
    simp only [apply, hwritable, htail]
    cases m.writeCause? target with
    | some cause => rfl
    | none => simp only [amid_store]; rfl
  | emit hop => simp [apply, advance, amidResult, amid]
  | jump hop => rfl
  | skip hop => rfl
  | rebase hop => rfl
  | wait hop hin => rfl
  | stop hop => rfl

end Effect

/-- Carrying out an instruction leaves the same, with the outputs in front and the inputs
behind. -/
theorem perform_amid (m : Machine) (i : Instruction) (earlier : List Int) (state : Suspension)
    (later : List Int) (h : (m.perform i).1 = .ok .blocked → later = []) :
    (m.amid earlier state later).perform i = amidResult earlier state later (m.perform i) := by
  have hbegun : (m.amid earlier state later).begun i = (m.begun i).amid earlier state later := rfl
  rw [perform_eq] at h ⊢
  rw [perform_eq m, hbegun]
  have heffect : ((m.begun i).amid earlier state later).effect i = (m.begun i).effect i := by
    apply effect_amid
    intro hwait
    rw [hwait] at h
    exact h rfl
  rw [heffect]
  cases he : (m.begun i).effect i with
  | error fault => rfl
  | ok e => exact apply_amid (m.begun i) i earlier state later he

/-- A machine that has not halted, laid between earlier outputs and later inputs, makes the same
step; only a machine that waits for a value must have nothing queued behind. -/
theorem step_amid {m : Machine} (earlier : List Int) {state : Suspension} (later : List Int)
    (hm : m.state ≠ .halted) (hstate : state ≠ .halted)
    (h : m.step.1 = .ok .blocked → later = []) :
    (m.amid earlier state later).step = amidResult earlier state later m.step := by
  have hamid : (m.amid earlier state later).state ≠ .halted := hstate
  have hdue : (m.amid earlier state later).due = m.due := rfl
  rw [step_eq hm] at h ⊢
  rw [step_eq hamid, hdue]
  cases hd : m.due with
  | error fault => rfl
  | ok i =>
    rw [hd] at h
    exact perform_amid m i earlier state later h

end IntegerMachine.Machine
