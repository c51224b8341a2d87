import IntegerMachine.Proofs.Machine.Rest

/-!
# What a machine takes from its queue

Values leave the input queue at its front, one to an input instruction that finds one, and in
no other way.  `inputs_eq_taken_append` adds this up over a run: the queue found is what the
instructions of the run took, and behind it the queue left.
-/

set_option autoImplicit false

namespace IntegerMachine.Machine

/-- What an effect takes from the queue. -/
def Effect.taken : Effect → List Int
  | .take _ value => [value]
  | _ => []

/-- What a step takes from the queue. -/
def stepTaken (m : Machine) : List Int :=
  if m.state = .halted then []
  else
    match m.due with
    | .error _ => []
    | .ok i =>
      match (m.begun i).effect i with
      | .error _ => []
      | .ok e => e.taken

/-- What the steps of a run take from the queue. -/
def taken : Nat → Machine → List Int
  | 0, _ => []
  | n + 1, m =>
    match m.outputs with
    | _ :: rest => taken n { m with outputs := rest, state := .output }
    | [] =>
      match m.step with
      | (.ok .proceed, w) => m.stepTaken ++ taken n w
      | _ => m.stepTaken

/-- Storing a value leaves the queue as it is. -/
theorem store_inputs (m : Machine) (address value : Int) :
    (m.store address value).inputs = m.inputs := by
  by_cases hsize : m.memory.size ≤ address.toNat
  · simp only [store, if_pos hsize]
  · simp only [store, if_neg hsize]

/-- Carrying out an effect leaves the queue but for what the effect takes. -/
theorem inputs_apply {m : Machine} {i : Instruction} {e : Effect} (h : m.effect i = .ok e) :
    m.inputs = e.taken ++ (m.apply i e).2.inputs := by
  cases origin_of_effect h with
  | store hop =>
    rename_i target value
    rw [apply]
    cases m.writeCause? target with
    | some cause => rfl
    | none => exact (store_inputs m target value).symm
  | take hop hin =>
    rename_i target value rest
    have htail : m.inputs = [value] ++ m.inputs.tail := by
      rw [hin]
      rfl
    rw [apply]
    cases m.writeCause? target with
    | some cause => exact htail
    | none =>
      have hstore := store_inputs { m with inputs := m.inputs.tail } target value
      exact htail.trans (congrArg ([value] ++ ·) hstore.symm)
  | emit hop => rfl
  | jump hop => rfl
  | skip hop => rfl
  | rebase hop => rfl
  | wait hop hin => rfl
  | stop hop => rfl

/-- A step, also one that fails, leaves the queue but for what it takes. -/
theorem inputs_step (m : Machine) : m.inputs = m.stepTaken ++ m.step.2.inputs := by
  by_cases hm : m.state = .halted
  · rw [stepTaken, step, if_pos hm, if_pos hm]
    rfl
  · rw [stepTaken, step_eq hm, if_neg hm]
    cases m.due with
    | error fault => rfl
    | ok i =>
      simp only [perform_eq]
      cases he : (m.begun i).effect i with
      | error fault => rfl
      | ok e => exact inputs_apply he

/-- A run takes values from the front of the queue and leaves the others in their order. -/
theorem inputs_eq_taken_append {n : Nat} {m : Machine} {reply : Reply Fault Machine (List Int)}
    (h : m.run n = some reply) : m.inputs = m.taken n ++ reply.after.inputs := by
  induction n generalizing m reply with
  | zero => exact absurd h (by simp [run, repeatUntil])
  | succ n ih =>
    rw [run_succ] at h
    rw [taken]
    cases hout : m.outputs with
    | cons value rest =>
      simp only [hout] at h ⊢
      obtain ⟨inner, hinner, rfl⟩ := Option.map_eq_some_iff.mp h
      exact ih hinner
    | nil =>
      simp only [hout] at h ⊢
      have hinputs := inputs_step m
      rcases hstep : m.step with ⟨fault | signal, w⟩
      · rw [hstep] at h hinputs
        obtain rfl := Option.some.inj h
        exact hinputs
      · rw [hstep] at h hinputs
        cases signal with
        | proceed =>
          obtain ⟨inner, hinner, rfl⟩ := Option.map_eq_some_iff.mp h
          rw [hinputs, ih hinner, List.append_assoc]
          rfl
        | blocked | halted =>
          obtain rfl := Option.some.inj h
          exact hinputs

end IntegerMachine.Machine
