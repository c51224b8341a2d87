import IntegerMachine.Proofs.Machine.Stepping

/-!
# What a machine writes

Values are written by output instructions, one by each, and wait in the output queue until a run
hands them over.  `written` adds up what the steps of a run write.  A run that returns gives the
values that waited before it and then all of these (`values_of_run`), so nothing that is written is
lost between the two loops that a run is made of.
-/

set_option autoImplicit false

namespace IntegerMachine.Machine

/-- What the output instructions of a run write. -/
def written : Nat → Machine → List Int
  | 0, _ => []
  | n + 1, m =>
    match m.outputs with
    | _ :: rest => written n { m with outputs := rest, state := .output }
    | [] =>
      match m.step with
      | (.ok .proceed, w) => m.stepWritten ++ written n w
      | _ => m.stepWritten

/-- A run gives what waited in the queue and then what it writes. -/
theorem values_of_run {n : Nat} {m w : Machine} {values : List Int} {log : Array Line}
    (h : m.run n = some ⟨.ok values, w, log⟩) : values = m.outputs ++ m.written n := by
  induction n generalizing m w values log with
  | zero => exact absurd h (by simp [run, repeatUntil])
  | succ n ih =>
    rw [run_succ] at h
    rw [written]
    cases hout : m.outputs with
    | cons value rest =>
      simp only [hout] at h ⊢
      obtain ⟨⟨outcome, after, lines⟩, hinner, hreply⟩ := Option.map_eq_some_iff.mp h
      obtain ⟨hvalues, -, -⟩ := Reply.mk.inj hreply
      cases outcome with
      | error fault => exact absurd hvalues (by simp [Except.map])
      | ok inner =>
        obtain rfl := Except.ok.inj hvalues
        rw [ih hinner]
        rfl
    | nil =>
      simp only [hout] at h ⊢
      rcases hstep : m.step with ⟨fault | signal, v⟩
      · rw [hstep] at h
        exact absurd (Reply.mk.inj (Option.some.inj h)).1 (by simp)
      · rw [hstep] at h
        cases signal with
        | proceed =>
          obtain ⟨⟨outcome, after, lines⟩, hinner, hreply⟩ := Option.map_eq_some_iff.mp h
          obtain ⟨hvalues, -, -⟩ := Reply.mk.inj hreply
          cases outcome with
          | error fault => exact absurd hvalues (by simp [Except.map])
          | ok inner =>
            -- the value just written waits in the queue when the rest of the run begins
            obtain rfl := Except.ok.inj hvalues
            rw [ih hinner, outputs_of_step hstep hout]
        | blocked | halted =>
          obtain ⟨hvalues, -, -⟩ := Reply.mk.inj (Option.some.inj h)
          have hnone : m.stepWritten = [] := stepWritten_of_stop (by simp [hstep])
          rw [← Except.ok.inj hvalues, hnone]
          rfl

/-- What a run writes is what its steps write up to the one that does not proceed. -/
theorem advances_written {n : Nat} {m w : Machine} {values : List Int} {log : Array Line}
    (hm : m.state ≠ .halted) (h : m.run n = some ⟨.ok values, w, log⟩) :
    ∃ u signal v, Advances m (m.written n) u ∧ u.step = (.ok signal, v) ∧ signal ≠ .proceed ∧
      w = { v with outputs := [] } := by
  obtain ⟨written, u, signal, v, hu, hstep, hsignal, -, hvalues, hw⟩ :=
    (run_eq_ok_iff hm).mp ⟨n, log, h⟩
  rw [values_of_run h] at hvalues
  rw [List.append_cancel_left hvalues]
  exact ⟨u, signal, v, hu, hstep, hsignal, hw⟩

end IntegerMachine.Machine
