import IntegerMachine.Proofs.Machine.Emission
import IntegerMachine.Proofs.Machine.Halting
import IntegerMachine.Proofs.Machine.Rest

/-!
# Runs as plain stepping

A run is a loop in a loop: it waits for an output, hands it over, and waits for the next.  Here it
is measured against steps alone.  `Advances` is a number of steps that all proceed, with the values
they write on the way.  A wait for an output ends at the first step that writes or does not proceed
(`gives_iff_decides`), a run at the first that does not proceed, and `run_iff_advances` puts both
together.  What every driver of machines rests on comes last: a run that returns leaves a machine
that is halted, or waits at an input instruction with both its queues empty.
-/

set_option autoImplicit false

namespace IntegerMachine

/-- The suspension that a completed step leaves. -/
def Signal.suspension : Signal → Suspension
  | .proceed => .active
  | .blocked => .blocked
  | .halted => .halted

namespace Machine

variable {m u w : Machine}

/-! ## Steps that proceed -/

/-- A number of steps that all proceed, and the values they write, the oldest first. -/
inductive Advances : Machine → List Int → Machine → Prop
  | refl (m : Machine) : Advances m [] m
  | step {m w v : Machine} {values : List Int} (h : m.step = (.ok .proceed, w))
      (rest : Advances w values v) : Advances m (m.stepWritten ++ values) v

/-- A step that completes leaves the suspension of its signal. -/
theorem state_of_step {signal : Signal} (h : m.step = (.ok signal, w)) :
    w.state = signal.suspension := by
  cases signal with
  | proceed => exact state_of_step_proceed h
  | blocked =>
    obtain ⟨-, i, -, -, rfl⟩ := step_eq_blocked h
    rfl
  | halted =>
    obtain ⟨i, -, -, rfl⟩ := step_eq_halted h
    rfl

/-- What steps write is behind the outputs that were there. -/
theorem Advances.outputs_eq {values : List Int} (h : Advances m values u) :
    u.outputs = m.outputs ++ values := by
  induction h with
  | refl m => exact (List.append_nil m.outputs).symm
  | @step m w v values hstep _ ih =>
    have hwritten := outputs_step m
    rw [hstep] at hwritten
    rw [ih, hwritten, List.append_assoc]

/-- A step that does not proceed leaves the outputs as they are. -/
theorem outputs_of_stop {values : List Int} (h : Advances m values u)
    (hstop : u.step.1 ≠ .ok .proceed) : u.step.2.outputs = m.outputs ++ values := by
  rw [outputs_step, stepWritten_of_stop hstop, h.outputs_eq, List.append_nil]

/-- Stepping comes to rest in a step that does not proceed, behind steps that do. -/
theorem rests_iff_advances {result : Except Fault Signal × Machine} :
    Rests m result ↔
      ∃ values u, Advances m values u ∧ u.step = result ∧ result.1 ≠ .ok .proceed := by
  constructor
  · intro h
    induction h with
    | @stop m hstop => exact ⟨[], m, .refl m, rfl, hstop⟩
    | proceed hgo _ ih =>
      obtain ⟨values, u, hu, hstep, hstop⟩ := ih
      exact ⟨_, u, .step hgo hu, hstep, hstop⟩
  · rintro ⟨values, u, hu, rfl, hstop⟩
    induction hu with
    | refl m => exact .stop hstop
    | step hgo _ ih => exact .proceed hgo (ih hstop)

/-! ## Runs -/

/-- Where stepping comes to rest, a run leaves what stepping leaves. -/
theorem Rests.run {result : Except Fault Signal × Machine} (h : Rests m result)
    (hm : m.state ≠ .halted) :
    ∃ rounds reply state, m.run rounds = some reply ∧
      handedOut state result = (reply.outcome, reply.after) := by
  obtain ⟨rounds, reply, hrun⟩ := h.run_ends hm
  obtain ⟨result', state, hrests, hleft⟩ := rests_of_run hm hrun
  obtain rfl := hrests.unique h
  exact ⟨rounds, reply, state, hrun, hleft⟩

/-- A run returns where stepping comes to rest without a fault. -/
theorem run_eq_ok_iff (hm : m.state ≠ .halted) {values : List Int} :
    (∃ rounds log, m.run rounds = some ⟨.ok values, w, log⟩) ↔
      ∃ written u signal v, Advances m written u ∧ u.step = (.ok signal, v) ∧
        signal ≠ .proceed ∧ v.state = signal.suspension ∧ values = m.outputs ++ written ∧
        w = { v with outputs := [] } := by
  constructor
  · rintro ⟨rounds, log, hrun⟩
    obtain ⟨result, state, hrests, hleft⟩ := rests_of_run hm hrun
    obtain ⟨written, u, hu, hstep, hstop⟩ := rests_iff_advances.mp hrests
    rcases result with ⟨fault | signal, v⟩
    · exact absurd (Prod.mk.inj hleft).1 (by simp)
    · obtain ⟨hvalues, hw⟩ := Prod.mk.inj hleft
      have hstop' : u.step.1 ≠ .ok .proceed := by
        rw [hstep]
        exact hstop
      have hout := outputs_of_stop hu hstop'
      rw [hstep] at hout
      refine ⟨written, u, signal, v, hu, hstep, ?_, state_of_step hstep, ?_, hw.symm⟩
      · rintro rfl
        exact hstop rfl
      · exact (Except.ok.inj hvalues).symm.trans hout
  · rintro ⟨written, u, signal, v, hu, hstep, hsignal, -, rfl, rfl⟩
    have hstop : u.step.1 ≠ .ok .proceed := by
      rw [hstep]
      intro h
      exact hsignal (Except.ok.inj h)
    have hrests := rests_iff_advances.mpr ⟨written, u, hu, rfl, hstop⟩
    have hout := outputs_of_stop hu hstop
    rw [hstep] at hrests hout
    obtain ⟨rounds, ⟨outcome, after, log⟩, state, hrun, hleft⟩ := hrests.run hm
    obtain ⟨rfl, rfl⟩ := Prod.mk.inj hleft
    refine ⟨rounds, log, ?_⟩
    rw [hrun, ← hout]
    rfl

/-- A run fails where stepping fails, and leaves the same but for the outputs and the mark that
handing them over leaves. -/
theorem exists_advances_of_run (hm : m.state ≠ .halted) {fault : Fault} {rounds : Nat}
    {log : Array Line} (h : m.run rounds = some ⟨.error fault, w, log⟩) :
    ∃ written u v, Advances m written u ∧ u.step = (.error fault, v) ∧
      w = { v with outputs := [], state := w.state } := by
  obtain ⟨result, state, hrests, hleft⟩ := rests_of_run hm h
  obtain ⟨written, u, hu, hstep, -⟩ := rests_iff_advances.mp hrests
  rcases result with ⟨fault' | signal, v⟩
  · obtain ⟨hfault, rfl⟩ := Prod.mk.inj hleft
    obtain rfl := Except.error.inj hfault
    exact ⟨written, u, v, hu, hstep, rfl⟩
  · exact absurd (Prod.mk.inj hleft).1 (by simp)

/-- A fault that steps lead to ends a run in enough rounds. -/
theorem run_fails_of_advances (hm : m.state ≠ .halted) {written : List Int} {fault : Fault}
    {v : Machine} (hu : Advances m written u) (hstep : u.step = (.error fault, v)) :
    ∃ rounds w log, m.run rounds = some ⟨.error fault, w, log⟩ := by
  have hstop : u.step.1 ≠ .ok .proceed := by
    rw [hstep]
    simp
  have hrests := rests_iff_advances.mpr ⟨written, u, hu, rfl, hstop⟩
  rw [hstep] at hrests
  obtain ⟨rounds, ⟨outcome, after, log⟩, state, hrun, hleft⟩ := hrests.run hm
  obtain ⟨rfl, -⟩ := Prod.mk.inj hleft
  exact ⟨rounds, after, log, hrun⟩

/-! ## Waiting for an output -/

/-- How the step of a machine with nothing to hand over ends the wait for an output. -/
inductive Decides (u : Machine) : Except Fault (Option Int × Machine) → Prop
  /-- The step writes a value, which is handed over. -/
  | written {v : Machine} {value : Int} (hstep : u.step = (.ok .proceed, v))
      (hwritten : u.stepWritten = [value]) :
      Decides u (.ok (some value, { v with outputs := [], state := .output }))
  /-- The step does not proceed, and its signal is recorded. -/
  | stop {v : Machine} {signal : Signal} (hstep : u.step = (.ok signal, v))
      (hsignal : signal ≠ .proceed) (hstate : v.state = signal.suspension) :
      Decides u (.ok (none, v))
  | fault {v : Machine} {fault : Fault} (hstep : u.step = (.error fault, v)) :
      Decides u (.error fault)

/-- A step writes one value at most. -/
theorem stepWritten_cases (m : Machine) :
    m.stepWritten = [] ∨ ∃ value, m.stepWritten = [value] := by
  unfold stepWritten
  split
  · exact .inl rfl
  · split
    · exact .inl rfl
    · split
      · rename_i i _ _
        cases (m.begun i).value i 0 with
        | error fault => exact .inl rfl
        | ok value => exact .inr ⟨value, rfl⟩
      · exact .inl rfl

/-- A step from no outputs leaves those it writes. -/
theorem outputs_of_step (h : m.step = (.ok .proceed, w)) (hout : m.outputs = []) :
    w.outputs = m.stepWritten := by
  have hwritten := outputs_step m
  rw [h, hout] at hwritten
  exact hwritten

/-- With nothing to hand over, the wait for an output ends at the first step that writes or does not
proceed. -/
theorem gives_iff_decides (hout : m.outputs = []) {x : Except Fault (Option Int × Machine)} :
    m.Gives x ↔ ∃ u, Advances m [] u ∧ Decides u x := by
  rw [gives_iff_awaits]
  constructor
  · intro h
    -- by the steps of the wait, of which only the last can have written
    induction h with
    | handed hhanded => exact absurd (hout.symm.trans hhanded) (by simp)
    | @fault m w fault _ hstep => exact ⟨m, .refl m, .fault hstep⟩
    | @stop m w signal _ hstep hsignal =>
      exact ⟨m, .refl m, .stop hstep hsignal (state_of_step hstep)⟩
    | @proceed m w x _ hstep hrest ih =>
      have hw := outputs_of_step hstep hout
      rcases m.stepWritten_cases with hnone | ⟨value, hvalue⟩
      · obtain ⟨u, hu, hdecides⟩ := ih (hw.trans hnone)
        have hadvances := Advances.step hstep hu
        rw [hnone] at hadvances
        exact ⟨u, hadvances, hdecides⟩
      · -- the value just written is handed over next
        rw [hvalue] at hw
        refine ⟨m, .refl m, ?_⟩
        cases hrest with
        | handed hhanded =>
          obtain ⟨rfl, rfl⟩ := List.cons.inj (hw.symm.trans hhanded)
          exact .written hstep hvalue
        | fault hnil _ => exact absurd (hw.symm.trans hnil) (by simp)
        | stop hnil _ _ => exact absurd (hw.symm.trans hnil) (by simp)
        | proceed hnil _ _ => exact absurd (hw.symm.trans hnil) (by simp)
  · rintro ⟨u, hu, hdecides⟩
    generalize hnone : ([] : List Int) = written at hu
    -- by the steps that write nothing
    induction hu with
    | refl m =>
      cases hdecides with
      | written hstep hwritten =>
        have hw := (outputs_of_step hstep hout).trans hwritten
        exact .proceed hout hstep (.handed hw)
      | stop hstep hsignal _ => exact .stop hout hstep hsignal
      | fault hstep => exact .fault hout hstep
    | step hstep _ ih =>
      obtain ⟨hfirst, hlater⟩ := List.append_eq_nil_iff.mp hnone.symm
      have hw := (outputs_of_step hstep hout).trans hfirst
      exact .proceed hout hstep (ih hw hdecides hlater.symm)

/-- A value that waits in the queue is handed over, and no step is made. -/
theorem runUntilOutput_of_outputs {value : Int} {rest : List Int} (h : m.outputs = value :: rest)
    (rounds : Nat) :
    m.runUntilOutput (rounds + 1) =
      some ⟨.ok (some value), { m with outputs := rest, state := .output }, #[]⟩ := by
  simp only [runUntilOutput, repeatUntil, awaitOutput, h]

/-! ## Machines after a run -/

/-- The machines that calls lead to from a fresh one.  A cell is only written by instructions. -/
inductive Reachable : Machine → Prop
  | start (program : List Int) (settings : Settings) (dialect : Dialect) (padding : Int) :
      Reachable (start program settings dialect padding)
  | call {m w : Machine} {call : Call} (h : Reachable m) (hw : m.after? call = some w) :
      Reachable w
  | examine {m : Machine} (h : Reachable m) : Reachable m.examine.2

/-- What fresh machines have, calls keep and looking at the instruction due does not disturb, every
machine that is reached has. -/
theorem Reachable.of_kept {P : Machine → Prop} (hkept : Kept P)
    (hstart : ∀ program settings dialect padding, P (Machine.start program settings dialect padding))
    (hexamine : ∀ m : Machine, P m → P m.examine.2) (h : Reachable m) : P m := by
  induction h with
  | start program settings dialect padding => exact hstart program settings dialect padding
  | call _ hw ih => exact hkept.after? ih hw
  | examine _ ih => exact hexamine _ ih

/-- The instruction kept for later is the one that would be decoded. -/
def KeepsDue (m : Machine) : Prop :=
  ∀ i, m.pending = some i → m.decode = .ok i

/-- What is due is what would be decoded, whether it was kept or not. -/
theorem KeepsDue.due_eq (hm : m.KeepsDue) : m.due = m.decode := by
  unfold due
  cases hpending : m.pending with
  | none => rfl
  | some kept => exact (hm kept hpending).symm

/-- A step keeps for later only what would be decoded again: memory and the instruction pointer do
not change while it waits. -/
theorem keepsDue_step (m : Machine) (hm : m.KeepsDue) : m.step.2.KeepsDue := by
  intro i hi
  rcases pending_of_step hi with ⟨hsame, hkept⟩ | ⟨hdue, -, hwaiting⟩
  · rw [hsame]
    exact hm i hkept
  · rw [hwaiting]
    show m.decode = .ok i
    rw [← hm.due_eq, hdue]

/-- While an instruction is kept nothing changes that decoding looks at. -/
theorem kept_keepsDue : Kept KeepsDue where
  step := keepsDue_step
  handedOver _ _ _ _ hm := hm
  feedAll _ _ hm := hm

/-- Whatever calls a machine has had, what it keeps for later would be decoded again. -/
theorem Reachable.keepsDue (h : Reachable m) : m.KeepsDue := by
  refine h.of_kept kept_keepsDue ?_ fun _ hm => hm
  intro program settings dialect padding i hi
  exact absurd hi (by simp [Machine.start])

/-- A machine that waits for a value with nothing queued on either side, at an input instruction. -/
structure IsWaiting (m : Machine) : Prop where
  state_eq : m.state = .blocked
  inputs_eq : m.inputs = []
  /-- The instruction kept is an input, and the one under the instruction pointer. -/
  pending_eq : ∃ i, m.pending = some i ∧ i.opcode = .input ∧ m.decode = .ok i

/-- A step that does not proceed and does not fail halts the machine or finds it waiting. -/
theorem stopped_of_step {signal : Signal} (h : u.step = (.ok signal, w))
    (hsignal : signal ≠ .proceed) :
    w.state = .halted ∨
      w.state = .blocked ∧ w.inputs = [] ∧ ∃ i, w.pending = some i ∧ i.opcode = .input := by
  cases signal with
  | proceed => exact absurd rfl hsignal
  | halted => exact .inl (state_of_step h)
  | blocked =>
    obtain ⟨hin, i, -, hop, rfl⟩ := step_eq_blocked h
    exact .inr ⟨rfl, hin, i, rfl, hop⟩

/-- A run that ends leaves no output, and a machine that has halted or waits for a value. -/
theorem stopped_of_run {rounds : Nat} {values : List Int} {log : Array Line}
    (h : m.run rounds = some ⟨.ok values, w, log⟩) :
    w.outputs = [] ∧ (w.state = .halted ∨
      w.state = .blocked ∧ w.inputs = [] ∧ ∃ i, w.pending = some i ∧ i.opcode = .input) := by
  by_cases hm : m.state = .halted
  · -- a halted machine runs only if it still has something to hand over, and then on from there
    cases rounds with
    | zero => exact absurd h (by simp [run, repeatUntil])
    | succ rounds =>
      rw [run_succ] at h
      cases hout : m.outputs with
      | nil =>
        simp only [hout, step_of_halted hm] at h
        exact absurd (congrArg Reply.outcome (Option.some.inj h)) (by simp)
      | cons value rest =>
        simp only [hout] at h
        obtain ⟨⟨outcome, after, lines⟩, hinner, hreply⟩ := Option.map_eq_some_iff.mp h
        cases outcome with
        | error fault =>
          have houtcome := congrArg Reply.outcome hreply
          exact absurd houtcome (by simp [following, Except.map])
        | ok inner =>
          obtain rfl : after = w := congrArg Reply.after hreply
          obtain ⟨_, u, signal, v, -, hstep, hsignal, -, -, rfl⟩ :=
            (run_eq_ok_iff (by simp)).mp ⟨rounds, lines, hinner⟩
          have hv := stopped_of_step hstep hsignal
          exact ⟨rfl, hv⟩
  · obtain ⟨_, u, signal, v, -, hstep, hsignal, -, -, rfl⟩ := (run_eq_ok_iff hm).mp ⟨rounds, log, h⟩
    have hv := stopped_of_step hstep hsignal
    exact ⟨rfl, hv⟩

/-- Every driver goes on from this: a run that returned has come to its end or to an input. -/
theorem Reachable.halted_or_waiting (hm : Reachable m) {rounds : Nat} {values : List Int}
    {log : Array Line} (h : m.run rounds = some ⟨.ok values, w, log⟩) :
    w.outputs = [] ∧ (w.state = .halted ∨ w.IsWaiting) := by
  have hafter : m.after? (.run rounds) = some w := by
    rw [after?, h]
    rfl
  have hw : Reachable w := hm.call hafter
  obtain ⟨hout, hhalted | ⟨hblocked, hin, i, hpending, hop⟩⟩ := stopped_of_run h
  · exact ⟨hout, .inl hhalted⟩
  · exact ⟨hout, .inr ⟨hblocked, hin, i, hpending, hop, hw.keepsDue i hpending⟩⟩

/-- A run is nothing but repeated steps. -/
theorem run_iff_advances (m : Machine) :
    (m.state ≠ .halted →
      (∀ values w, (∃ rounds log, m.run rounds = some ⟨.ok values, w, log⟩) ↔
        ∃ written u signal v, Advances m written u ∧ u.step = (.ok signal, v) ∧
          signal ≠ .proceed ∧ v.state = signal.suspension ∧ values = m.outputs ++ written ∧
          w = { v with outputs := [] }) ∧
      (∀ fault, (∃ rounds w log, m.run rounds = some ⟨.error fault, w, log⟩) ↔
        ∃ written u v, Advances m written u ∧ u.step = (.error fault, v)) ∧
      (∀ rounds fault w log, m.run rounds = some ⟨.error fault, w, log⟩ →
        ∃ written u v, Advances m written u ∧ u.step = (.error fault, v) ∧
          w = { v with outputs := [], state := w.state })) ∧
    (∀ value rest, m.outputs = value :: rest → ∀ rounds,
      m.runUntilOutput (rounds + 1) =
        some ⟨.ok (some value), { m with outputs := rest, state := .output }, #[]⟩) ∧
    (m.outputs = [] → ∀ x, m.Gives x ↔ ∃ u, Advances m [] u ∧ Decides u x) ∧
    (Reachable m → ∀ rounds values w log, m.run rounds = some ⟨.ok values, w, log⟩ →
      w.outputs = [] ∧ (w.state = .halted ∨ w.IsWaiting)) := by
  refine ⟨?_, ?_, ?_, ?_⟩
  · intro hm
    refine ⟨fun values w => run_eq_ok_iff hm, ?_, ?_⟩
    · intro fault
      constructor
      · rintro ⟨rounds, w, log, h⟩
        obtain ⟨written, u, v, hu, hstep, -⟩ := exists_advances_of_run hm h
        exact ⟨written, u, v, hu, hstep⟩
      · rintro ⟨written, u, v, hu, hstep⟩
        exact run_fails_of_advances hm hu hstep
    · intro rounds fault w log h
      exact exists_advances_of_run hm h
  · intro value rest h rounds
    exact runUntilOutput_of_outputs h rounds
  · intro hout x
    exact gives_iff_decides hout
  · intro hm rounds values w log h
    exact hm.halted_or_waiting h

/-- One value is in the queue when the run begins, and one is written before it waits. -/
theorem run_iff_advances_two_values :
    let fresh : Machine := boot [104, 5, 104, 7, 3, 9, 99] {}
    let m : Machine :=
      { fresh with ip := 2, outputs := [5], current := some ⟨0, 104, .output, [.immediate]⟩ }
    let w : Machine :=
      { fresh with
        ip := 4
        state := .blocked
        current := some ⟨4, 3, .input, [.position]⟩
        pending := some ⟨4, 3, .input, [.position]⟩ }
    Reachable m ∧ m.state ≠ .halted ∧
      (∃ rounds log, m.run rounds = some ⟨.ok [5, 7], w, log⟩) ∧ w.IsWaiting := by
  intro fresh m w
  have hafter : fresh.after? .step = some m := rfl
  have hfresh : Reachable fresh := .start _ {} .relative 0
  have hreach : Reachable m := hfresh.call hafter
  have hm : m.state ≠ .halted := by decide
  let u : Machine :=
    { m with ip := 4, outputs := [5, 7], current := some ⟨2, 104, .output, [.immediate]⟩ }
  have hfirst : m.step = (.ok .proceed, u) := rfl
  have hwritten : m.stepWritten ++ [] = [7] := rfl
  have hsecond : u.step = (.ok .blocked, { w with outputs := [5, 7] }) := rfl
  have hadvances := Advances.step hfirst (.refl u)
  rw [hwritten] at hadvances
  obtain ⟨hsteps, -, -, hend⟩ := run_iff_advances m
  obtain ⟨rounds, log, hrun⟩ := ((hsteps hm).1 [5, 7] w).mpr
    ⟨[7], u, .blocked, _, hadvances, hsecond, by decide, rfl, rfl, rfl⟩
  have hwaiting : w.IsWaiting := by
    rcases (hend hreach rounds [5, 7] w log hrun).2 with hhalted | hwaiting
    · exact absurd hhalted (by decide)
    · exact hwaiting
  exact ⟨hreach, hm, ⟨rounds, log, hrun⟩, hwaiting⟩

end Machine

end IntegerMachine
