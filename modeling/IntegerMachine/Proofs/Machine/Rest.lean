import IntegerMachine.Proofs.Machine.Frame

/-!
# Runs and repeated steps

A run hands outputs over one by one and steps in between.  `run_succ` is its recursion without
accumulators.  `Rests` is plain stepping up to the first step that does not proceed, with the
outputs left in their queue, and `settles_iff_drains` says that a run is nothing else: it gives the
outputs found in the queue when stepping comes to rest.
-/

set_option autoImplicit false

namespace IntegerMachine.Machine

/-- A reply to a run that comes after values and lines. -/
def following (values : List Int) (log : Array Line) (reply : Reply Fault Machine (List Int)) :
    Reply Fault Machine (List Int) :=
  ⟨reply.outcome.map (values ++ ·), reply.after, log ++ reply.log⟩

/-- Values and lines in front of a reply add up. -/
theorem following_following (first second : List Int) (log lines : Array Line)
    (reply : Reply Fault Machine (List Int)) :
    following first log (following second lines reply) =
      following (first ++ second) (log ++ lines) reply := by
  obtain ⟨outcome, m, log⟩ := reply
  cases outcome <;> simp [following, Except.map]

/-- The values and lines collected before a round stand in front of what the run gives. -/
theorem repeatUntil_runRound (n : Nat) (m : Machine) (produced : Array Int) (log : Array Line) :
    repeatUntil runRound n ⟨m, produced, log⟩ =
      (m.run n).map (following produced.toList log) := by
  induction n generalizing m produced log with
  | zero => rfl
  | succ n ih =>
    simp only [run, repeatUntil, runRound]
    cases hout : m.outputs with
    | cons value rest =>
      simp only [ih, Option.map_map]
      congr 1
      funext reply
      simp [following_following]
    | nil =>
      rcases m.step with ⟨fault | signal, w⟩
      · simp [following, Except.map]
      · cases signal with
        | proceed =>
          simp only [ih, Option.map_map]
          congr 1
          funext reply
          simp [following_following]
        | blocked => simp [following, Except.map]
        | halted => simp [following, Except.map]

/-- One round of a run: an output waiting is handed over, and otherwise a step is made. -/
theorem run_succ (n : Nat) (m : Machine) :
    m.run (n + 1) =
      match m.outputs with
      | value :: rest =>
        ({ m with outputs := rest, state := .output }.run n).map (following [value] #[])
      | [] =>
        match m.step with
        | (.error fault, w) => some ⟨.error fault, w, #[]⟩
        | (.ok .proceed, w) => (w.run n).map (following [] w.traced?)
        | (.ok _, w) => some ⟨.ok [], w, w.traced?⟩ := by
  rw [run]
  simp only [repeatUntil, runRound]
  cases hout : m.outputs with
  | cons value rest => exact repeatUntil_runRound n _ _ _
  | nil =>
    rcases m.step with ⟨fault | signal, w⟩
    · rfl
    · cases signal with
      | proceed =>
        simpa using repeatUntil_runRound n w #[] w.traced?
      | blocked => simp
      | halted => simp

/-- A run that ends within some rounds ends so within more. -/
theorem run_add {n : Nat} {m : Machine} {reply : Reply Fault Machine (List Int)}
    (h : m.run n = some reply) (more : Nat) : m.run (n + more) = some reply :=
  repeatUntil_add h more

/-- Stepping a machine until a step does not proceed ends with the result of that step. -/
inductive Rests : Machine → Except Fault Signal × Machine → Prop
  | stop {m : Machine} (h : m.step.1 ≠ .ok .proceed) : Rests m m.step
  | proceed {m w : Machine} {result : Except Fault Signal × Machine}
      (h : m.step = (.ok .proceed, w)) (rest : Rests w result) : Rests m result

/-- Stepping comes to rest in one way only. -/
theorem Rests.unique {m : Machine} {first second : Except Fault Signal × Machine}
    (h₁ : Rests m first) (h₂ : Rests m second) : first = second := by
  -- a step either proceeds or does not, so that both come to rest at the same one
  induction h₁ with
  | stop hstop =>
    cases h₂ with
    | stop _ => rfl
    | proceed hgo _ => exact absurd (by rw [hgo]) hstop
  | proceed hgo _ ih =>
    cases h₂ with
    | stop hstop => exact absurd (by rw [hgo]) hstop
    | proceed hgo' hrest =>
      rw [hgo] at hgo'
      cases hgo'
      exact ih hrest

/-- At rest without a fault a machine is halted or waits for a value, as the signal says. -/
theorem Rests.state_eq {m w : Machine} {signal : Signal} (h : Rests m (.ok signal, w)) :
    (signal = .blocked ∧ w.state = .blocked) ∨ (signal = .halted ∧ w.state = .halted) := by
  generalize hresult : ((.ok signal, w) : Except Fault Signal × Machine) = result at h
  induction h with
  | @stop m hstop =>
    cases signal with
    | proceed => exact absurd (by rw [← hresult]) hstop
    | blocked =>
      obtain ⟨-, i, -, -, rfl⟩ := step_eq_blocked hresult.symm
      exact .inl ⟨rfl, rfl⟩
    | halted =>
      obtain ⟨i, -, -, rfl⟩ := step_eq_halted hresult.symm
      exact .inr ⟨rfl, rfl⟩
  | proceed _ _ ih => exact ih hresult

/-- Stepping comes to rest alike when the machine is laid between outputs and inputs. -/
theorem Rests.amid {m : Machine} {result : Except Fault Signal × Machine} (h : Rests m result)
    (earlier : List Int) {state : Suspension} (later : List Int) (hm : m.state ≠ .halted)
    (hstate : state ≠ .halted) (hlater : result.1 = .ok .blocked → later = []) :
    ∃ last, Rests (m.amid earlier state later) (amidResult earlier last later result) := by
  -- the mark of suspension is set anew by each step, so that it is not fixed in the induction
  induction h generalizing state with
  | stop hstop =>
    refine ⟨state, ?_⟩
    have hstep := step_amid earlier later hm hstate hlater
    rw [← hstep]
    apply Rests.stop
    rwa [hstep, amidResult_fst]
  | @proceed m w result hgo _ ih =>
    have hw := state_of_step_proceed hgo
    have hactive : w.state ≠ .halted := by simp [hw]
    obtain ⟨last, hlast⟩ := ih hactive hactive hlater
    refine ⟨last, Rests.proceed ?_ hlast⟩
    rw [step_amid earlier later hm hstate (by simp [hgo]), hgo]
    rfl

/-- What a run gives once stepping comes to rest: the outputs queued by then. -/
def drained : Except Fault Signal × Machine → Except Fault (List Int × Machine)
  | (.error fault, _) => .error fault
  | (.ok _, m) => .ok (m.outputs, { m with outputs := [] })

/-- What a reply to a run settles: the values given and the machine left, or the fault. -/
def settled (reply : Reply Fault Machine (List Int)) : Except Fault (List Int × Machine) :=
  reply.outcome.map fun values => (values, reply.after)

/-- Outputs that wait in front come first among those drained. -/
theorem drained_amidResult (earlier : List Int) (last : Suspension)
    (result : Except Fault Signal × Machine) :
    drained (amidResult earlier last [] result) =
      (drained result).map fun given => (earlier ++ given.1, given.2) := by
  rcases result with ⟨fault | signal, w⟩
  · rfl
  · simp [drained, amidResult, Machine.amid, Except.map]

/-- Values in front of a reply come first among those it settles. -/
theorem settled_following (values : List Int) (log : Array Line)
    (reply : Reply Fault Machine (List Int)) :
    settled (following values log reply) =
      (settled reply).map fun given => (values ++ given.1, given.2) := by
  obtain ⟨outcome, w, lines⟩ := reply
  cases outcome <;> rfl

/-- The machine with nothing left to hand over. -/
def emptied (m : Machine) (state : Suspension) : Machine :=
  { m with outputs := [], state }

/-- What stepping leaves once all outputs are handed over.  A completed step has set the mark of the
machine, and a fault leaves the mark that is there. -/
def handedOut (state : Suspension) :
    Except Fault Signal × Machine → Except Fault (List Int) × Machine
  | (.error fault, m) => (.error fault, m.emptied state)
  | (.ok _, m) => (.ok m.outputs, m.emptied m.state)

/-- Outputs that wait in front come first among those handed out. -/
theorem handedOut_amidResult (earlier : List Int) (last state : Suspension)
    (result : Except Fault Signal × Machine) :
    handedOut state (amidResult earlier last [] result) =
      ((handedOut state result).1.map (earlier ++ ·), (handedOut state result).2) := by
  rcases result with ⟨fault | signal, w⟩ <;>
    simp [handedOut, amidResult, Machine.amid, emptied, Except.map]

/-- What is handed out is what the steps drain. -/
theorem drained_of_handedOut {state : Suspension} {result : Except Fault Signal × Machine}
    {reply : Reply Fault Machine (List Int)}
    (h : handedOut state result = (reply.outcome, reply.after)) :
    drained result = settled reply := by
  obtain ⟨outcome, w, log⟩ := reply
  rcases result with ⟨fault | signal, v⟩
  · obtain ⟨rfl, -⟩ := Prod.mk.inj h
    rfl
  · obtain ⟨rfl, rfl⟩ := Prod.mk.inj h
    rfl

/-- A step that stops a run has nothing to hand over, as it has written nothing. -/
theorem rests_of_stop {m : Machine} (hout : m.outputs = []) (hstop : m.step.1 ≠ .ok .proceed) :
    ∃ result state, Rests m result ∧
      handedOut state result = (m.step.1.map fun _ => [], m.step.2) := by
  have hnone : m.step.2.outputs = [] := by
    rw [outputs_step, hout, stepWritten_of_stop hstop]
    rfl
  refine ⟨m.step, m.step.2.state, .stop hstop, ?_⟩
  rcases hstep : m.step with ⟨fault | signal, w⟩
  · rw [hstep] at hnone
    rw [handedOut, emptied, ← hnone]
    rfl
  · rw [hstep] at hnone
    simp only [handedOut, emptied, Except.map]
    rw [← hnone]

/-- Where a run ends, stepping comes to rest, and the run leaves what stepping leaves but for the
outputs, which it gives. -/
theorem rests_of_run {n : Nat} {m : Machine} (hm : m.state ≠ .halted)
    {reply : Reply Fault Machine (List Int)} (h : m.run n = some reply) :
    ∃ result state, Rests m result ∧ handedOut state result = (reply.outcome, reply.after) := by
  induction n generalizing m reply with
  | zero => exact absurd h (by simp [run, repeatUntil])
  | succ n ih =>
    rw [run_succ] at h
    cases hout : m.outputs with
    | cons value rest =>
      simp only [hout] at h
      obtain ⟨inner, hinner, rfl⟩ := Option.map_eq_some_iff.mp h
      obtain ⟨result, state, hrests, hleft⟩ := ih (by simp) hinner
      -- the machine is the one that runs on, with the value handed over put back
      obtain ⟨last, hlast⟩ := hrests.amid [value] [] (by simp) hm (fun _ => rfl)
      have hback : { m with outputs := rest, state := .output }.amid [value] m.state [] = m := by
        simp [Machine.amid, ← hout]
      rw [hback] at hlast
      refine ⟨_, state, hlast, ?_⟩
      rw [handedOut_amidResult, hleft]
      rfl
    | nil =>
      simp only [hout] at h
      have hstops := rests_of_stop hout
      rcases hstep : m.step with ⟨fault | signal, w⟩
      · simp only [hstep, Option.some.injEq] at h hstops
        subst h
        exact hstops (by simp)
      · cases signal with
        | proceed =>
          simp only [hstep] at h
          obtain ⟨inner, hinner, rfl⟩ := Option.map_eq_some_iff.mp h
          have hw := state_of_step_proceed hstep
          obtain ⟨result, state, hrests, hleft⟩ := ih (by simp [hw]) hinner
          refine ⟨result, state, .proceed hstep hrests, ?_⟩
          rw [hleft]
          obtain ⟨outcome, v, log⟩ := inner
          cases outcome <;> rfl
        | blocked | halted =>
          simp only [hstep, Option.some.injEq] at h hstops
          subst h
          exact hstops (by simp)

/-- Emptying a machine and laying it back between its outputs gives the machine again. -/
@[simp] theorem emptied_amid (m : Machine) (state : Suspension) :
    (m.emptied state).amid m.outputs m.state [] = m := by
  simp [emptied, Machine.amid]

/-- A run takes one step and goes on, unless the step fails or stops it. -/
theorem run_emptied_succ (n : Nat) (m : Machine) (state : Suspension) :
    (m.emptied state).run (n + 1) =
      match (m.emptied state).step with
      | (.error fault, w) => some ⟨.error fault, w, #[]⟩
      | (.ok .proceed, w) => (w.run n).map (following [] w.traced?)
      | (.ok _, w) => some ⟨.ok [], w, w.traced?⟩ :=
  run_succ n (m.emptied state)

/-- A run ends if it ends once all outputs are handed over. -/
theorem run_ends_of_emptied {m : Machine} (hm : m.state ≠ .halted)
    (h : ∀ state, state ≠ .halted → ∃ n reply, (m.emptied state).run n = some reply) :
    ∃ n reply, m.run n = some reply := by
  generalize hout : m.outputs = outputs
  induction outputs generalizing m with
  | nil =>
    have hsame : m.emptied m.state = m := by rw [emptied, ← hout]
    have hends := h m.state hm
    rwa [hsame] at hends
  | cons value rest ih =>
    obtain ⟨n, reply, hrun⟩ := ih (m := { m with outputs := rest, state := .output })
      (by simp) h rfl
    refine ⟨n + 1, following [value] #[] reply, ?_⟩
    rw [run_succ, hout]
    simp only [hrun, Option.map_some]

/-- Where stepping comes to rest, a run ends. -/
theorem Rests.run_ends {m : Machine} {result : Except Fault Signal × Machine}
    (h : Rests m result) (hm : m.state ≠ .halted) : ∃ n reply, m.run n = some reply := by
  apply run_ends_of_emptied hm
  induction h with
  | @stop m hstop =>
    intro state hstate
    have hstep := step_amid (m := m.emptied state) m.outputs [] hstate hm (fun _ => rfl)
    rw [emptied_amid] at hstep
    rw [hstep, amidResult_fst] at hstop
    refine ⟨1, ?_⟩
    rw [run_emptied_succ]
    rcases hx : (m.emptied state).step with ⟨fault | signal, w⟩
    · exact ⟨_, rfl⟩
    · cases signal with
      | proceed => exact absurd (by rw [hx]) hstop
      | blocked | halted => exact ⟨_, rfl⟩
  | @proceed m w result hgo _ ih =>
    intro state hstate
    have hstep := step_amid (m := m.emptied state) m.outputs [] hstate hm (fun _ => rfl)
    rw [emptied_amid, hgo] at hstep
    have hw := state_of_step_proceed hgo
    -- the step of the emptied machine leaves the same machine with fewer outputs
    rcases hx : (m.emptied state).step with ⟨fault | signal, y⟩
    · rw [hx] at hstep
      exact absurd hstep (by simp [amidResult])
    · rw [hx] at hstep
      simp only [amidResult, Prod.mk.injEq, Except.ok.injEq] at hstep
      obtain ⟨rfl, hwy⟩ := hstep
      have hy : y.state ≠ .halted := by
        rw [state_of_step_proceed hx]
        decide
      have hends : ∃ n reply, y.run n = some reply := by
        apply run_ends_of_emptied hy
        intro s hs
        have hsame : w.emptied s = y.emptied s := by
          rw [hwy]
          simp [emptied, Machine.amid]
        rw [← hsame]
        exact ih (by simp [hw]) s hs
      obtain ⟨n, reply, hrun⟩ := hends
      refine ⟨n + 1, following [] y.traced? reply, ?_⟩
      rw [run_emptied_succ]
      simp only [hx, hrun, Option.map_some]

/-- A run, given enough rounds, settles with what is given. -/
def Settles (m : Machine) (x : Except Fault (List Int × Machine)) : Prop :=
  ∃ rounds reply, m.run rounds = some reply ∧ settled reply = x

/-- A run settles in one way. -/
theorem Settles.unique {m : Machine} {x y : Except Fault (List Int × Machine)}
    (hx : m.Settles x) (hy : m.Settles y) : x = y := by
  obtain ⟨n, first, hfirst, rfl⟩ := hx
  obtain ⟨k, second, hsecond, rfl⟩ := hy
  have heq := run_add hfirst k
  rw [Nat.add_comm, run_add hsecond n] at heq
  rw [Option.some.inj heq]

/-- Stepping comes to rest, and what is queued then makes up what is given. -/
def Drains (m : Machine) (x : Except Fault (List Int × Machine)) : Prop :=
  ∃ result, Rests m result ∧ drained result = x

/-- Stepping drains in one way. -/
theorem Drains.unique {m : Machine} {x y : Except Fault (List Int × Machine)}
    (hx : m.Drains x) (hy : m.Drains y) : x = y := by
  obtain ⟨first, h₁, rfl⟩ := hx
  obtain ⟨second, h₂, rfl⟩ := hy
  rw [h₁.unique h₂]

/-- A run settles with what is queued when stepping comes to rest. -/
theorem settles_iff_drains {m : Machine} (hm : m.state ≠ .halted)
    {x : Except Fault (List Int × Machine)} : m.Settles x ↔ m.Drains x := by
  constructor
  · rintro ⟨n, reply, hrun, rfl⟩
    obtain ⟨result, state, hrests, hleft⟩ := rests_of_run hm hrun
    exact ⟨result, hrests, drained_of_handedOut hleft⟩
  · rintro ⟨result, hrests, rfl⟩
    obtain ⟨n, reply, hrun⟩ := hrests.run_ends hm
    obtain ⟨result', state, hrests', hleft⟩ := rests_of_run hm hrun
    refine ⟨n, reply, hrun, ?_⟩
    rw [← drained_of_handedOut hleft, hrests.unique hrests']

end IntegerMachine.Machine
