import IntegerMachine.Proofs.Machine.Calls
import Mathlib.Data.List.Forall2

/-!
# What calls answer

A call on a machine answers something or faults, and leaves a machine either way.  The transcript
of a sequence of calls lists both for every call.  `Simulation.transcript?` is the induction over
calls for two machines: where steps, looks at memory, outputs handed over and values queued keep a
relation and answer alike, every sequence of calls answers alike.
-/

set_option autoImplicit false

namespace IntegerMachine.Machine

/-- What a call gives back. -/
inductive Answer where
  | signal (signal : Signal)
  | output (value : Option Int)
  | outputs (values : List Int)
  | cell (value : Int)
  /-- Nothing but that the call was made. -/
  | made
  deriving DecidableEq, Repr

/-- The answer of a call, or its fault, and the machine it leaves; none if a run does not end
within its rounds. -/
def answer? (m : Machine) : Call → Option (Except Fault Answer × Machine)
  | .step => some (m.step.1.map .signal, m.step.2)
  | .runUntilOutput rounds =>
    (m.runUntilOutput rounds).map fun reply => (reply.outcome.map .output, reply.after)
  | .run rounds => (m.run rounds).map fun reply => (reply.outcome.map .outputs, reply.after)
  | .feed value => some (.ok .made, m.feed value)
  | .feedAll values => some (.ok .made, m.feedAll values)
  | .peek address => some ((m.read address).map .cell, m)
  | .fork => some (.ok .made, m)

/-- What calls answer and leave, one after another; a call that faults does not end them. -/
def transcript? (m : Machine) : List Call → Option (List (Except Fault Answer × Machine))
  | [] => some []
  | call :: calls =>
    (m.answer? call).bind fun given =>
      (given.2.transcript? calls).map fun rest => given :: rest

/-- An outcome that one machine has to share with another: an answer always, a fault if faults are
shared. -/
def Shared {α : Type} (faults : Prop) (outcome : Except Fault α) : Prop :=
  ∀ fault, outcome = .error fault → faults

/-- An answer is shared. -/
theorem shared_ok {α : Type} (faults : Prop) (a : α) : Shared faults (.ok a) := by
  intro fault h
  exact absurd h (by simp)

/-- A fault is shared only if faults are. -/
theorem Shared.of_error {α : Type} {faults : Prop} {fault : Fault}
    (h : Shared (α := α) faults (.error fault)) : faults := h fault rfl

/-- Whether an outcome is shared depends on its fault only. -/
theorem shared_map {α β : Type} {faults : Prop} {f : α → β} {outcome : Except Fault α} :
    Shared faults (outcome.map f) ↔ Shared faults outcome := by
  cases outcome <;> simp [Shared, Except.map]

/-- A relation between machines that steps keep, looks at memory answer alike in, and outputs handed
over and values queued do not disturb.  A fault of the first machine is one of the second only if
faults are shared. -/
structure Simulation (faults : Prop) (R : Machine → Machine → Prop) : Prop where
  step : ∀ {m w m' : Machine} {outcome : Except Fault Signal}, R m w → m.step = (outcome, m') →
    Shared faults outcome → ∃ w', w.step = (outcome, w') ∧ R m' w'
  read : ∀ {m w : Machine} (address : Int), R m w → Shared faults (m.read address) →
    w.read address = m.read address
  outputs_eq : ∀ {m w : Machine}, R m w → w.outputs = m.outputs
  handedOver : ∀ {m w : Machine} (left : List Int), R m w → R (m.handedOver left) (w.handedOver left)
  feedAll : ∀ {m w : Machine} (values : List Int), R m w → R (m.feedAll values) (w.feedAll values)

/-- Replies with the same outcome that leave related machines. -/
def RepliesAlike {α : Type} (R : Machine → Machine → Prop)
    (reply other : Reply Fault Machine α) : Prop :=
  other.outcome = reply.outcome ∧ R reply.after other.after

namespace Simulation

variable {faults : Prop} {R : Machine → Machine → Prop} {m w : Machine}

/-- Related machines go through a round alike, unless it fails and faults are not shared. -/
theorem round (hsim : Simulation faults R) (h : R m w)
    (hshared : ∀ fault, m.round.1 = .stepped (.error fault) → faults) :
    w.round.1 = m.round.1 ∧ R m.round.2 w.round.2 := by
  unfold Machine.round at hshared ⊢
  rw [hsim.outputs_eq h]
  cases hout : m.outputs with
  | cons value rest => exact ⟨rfl, hsim.handedOver rest h⟩
  | nil =>
    rcases hstep : m.step with ⟨outcome, m'⟩
    simp only [hout, hstep, Round.stepped.injEq] at hshared
    obtain ⟨w', hw, h'⟩ := hsim.step h hstep hshared
    simp only [hw]
    exact ⟨trivial, h'⟩

/-- Related machines answer the wait for an output alike, in as many rounds. -/
theorem runUntilOutput (hsim : Simulation faults R) (h : R m w) {rounds : Nat}
    {reply : Reply Fault Machine (Option Int)} (hreply : m.runUntilOutput rounds = some reply)
    (hshared : Shared faults reply.outcome) :
    ∃ other, w.runUntilOutput rounds = some other ∧ RepliesAlike R reply other := by
  unfold Machine.runUntilOutput at hreply ⊢
  refine repeatUntil_matching (R := fun s t : Machine × Array Line => R s.1 t.1)
    (W := fun reply => Shared faults reply.outcome) (Q := RepliesAlike R)
    ?_ ?_ h hreply hshared
  · rintro ⟨m, log⟩ ⟨w, lines⟩ next h hnext
    obtain ⟨hgo, rfl⟩ := awaitOutput_eq_inl.mp hnext
    obtain ⟨hsame, h'⟩ := hsim.round h fun fault hfault => by simp [hfault, Round.answer?] at hgo
    exact ⟨_, awaitOutput_eq_inl.mpr ⟨hsame ▸ hgo, rfl⟩, h'⟩
  · rintro ⟨m, log⟩ ⟨w, lines⟩ ⟨answer, after, more⟩ h hnext hshared
    obtain ⟨hend, rfl⟩ := awaitOutput_eq_inr.mp ⟨more, hnext⟩
    obtain ⟨hsame, h'⟩ := hsim.round h fun fault hfault => by
      rw [hfault] at hend
      exact hshared fault (Option.some.inj hend).symm
    obtain ⟨_, hother⟩ := awaitOutput_eq_inr.mpr ⟨hsame ▸ hend, rfl⟩
    exact ⟨_, hother, rfl, h'⟩

/-- Related machines run alike, in as many rounds. -/
theorem run (hsim : Simulation faults R) (h : R m w) {rounds : Nat}
    {reply : Reply Fault Machine (List Int)} (hreply : m.run rounds = some reply)
    (hshared : Shared faults reply.outcome) :
    ∃ other, w.run rounds = some other ∧ RepliesAlike R reply other := by
  unfold Machine.run at hreply ⊢
  refine repeatUntil_matching
    (R := fun p q : Progress => R p.machine q.machine ∧ q.produced = p.produced)
    (W := fun reply => Shared faults reply.outcome) (Q := RepliesAlike R)
    (s := ⟨m, #[], #[]⟩) ?_ ?_ ⟨h, rfl⟩ hreply hshared
  · rintro p q ⟨after, produced, log⟩ ⟨h, hproduced⟩ hnext
    obtain ⟨hgo, rfl, rfl⟩ := runRound_eq_inl.mp ⟨log, hnext⟩
    obtain ⟨hsame, h'⟩ := hsim.round h fun fault hfault => by simp [hfault, Round.ending?] at hgo
    obtain ⟨_, hother⟩ := runRound_eq_inl.mpr ⟨hsame ▸ hgo, rfl, rfl⟩
    exact ⟨_, hother, h', by rw [hsame, hproduced]⟩
  · rintro p q ⟨outcome, after, log⟩ ⟨h, hproduced⟩ hnext hshared
    obtain ⟨ending, hend, rfl, rfl⟩ := runRound_eq_inr.mp ⟨log, hnext⟩
    obtain ⟨hsame, h'⟩ := hsim.round h fun fault hfault => by
      rw [hfault] at hend
      obtain rfl := Option.some.inj hend
      exact hshared fault rfl
    obtain ⟨_, hother⟩ := runRound_eq_inr.mpr ⟨ending, hsame ▸ hend, rfl, rfl⟩
    rw [hproduced] at hother
    exact ⟨_, hother, rfl, h'⟩

/-- A call answers alike and keeps the relation. -/
theorem answer? (hsim : Simulation faults R) (h : R m w) {call : Call}
    {given : Except Fault Answer × Machine} (hgiven : m.answer? call = some given)
    (hshared : Shared faults given.1) :
    ∃ other, w.answer? call = some other ∧ other.1 = given.1 ∧ R given.2 other.2 := by
  cases call with
  | step =>
    obtain rfl := Option.some.inj hgiven
    rcases hstep : m.step with ⟨outcome, m'⟩
    simp only [hstep] at hshared ⊢
    obtain ⟨w', hw, h'⟩ := hsim.step h hstep (shared_map.mp hshared)
    refine ⟨_, rfl, ?_, ?_⟩
    · simp only [hw]
    · simp only [hw]
      exact h'
  | runUntilOutput rounds =>
    obtain ⟨reply, hreply, rfl⟩ := Option.map_eq_some_iff.mp hgiven
    obtain ⟨other, hother, houtcome, h'⟩ := hsim.runUntilOutput h hreply (shared_map.mp hshared)
    exact ⟨_, Option.map_eq_some_iff.mpr ⟨other, hother, rfl⟩, by rw [houtcome], h'⟩
  | run rounds =>
    obtain ⟨reply, hreply, rfl⟩ := Option.map_eq_some_iff.mp hgiven
    obtain ⟨other, hother, houtcome, h'⟩ := hsim.run h hreply (shared_map.mp hshared)
    exact ⟨_, Option.map_eq_some_iff.mpr ⟨other, hother, rfl⟩, by rw [houtcome], h'⟩
  | feed value =>
    obtain rfl := Option.some.inj hgiven
    exact ⟨_, rfl, rfl, hsim.feedAll [value] h⟩
  | feedAll values =>
    obtain rfl := Option.some.inj hgiven
    exact ⟨_, rfl, rfl, hsim.feedAll values h⟩
  | peek address =>
    obtain rfl := Option.some.inj hgiven
    have hread := hsim.read address h (shared_map.mp hshared)
    exact ⟨_, rfl, by rw [hread], h⟩
  | fork =>
    obtain rfl := Option.some.inj hgiven
    exact ⟨_, rfl, rfl, h⟩

/-- Calls answer alike and keep the relation, call by call. -/
theorem transcript? (hsim : Simulation faults R) (h : R m w) {calls : List Call}
    {given : List (Except Fault Answer × Machine)} (hgiven : m.transcript? calls = some given)
    (hshared : ∀ x ∈ given, Shared faults x.1) :
    ∃ others, w.transcript? calls = some others ∧
      List.Forall₂ (fun x y => y.1 = x.1 ∧ R x.2 y.2) given others := by
  induction calls generalizing m w given with
  | nil =>
    obtain rfl := Option.some.inj hgiven
    exact ⟨[], rfl, .nil⟩
  | cons call calls ih =>
    obtain ⟨first, hfirst, hmap⟩ := Option.bind_eq_some_iff.mp hgiven
    obtain ⟨rest, hrest, rfl⟩ := Option.map_eq_some_iff.mp hmap
    obtain ⟨other, hother, houtcome, h'⟩ :=
      hsim.answer? h hfirst (hshared first List.mem_cons_self)
    obtain ⟨others, hothers, hall⟩ :=
      ih h' hrest fun x hx => hshared x (List.mem_cons_of_mem _ hx)
    refine ⟨other :: others, ?_, .cons ⟨houtcome, h'⟩ hall⟩
    rw [Machine.transcript?, hother, Option.bind_some, hothers, Option.map_some]

end Simulation

end IntegerMachine.Machine
