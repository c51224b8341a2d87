import IntegerMachine.Machine.Run

/-!
# Calls on a machine

A machine is used by calls: steps, runs, values queued, looks at its memory, and copies that are
used in its place.  A call that fails leaves a machine too.  Runs and waits for an output are loops
of the same rounds, `Machine.round`, and differ in what ends them.  `Kept` names the three ways in
which calls change a machine, and `Kept.afterAll?` is the induction over calls: what these three
keep, every sequence of calls keeps.
-/

set_option autoImplicit false

namespace IntegerMachine

/-- What holds before a loop and is carried on by its rounds holds of its answer. -/
theorem holds_of_repeatUntil {σ ρ : Type} {next : σ → σ ⊕ ρ} (P : σ → Prop) (Q : ρ → Prop)
    (hgo : ∀ s t, P s → next s = .inl t → P t) (hend : ∀ s r, P s → next s = .inr r → Q r)
    {rounds : Nat} {s : σ} {r : ρ} (hs : P s) (h : repeatUntil next rounds s = some r) : Q r := by
  induction rounds generalizing s with
  | zero => exact absurd h (by simp [repeatUntil])
  | succ n ih =>
    rw [repeatUntil] at h
    cases hnext : next s with
    | inl t =>
      rw [hnext] at h
      exact ih (hgo s t hs hnext) h
    | inr answer =>
      rw [hnext] at h
      exact Option.some.inj h ▸ hend s answer hs hnext

/-- A loop whose rounds keep in step with those of another answers what corresponds, where the
answer is one that is wanted. -/
theorem repeatUntil_matching {σ τ ρ π : Type} {next : σ → σ ⊕ ρ} {next' : τ → τ ⊕ π}
    {R : σ → τ → Prop} {W : ρ → Prop} {Q : ρ → π → Prop}
    (hgo : ∀ s t s', R s t → next s = .inl s' → ∃ t', next' t = .inl t' ∧ R s' t')
    (hend : ∀ s t r, R s t → next s = .inr r → W r → ∃ p, next' t = .inr p ∧ Q r p)
    {rounds : Nat} {s : σ} {t : τ} {r : ρ} (hs : R s t) (h : repeatUntil next rounds s = some r)
    (hr : W r) : ∃ p, repeatUntil next' rounds t = some p ∧ Q r p := by
  induction rounds generalizing s t with
  | zero => exact absurd h (by simp [repeatUntil])
  | succ n ih =>
    rw [repeatUntil] at h
    cases hnext : next s with
    | inl s' =>
      rw [hnext] at h
      obtain ⟨t', ht, hs'⟩ := hgo s t s' hs hnext
      obtain ⟨p, hp, hq⟩ := ih hs' h
      exact ⟨p, by rw [repeatUntil, ht]; exact hp, hq⟩
    | inr answer =>
      rw [hnext] at h
      obtain rfl := Option.some.inj h
      obtain ⟨p, hp, hq⟩ := hend s t answer hs hnext hr
      exact ⟨p, by rw [repeatUntil, hp], hq⟩

/-- What a loop has reached after some rounds, if none of them ended it. -/
def reach? {σ ρ : Type} (next : σ → σ ⊕ ρ) (s : σ) : Nat → Option σ
  | 0 => some s
  | n + 1 => (reach? next s n).bind fun t => (next t).getLeft?

/-- What is reached in one more round is reached from what was before it. -/
theorem reach?_succ_eq_some {σ ρ : Type} {next : σ → σ ⊕ ρ} {n : Nat} {s u : σ} :
    reach? next s (n + 1) = some u ↔ ∃ t, reach? next s n = some t ∧ next t = .inl u := by
  simp only [reach?, Option.bind_eq_some_iff, Sum.getLeft?_eq_some_iff]

/-- A loop that has not ended had not ended earlier. -/
theorem reach?_of_le {σ ρ : Type} {next : σ → σ ⊕ ρ} {n k : Nat} {s u : σ}
    (h : reach? next s n = some u) (hk : k ≤ n) : ∃ t, reach? next s k = some t := by
  induction n generalizing u with
  | zero =>
    obtain rfl := Nat.le_zero.mp hk
    exact ⟨u, h⟩
  | succ n ih =>
    rcases Nat.le_succ_iff.mp hk with hle | rfl
    · obtain ⟨t, ht, -⟩ := reach?_succ_eq_some.mp h
      exact ih ht hle
    · exact ⟨u, h⟩

/-- A round that goes on can be taken off the front. -/
theorem reach?_of_inl {σ ρ : Type} {next : σ → σ ⊕ ρ} {s t : σ} (h : next s = .inl t) (n : Nat) :
    reach? next s (n + 1) = reach? next t n := by
  induction n with
  | zero => simp [reach?, h]
  | succ n ih => rw [reach?, ih, reach?]

/-- A loop that ends in its first round reaches nothing later. -/
theorem reach?_of_inr {σ ρ : Type} {next : σ → σ ⊕ ρ} {s : σ} {r : ρ} (h : next s = .inr r)
    (n : Nat) : reach? next s (n + 1) = none := by
  induction n with
  | zero => simp [reach?, h]
  | succ n ih => rw [reach?, ih]; rfl

/-- A loop answers if one of its rounds, which the rounds before it reach, ends it. -/
theorem repeatUntil_eq_some_iff {σ ρ : Type} {next : σ → σ ⊕ ρ} {rounds : Nat} {s : σ} {r : ρ} :
    repeatUntil next rounds s = some r ↔
      ∃ n < rounds, ∃ t, reach? next s n = some t ∧ next t = .inr r := by
  -- on the rounds, the first of which is taken off the front of what is reached
  induction rounds generalizing s with
  | zero => simp [repeatUntil]
  | succ rounds ih =>
    rw [repeatUntil]
    cases hnext : next s with
    | inl t =>
      simp only [ih]
      constructor
      · rintro ⟨n, hn, u, hu, hend⟩
        exact ⟨n + 1, by omega, u, (reach?_of_inl hnext n).trans hu, hend⟩
      · rintro ⟨n, hn, u, hu, hend⟩
        cases n with
        | zero =>
          obtain rfl := Option.some.inj hu
          rw [hnext] at hend
          exact absurd hend (by simp)
        | succ n =>
          rw [reach?_of_inl hnext] at hu
          exact ⟨n, by omega, u, hu, hend⟩
    | inr answer =>
      simp only [Option.some.injEq]
      constructor
      · rintro rfl
        exact ⟨0, by omega, s, rfl, hnext⟩
      · rintro ⟨n, hn, u, hu, hend⟩
        cases n with
        | zero =>
          obtain rfl := Option.some.inj hu
          rw [hnext] at hend
          exact Sum.inr.inj hend
        | succ n =>
          rw [reach?_of_inr hnext] at hu
          exact absurd hu (by simp)

namespace Machine

/-- A call on a machine; a run has a number of rounds it may use up. -/
inductive Call where
  | step
  | runUntilOutput (rounds : Nat)
  | run (rounds : Nat)
  | feed (value : Int)
  | feedAll (values : List Int)
  | peek (address : Int)
  /-- Goes on with a copy. -/
  | fork
  deriving DecidableEq, Repr

/-- The machine that a call leaves, none if a run does not end within its rounds. -/
def after? (m : Machine) : Call → Option Machine
  | .step => some m.step.2
  | .runUntilOutput rounds => (m.runUntilOutput rounds).map Reply.after
  | .run rounds => (m.run rounds).map Reply.after
  | .feed value => some (m.feed value)
  | .feedAll values => some (m.feedAll values)
  | .peek _ => some m
  | .fork => some m

/-- The machine that calls leave, one after another. -/
def afterAll? (m : Machine) (calls : List Call) : Option Machine :=
  calls.foldlM after? m

/-- The machine that has handed over an output, with the outputs left. -/
def handedOver (m : Machine) (left : List Int) : Machine :=
  { m with outputs := left, state := .output }

/-! ### Rounds -/

/-- What one round of a run, or of the wait for an output, has done. -/
inductive Round where
  | handed (value : Int)
  | stepped (outcome : Except Fault Signal)

/-- One round: the first output that waits is handed over, and where none waits a step is made. -/
def round (m : Machine) : Round × Machine :=
  match m.outputs with
  | value :: rest => (.handed value, m.handedOver rest)
  | [] => (.stepped m.step.1, m.step.2)

namespace Round

/-- The answer with which a round ends the wait for an output, none if the wait goes on. -/
def answer? : Round → Option (Except Fault (Option Int))
  | handed value => some (.ok (some value))
  | stepped (.error fault) => some (.error fault)
  | stepped (.ok .proceed) => none
  | stepped (.ok _) => some (.ok none)

/-- The way in which a round ends a run, none if the run goes on. -/
def ending? : Round → Option (Except Fault Unit)
  | handed _ => none
  | stepped (.error fault) => some (.error fault)
  | stepped (.ok .proceed) => none
  | stepped (.ok _) => some (.ok ())

/-- The output that a round hands over, if it does. -/
def produced : Round → List Int
  | handed value => [value]
  | stepped _ => []

end Round

/-- The wait goes on exactly after a round without an answer. -/
theorem awaitOutput_eq_inl {m : Machine} {log : Array Line} {next : Machine × Array Line} :
    awaitOutput (m, log) = .inl next ↔
      m.round.1.answer? = none ∧ next = (m.round.2, log ++ m.round.2.traced?) := by
  simp only [awaitOutput, round]
  cases m.outputs with
  | cons value rest => simp [Round.answer?]
  | nil => rcases m.step with ⟨_ | _ | _ | _, w⟩ <;> simp [Round.answer?, eq_comm]

/-- The wait ends exactly with the answer of a round. -/
theorem awaitOutput_eq_inr {m w : Machine} {log : Array Line} {answer : Except Fault (Option Int)} :
    (∃ lines, awaitOutput (m, log) = .inr ⟨answer, w, lines⟩) ↔
      m.round.1.answer? = some answer ∧ m.round.2 = w := by
  simp only [awaitOutput, round]
  cases m.outputs with
  | cons value rest => simp [Round.answer?, handedOver]
  | nil => rcases m.step with ⟨_ | _ | _ | _, w⟩ <;> simp [Round.answer?]

/-- A run goes on exactly after a round that does not end it, with the output handed over. -/
theorem runRound_eq_inl {p : Progress} {w : Machine} {produced : Array Int} :
    (∃ log, runRound p = .inl ⟨w, produced, log⟩) ↔
      p.machine.round.1.ending? = none ∧ p.machine.round.2 = w ∧
        p.produced ++ p.machine.round.1.produced = produced := by
  simp only [runRound, round]
  cases p.machine.outputs with
  | cons value rest => simp [Round.ending?, Round.produced, handedOver]
  | nil =>
    rcases p.machine.step with ⟨_ | _ | _ | _, w⟩ <;> simp [Round.ending?, Round.produced]

/-- A run ends exactly as a round ends it, with the outputs handed over by then. -/
theorem runRound_eq_inr {p : Progress} {w : Machine} {outcome : Except Fault (List Int)} :
    (∃ log, runRound p = .inr ⟨outcome, w, log⟩) ↔
      ∃ ending, p.machine.round.1.ending? = some ending ∧ p.machine.round.2 = w ∧
        ending.map (fun _ => p.produced.toList) = outcome := by
  simp only [runRound, round]
  cases p.machine.outputs with
  | cons value rest => simp [Round.ending?]
  | nil =>
    rcases p.machine.step with ⟨_ | _ | _ | _, w⟩ <;>
      simp [Round.ending?, Except.map, and_comm]

/-! ### What calls keep -/

/-- A property that steps, outputs handed over and values queued keep. -/
structure Kept (P : Machine → Prop) : Prop where
  step : ∀ m, P m → P m.step.2
  handedOver : ∀ m value left, m.outputs = value :: left → P m → P (m.handedOver left)
  feedAll : ∀ m values, P m → P (m.feedAll values)

namespace Kept

variable {P : Machine → Prop} {m w : Machine}

/-- A round keeps what is kept. -/
theorem round (hkept : Kept P) (hm : P m) : P m.round.2 := by
  unfold Machine.round
  split
  · rename_i value rest hout
    exact hkept.handedOver m value rest hout hm
  · exact hkept.step m hm

/-- The wait for an output keeps what is kept, also if it fails. -/
theorem runUntilOutput (hkept : Kept P) (hm : P m) {rounds : Nat}
    {reply : Reply Fault Machine (Option Int)} (h : m.runUntilOutput rounds = some reply) :
    P reply.after := by
  unfold Machine.runUntilOutput at h
  refine holds_of_repeatUntil (fun s => P s.1) (fun reply => P reply.after) ?_ ?_ hm h
  · rintro ⟨m, log⟩ t hm ht
    obtain ⟨-, rfl⟩ := awaitOutput_eq_inl.mp ht
    exact hkept.round hm
  · rintro ⟨m, log⟩ ⟨answer, w, lines⟩ hm hreply
    obtain ⟨-, rfl⟩ := awaitOutput_eq_inr.mp ⟨lines, hreply⟩
    exact hkept.round hm

/-- A run keeps what is kept, also if it fails. -/
theorem run (hkept : Kept P) (hm : P m) {rounds : Nat} {reply : Reply Fault Machine (List Int)}
    (h : m.run rounds = some reply) : P reply.after := by
  unfold Machine.run at h
  refine holds_of_repeatUntil (fun p => P p.machine) (fun reply => P reply.after) ?_ ?_ hm h
  · rintro p ⟨w, produced, log⟩ hm hnext
    obtain ⟨-, rfl, -⟩ := runRound_eq_inl.mp ⟨log, hnext⟩
    exact hkept.round hm
  · rintro p ⟨outcome, w, log⟩ hm hreply
    obtain ⟨_, -, rfl, -⟩ := runRound_eq_inr.mp ⟨log, hreply⟩
    exact hkept.round hm

/-- Every call that ends keeps what is kept. -/
theorem after? (hkept : Kept P) (hm : P m) {call : Call} (h : m.after? call = some w) : P w := by
  cases call with
  | step => exact Option.some.inj h ▸ hkept.step m hm
  | runUntilOutput rounds =>
    obtain ⟨reply, hreply, rfl⟩ := Option.map_eq_some_iff.mp h
    exact hkept.runUntilOutput hm hreply
  | run rounds =>
    obtain ⟨reply, hreply, rfl⟩ := Option.map_eq_some_iff.mp h
    exact hkept.run hm hreply
  | feed value => exact Option.some.inj h ▸ hkept.feedAll m [value] hm
  | feedAll values => exact Option.some.inj h ▸ hkept.feedAll m values hm
  | peek address => exact Option.some.inj h ▸ hm
  | fork => exact Option.some.inj h ▸ hm

/-- What steps, outputs handed over and values queued keep, calls keep. -/
theorem afterAll? (hkept : Kept P) (hm : P m) {calls : List Call}
    (h : m.afterAll? calls = some w) : P w := by
  induction calls generalizing m with
  | nil => exact Option.some.inj h ▸ hm
  | cons call calls ih =>
    rw [Machine.afterAll?, List.foldlM_cons] at h
    obtain ⟨v, hv, hcalls⟩ := Option.bind_eq_some_iff.mp h
    exact ih (hkept.after? hm hv) hcalls

end Kept

end Machine

end IntegerMachine
