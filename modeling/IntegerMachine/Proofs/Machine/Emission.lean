import IntegerMachine.Proofs.Machine.Calls
import IntegerMachine.Proofs.Machine.Faults
import IntegerMachine.Proofs.Machine.Frame

/-!
# Outputs asked for one by one

A machine that is asked for an output runs until there is one, or until it blocks or halts.
`gives_iff_awaits` turns the bounded loop into a relation that follows the steps, on which the other
facts are short inductions.  What a machine gives depends only on the values it has taken from its
queue: by `GivesAll.feedAll` values queued behind change nothing about a sequence of outputs, but
that they are still there at its end.
-/

set_option autoImplicit false

namespace IntegerMachine.Machine

/-- What a reply gives: a value or nothing, and the machine left, or a fault. -/
def given (reply : Reply Fault Machine (Option Int)) : Except Fault (Option Int × Machine) :=
  reply.outcome.map fun answer => (answer, reply.after)

/-- Asked for an output, the machine gives a value, or nothing, and is left as said, or faults. -/
def Gives (m : Machine) (x : Except Fault (Option Int × Machine)) : Prop :=
  ∃ rounds reply, m.runUntilOutput rounds = some reply ∧ given reply = x

/-- Asked again and again, the machine gives these answers and is left as said. -/
def GivesAll (m : Machine) : List (Option Int) → Machine → Prop
  | [], w => w = m
  | answer :: answers, w => ∃ v, m.Gives (.ok (answer, v)) ∧ v.GivesAll answers w

/-- The wait for an output, step by step. -/
inductive Awaits : Machine → Except Fault (Option Int × Machine) → Prop
  | handed {m : Machine} {value : Int} {rest : List Int} (hout : m.outputs = value :: rest) :
      Awaits m (.ok (some value, m.handedOver rest))
  | fault {m w : Machine} {fault : Fault} (hout : m.outputs = [])
      (hstep : m.step = (.error fault, w)) : Awaits m (.error fault)
  | stop {m w : Machine} {signal : Signal} (hout : m.outputs = [])
      (hstep : m.step = (.ok signal, w)) (hsignal : signal ≠ .proceed) : Awaits m (.ok (none, w))
  | proceed {m w : Machine} {x : Except Fault (Option Int × Machine)} (hout : m.outputs = [])
      (hstep : m.step = (.ok .proceed, w)) (rest : Awaits w x) : Awaits m x

/-- The loop of the wait goes through steps of the wait. -/
theorem awaits_of_repeatUntil {rounds : Nat} {m : Machine} {log : Array Line}
    {reply : Reply Fault Machine (Option Int)}
    (h : repeatUntil awaitOutput rounds (m, log) = some reply) : Awaits m (given reply) := by
  induction rounds generalizing m log with
  | zero => exact absurd h (by simp [repeatUntil])
  | succ n ih =>
    simp only [repeatUntil, awaitOutput] at h
    cases hout : m.outputs with
    | cons value rest =>
      simp only [hout, Option.some.injEq] at h
      subst h
      exact .handed hout
    | nil =>
      rcases hstep : m.step with ⟨fault | signal, w⟩
      · simp only [hout, hstep, Option.some.injEq] at h
        subst h
        exact .fault hout hstep
      · cases signal with
        | proceed =>
          simp only [hout, hstep] at h
          exact .proceed hout hstep (ih h)
        | blocked | halted =>
          simp only [hout, hstep, Option.some.injEq] at h
          subst h
          exact .stop hout hstep (by decide)

/-- The steps of a wait are gone through by the loop in enough rounds. -/
theorem Awaits.repeatUntil {m : Machine} {x : Except Fault (Option Int × Machine)}
    (h : Awaits m x) (log : Array Line) :
    ∃ rounds reply, repeatUntil awaitOutput rounds (m, log) = some reply ∧ given reply = x := by
  induction h generalizing log with
  | handed hout => exact ⟨1, _, by simp only [IntegerMachine.repeatUntil, awaitOutput, hout]; rfl, rfl⟩
  | fault hout hstep =>
    exact ⟨1, _, by simp only [IntegerMachine.repeatUntil, awaitOutput, hout, hstep]; rfl, rfl⟩
  | @stop m w signal hout hstep hsignal =>
    refine ⟨1, ⟨.ok none, w, log ++ w.traced?⟩, ?_, rfl⟩
    cases signal with
    | proceed => exact absurd rfl hsignal
    | blocked | halted => simp only [IntegerMachine.repeatUntil, awaitOutput, hout, hstep]
  | @proceed m w x hout hstep _ ih =>
    obtain ⟨n, reply, hreply, hx⟩ := ih (log ++ w.traced?)
    refine ⟨n + 1, reply, ?_, hx⟩
    simpa only [IntegerMachine.repeatUntil, awaitOutput, hout, hstep] using hreply

/-- What a machine gives is what the wait ends with. -/
theorem gives_iff_awaits {m : Machine} {x : Except Fault (Option Int × Machine)} :
    m.Gives x ↔ Awaits m x := by
  constructor
  · rintro ⟨n, reply, hreply, rfl⟩
    exact awaits_of_repeatUntil hreply
  · intro h
    exact h.repeatUntil #[]

/-- More rounds do not change a reply. -/
theorem runUntilOutput_mono {m : Machine} {n k : Nat} {reply : Reply Fault Machine (Option Int)}
    (h : m.runUntilOutput n = some reply) (hle : n ≤ k) : m.runUntilOutput k = some reply := by
  obtain ⟨more, rfl⟩ := Nat.exists_eq_add_of_le hle
  exact repeatUntil_add h more

/-- A machine that is asked gives one thing. -/
theorem Gives.unique {m : Machine} {x y : Except Fault (Option Int × Machine)} (hx : m.Gives x)
    (hy : m.Gives y) : x = y := by
  obtain ⟨n, first, hfirst, rfl⟩ := hx
  obtain ⟨k, second, hsecond, rfl⟩ := hy
  have hn := runUntilOutput_mono hfirst (Nat.le_max_left n k)
  have hk := runUntilOutput_mono hsecond (Nat.le_max_right n k)
  rw [hn] at hk
  rw [Option.some.inj hk]

/-- A machine gives an answer exactly if its wait ends with it in some rounds. -/
theorem gives_ok_iff {m w : Machine} {answer : Option Int} :
    m.Gives (.ok (answer, w)) ↔
      ∃ rounds log, m.runUntilOutput rounds = some ⟨.ok answer, w, log⟩ := by
  constructor
  · rintro ⟨n, ⟨fault | found, after, log⟩, hreply, hx⟩
    · exact absurd hx (by simp [given, Except.map])
    · simp only [given, Except.map, Except.ok.injEq, Prod.mk.injEq] at hx
      obtain ⟨rfl, rfl⟩ := hx
      exact ⟨n, log, hreply⟩
  · rintro ⟨n, log, hreply⟩
    exact ⟨n, _, hreply, rfl⟩

/-- A step that lets the next one follow is made alike with values queued behind. -/
theorem step_feedAll_of_proceed {m w : Machine} (h : m.step = (.ok .proceed, w))
    (later : List Int) : (m.feedAll later).step = (.ok .proceed, w.feedAll later) := by
  have hm : m.state ≠ .halted := (step_eq_ok.mp h).1
  rw [feedAll_eq_amid, step_amid [] later hm hm (by simp [h]), h]
  rfl

/-- Values queued behind change nothing about the next output. -/
theorem Gives.feedAll {m w : Machine} {value : Int} (h : m.Gives (.ok (some value, w)))
    (later : List Int) : (m.feedAll later).Gives (.ok (some value, w.feedAll later)) := by
  rw [gives_iff_awaits] at h ⊢
  generalize hx : (.ok (some value, w) : Except Fault (Option Int × Machine)) = x at h
  induction h with
  | handed hout =>
    cases hx
    exact .handed hout
  | fault hout hstep => exact absurd hx (by simp)
  | stop hout hstep hsignal => exact absurd hx (by simp)
  | proceed hout hstep _ ih => exact .proceed hout (step_feedAll_of_proceed hstep later) (ih hx)

/-- A machine that gave nothing is blocked or has halted. -/
theorem Gives.state_of_none {m w : Machine} (h : m.Gives (.ok (none, w))) :
    w.state = .blocked ∨ w.state = .halted := by
  rw [gives_iff_awaits] at h
  generalize hx : (.ok (none, w) : Except Fault (Option Int × Machine)) = x at h
  induction h with
  | handed hout => exact absurd hx (by simp)
  | fault hout hstep => exact absurd hx (by simp)
  | @stop m v signal hout hstep hsignal =>
    cases hx
    cases signal with
    | proceed => exact absurd rfl hsignal
    | blocked =>
      obtain ⟨-, i, -, -, rfl⟩ := step_eq_blocked hstep
      exact .inl rfl
    | halted =>
      obtain ⟨i, -, -, rfl⟩ := step_eq_halted hstep
      exact .inr rfl
  | proceed hout hstep _ ih => exact ih hx

/-- A machine that gave an output has not halted. -/
theorem Gives.state_of_some {m w : Machine} {value : Int} (h : m.Gives (.ok (some value, w))) :
    w.state = .output := by
  rw [gives_iff_awaits] at h
  generalize hx : (.ok (some value, w) : Except Fault (Option Int × Machine)) = x at h
  induction h with
  | handed hout =>
    cases hx
    rfl
  | fault hout hstep => exact absurd hx (by simp)
  | stop hout hstep hsignal => exact absurd hx (by simp)
  | proceed hout hstep _ ih => exact ih hx

/-- A machine that has not halted fails for what stands in its memory only. -/
theorem Gives.inProtocol {m : Machine} {x : Except Fault (Option Int × Machine)} (h : m.Gives x)
    (hm : m.state ≠ .halted) : InProtocol x := by
  rw [gives_iff_awaits] at h
  induction h with
  | handed hout => exact inProtocol_ok _
  | fault hout hstep =>
    have hfault := inProtocol_step hm
    rw [hstep] at hfault
    exact inProtocol_error (hfault _ rfl)
  | stop hout hstep hsignal => exact inProtocol_ok _
  | proceed hout hstep _ ih => exact ih (by rw [state_of_step_proceed hstep]; decide)

/-- Answers in two lists are those of the first and then those of the second. -/
theorem givesAll_append_iff {m w : Machine} {first second : List (Option Int)} :
    m.GivesAll (first ++ second) w ↔ ∃ v, m.GivesAll first v ∧ v.GivesAll second w := by
  induction first generalizing m with
  | nil => simp [GivesAll]
  | cons answer first ih =>
    simp only [List.cons_append, GivesAll, ih]
    constructor
    · rintro ⟨u, hu, v, hv, hw⟩
      exact ⟨v, ⟨u, hu, hv⟩, hw⟩
    · rintro ⟨v, ⟨u, hu, hv⟩, hw⟩
      exact ⟨u, hu, v, hv, hw⟩

/-- One answer in a list is that answer. -/
theorem givesAll_singleton_iff {m w : Machine} {answer : Option Int} :
    m.GivesAll [answer] w ↔ m.Gives (.ok (answer, w)) := by
  simp [GivesAll]

/-- As many answers are the same answers. -/
theorem GivesAll.unique {m v w : Machine} {first second : List (Option Int)}
    (h₁ : m.GivesAll first v) (h₂ : m.GivesAll second w) (hlength : first.length = second.length) :
    first = second ∧ v = w := by
  induction first generalizing m second with
  | nil =>
    obtain rfl := List.length_eq_zero_iff.mp hlength.symm
    exact ⟨rfl, h₁.trans h₂.symm⟩
  | cons answer first ih =>
    cases second with
    | nil => exact absurd hlength (by simp)
    | cons other second =>
      obtain ⟨u, hu, hfirst⟩ := h₁
      obtain ⟨u', hu', hsecond⟩ := h₂
      have hsame := hu.unique hu'
      simp only [Except.ok.injEq, Prod.mk.injEq] at hsame
      obtain ⟨rfl, rfl⟩ := hsame
      obtain ⟨rfl, rfl⟩ := ih hfirst hsecond (by simpa using hlength)
      exact ⟨rfl, rfl⟩

/-- Values queued behind change nothing about the next outputs. -/
theorem GivesAll.feedAll {m w : Machine} {values : List Int}
    (h : m.GivesAll (values.map some) w) (later : List Int) :
    (m.feedAll later).GivesAll (values.map some) (w.feedAll later) := by
  induction values generalizing m with
  | nil =>
    obtain rfl : w = m := h
    rfl
  | cons value values ih =>
    obtain ⟨v, hv, hrest⟩ := h
    exact ⟨v.feedAll later, hv.feedAll later, ih hrest⟩

/-- A machine that had not halted has not halted by giving values. -/
theorem GivesAll.state_ne_halted {m w : Machine} {values : List Int}
    (h : m.GivesAll (values.map some) w) (hm : m.state ≠ .halted) : w.state ≠ .halted := by
  induction values generalizing m with
  | nil =>
    obtain rfl : w = m := h
    exact hm
  | cons value values ih =>
    obtain ⟨v, hv, hrest⟩ := h
    exact ih hrest (by rw [hv.state_of_some]; decide)

end IntegerMachine.Machine
