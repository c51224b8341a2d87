import IntegerMachine.Log

/-!
# Calls one after another

Calls that may fail are made one after another, and the first that fails ends the whole.  Seen
by the state they reach they are a fold in `Except`, where the lines logged do not matter.
-/

set_option autoImplicit false

namespace IntegerMachine

/-- A computation that has a result goes on with it. -/
theorem ok_bind {ε α β : Type} (a : α) (next : α → Except ε β) :
    Except.ok a >>= next = next a :=
  rfl

/-- A computation that goes on from another has a result exactly if both have one. -/
theorem bind_eq_ok {ε α β : Type} {first : Except ε α} {next : α → Except ε β} {b : β} :
    first >>= next = .ok b ↔ ∃ a, first = .ok a ∧ next a = .ok b := by
  cases first with
  | error e =>
    constructor
    · intro h
      exact absurd h (by simp [bind, Except.bind])
    · rintro ⟨a, ha, -⟩
      exact absurd ha (by simp)
  | ok a =>
    constructor
    · intro h
      exact ⟨a, rfl, h⟩
    · rintro ⟨a', ha, h⟩
      cases ha
      exact h

/-- A computation logged behind another has the result of the two without their lines. -/
theorem Logged.result_andThen {ε α β : Type} (first : Logged (Except ε α))
    (next : α → Logged (Except ε β)) :
    (first.andThen next).result = first.result >>= fun a => (next a).result := by
  obtain ⟨result, log⟩ := first
  cases result <;> rfl

/-- What ended with a result has logged some lines. -/
theorem Logged.exists_log {α : Type} {report? : Option (Logged α)} {result : α}
    (h : report?.map Logged.result = some result) : ∃ log, report? = some ⟨result, log⟩ := by
  obtain ⟨⟨_, log⟩, hreport, rfl⟩ := Option.map_eq_some_iff.mp h
  exact ⟨log, hreport⟩

namespace Reply

variable {ε σ α : Type}

/-- A call that ended with an outcome in a state has logged some lines. -/
theorem exists_log {reply? : Option (Reply ε σ α)} {outcome : Except ε α} {after : σ}
    (h : reply?.map (fun reply => (reply.outcome, reply.after)) = some (outcome, after)) :
    ∃ log, reply? = some ⟨outcome, after, log⟩ := by
  obtain ⟨⟨_, _, log⟩, hreply, hparts⟩ := Option.map_eq_some_iff.mp h
  obtain ⟨rfl, rfl⟩ := Prod.mk.inj hparts
  exact ⟨log, hreply⟩

/-- The state that a call leaves, unless it fails. -/
def reached (reply : Reply ε σ Unit) : Except ε σ :=
  match reply.outcome with
  | .error fault => .error fault
  | .ok () => .ok reply.after

/-- A call reaches a state exactly if it does not fail and leaves it. -/
theorem reached_eq_ok {reply : Reply ε σ Unit} {s : σ} :
    reply.reached = .ok s ↔ reply.outcome = .ok () ∧ reply.after = s := by
  obtain ⟨outcome, after, log⟩ := reply
  cases outcome <;> simp [reached]

/-- Calls for the members of a list are made from the state that the call before reached. -/
theorem reached_each (call : σ → α → Reply ε σ Unit) (s : σ) (list : List α) :
    (each call s list).reached = list.foldlM (fun s a => (call s a).reached) s := by
  induction list generalizing s with
  | nil => rfl
  | cons a rest ih =>
    rw [each, List.foldlM_cons]
    cases hcall : call s a with
    | mk outcome after log =>
      cases outcome with
      | error fault => rfl
      | ok =>
        have hrest := ih after
        simp only [reached] at hrest ⊢
        exact hrest

/-- Calls for the members of a list keep what each call keeps, also up to one that fails. -/
theorem after_each {call : σ → α → Reply ε σ Unit} (P : σ → Prop)
    (hcall : ∀ s a, P s → P (call s a).after) {s : σ} (hs : P s) (list : List α) :
    P (each call s list).after := by
  induction list generalizing s with
  | nil => exact hs
  | cons a rest ih =>
    have hafter := hcall s a hs
    rw [each]
    rcases hfirst : call s a with ⟨fault | _, after, log⟩
    · rw [hfirst] at hafter
      exact hafter
    · rw [hfirst] at hafter
      exact ih hafter

/-- Calls for the members of a list fail at one of them, and leave what that call left. -/
theorem each_eq_error {call : σ → α → Reply ε σ Unit} {s after : σ} {list : List α} {fault : ε}
    {log : Array Line} (h : each call s list = ⟨.error fault, after, log⟩) :
    ∃ before a rest middle, list = before ++ a :: rest ∧
      (each call s before).reached = .ok middle ∧ (call middle a).outcome = .error fault ∧
      (call middle a).after = after := by
  induction list generalizing s log with
  | nil => exact absurd (congrArg outcome h) (by simp [each])
  | cons a rest ih =>
    rw [each] at h
    rcases hfirst : call s a with ⟨found | _, middle, lines⟩
    · simp only [hfirst, mk.injEq, Except.error.injEq] at h
      obtain ⟨rfl, rfl, -⟩ := h
      exact ⟨[], a, rest, s, rfl, rfl, by rw [hfirst], by rw [hfirst]⟩
    · simp only [hfirst] at h
      obtain ⟨houtcome, hafter, -⟩ := mk.inj h
      have hrest : each call middle rest = ⟨.error fault, after, (each call middle rest).log⟩ := by
        rw [← houtcome, ← hafter]
      obtain ⟨before, bad, later, last, rfl, hreached, hbad, hlast⟩ := ih hrest
      refine ⟨a :: before, bad, later, last, rfl, ?_, hbad, hlast⟩
      rw [reached_each, List.foldlM_cons, hfirst]
      rw [reached_each] at hreached
      exact hreached

end Reply

end IntegerMachine
