import IntegerMachine.Proofs.Machine.Calls
import IntegerMachine.Proofs.Machine.Rest
import IntegerMachine.Proofs.Network.Waking

/-!
# Rounds until a test answers

A loop of rounds gives every round the same number of steps it may use up, and records of rounds
leave each its own.  More never changes a round (`runRound_mono`), so a loop ends with an answer
exactly if some record of rounds leads to it with the test answering in its last round for the
first time (`runRoundsUntil_iff`).
-/

set_option autoImplicit false

namespace IntegerMachine.Network

/-! ## More steps -/

section More

variable {n k : Nat}

/-- A poll that ends within some steps ends so within more. -/
theorem Node.poll_mono (hle : n ≤ k) {node : Node}
    {reply : Reply IntegerMachine.Fault Node (List Packet)} (h : node.poll n = some reply) :
    node.poll k = some reply := by
  unfold Node.poll at h ⊢
  cases hhalted : node.machine.isHalted with
  | true =>
    rw [hhalted, if_pos rfl] at h
    exact h
  | false =>
    rw [hhalted, if_neg (by decide)] at h
    cases hrun : node.prompted.run n with
    | none => simp [hrun] at h
    | some ran =>
      obtain ⟨more, rfl⟩ := Nat.exists_eq_add_of_le hle
      rw [Machine.run_add hrun more, if_neg (by decide)]
      rwa [hrun] at h

/-- A poll in its network that ends within some steps ends so within more. -/
theorem poll_mono (hle : n ≤ k) {network : Network} {index : Nat} {answer : Answer (List Packet)}
    (h : network.poll n index = some answer) : network.poll k index = some answer := by
  unfold poll at h ⊢
  cases hnode : network.nodes[index]? with
  | none =>
    rw [hnode] at h
    exact h
  | some node =>
    cases hpoll : node.poll n with
    | none => simp [hnode, hpoll] at h
    | some reply =>
      simp only [hnode, hpoll] at h
      simpa only [Node.poll_mono hle hpoll] using h

/-- Polling in turn that ends within some steps ends so within more. -/
theorem visit_mono (hle : n ≤ k) {indices : List Nat} {network : Network} {sent : Array Packet}
    {log : Array Line} {answer : Answer (Array Packet)}
    (h : visit n indices network sent log = some answer) :
    visit k indices network sent log = some answer := by
  induction indices generalizing network sent log with
  | nil => exact h
  | cons index rest ih =>
    rw [visit] at h ⊢
    cases hpoll : network.poll n index with
    | none => simp [hpoll] at h
    | some reply =>
      rw [hpoll] at h
      rw [poll_mono hle hpoll]
      obtain ⟨fault | packets, polled, lines⟩ := reply
      · exact h
      · simp only at h ⊢
        rcases hroute : (polled.routeAll index packets).withLog (log ++ lines) with
          ⟨fault | _, routed, more⟩
        · rw [hroute] at h
          exact h
        · rw [hroute] at h
          exact ih h

/-- A round that ends within some steps ends so within more. -/
theorem runRound_mono (hle : n ≤ k) {network : Network} {answer : Answer (Array Packet)}
    (h : network.runRound n = some answer) : network.runRound k = some answer := by
  unfold runRound at h ⊢
  cases hvisit : visit n (List.range network.nodes.size) network #[] #[] with
  | none => simp [hvisit] at h
  | some reply =>
    rw [hvisit] at h
    rwa [visit_mono hle hvisit]

end More

/-! ## The loop -/

section Until

variable {α : Type} {rounds : Nat} {test : Network → Network → Option α}
  {start network after last : Network} {log lines : Array Line} {history : List Judgement}
  {final : Judgement} {answer : α}

/-- What one round of the loop does. -/
def tested (rounds : Nat) (test : Network → Network → Option α) :
    Network × Array Line → Network × Array Line ⊕ Option (Answer α) :=
  fun (before, log) =>
    match before.runRound rounds with
    | none => .inr none
    | some ⟨.error fault, after, lines⟩ => .inr (some ⟨.error fault, after, log ++ lines⟩)
    | some ⟨.ok _, after, lines⟩ =>
      match test before after with
      | some answer => .inr (some ⟨.ok answer, after, log ++ lines⟩)
      | none => .inl (after, log ++ lines)

/-- Rounds up to a test are a loop of rounds each followed by the test. -/
theorem runRoundsUntil_eq :
    runRoundsUntil rounds test network log =
      (repeatUntil (tested rounds test) rounds (network, log)).join :=
  rfl

/-- The loop goes on exactly if its round does not fail and the test gives nothing. -/
theorem tested_eq_inl :
    tested rounds test (network, log) = .inl (after, lines) ↔
      ∃ sent more, network.runRound rounds = some ⟨.ok sent, after, more⟩ ∧
        test network after = none ∧ lines = log ++ more := by
  unfold tested
  rcases hround : network.runRound rounds with _ | ⟨fault | sent, next, more⟩
  · simp [hround]
  · simp [hround]
  · cases htest : test network next with
    | some answer =>
      simp only [hround, htest, Option.some.injEq, Reply.mk.injEq, reduceCtorEq, false_iff]
      rintro ⟨_, _, ⟨-, rfl, -⟩, hnone, -⟩
      rw [htest] at hnone
      exact absurd hnone (by simp)
    | none =>
      simp only [hround, htest, Option.some.injEq, Reply.mk.injEq, Sum.inl.injEq, Prod.mk.injEq]
      constructor
      · rintro ⟨rfl, rfl⟩
        exact ⟨sent, more, ⟨rfl, rfl, rfl⟩, htest, rfl⟩
      · rintro ⟨_, _, ⟨-, rfl, rfl⟩, -, rfl⟩
        exact ⟨rfl, rfl⟩

/-- The loop ends with an answer exactly if its round does not fail and the test gives it. -/
theorem tested_eq_answer :
    tested rounds test (network, log) = .inr (some ⟨.ok answer, last, lines⟩) ↔
      ∃ sent more, network.runRound rounds = some ⟨.ok sent, last, more⟩ ∧
        test network last = some answer ∧ lines = log ++ more := by
  unfold tested
  rcases hround : network.runRound rounds with _ | ⟨fault | sent, next, more⟩
  · simp [hround]
  · simp [hround]
  · cases htest : test network next with
    | some found =>
      simp only [hround, htest, Option.some.injEq, Reply.mk.injEq, Sum.inr.injEq, Except.ok.injEq]
      constructor
      · rintro ⟨rfl, rfl, rfl⟩
        exact ⟨sent, more, ⟨rfl, rfl, rfl⟩, htest, rfl⟩
      · rintro ⟨_, _, ⟨-, rfl, rfl⟩, hsome, rfl⟩
        exact ⟨Option.some.inj (htest.symm.trans hsome), rfl, rfl⟩
    | none =>
      simp only [hround, htest, Option.some.injEq, Reply.mk.injEq, reduceCtorEq, false_iff]
      rintro ⟨_, _, ⟨-, rfl, -⟩, hsome, -⟩
      rw [htest] at hsome
      exact absurd hsome (by simp)

/-- A loop that ends leaves what its last round left. -/
theorem runRound_of_tested {reply : Answer α}
    (h : tested rounds test (network, log) = .inr (some reply)) :
    ∃ outcome more, network.runRound rounds = some ⟨outcome, reply.after, more⟩ := by
  unfold tested at h
  rcases hround : network.runRound rounds with _ | ⟨fault | sent, next, more⟩
  · simp [hround] at h
  · simp only [hround, Sum.inr.injEq, Option.some.injEq] at h
    obtain rfl := h
    exact ⟨_, more, rfl⟩
  · cases htest : test network next with
    | none => simp [hround, htest] at h
    | some found =>
      simp only [hround, htest, Sum.inr.injEq, Option.some.injEq] at h
      obtain rfl := h
      exact ⟨_, more, rfl⟩

/-- The rounds behind what the loop has reached, none of which the test answered. -/
theorem judged_of_reach? (n : Nat) (h : reach? (tested rounds test) (start, log) n =
    some (network, lines)) :
    ∃ history, Judged start history network ∧ ∀ j ∈ history, test j.before j.after = none := by
  induction n generalizing network lines with
  | zero =>
    obtain ⟨rfl, -⟩ := Prod.mk.inj (Option.some.inj h)
    exact ⟨[], .start, List.forall_mem_nil _⟩
  | succ n ih =>
    obtain ⟨⟨middle, earlier⟩, hreach, hstep⟩ := reach?_succ_eq_some.mp h
    obtain ⟨history, hjudged, hnone⟩ := ih hreach
    obtain ⟨sent, more, hround, htest, -⟩ := tested_eq_inl.mp hstep
    exact ⟨_, .round hjudged hround,
      List.forall_mem_append.mpr ⟨hnone, List.forall_mem_singleton.mpr htest⟩⟩

/-- Rounds none of which the test answers are made by the loop too, if it gives each of them
enough steps. -/
theorem reach?_of_judged (log : Array Line) (h : Judged start history network)
    (hnone : ∀ j ∈ history, test j.before j.after = none) :
    ∃ least, ∀ rounds, least ≤ rounds → ∃ lines,
      reach? (tested rounds test) (start, log) history.length = some (network, lines) := by
  induction h with
  | start => exact ⟨0, fun _ _ => ⟨log, rfl⟩⟩
  | @round history middle after n sent more _ hround ih =>
    obtain ⟨hearlier, hlast⟩ := List.forall_mem_append.mp hnone
    have hlast : test middle after = none := hlast _ List.mem_cons_self
    obtain ⟨least, hreach⟩ := ih hearlier
    refine ⟨max least n, fun rounds hle => ?_⟩
    obtain ⟨lines, hlines⟩ := hreach rounds (by omega)
    refine ⟨lines ++ more, ?_⟩
    rw [List.length_append, List.length_singleton]
    refine reach?_succ_eq_some.mpr ⟨_, hlines, tested_eq_inl.mpr ⟨sent, more, ?_, hlast, rfl⟩⟩
    exact runRound_mono (by omega) hround

/-- A record that ends in a round is that of the rounds before it, and of a round from where they
led. -/
theorem judged_concat (h : Judged start (history ++ [final]) last) :
    ∃ network rounds sent log, Judged start history network ∧
      network.runRound rounds = some ⟨.ok sent, last, log⟩ ∧
      final = judgementOf rounds network sent last := by
  generalize hall : history ++ [final] = all at h
  cases h with
  | start => exact absurd hall (by simp)
  | round before hround =>
    obtain ⟨rfl, hfinal⟩ := List.append_inj' hall rfl
    exact ⟨_, _, _, _, before, hround, List.singleton_inj.mp hfinal⟩

/-- A loop of rounds ends with an answer exactly if the test gives it in the last of some rounds
and answered in none before. -/
theorem runRoundsUntil_iff :
    (∃ rounds lines, runRoundsUntil rounds test start log = some ⟨.ok answer, last, lines⟩) ↔
      ∃ history final, Judged start (history ++ [final]) last ∧
        (∀ j ∈ history, test j.before j.after = none) ∧
        test final.before final.after = some answer := by
  constructor
  · rintro ⟨rounds, lines, h⟩
    rw [runRoundsUntil_eq, Option.join_eq_some_iff, repeatUntil_eq_some_iff] at h
    obtain ⟨n, -, ⟨network, earlier⟩, hreach, hend⟩ := h
    obtain ⟨history, hjudged, hnone⟩ := judged_of_reach? n hreach
    obtain ⟨sent, more, hround, htest, -⟩ := tested_eq_answer.mp hend
    exact ⟨history, _, .round hjudged hround, hnone, htest⟩
  · rintro ⟨history, final, hjudged, hnone, htest⟩
    obtain ⟨network, n, sent, more, hbefore, hround, rfl⟩ := judged_concat hjudged
    obtain ⟨least, hreach⟩ := reach?_of_judged log hbefore hnone
    obtain ⟨lines, hlines⟩ := hreach (max (max least n) (history.length + 1)) (by omega)
    refine ⟨max (max least n) (history.length + 1), lines ++ more, ?_⟩
    rw [runRoundsUntil_eq, Option.join_eq_some_iff, repeatUntil_eq_some_iff]
    exact ⟨history.length, by omega, _, hlines,
      tested_eq_answer.mpr ⟨sent, more, runRound_mono (by omega) hround, htest, rfl⟩⟩

end Until

end IntegerMachine.Network
