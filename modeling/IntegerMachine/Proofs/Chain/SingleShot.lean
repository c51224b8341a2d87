import IntegerMachine.Proofs.Chain.Best

/-!
# Chains of single-shot amplifiers

A feedback loop begins as a forward chain does: in its first round every amplifier is fed one signal
and emits one.  What comes after is up to the first amplifier, which is fed the signal that leaves
the chain.  Where it stops without a further output the loop is over, so amplifiers that halt after
one output give the same signal in both wirings (`feedback_of_forward`), and the search for the best
order of phases cannot tell them apart.
-/

set_option autoImplicit false

namespace IntegerMachine.Chain

section SingleShot

variable (program : List Int) (settings : Settings)

/-- The first amplifier, resumed after its output with the signal `r` in its queue, stops without a
further output, and is left as said. -/
def FirstStops (phases : List Int) (signal r : Int) (w : Machine) : Prop :=
  ∃ phase rest output v, phases = phase :: rest ∧
    (alone program settings phase [signal]).Gives (.ok (some output, v)) ∧
    (v.feed r).Gives (.ok (none, w))

variable {program settings} {phases : List Int} {signal r : Int} {w : Machine}

/-! ## The first round -/

/-- The signals of turns, with one more turn in front of them. -/
def afterTurn (signal : Int) (s : Nat → Int) : Nat → Int
  | 0 => signal
  | k + 1 => s k

/-- In a forward chain that returns, signals pass from each amplifier, alone with the one it is fed,
to the next. -/
theorem exists_signals_of_forward
    (h : Wiring.forward.Ends program settings phases signal (.ok r)) :
    ∃ s : Nat → Int, s 0 = signal ∧ s phases.length = r ∧ ∀ k < phases.length, ∃ w,
      (alone program settings (phases.getD k 0) [s k]).Gives (.ok (some (s (k + 1)), w)) := by
  obtain ⟨rounds, log, hpass⟩ := h
  replace hpass : pass rounds #[] signal (boot program settings phases) = some ⟨.ok r, log⟩ := hpass
  generalize #[] = lines at hpass
  induction phases generalizing signal lines with
  | nil =>
    obtain ⟨hr, -⟩ := Logged.mk.inj (Option.some.inj hpass)
    exact ⟨fun _ => signal, rfl, Except.ok.inj hr, fun k hk => absurd hk (Nat.not_lt_zero k)⟩
  | cons phase rest ih =>
    rw [boot, List.map_cons, pass] at hpass
    rcases hreply : amplify rounds ((Machine.boot program settings).feed phase) signal with
      _ | ⟨_ | _ | output, v, more⟩
    · simp [hreply] at hpass
    · simp [hreply] at hpass
    · simp [hreply] at hpass
    · simp only [hreply] at hpass
      obtain ⟨s, hfirst, hlast, hpasses⟩ := ih _ hpass
      refine ⟨afterTurn signal s, rfl, hlast, fun k hk => ?_⟩
      cases k with
      | zero =>
        subst hfirst
        exact ⟨v, Machine.gives_ok_iff.mpr ⟨rounds, more, hreply⟩⟩
      | succ k =>
        rw [List.getD_cons_succ]
        exact hpasses k (Nat.lt_of_succ_lt_succ hk)

/-- In the first round of a loop every amplifier has one turn. -/
theorem turnsOf_first_round {size k : Nat} (hk : k < size) :
    turnsOf size (k % size) (k + 1) = [k] := by
  have hnone : turnsOf size (k % size) k = [] := by
    rw [← List.length_eq_zero_iff, length_turnsOf (by omega), Nat.div_eq_of_lt hk]
  rw [turnsOf_succ, hnone, List.nil_append]

/-- With the turn after the first round, the first amplifier has had two. -/
theorem turnsOf_second_turn {size : Nat} (hsize : 0 < size) :
    turnsOf size (size % size) (size + 1) = [0, size] := by
  have hlength := length_turnsOf hsize size
  rw [Nat.div_self hsize] at hlength
  obtain ⟨turn, hturn⟩ := List.length_eq_one_iff.mp hlength
  have hmem : 0 ∈ turnsOf size (size % size) size := by
    simp [turnsOf, hsize]
  rw [hturn, List.mem_singleton] at hmem
  rw [turnsOf_succ, hturn, ← hmem, List.singleton_append]

/-- The signals of a forward chain flow through the first round of the loop. -/
theorem flows_of_forward {s : Nat → Int} (hfirst : s 0 = signal)
    (hpasses : ∀ k < phases.length, ∃ w,
      (alone program settings (phases.getD k 0) [s k]).Gives (.ok (some (s (k + 1)), w))) :
    Flows program settings phases signal s phases.length := by
  refine ⟨hfirst, fun k hk => ?_⟩
  obtain ⟨w, hgives⟩ := hpasses k hk
  refine ⟨w, [], _, (Nat.div_eq_of_lt hk).symm, rfl, ?_⟩
  rw [fedIn, turnsOf_first_round hk, Nat.mod_eq_of_lt hk]
  exact hgives

/-- What the first amplifier does when the signal comes round is what it does when resumed. -/
theorem FirstStops.answersAt (h : FirstStops program settings phases signal r w) {s : Nat → Int}
    (hfirst : s 0 = signal) (hlast : s phases.length = r) :
    AnswersAt program settings phases s phases.length (.ok (none, w)) := by
  obtain ⟨phase, rest, output, v, rfl, hgives, hstops⟩ := h
  have hsize : 0 < (phase :: rest).length := Nat.succ_pos _
  refine ⟨[some output], v.feed r, (Nat.div_self hsize).symm, ?_, hstops⟩
  have hfed := hgives.feedAll [r]
  rw [alone, Machine.feedAll_feedAll] at hfed
  rw [fedIn, turnsOf_second_turn hsize, List.map_cons, List.map_cons, List.map_nil, hfirst, hlast,
    Nat.mod_self]
  exact Machine.givesAll_singleton_iff.mpr hfed

/-! ## Both wirings -/

/-- The end of a feedback loop is the same whether or not the lines logged are looked at. -/
theorem feedback_ends_iff {x : Except Fault Int} :
    Wiring.feedback.Ends program settings phases signal x ↔
      FeedbackEnds program settings phases signal x := by
  constructor
  · rintro ⟨rounds, log, h⟩
    exact ⟨rounds, Option.map_eq_some_iff.mpr ⟨_, h, rfl⟩⟩
  · rintro ⟨rounds, h⟩
    obtain ⟨⟨result, log⟩, hends, rfl⟩ := Option.map_eq_some_iff.mp h
    exact ⟨rounds, log, hends⟩

/-- The loop ends at the first amplifier, with the signal of the chain if it has halted. -/
theorem FirstStops.feedback_ends (h : FirstStops program settings phases signal r w)
    (hforward : Wiring.forward.Ends program settings phases signal (.ok r)) :
    Wiring.feedback.Ends program settings phases signal
      (if w.isHalted then .ok r else .error ⟨.blockedInLoop 0, w.ip, none⟩) := by
  obtain ⟨s, hfirst, hlast, hpasses⟩ := exists_signals_of_forward hforward
  have hphases : phases ≠ [] := by
    obtain ⟨_, _, _, _, rfl, -, -⟩ := h
    exact List.cons_ne_nil _ _
  refine feedback_ends_iff.mpr ((feedbackEnds_iff hphases).mpr
    ⟨phases.length, s, _, flows_of_forward hfirst hpasses, h.answersAt hfirst hlast, ?_⟩)
  rw [Nat.mod_self, hlast, turnEnd]

/-- A search finds the same where a second wiring gives the same signals. -/
theorem FirstBest.rewire {first second : Wiring} {orders : List (List Int)} {best : Candidate}
    (h : FirstBest first program settings orders best)
    (hsame : ∀ order ∈ orders, ∀ t, first.Ends program settings order 0 (.ok t) →
      second.Ends program settings order 0 (.ok t)) :
    FirstBest second program settings orders best := by
  obtain ⟨before, after, rfl, hbest, hbefore, hafter⟩ := h
  refine ⟨before, after, rfl, hsame _ (by simp) _ hbest, fun order hmem => ?_, fun order hmem => ?_⟩
  · obtain ⟨t, ht, hlt⟩ := hbefore order hmem
    exact ⟨t, hsame order (by simp [hmem]) t ht, hlt⟩
  · obtain ⟨t, ht, hle⟩ := hafter order hmem
    exact ⟨t, hsame order (by simp [hmem]) t ht, hle⟩

variable (program settings phases)

/-- A forward chain that returns and a feedback loop on the same arguments agree as far as the first
amplifier is done: when it halts on the signal of the chain, the loop returns this signal, and when
it blocks, the loop fails there.  Where every order of the phases returns and halts, the search ends
with the same order and signal in both wirings. -/
theorem feedback_of_forward :
    (∀ signal r w, Wiring.forward.Ends program settings phases signal (.ok r) →
      FirstStops program settings phases signal r w →
        (w.state = .halted → Wiring.feedback.Ends program settings phases signal (.ok r)) ∧
        (w.state = .blocked → Wiring.feedback.Ends program settings phases signal
          (.error ⟨.blockedInLoop 0, w.ip, none⟩))) ∧
    ((∀ order, order.Perm phases → ∃ r w,
        Wiring.forward.Ends program settings order 0 (.ok r) ∧
        FirstStops program settings order 0 r w ∧ w.state = .halted) →
      ∃ best, SearchEnds .forward program settings phases (.ok best) ∧
        SearchEnds .feedback program settings phases (.ok best)) := by
  have hhalted : ∀ order signal r w, Wiring.forward.Ends program settings order signal (.ok r) →
      FirstStops program settings order signal r w → w.state = .halted →
        Wiring.feedback.Ends program settings order signal (.ok r) := by
    intro order signal r w hforward hstops hw
    have hends := hstops.feedback_ends hforward
    rwa [Machine.isHalted, hw, if_pos (by decide)] at hends
  refine ⟨fun signal r w hforward hstops => ⟨hhalted _ _ _ _ hforward hstops, fun hw => ?_⟩, ?_⟩
  · have hends := hstops.feedback_ends hforward
    rwa [Machine.isHalted, hw, if_neg (by decide)] at hends
  · intro hall
    have hperm : ∀ order ∈ arrangements phases, order.Perm phases := fun order hmem =>
      mem_arrangements_iff.mp hmem
    obtain ⟨best, hbest⟩ := exists_searchEnds_ok fun order hmem =>
      (hall order (hperm order hmem)).imp fun _ h => h.choose_spec.1
    refine ⟨best, hbest, searchEnds_iff.mpr ?_⟩
    have hfirst : FirstBest .forward program settings (arrangements phases) best :=
      searchEnds_iff.mp hbest
    refine hfirst.rewire fun order hmem t ht => ?_
    obtain ⟨r, w, hr, hstops, hw⟩ := hall order (hperm order hmem)
    obtain rfl := Except.ok.inj (hr.unique ht)
    exact hhalted order 0 r w hr hstops hw

/-- The stop of the first amplifier is found by running it up to its output and on from there. -/
theorem exists_firstStops (rounds : Nat) (output : Int) {phase : Int} {rest : List Int}
    {state : Suspension} {ip : Int}
    (h : (do
        let first ← (alone program settings phase [signal]).runUntilOutput rounds
        let second ← (first.after.feed r).runUntilOutput rounds
        return (first.outcome, second.outcome, second.after.state, second.after.ip)) =
      some (.ok (some output), .ok none, state, ip)) :
    ∃ w, FirstStops program settings (phase :: rest) signal r w ∧ w.state = state ∧ w.ip = ip := by
  obtain ⟨⟨_, v, log⟩, hfirst, h⟩ := Option.bind_eq_some_iff.mp h
  obtain ⟨⟨_, w, log'⟩, hsecond, h⟩ := Option.bind_eq_some_iff.mp h
  simp only [Option.pure_def, Option.some.injEq, Prod.mk.injEq] at h
  obtain ⟨rfl, rfl, rfl, rfl⟩ := h
  exact ⟨w, ⟨phase, rest, output, v, rfl, Machine.gives_ok_iff.mpr ⟨rounds, log, hfirst⟩,
    Machine.gives_ok_iff.mpr ⟨rounds, log', hsecond⟩⟩, rfl, rfl⟩

/-- Amplifiers that add their phase to the doubled signal and halt: both orders of two phases are
single shots, so both searches find one of them.  An amplifier that asks for two more values after
its output blocks. -/
theorem feedback_of_forward_two_phases :
    (∃ best, SearchEnds .forward [3, 17, 3, 18, 102, 2, 18, 18, 1, 17, 18, 18, 4, 18, 99] {} [0, 1]
        (.ok best) ∧
      SearchEnds .feedback [3, 17, 3, 18, 102, 2, 18, 18, 1, 17, 18, 18, 4, 18, 99] {} [0, 1]
        (.ok best)) ∧
    Wiring.forward.Ends [3, 20, 3, 20, 4, 20, 3, 20, 3, 20, 99] {} [5] 7 (.ok 7) ∧
    Wiring.feedback.Ends [3, 20, 3, 20, 4, 20, 3, 20, 3, 20, 99] {} [5] 7
      (.error ⟨.blockedInLoop 0, 8, none⟩) := by
  have hall : ∀ order : List Int, order.Perm [0, 1] → ∃ r w,
      Wiring.forward.Ends [3, 17, 3, 18, 102, 2, 18, 18, 1, 17, 18, 18, 4, 18, 99] {} order 0
        (.ok r) ∧
      FirstStops [3, 17, 3, 18, 102, 2, 18, 18, 1, 17, 18, 18, 4, 18, 99] {} order 0 r w ∧
      w.state = .halted := by
    intro order horder
    have hmem : order ∈ [[(0 : Int), 1], [1, 0]] := mem_arrangements_iff.mpr horder
    simp only [List.mem_cons, List.not_mem_nil, or_false] at hmem
    rcases hmem with rfl | rfl
    · obtain ⟨w, hstops, hw, -⟩ : ∃ w : Machine,
          FirstStops [3, 17, 3, 18, 102, 2, 18, 18, 1, 17, 18, 18, 4, 18, 99] {} [0, 1] 0 1 w ∧
            w.state = .halted ∧ w.ip = 14 := exists_firstStops _ _ 10 0 (by decide +kernel)
      exact ⟨1, w, ⟨10, Logged.exists_log (by decide +kernel)⟩, hstops, hw⟩
    · obtain ⟨w, hstops, hw, -⟩ : ∃ w : Machine,
          FirstStops [3, 17, 3, 18, 102, 2, 18, 18, 1, 17, 18, 18, 4, 18, 99] {} [1, 0] 0 2 w ∧
            w.state = .halted ∧ w.ip = 14 := exists_firstStops _ _ 10 1 (by decide +kernel)
      exact ⟨2, w, ⟨10, Logged.exists_log (by decide +kernel)⟩, hstops, hw⟩
  have hforward : Wiring.forward.Ends [3, 20, 3, 20, 4, 20, 3, 20, 3, 20, 99] {} [5] 7 (.ok 7) :=
    ⟨10, Logged.exists_log (by decide +kernel)⟩
  obtain ⟨w, hstops, hw, hip⟩ : ∃ w : Machine,
      FirstStops [3, 20, 3, 20, 4, 20, 3, 20, 3, 20, 99] {} [5] 7 7 w ∧ w.state = .blocked ∧
        w.ip = 8 := exists_firstStops _ _ 10 7 (by decide +kernel)
  have hblocked := ((feedback_of_forward _ {} [5]).1 7 7 w hforward hstops).2 hw
  rw [hip] at hblocked
  exact ⟨(feedback_of_forward _ {} [0, 1]).2 hall, hforward, hblocked⟩

end SingleShot

end IntegerMachine.Chain
