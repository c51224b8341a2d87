import IntegerMachine.Chain.Best
import IntegerMachine.Proofs.Chain.Arrangement
import IntegerMachine.Proofs.Chain.Dataflow

/-!
# The first of the greatest signals

The search keeps the best order so far and replaces it by a greater signal only.  `FirstBest` is
its invariant: of the orders tried, those before the best give less and those behind it no more.
Over all orders, which come in lexicographic order, this says which of several orders with the
greatest signal is found (`search_finds_first_greatest`).
-/

set_option autoImplicit false

namespace IntegerMachine.Chain

/-! ## More rounds -/

/-- A pass that ends within some rounds ends so within more. -/
theorem pass_mono {n k : Nat} (hle : n ≤ k) {amplifiers : List Machine} {signal : Int}
    {log : Array Line} {logged : Logged (Except Fault Int)}
    (h : pass n log signal amplifiers = some logged) :
    pass k log signal amplifiers = some logged := by
  induction amplifiers generalizing signal log with
  | nil => exact h
  | cons m rest ih =>
    rw [pass] at h ⊢
    cases hreply : amplify n m signal with
    | none => simp [hreply] at h
    | some reply =>
      have hmore : amplify k m signal = some reply := Machine.runUntilOutput_mono hreply hle
      rw [hreply] at h
      rw [hmore]
      obtain ⟨_ | _ | output, after, lines⟩ := reply
      · exact h
      · exact h
      · exact ih h

/-- A turn for which the rounds suffice is the same with more rounds. -/
theorem Loop.advance_mono {n k : Nat} (hle : n ≤ k) {loop : Loop}
    (h : loop.advance n ≠ .inr none) : loop.advance k = loop.advance n := by
  unfold Loop.advance at h ⊢
  cases hm : loop.amplifiers[loop.index]? with
  | none => rfl
  | some m =>
    cases hreply : amplify n m loop.signal with
    | none => simp [hm, hreply] at h
    | some reply =>
      have hmore : amplify k m loop.signal = some reply := Machine.runUntilOutput_mono hreply hle
      simp only [hreply, hmore]

/-- A feedback loop that ends within some rounds ends so within more. -/
theorem feedback_mono {n k : Nat} (hle : n ≤ k) {program : List Int} {settings : Settings}
    {phases : List Int} {signal : Int} {logged : Logged (Except Fault Int)}
    (h : feedback n program settings phases signal = some logged) :
    feedback k program settings phases signal = some logged := by
  rw [feedback, Option.join_eq_some_iff] at h ⊢
  have hgo : ∀ first second next : Loop, first = second → first.advance n = .inl next →
      ∃ next', second.advance k = .inl next' ∧ next = next' := by
    rintro loop _ next rfl hnext
    refine ⟨next, ?_, rfl⟩
    rw [Loop.advance_mono hle (by simp [hnext]), hnext]
  have hend : ∀ (first second : Loop) (answer : Option (Logged (Except Fault Int))),
      first = second → first.advance n = .inr answer → answer ≠ none →
        ∃ answer', second.advance k = .inr answer' ∧ answer = answer' := by
    rintro loop _ answer rfl hnext hanswer
    refine ⟨answer, ?_, rfl⟩
    rw [Loop.advance_mono hle (by simp [hnext, hanswer]), hnext]
  obtain ⟨answer, hanswer, rfl⟩ := repeatUntil_matching hgo hend rfl h (by simp)
  obtain ⟨more, rfl⟩ := Nat.exists_eq_add_of_le hle
  exact repeatUntil_add hanswer more

namespace Wiring

variable {wiring : Wiring} {program : List Int} {settings : Settings} {phases : List Int}
  {signal : Int}

/-- A run in either wiring that ends within some rounds ends so within more. -/
theorem run_mono {n k : Nat} (hle : n ≤ k) {logged : Logged (Except Fault Int)}
    (h : wiring.run n program settings phases signal = some logged) :
    wiring.run k program settings phases signal = some logged := by
  cases wiring with
  | forward => exact pass_mono hle h
  | feedback => exact feedback_mono hle h

/-- A chain of the wiring, given enough rounds, ends with the outcome. -/
def Ends (wiring : Wiring) (program : List Int) (settings : Settings) (phases : List Int)
    (signal : Int) (x : Except Fault Int) : Prop :=
  ∃ rounds log, wiring.run rounds program settings phases signal = some ⟨x, log⟩

/-- A run has one end. -/
theorem Ends.unique {x y : Except Fault Int} (hx : wiring.Ends program settings phases signal x)
    (hy : wiring.Ends program settings phases signal y) : x = y := by
  obtain ⟨n, log, hx⟩ := hx
  obtain ⟨k, log', hy⟩ := hy
  have hn := run_mono (Nat.le_max_left n k) hx
  have hk := run_mono (Nat.le_max_right n k) hy
  rw [hn] at hk
  exact congrArg Logged.result (Option.some.inj hk)

end Wiring

/-! ## The search so far -/

section Search

variable (wiring : Wiring) (program : List Int) (settings : Settings)

/-- Among orders, an order with the signal it gives: those before it give less, and those behind it
no more. -/
def FirstBest (orders : List (List Int)) (best : Candidate) : Prop :=
  ∃ before after, orders = before ++ best.phases :: after ∧
    wiring.Ends program settings best.phases 0 (.ok best.signal) ∧
    (∀ order ∈ before, ∃ t, wiring.Ends program settings order 0 (.ok t) ∧ t < best.signal) ∧
    ∀ order ∈ after, ∃ t, wiring.Ends program settings order 0 (.ok t) ∧ t ≤ best.signal

/-- Among orders, the first that does not give a signal fails with the fault. -/
def FirstFault (orders : List (List Int)) (fault : Fault) : Prop :=
  ∃ before order after, orders = before ++ order :: after ∧
    wiring.Ends program settings order 0 (.error fault) ∧
    ∀ earlier ∈ before, ∃ t, wiring.Ends program settings earlier 0 (.ok t)

/-- What is to be found among orders: the best one, or the first fault. -/
def Finds (orders : List (List Int)) : Except Fault Candidate → Prop
  | .ok best => FirstBest wiring program settings orders best
  | .error fault => FirstFault wiring program settings orders fault

/-- The search, given enough rounds, ends with the outcome. -/
def SearchEnds (phases : List Int) (x : Except Fault Candidate) : Prop :=
  ∃ rounds log, maxSignal wiring rounds program settings phases = some ⟨x, log⟩

variable {wiring program settings} {tried orders : List (List Int)} {order : List Int}
  {best found : Candidate} {t : Int}

/-- All orders give a signal, and none a greater one than the best. -/
theorem FirstBest.exists_le (h : FirstBest wiring program settings orders best) :
    ∀ order ∈ orders, ∃ t, wiring.Ends program settings order 0 (.ok t) ∧ t ≤ best.signal := by
  obtain ⟨before, after, rfl, hbest, hbefore, hafter⟩ := h
  intro order hmem
  rcases List.mem_append.mp hmem with hmem | hmem
  · obtain ⟨t, ht, hlt⟩ := hbefore order hmem
    exact ⟨t, ht, Int.le_of_lt hlt⟩
  · rcases List.mem_cons.mp hmem with rfl | hmem
    · exact ⟨best.signal, hbest, Int.le_refl _⟩
    · exact hafter order hmem

/-- One more order tried keeps the invariant. -/
theorem FirstBest.concat (h : FirstBest wiring program settings tried best)
    (ht : wiring.Ends program settings order 0 (.ok t)) :
    FirstBest wiring program settings (tried ++ [order])
      (if best.signal < t then ⟨t, order⟩ else best) := by
  by_cases hlt : best.signal < t
  · rw [if_pos hlt]
    refine ⟨tried, [], rfl, ht, ?_, List.forall_mem_nil _⟩
    intro earlier hmem
    obtain ⟨u, hu, hle⟩ := h.exists_le earlier hmem
    exact ⟨u, hu, Int.lt_of_le_of_lt hle hlt⟩
  · rw [if_neg hlt]
    obtain ⟨before, after, rfl, hbest, hbefore, hafter⟩ := h
    refine ⟨before, after ++ [order], by simp, hbest, hbefore, ?_⟩
    intro later hmem
    rcases List.mem_append.mp hmem with hmem | hmem
    · exact hafter later hmem
    · obtain rfl := List.mem_singleton.mp hmem
      exact ⟨t, ht, Int.not_lt.mp hlt⟩

/-- The best order is one of the orders. -/
theorem FirstBest.mem (h : FirstBest wiring program settings orders best) :
    best.phases ∈ orders := by
  obtain ⟨before, after, rfl, -⟩ := h
  simp

/-- The signal of an order is no greater than the best. -/
theorem FirstBest.signal_le (h : FirstBest wiring program settings orders best)
    (hmem : order ∈ orders) (ht : wiring.Ends program settings order 0 (.ok t)) :
    t ≤ best.signal := by
  obtain ⟨u, hu, hle⟩ := h.exists_le order hmem
  exact Except.ok.inj (hu.unique ht) ▸ hle

/-- There is one best order only. -/
theorem FirstBest.unique (h : FirstBest wiring program settings orders best)
    (h' : FirstBest wiring program settings orders found) : best = found := by
  have hmem := h.mem
  have hmem' := h'.mem
  have hle := fun t (ht : wiring.Ends program settings best.phases 0 (.ok t)) =>
    h'.signal_le hmem ht
  have hle' := fun t (ht : wiring.Ends program settings found.phases 0 (.ok t)) =>
    h.signal_le hmem' ht
  obtain ⟨before, after, rfl, hbest, hbefore, -⟩ := h
  obtain ⟨before', after', hsplit, hfound, hbefore', -⟩ := h'
  have hsignal : best.signal = found.signal := Int.le_antisymm (hle _ hbest) (hle' _ hfound)
  -- neither order stands before the other, where it would give less
  have hphases : best.phases = found.phases := by
    rcases List.append_eq_append_iff.mp hsplit with ⟨mid, rfl, hrest⟩ | ⟨mid, rfl, hrest⟩
    · cases mid with
      | nil => exact (List.cons.inj hrest).1
      | cons first mid =>
        obtain ⟨rfl, -⟩ := List.cons.inj hrest
        obtain ⟨t, ht, hlt⟩ := hbefore' best.phases (by simp)
        have hsame := Except.ok.inj (ht.unique hbest)
        omega
    · cases mid with
      | nil => exact (List.cons.inj hrest).1.symm
      | cons first mid =>
        obtain ⟨rfl, -⟩ := List.cons.inj hrest
        obtain ⟨t, ht, hlt⟩ := hbefore found.phases (by simp)
        have hsame := Except.ok.inj (ht.unique hfound)
        omega
  cases best
  cases found
  simp only at hsignal hphases
  rw [hsignal, hphases]

/-! ## The search through all orders -/

/-- The search from a best order so far ends with the best order of all, or with the first fault. -/
theorem finds_of_improve {rounds : Nat} {log lines : Array Line} {x : Except Fault Candidate}
    (hbest : FirstBest wiring program settings tried best)
    (h : improve (fun phases => wiring.run rounds program settings phases 0) best log orders =
      some ⟨x, lines⟩) : Finds wiring program settings (tried ++ orders) x := by
  induction orders generalizing tried best log with
  | nil =>
    obtain ⟨rfl, -⟩ := Logged.mk.inj (Option.some.inj h)
    rw [List.append_nil]
    exact hbest
  | cons order rest ih =>
    rw [improve] at h
    rcases hrun : wiring.run rounds program settings order 0 with _ | ⟨fault | t, more⟩
    · simp [hrun] at h
    · simp only [hrun, Option.some.injEq] at h
      obtain ⟨rfl, -⟩ := Logged.mk.inj h
      refine ⟨tried, order, rest, rfl, ⟨rounds, more, hrun⟩, ?_⟩
      intro earlier hmem
      obtain ⟨t, ht, -⟩ := hbest.exists_le earlier hmem
      exact ⟨t, ht⟩
    · simp only [hrun] at h
      have hnext := ih (hbest.concat ⟨rounds, more, hrun⟩) h
      rw [List.append_assoc] at hnext
      exact hnext

/-- Orders that all give a signal do so within a common number of rounds. -/
theorem exists_rounds (orders : List (List Int))
    (h : ∀ order ∈ orders, ∃ t, wiring.Ends program settings order 0 (.ok t)) :
    ∃ least, ∀ rounds, least ≤ rounds → ∀ order ∈ orders, ∃ t log,
      wiring.run rounds program settings order 0 = some ⟨.ok t, log⟩ := by
  induction orders with
  | nil => exact ⟨0, fun _ _ => List.forall_mem_nil _⟩
  | cons order rest ih =>
    obtain ⟨t, n, log, hrun⟩ := h order List.mem_cons_self
    obtain ⟨least, hrest⟩ := ih fun o ho => h o (List.mem_cons_of_mem _ ho)
    refine ⟨max n least, fun rounds hle => List.forall_mem_cons.mpr ⟨⟨t, log, ?_⟩, ?_⟩⟩
    · exact Wiring.run_mono (by omega) hrun
    · exact hrest rounds (by omega)

/-- The search goes on through orders that all give a signal. -/
theorem improve_append {run : List Int → Option (Logged (Except Fault Int))}
    {before : List (List Int)} (h : ∀ order ∈ before, ∃ t log, run order = some ⟨.ok t, log⟩)
    (best : Candidate) (log : Array Line) (after : List (List Int)) :
    ∃ later lines, improve run best log (before ++ after) = improve run later lines after := by
  induction before generalizing best log with
  | nil => exact ⟨best, log, rfl⟩
  | cons order rest ih =>
    obtain ⟨t, more, hrun⟩ := h order List.mem_cons_self
    rw [List.cons_append, improve, hrun]
    exact ih (fun o ho => h o (List.mem_cons_of_mem _ ho)) _ _

/-- The orders that are tried: the phases as they are, and then the others. -/
theorem arrangements_eq_cons (phases : List Int) :
    arrangements phases = phases :: (arrangements phases).tail :=
  List.eq_cons_of_mem_head? (head?_arrangements phases)

/-- A search that ends has found the first best order, or the first fault, among all arrangements.
-/
theorem finds_of_searchEnds {phases : List Int} {x : Except Fault Candidate}
    (h : SearchEnds wiring program settings phases x) :
    Finds wiring program settings (arrangements phases) x := by
  obtain ⟨rounds, log, h⟩ := h
  rw [maxSignal] at h
  rw [arrangements_eq_cons]
  rcases hrun : wiring.run rounds program settings phases 0 with _ | ⟨fault | t, lines⟩
  · simp [hrun] at h
  · simp only [hrun, Option.some.injEq] at h
    obtain ⟨rfl, -⟩ := Logged.mk.inj h
    exact ⟨[], phases, _, rfl, ⟨rounds, lines, hrun⟩, List.forall_mem_nil _⟩
  · have hfirst : FirstBest wiring program settings [phases] ⟨t, phases⟩ :=
      ⟨[], [], rfl, ⟨rounds, lines, hrun⟩, List.forall_mem_nil _, List.forall_mem_nil _⟩
    simp only [hrun] at h
    split at h
    · exact absurd h (by simp)
    · rename_i fault more himprove
      obtain ⟨rfl, -⟩ := Logged.mk.inj (Option.some.inj h)
      exact finds_of_improve hfirst himprove
    · rename_i found more himprove
      obtain ⟨rfl, -⟩ := Logged.mk.inj (Option.some.inj h)
      exact finds_of_improve hfirst himprove

/-- The search ends with an order if every order gives a signal. -/
theorem exists_searchEnds_ok {phases : List Int}
    (h : ∀ order ∈ arrangements phases, ∃ t, wiring.Ends program settings order 0 (.ok t)) :
    ∃ found, SearchEnds wiring program settings phases (.ok found) := by
  obtain ⟨rounds, hall⟩ := exists_rounds _ h
  have hall := hall rounds (Nat.le_refl _)
  rw [arrangements_eq_cons, List.forall_mem_cons] at hall
  obtain ⟨⟨t, log, hrun⟩, hrest⟩ := hall
  obtain ⟨found, lines, himprove⟩ := improve_append hrest ⟨t, phases⟩ log []
  rw [List.append_nil] at himprove
  refine ⟨found, rounds, lines.push found.line, ?_⟩
  simp only [maxSignal, hrun, himprove, improve]

/-- The search fails with the first order that fails. -/
theorem FirstFault.searchEnds {phases : List Int} {fault : Fault}
    (h : FirstFault wiring program settings (arrangements phases) fault) :
    SearchEnds wiring program settings phases (.error fault) := by
  obtain ⟨before, order, after, hsplit, ⟨n, log, hfault⟩, hbefore⟩ := h
  obtain ⟨least, hall⟩ := exists_rounds _ hbefore
  have hbefore := hall (max n least) (by omega)
  have hfault := Wiring.run_mono (by omega : n ≤ max n least) hfault
  rw [arrangements_eq_cons] at hsplit
  cases before with
  | nil =>
    obtain ⟨rfl, -⟩ := List.cons.inj hsplit
    refine ⟨max n least, log, ?_⟩
    simp only [maxSignal, hfault]
  | cons first before =>
    obtain ⟨rfl, htail⟩ := List.cons.inj (hsplit.trans (List.cons_append ..))
    obtain ⟨⟨t, more, hrun⟩, hrest⟩ := List.forall_mem_cons.mp hbefore
    obtain ⟨later, lines, himprove⟩ := improve_append hrest ⟨t, phases⟩ more (order :: after)
    refine ⟨max n least, lines ++ log, ?_⟩
    simp only [maxSignal, hrun, htail, himprove, improve, hfault]

/-- A search ends with what is to be found among all arrangements, and with nothing else. -/
theorem searchEnds_iff {phases : List Int} {x : Except Fault Candidate} :
    SearchEnds wiring program settings phases x ↔
      Finds wiring program settings (arrangements phases) x := by
  refine ⟨finds_of_searchEnds, fun h => ?_⟩
  cases x with
  | error fault => exact FirstFault.searchEnds h
  | ok best =>
    have hbest : FirstBest wiring program settings (arrangements phases) best := h
    obtain ⟨found, hfound⟩ := exists_searchEnds_ok fun order hmem =>
      (hbest.exists_le order hmem).imp fun _ ht => ht.1
    rwa [hbest.unique (finds_of_searchEnds hfound)]

/-! ## By positions -/

/-- The first best of all arrangements, by positions: no signal is greater, and none of an order
smaller in lexicographic order is as great. -/
theorem firstBest_iff {phases : List Int} :
    FirstBest wiring program settings (arrangements phases) best ↔
      ∃ positions, IsOrder phases.length positions ∧ best.phases = placed phases positions ∧
        wiring.Ends program settings best.phases 0 (.ok best.signal) ∧
        ∀ other, IsOrder phases.length other →
          ∃ t, wiring.Ends program settings (placed phases other) 0 (.ok t) ∧ t ≤ best.signal ∧
            (other < positions → t < best.signal) := by
  constructor
  · intro h
    have hall := h.exists_le
    obtain ⟨before, after, hsplit, hbest, hbefore, -⟩ := h
    obtain ⟨positions, horder, hplaced, hsmaller⟩ := exists_positions hsplit
    refine ⟨positions, horder, hplaced.symm, hbest, ?_⟩
    intro other hother
    obtain ⟨t, ht, hle⟩ := hall _ (mem_arrangements_iff_placed.mpr ⟨other, hother, rfl⟩)
    refine ⟨t, ht, hle, fun hlt => ?_⟩
    obtain ⟨u, hu, hless⟩ := hbefore _ (hsmaller other hother hlt)
    exact Except.ok.inj (hu.unique ht) ▸ hless
  · rintro ⟨positions, horder, hphases, hbest, hall⟩
    obtain ⟨before, after, hsplit, hbefore⟩ := exists_split_of_isOrder horder
    refine ⟨before, after, hphases ▸ hsplit, hbest, ?_, ?_⟩
    · intro order hmem
      obtain ⟨other, hother, hlt, rfl⟩ := hbefore order hmem
      obtain ⟨t, ht, -, hless⟩ := hall other hother
      exact ⟨t, ht, hless hlt⟩
    · intro order hmem
      have hamong : order ∈ arrangements phases := by simp [hsplit, hmem]
      obtain ⟨other, hother, rfl⟩ := mem_arrangements_iff_placed.mp hamong
      obtain ⟨t, ht, hle, -⟩ := hall other hother
      exact ⟨t, ht, hle⟩

/-- The first fault of all arrangements, by positions: all orders smaller in lexicographic order
give a signal. -/
theorem firstFault_iff {phases : List Int} {fault : Fault} :
    FirstFault wiring program settings (arrangements phases) fault ↔
      ∃ positions, IsOrder phases.length positions ∧
        wiring.Ends program settings (placed phases positions) 0 (.error fault) ∧
        ∀ other, IsOrder phases.length other → other < positions →
          ∃ t, wiring.Ends program settings (placed phases other) 0 (.ok t) := by
  constructor
  · rintro ⟨before, order, after, hsplit, hfault, hbefore⟩
    obtain ⟨positions, horder, rfl, hsmaller⟩ := exists_positions hsplit
    exact ⟨positions, horder, hfault, fun other hother hlt =>
      hbefore _ (hsmaller other hother hlt)⟩
  · rintro ⟨positions, horder, hfault, hall⟩
    obtain ⟨before, after, hsplit, hbefore⟩ := exists_split_of_isOrder horder
    refine ⟨before, placed phases positions, after, hsplit, hfault, ?_⟩
    intro order hmem
    obtain ⟨other, hother, hlt, rfl⟩ := hbefore order hmem
    exact hall other hother hlt

variable (wiring program settings)

/-- The search ends with the first order, by positions, among those that give the greatest signal;
where an order fails, it fails as the first of them does, unless an order before that one runs for
ever.  It ends with an order exactly if every order gives a signal. -/
theorem search_finds_first_greatest (phases : List Int) :
    (∀ best, SearchEnds wiring program settings phases (.ok best) ↔
      ∃ positions, IsOrder phases.length positions ∧ best.phases = placed phases positions ∧
        wiring.Ends program settings best.phases 0 (.ok best.signal) ∧
        ∀ other, IsOrder phases.length other →
          ∃ t, wiring.Ends program settings (placed phases other) 0 (.ok t) ∧ t ≤ best.signal ∧
            (other < positions → t < best.signal)) ∧
    (∀ fault, SearchEnds wiring program settings phases (.error fault) ↔
      ∃ positions, IsOrder phases.length positions ∧
        wiring.Ends program settings (placed phases positions) 0 (.error fault) ∧
        ∀ other, IsOrder phases.length other → other < positions →
          ∃ t, wiring.Ends program settings (placed phases other) 0 (.ok t)) ∧
    ((∀ positions, IsOrder phases.length positions →
        ∃ t, wiring.Ends program settings (placed phases positions) 0 (.ok t)) ↔
      ∃ best, SearchEnds wiring program settings phases (.ok best)) := by
  refine ⟨fun best => searchEnds_iff.trans firstBest_iff,
    fun fault => searchEnds_iff.trans firstFault_iff, ?_, ?_⟩
  · intro h
    refine exists_searchEnds_ok fun order hmem => ?_
    obtain ⟨positions, horder, rfl⟩ := mem_arrangements_iff_placed.mp hmem
    exact h positions horder
  · rintro ⟨best, hbest⟩ positions horder
    have hfirst : FirstBest wiring program settings (arrangements phases) best :=
      searchEnds_iff.mp hbest
    obtain ⟨t, ht, -⟩ :=
      hfirst.exists_le _ (mem_arrangements_iff_placed.mpr ⟨positions, horder, rfl⟩)
    exact ⟨t, ht⟩

/-- An amplifier that adds its phase to the doubled signal: of the phases 0 and 1, the order that
ends with 0 is found, and the other gives no more than its signal. -/
theorem search_finds_first_greatest_two_phases :
    SearchEnds .forward [3, 17, 3, 18, 102, 2, 18, 18, 1, 17, 18, 18, 4, 18, 99] {} [0, 1]
        (.ok ⟨2, [1, 0]⟩) ∧
      ∀ other, IsOrder 2 other → ∃ t, Wiring.Ends .forward
        [3, 17, 3, 18, 102, 2, 18, 18, 1, 17, 18, 18, 4, 18, 99] {} (placed [0, 1] other) 0 (.ok t) ∧
        t ≤ 2 := by
  have hends : SearchEnds .forward [3, 17, 3, 18, 102, 2, 18, 18, 1, 17, 18, 18, 4, 18, 99] {}
      [0, 1] (.ok ⟨2, [1, 0]⟩) := ⟨10, Logged.exists_log (by decide +kernel)⟩
  refine ⟨hends, fun other hother => ?_⟩
  obtain ⟨_, -, -, -, hall⟩ := ((search_finds_first_greatest _ _ _ _).1 _).mp hends
  obtain ⟨t, ht, hle, -⟩ := hall other hother
  exact ⟨t, ht, hle⟩

end Search

end IntegerMachine.Chain
