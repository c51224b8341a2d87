import IntegerMachine.Proofs.Network.Rounds

/-!
# Networks that are never woken again

A poll leaves a node alone once it has halted, but the network is idle only if no node at all has
anything queued.  So in a round without packets only a halted node can keep the network from being
idle (`isIdleAfter_iff_not_clogged`), and once one does, it does so for ever: halted nodes stay
halted, and their queues only grow (`steady_keepsHalted`).
-/

set_option autoImplicit false

namespace IntegerMachine.Network

/-- Some node has halted with something left in its queue. -/
def Clogged (network : Network) : Prop :=
  ∃ (d : Nat) (node : Node), network.nodes[d]? = some node ∧ node.machine.isHalted = true ∧
    node.machine.inputs ≠ []

/-! ## Rounds without packets -/

/-- The node of a number has read all that was queued for it, or has halted. -/
def HasRead (network : Network) (d : Nat) : Prop :=
  ∀ node : Node, network.nodes[d]? = some node → node.machine.isHalted = false →
    node.machine.inputs = []

/-- A node that has stopped without halting has read its queue. -/
theorem Node.HasStopped.inputs_eq {node : Node} (h : node.HasStopped)
    (hhalted : node.machine.isHalted = false) : node.machine.inputs = [] := by
  rcases h with hstate | ⟨-, hin, -⟩
  · rw [Node.isHalted_iff.mpr hstate] at hhalted
    exact absurd hhalted (by decide)
  · exact hin

/-- A poll makes the node polled read, and leaves the others as they are. -/
theorem hasRead_poll {rounds index : Nat} {network after : Network} {packets : List Packet}
    {log : Array Line} (h : network.poll rounds index = some ⟨.ok packets, after, log⟩) {d : Nat}
    (hd : d = index ∨ network.HasRead d) : after.HasRead d := by
  obtain ⟨node, polled, hnode, hpoll, rfl⟩ := exists_node_of_poll h
  obtain ⟨hindex, -⟩ := Array.getElem?_eq_some_iff.mp hnode
  intro found hfound hhalted
  by_cases hsame : index = d
  · subst hsame
    obtain rfl : polled = found := by
      simpa [Array.getElem?_setIfInBounds_self_of_lt hindex] using hfound
    exact (Node.hasStopped_of_poll hpoll).inputs_eq hhalted
  · rw [Array.getElem?_setIfInBounds_ne hsame] at hfound
    rcases hd with rfl | hread
    · exact absurd rfl hsame
    · exact hread found hfound hhalted

/-- If nothing is sent in a round, nothing is routed, so what a node has read stays read. -/
theorem hasRead_of_visit {rounds : Nat} {indices : List Nat} {network judged : Network}
    {sent : Array Packet} {log log' : Array Line}
    (h : visit rounds indices network sent log = some ⟨.ok #[], judged, log'⟩) :
    sent = #[] ∧ ∀ d, d ∈ indices ∨ network.HasRead d → judged.HasRead d := by
  induction indices generalizing network sent log with
  | nil =>
    obtain ⟨hsent, rfl, -⟩ := Reply.mk.inj (Option.some.inj h)
    refine ⟨Except.ok.inj hsent, ?_⟩
    rintro d (hmem | hread)
    · exact absurd hmem (List.not_mem_nil)
    · exact hread
  | cons index rest ih =>
    obtain ⟨node, packets, polled, lines, routed, log'', -, hpoll, hroute, hrest, -⟩ :=
      visit_cons h
    obtain ⟨hnone, hread⟩ := ih hrest
    obtain ⟨rfl, rfl⟩ : sent = #[] ∧ packets = [] := by
      have hlist : sent.toList ++ packets = [] := by
        rw [← Array.toList_appendList, hnone]
      obtain ⟨hsent, hpackets⟩ := List.append_eq_nil_iff.mp hlist
      exact ⟨Array.toList_eq_nil_iff.mp hsent, hpackets⟩
    obtain rfl : polled = routed := Except.ok.inj hroute
    refine ⟨rfl, ?_⟩
    intro d hd
    apply hread
    rcases hd with hmem | hd
    · rcases List.mem_cons.mp hmem with rfl | hmem
      · exact .inr (hasRead_poll hpoll (.inl rfl))
      · exact .inl hmem
    · exact .inr (hasRead_poll hpoll (.inr hd))

/-- Once nothing was sent, every node has read when the round is judged. -/
theorem hasRead_of_silent {rounds : Nat} {network judged : Network} {log : Array Line}
    (h : visit rounds (List.range network.nodes.size) network #[] #[] =
      some ⟨.ok #[], judged, log⟩) (d : Nat) : judged.HasRead d := by
  apply (hasRead_of_visit h).2
  by_cases hd : d < network.nodes.size
  · exact .inl (List.mem_range.mpr hd)
  · right
    intro node hnode
    rw [Array.getElem?_eq_none (by omega)] at hnode
    exact absurd hnode (by simp)

/-- Once all nodes have read, a round without packets leaves the network idle exactly if no halted
node has something queued. -/
theorem isIdleAfter_iff_not_clogged {judged : Network} (hread : ∀ d, judged.HasRead d) :
    judged.isIdleAfter #[] = true ↔ ¬ judged.Clogged := by
  rw [isIdleAfter_iff]
  constructor
  · rintro ⟨-, hqueue⟩ ⟨d, node, hnode, -, hin⟩
    exact hin (queue_of_node hnode ▸ hqueue d)
  · intro hclear
    refine ⟨rfl, ?_⟩
    intro d
    cases hnode : judged.nodes[d]? with
    | none => rw [queue, hnode]
    | some node =>
      rw [queue_of_node hnode]
      cases hhalted : node.machine.isHalted with
      | false => exact hread d node hnode hhalted
      | true =>
        apply Decidable.byContradiction
        intro hin
        exact hclear ⟨d, node, hnode, hhalted, hin⟩

/-! ## Halted nodes -/

/-- Nodes that have halted stay so, and their queues only grow. -/
def KeepsHalted (a b : Network) : Prop :=
  ∀ (d : Nat) (node : Node), a.nodes[d]? = some node → node.machine.isHalted = true →
    ∃ later : Node, b.nodes[d]? = some later ∧ later.machine.isHalted = true ∧
      node.machine.inputs <+: later.machine.inputs

/-- Where nodes stay as they are, halted ones stay halted. -/
theorem KeepsHalted.of_nodes_eq {a b : Network} (h : b.nodes = a.nodes) : KeepsHalted a b := by
  intro d node hnode hhalted
  exact ⟨node, h ▸ hnode, hhalted, List.prefix_rfl⟩

/-- Halted nodes stay halted through one change after another. -/
theorem KeepsHalted.trans {a b c : Network} (h : KeepsHalted a b) (h' : KeepsHalted b c) :
    KeepsHalted a c := by
  intro d node hnode hhalted
  obtain ⟨middle, hmiddle, hhalted', hgrown⟩ := h d node hnode hhalted
  obtain ⟨later, hlater, hhalted'', hgrown'⟩ := h' d middle hmiddle hhalted'
  exact ⟨later, hlater, hhalted'', hgrown.trans hgrown'⟩

/-- A packet received can only make the queue of a halted node longer. -/
theorem keepsHalted_receive (network : Network) (index : Nat) (x y : Int) :
    KeepsHalted network (network.receive index x y) := by
  intro d node hnode hhalted
  unfold receive
  rw [Array.getElem?_modify, hnode]
  by_cases hindex : index = d
  · rw [if_pos hindex]
    exact ⟨node.receive x y, rfl, hhalted, List.prefix_append _ _⟩
  · rw [if_neg hindex]
    exact ⟨node, rfl, hhalted, List.prefix_rfl⟩

/-- Polling a halted node does nothing, and polling another changes no halted one. -/
theorem keepsHalted_poll {rounds index : Nat} {network after : Network} {packets : List Packet}
    {log : Array Line} (h : network.poll rounds index = some ⟨.ok packets, after, log⟩) :
    KeepsHalted network after := by
  obtain ⟨polled, left, hpolled, hpoll, rfl⟩ := exists_node_of_poll h
  obtain ⟨hindex, -⟩ := Array.getElem?_eq_some_iff.mp hpolled
  intro d node hnode hhalted
  by_cases hsame : index = d
  · subst hsame
    obtain rfl := Option.some.inj (hpolled.symm.trans hnode)
    rcases Node.poll_eq_ok.mp hpoll with ⟨-, -, rfl, -⟩ | ⟨hrunning, -⟩
    · exact ⟨left, Array.getElem?_setIfInBounds_self_of_lt hindex, hhalted, List.prefix_rfl⟩
    · rw [hhalted] at hrunning
      exact absurd hrunning (by decide)
  · exact ⟨node, (Array.getElem?_setIfInBounds_ne hsame).trans hnode, hhalted, List.prefix_rfl⟩

/-- Rounds keep halted nodes halted, as polls and routing do. -/
theorem steady_keepsHalted : Steady KeepsHalted where
  refl _ := .of_nodes_eq rfl
  trans _ _ _ h h' := h.trans h'
  poll _ _ _ _ _ _ h := keepsHalted_poll h
  route a b source packet h := by
    obtain ⟨-, rfl⟩ := Reply.reached_eq_ok.mp h
    unfold route
    split
    · exact .of_nodes_eq rfl
    · split
      · exact keepsHalted_receive a _ _ _
      · exact .of_nodes_eq rfl

/-- Polls and routing wake nobody. -/
theorem steady_wakes : Steady fun a b => b.wakes = a.wakes where
  refl _ := rfl
  trans _ _ _ h h' := h'.trans h
  poll _ _ _ _ _ _ h := by
    obtain ⟨_, _, -, -, rfl⟩ := exists_node_of_poll h
    rfl
  route _ _ _ _ h := by
    obtain ⟨-, rfl⟩ := Reply.reached_eq_ok.mp h
    unfold route
    split
    · rfl
    · split
      · rfl
      · rfl

/-- A halted node with something queued stays one. -/
theorem Clogged.of_keepsHalted {a b : Network} (hclogged : a.Clogged) (h : KeepsHalted a b) :
    b.Clogged := by
  obtain ⟨d, node, hnode, hhalted, hin⟩ := hclogged
  obtain ⟨later, hlater, hhalted', hgrown⟩ := h d node hnode hhalted
  exact ⟨d, later, hlater, hhalted', fun hnil => hin (List.prefix_nil.mp (hnil ▸ hgrown))⟩

/-! ## Rounds of a clogged network -/

/-- A round that begins clogged ends clogged, wakes nobody and starts the count again. -/
theorem Clogged.runRound {network after : Network} {rounds : Nat} {sent : Array Packet}
    {log : Array Line} (hclogged : network.Clogged)
    (h : network.runRound rounds = some ⟨.ok sent, after, log⟩) :
    after.Clogged ∧ after.wakes = network.wakes ∧ after.idleRounds = 0 := by
  obtain ⟨judged, lines, hvisit, hsettle⟩ := runRound_eq_ok h
  have hjudged := hclogged.of_keepsHalted (steady_keepsHalted.visit hvisit)
  have hwakes := steady_wakes.visit hvisit
  have hbusy : judged.isIdleAfter sent ≠ true := by
    intro hidle
    obtain ⟨d, node, hnode, -, hin⟩ := hjudged
    exact hin (queue_of_node hnode ▸ (isIdleAfter_iff.mp hidle).2 d)
  cases closes_of_settle hsettle with
  | busy _ => exact ⟨hjudged.of_keepsHalted (.of_nodes_eq rfl), hwakes, rfl⟩
  | quiet hidle _ => exact absurd hidle hbusy
  | wake latest hidle _ _ _ => exact absurd hidle hbusy

/-- No round of a run that begins clogged wakes anybody. -/
theorem Clogged.judged {network last : Network} {history : List Judgement}
    (hclogged : network.Clogged) (h : Judged network history last) :
    last.Clogged ∧ last.wakes = network.wakes ∧
      ∀ j ∈ history, j.woken = [] ∧ j.after.wakes = network.wakes ∧ j.after.idleRounds = 0 := by
  induction h with
  | start => exact ⟨hclogged, rfl, by simp⟩
  | @round history middle after rounds sent log _ hround ih =>
    obtain ⟨hmiddle, hwakes, hhistory⟩ := ih
    obtain ⟨hafter, hsame, hcount⟩ := hmiddle.runRound hround
    refine ⟨hafter, hsame.trans hwakes, ?_⟩
    intro j hj
    rcases List.mem_append.mp hj with hj | hj
    · exact hhistory j hj
    · obtain rfl := List.mem_singleton.mp hj
      refine ⟨?_, hsame.trans hwakes, hcount⟩
      rw [Judgement.woken, judgementOf, hsame]
      simp

/-- No wake is repeated in a round without one. -/
theorem repeatedWake?_of_wakes_eq {before after : Network} (h : after.wakes = before.wakes) :
    repeatedWake? before after = none := by
  rw [repeatedWake?, h, if_neg (Nat.lt_irrefl _)]

/-- Waiting for a repeated wake gives none once the network is clogged. -/
theorem Clogged.runUntilRepeatedWake {network : Network} (hclogged : network.Clogged)
    (rounds : Nat) (y : Int) (last : Network) (lines : Array Line) :
    network.runUntilRepeatedWake rounds ≠ some ⟨.ok y, last, lines⟩ := by
  intro h
  obtain ⟨history, final, hjudged, -, hrepeated⟩ := runRoundsUntil_iff.mp ⟨rounds, lines, h⟩
  obtain ⟨before, n, sent, log, hbefore, -, rfl⟩ := judged_concat hjudged
  -- the last round is compared with the one before, and the wakes are the same behind both
  have hsame : last.wakes = before.wakes :=
    (hclogged.judged hjudged).2.1.trans (hclogged.judged hbefore).2.1.symm
  exact absurd ((repeatedWake?_of_wakes_eq hsame).symm.trans hrepeated) (by simp)

/-- In every round that sends nothing and does not fail, each node that has not halted has nothing
queued when the round is judged, so the round is idle just if no halted node has.  From a network
in which some halted node has something queued, no number of rounds that do not fail ever wakes the
first node, the count of idle rounds is zero after each, and waiting for a repeated wake never
returns. -/
theorem never_woken_of_clogged (network : Network) :
    (∀ rounds after log, network.runRound rounds = some ⟨.ok #[], after, log⟩ →
      (∀ (d : Nat) (node : Node),
        (judgementOf rounds network #[] after).judged.nodes[d]? = some node →
        node.machine.isHalted = false → node.machine.inputs = []) ∧
      ((judgementOf rounds network #[] after).isIdle = true ↔
        ¬ (judgementOf rounds network #[] after).judged.Clogged)) ∧
    (network.Clogged →
      (∀ history last, Judged network history last → last.wakes = network.wakes ∧
        ∀ j ∈ history, j.woken = [] ∧ j.after.wakes = network.wakes ∧ j.after.idleRounds = 0) ∧
      ∀ rounds y last lines, network.runUntilRepeatedWake rounds ≠ some ⟨.ok y, last, lines⟩) := by
  refine ⟨?_, ?_⟩
  · intro rounds after log hround
    obtain ⟨judged, lines, hvisit, -⟩ := runRound_eq_ok hround
    have hread := hasRead_of_silent hvisit
    have hjudged : (judgementOf rounds network #[] after).judged = judged := by
      rw [judgementOf, hvisit]
      rfl
    rw [isIdle_eq rfl, hjudged]
    exact ⟨hread, isIdleAfter_iff_not_clogged hread⟩
  · intro hclogged
    refine ⟨?_, ?_⟩
    · intro history last h
      exact (hclogged.judged h).2
    · intro rounds y last lines
      exact hclogged.runUntilRepeatedWake rounds y last lines

/-- The first of two nodes halts before the packet of the second reaches it: although nothing is
sent in the next round, nothing is woken, and the wait for a repeated wake goes on. -/
theorem never_woken_of_clogged_two_nodes :
    ∃ start network next log,
      boot [3, 0, 1005, 0, 6, 99, 104, 0, 104, 5, 104, 6, 3, 0, 1106, 0, 12] {} 2 2 1 = .ok start ∧
      (∃ lines, start.runRound 20 = some ⟨.ok #[⟨0, 5, 6⟩], network, lines⟩) ∧ network.Clogged ∧
      network.runRound 20 = some ⟨.ok #[], next, log⟩ ∧
      (judgementOf 20 network #[] next).isIdle = false ∧ next.wakes = network.wakes ∧
      ∀ y last lines, network.runUntilRepeatedWake 20 ≠ some ⟨.ok y, last, lines⟩ := by
  let program : List Int := [3, 0, 1005, 0, 6, 99, 104, 0, 104, 5, 104, 6, 3, 0, 1106, 0, 12]
  let start : Network := ⟨#[Node.boot program {} 0, Node.boot program {} 1], 2, 1, 0, #[], #[]⟩
  let halted : Machine :=
    { Machine.boot (program.set 0 0) {} with
      ip := 5, state := .halted, current := some ⟨5, 99, .halt, []⟩, inputs := [5, 6] }
  let waiting (read : Int) : Machine :=
    { Machine.boot (program.set 0 read) {} with
      ip := 12, state := .blocked, current := some ⟨12, 3, .input, [.position]⟩,
      pending := some ⟨12, 3, .input, [.position]⟩ }
  let network : Network := ⟨#[⟨0, halted, []⟩, ⟨1, waiting 1, []⟩], 2, 1, 0, #[], #[]⟩
  let next : Network := ⟨#[⟨0, halted, []⟩, ⟨1, waiting (-1), []⟩], 2, 1, 0, #[], #[]⟩
  have hboot : boot program {} 2 2 1 = .ok start := by decide +kernel +zetaReduce
  have hfirst : ∃ lines, start.runRound 20 = some ⟨.ok #[⟨0, 5, 6⟩], network, lines⟩ :=
    Reply.exists_log (by decide +kernel +zetaReduce)
  obtain ⟨log, hsecond⟩ : ∃ log, network.runRound 20 = some ⟨.ok #[], next, log⟩ := Reply.exists_log (by decide +kernel +zetaReduce)
  have hclogged : network.Clogged := ⟨0, ⟨0, halted, []⟩, rfl, rfl, List.cons_ne_nil _ _⟩
  obtain ⟨hsilent, hnever⟩ := never_woken_of_clogged network
  obtain ⟨-, hidle⟩ := hsilent 20 next log hsecond
  obtain ⟨hwakes, hwait⟩ := hnever hclogged
  have hjudged : (judgementOf 20 network #[] next).judged.nodes[0]? = some ⟨0, halted, []⟩ := by
    decide +kernel +zetaReduce
  have hbusy : (judgementOf 20 network #[] next).isIdle = false :=
    Bool.eq_false_iff.mpr fun h => hidle.mp h ⟨0, _, hjudged, rfl, List.cons_ne_nil _ _⟩
  exact ⟨start, network, next, log, hboot, hfirst, hclogged, hsecond, hbusy,
    (hwakes _ next (.round .start hsecond)).1, hwait 20⟩

end IntegerMachine.Network
