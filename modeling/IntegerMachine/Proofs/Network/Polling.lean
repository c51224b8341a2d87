import IntegerMachine.Network.Basic
import IntegerMachine.Proofs.Machine.Production

/-!
# What a node says

A machine writes single values and a node gives packets.  The values of a packet may be written in
different polls, so a node keeps what does not make up a packet yet.  `poll_eq_ok` says all that a
poll can do, and `packets_of_served` is the account of a node's whole life: the packets given, taken
apart again, and what is kept are what the output instructions wrote, in order.
-/

set_option autoImplicit false

namespace IntegerMachine.Network

/-- The values that make up a packet, as they are written. -/
def Packet.values (packet : Packet) : List Int :=
  [packet.destination, packet.x, packet.y]

/-- Making up packets loses no value, and what is left is no packet. -/
theorem values_packetsOf (values : List Int) :
    (packetsOf values).1.flatMap Packet.values ++ (packetsOf values).2 = values ∧
      (packetsOf values).2.length ≤ 2 := by
  fun_induction packetsOf values with
  | case1 destination x y rest packets left hrest ih =>
    rw [hrest] at ih
    obtain ⟨hvalues, hlength⟩ := ih
    refine ⟨?_, hlength⟩
    rw [List.flatMap_cons, List.append_assoc, hvalues]
    rfl
  | case2 left hshort =>
    refine ⟨rfl, ?_⟩
    rcases left with _ | ⟨destination, _ | ⟨x, _ | ⟨y, rest⟩⟩⟩
    · simp
    · simp
    · simp
    · exact absurd rfl (hshort destination x y rest)

namespace Node

/-! ## One poll -/

/-- What the output instructions of the machine of a node write when the node is polled. -/
def written (rounds : Nat) (node : Node) : List Int :=
  if node.machine.isHalted then [] else node.prompted.written rounds

/-- The machine of a node cannot go on by itself, and has nothing to hand over unless it has
halted. -/
def HasStopped (node : Node) : Prop :=
  node.machine.state = .halted ∨
    node.machine.state = .blocked ∧ node.machine.inputs = [] ∧ node.machine.outputs = []

/-- A machine is halted when its suspension says so. -/
theorem isHalted_iff {m : Machine} : m.isHalted = true ↔ m.state = .halted := by
  rw [Machine.isHalted, beq_iff_eq]

/-- A poll that does not fail finds a halted node and leaves it, or runs the machine. -/
theorem poll_eq_ok {rounds : Nat} {node after : Node} {packets : List Packet} {log : Array Line} :
    node.poll rounds = some ⟨.ok packets, after, log⟩ ↔
      (node.machine.isHalted = true ∧ packets = [] ∧ after = node ∧ log = #[]) ∨
        node.machine.isHalted = false ∧ ∃ values machine,
          node.prompted.run rounds = some ⟨.ok values, machine, log⟩ ∧
            packets = (packetsOf (node.buffer ++ values)).1 ∧
            after = { node with machine, buffer := (packetsOf (node.buffer ++ values)).2 } := by
  unfold poll
  cases hhalted : node.machine.isHalted with
  | true => simp [eq_comm]
  | false =>
    cases hrun : node.prompted.run rounds with
    | none => simp
    | some reply =>
      obtain ⟨outcome, machine, lines⟩ := reply
      cases outcome with
      | error fault => simp
      | ok values =>
        constructor
        · intro h
          obtain ⟨hpackets, rfl, rfl⟩ := Reply.mk.inj (Option.some.inj h)
          exact .inr ⟨rfl, values, machine, rfl, (Except.ok.inj hpackets).symm, rfl⟩
        · rintro (⟨hfalse, -⟩ | ⟨-, values', machine', hsame, rfl, rfl⟩)
          · exact absurd hfalse (by decide)
          · obtain ⟨hvalues, rfl, rfl⟩ := Reply.mk.inj (Option.some.inj hsame)
            obtain rfl := Except.ok.inj hvalues
            rfl

/-- Prompting a node keeps the suspension of its machine. -/
theorem prompted_state (node : Node) : node.prompted.state = node.machine.state := by
  unfold prompted
  split
  · rfl
  · rfl

/-- Prompting a node keeps the outputs of its machine. -/
theorem prompted_outputs (node : Node) : node.prompted.outputs = node.machine.outputs := by
  unfold prompted
  split
  · rfl
  · rfl

/-- A poll that does not fail runs the machine until it stops. -/
theorem hasStopped_of_poll {rounds : Nat} {node after : Node} {packets : List Packet}
    {log : Array Line} (h : node.poll rounds = some ⟨.ok packets, after, log⟩) :
    after.HasStopped := by
  rcases poll_eq_ok.mp h with ⟨hhalted, -, rfl, -⟩ | ⟨-, values, machine, hrun, -, rfl⟩
  · exact .inl (isHalted_iff.mp hhalted)
  · obtain ⟨hout, hhalted | ⟨hblocked, hin, -⟩⟩ := Machine.stopped_of_run hrun
    · exact .inl hhalted
    · exact .inr ⟨hblocked, hin, hout⟩

/-- A node that hands over what it has written when it is polled. -/
structure IsClear (node : Node) : Prop where
  outputs_eq : node.machine.outputs = []
  length_buffer_le : node.buffer.length ≤ 2

/-- What a poll gives and keeps is what was kept before and what is written. -/
theorem IsClear.poll {rounds : Nat} {node after : Node} {packets : List Packet} {log : Array Line}
    (hclear : node.IsClear) (h : node.poll rounds = some ⟨.ok packets, after, log⟩) :
    after.IsClear ∧
      packets.flatMap Packet.values ++ after.buffer = node.buffer ++ node.written rounds := by
  unfold written
  rcases poll_eq_ok.mp h with ⟨hhalted, rfl, rfl, -⟩ | ⟨hhalted, values, machine, hrun, rfl, rfl⟩
  · refine ⟨hclear, ?_⟩
    rw [if_pos hhalted, List.append_nil]
    rfl
  · obtain ⟨hout, -⟩ := Machine.stopped_of_run hrun
    obtain ⟨hvalues, hlength⟩ := values_packetsOf (node.buffer ++ values)
    have hwritten : values = node.prompted.written rounds := by
      rw [Machine.values_of_run hrun, prompted_outputs, hclear.outputs_eq, List.nil_append]
    refine ⟨⟨hout, hlength⟩, ?_⟩
    rw [hhalted, if_neg (by decide), ← hwritten]
    exact hvalues

/-! ## The life of a node -/

/-- A poll of a node: the node polled, the packets it gave, what its machine wrote, and the node
left. -/
structure Exchange where
  before : Node
  packets : List Packet
  written : List Int
  after : Node

/-- The nodes that packets received and polls that do not fail lead to, with the record of the
polls. -/
inductive Served (start : Node) : List Exchange → Node → Prop where
  | start : Served start [] start
  | receive {history : List Exchange} {node : Node} (x y : Int) (h : Served start history node) :
      Served start history (node.receive x y)
  | poll {history : List Exchange} {node after : Node} {rounds : Nat} {packets : List Packet}
      {log : Array Line} (h : Served start history node)
      (hpoll : node.poll rounds = some ⟨.ok packets, after, log⟩) :
      Served start (history ++ [⟨node, packets, node.written rounds, after⟩]) after

/-- The steps of a poll: none if the node has halted, and otherwise up to the first that does not
proceed. -/
def Exchange.IsStepped (exchange : Exchange) : Prop :=
  if exchange.before.machine.isHalted then exchange.written = []
  else
    ∃ u signal v, Machine.Advances exchange.before.prompted exchange.written u ∧
      u.step = (.ok signal, v) ∧ signal ≠ .proceed

/-- What is written in a poll is written by the steps of the machine. -/
theorem isStepped_of_poll {rounds : Nat} {node after : Node} {packets : List Packet}
    {log : Array Line} (h : node.poll rounds = some ⟨.ok packets, after, log⟩) :
    Exchange.IsStepped ⟨node, packets, node.written rounds, after⟩ := by
  unfold Exchange.IsStepped written
  rcases poll_eq_ok.mp h with ⟨hhalted, -⟩ | ⟨hhalted, values, machine, hrun, -⟩
  · rw [if_pos hhalted, if_pos hhalted]
  · have hstate : node.prompted.state ≠ .halted := by
      intro heq
      rw [prompted_state, ← isHalted_iff, hhalted] at heq
      exact absurd heq (by decide)
    obtain ⟨u, signal, v, hu, hstep, hsignal, -⟩ := Machine.advances_written hstate hrun
    simp only [hhalted]
    exact ⟨u, signal, v, hu, hstep, hsignal⟩

/-- What holds after every call: the values given and kept are those written. -/
structure Tells (start : Node) (history : List Exchange) (node : Node) : Prop where
  isClear : node.IsClear
  values_eq : (history.flatMap Exchange.packets).flatMap Packet.values ++ node.buffer =
    start.buffer ++ history.flatMap Exchange.written
  exchanged : ∀ exchange ∈ history, exchange.after.buffer.length ≤ 2 ∧
    exchange.after.HasStopped ∧ exchange.IsStepped

/-- The account of values holds after any packets received and polls. -/
theorem tells_of_served {start node : Node} {history : List Exchange} (hstart : start.IsClear)
    (h : Served start history node) : Tells start history node := by
  induction h with
  | start => exact ⟨hstart, (List.append_nil _).symm, by simp⟩
  | receive x y _ ih =>
    obtain ⟨⟨hout, hlength⟩, hvalues, hexchanged⟩ := ih
    exact ⟨⟨hout, hlength⟩, hvalues, hexchanged⟩
  | @poll history node after rounds packets log _ hpoll ih =>
    obtain ⟨hclear, hvalues⟩ := ih.isClear.poll hpoll
    refine ⟨hclear, ?_, ?_⟩
    · simp only [List.flatMap_append, List.flatMap_singleton]
      rw [List.append_assoc, hvalues, ← List.append_assoc, ih.values_eq, List.append_assoc]
    · intro exchange hmem
      rcases List.mem_append.mp hmem with hmem | hmem
      · exact ih.exchanged exchange hmem
      · obtain rfl := List.mem_singleton.mp hmem
        exact ⟨hclear.length_buffer_le, hasStopped_of_poll hpoll, isStepped_of_poll hpoll⟩

/-- For a node that begins with its address queued, after packets received and polls that did not
fail: the packets given, each as its three values, and the values kept are what the output
instructions wrote, in order.  Every poll leaves fewer values than make up a packet, and a machine
that has halted or waits with both its queues empty.  A poll of a halted node gives nothing and
changes nothing. -/
theorem packets_of_served {program : List Int} {settings : Settings} {address : Int}
    {start node : Node} {history : List Exchange}
    (hmachine : start.machine = (Machine.boot program settings).feed address)
    (hbuffer : start.buffer = []) (h : Served start history node) :
    (history.flatMap Exchange.packets).flatMap Packet.values ++ node.buffer =
        history.flatMap Exchange.written ∧
      (∀ exchange ∈ history, exchange.after.buffer.length ≤ 2 ∧ exchange.after.HasStopped ∧
        exchange.IsStepped) ∧
      (node.machine.isHalted = true → ∀ rounds, node.poll rounds = some ⟨.ok [], node, #[]⟩) := by
  have hclear : start.IsClear := by
    constructor
    · rw [hmachine]
      rfl
    · rw [hbuffer]
      decide
  have htells := tells_of_served hclear h
  have hvalues := htells.values_eq
  rw [hbuffer, List.nil_append] at hvalues
  refine ⟨hvalues, htells.exchanged, ?_⟩
  intro hhalted rounds
  exact poll_eq_ok.mpr (.inl ⟨hhalted, rfl, rfl, rfl⟩)

/-- A packet written in two polls, between which nothing is received, by a node that then halts. -/
theorem packets_of_served_cut :
    ∃ start middle last history, start = Node.boot [3, 0, 104, 1, 104, 7, 3, 0, 104, 8, 99] {} 4 ∧
      Served start history last ∧ history.map Exchange.packets = [[], [⟨1, 7, 8⟩]] ∧
      history.map Exchange.after = [middle, last] ∧ middle.buffer = [1, 7] ∧ last.buffer = [] ∧
      history.flatMap Exchange.written = [1, 7, 8] ∧ last.poll 5 = some ⟨.ok [], last, #[]⟩ := by
  let program : List Int := [3, 0, 104, 1, 104, 7, 3, 0, 104, 8, 99]
  let start : Node := Node.boot program {} 4
  let middle : Node :=
    { address := 4
      machine := { Machine.boot (program.set 0 4) {} with
        ip := 6, state := .blocked, current := some ⟨6, 3, .input, [.position]⟩,
        pending := some ⟨6, 3, .input, [.position]⟩ }
      buffer := [1, 7] }
  let last : Node :=
    { address := 4
      machine := { Machine.boot (program.set 0 (-1)) {} with
        ip := 10, state := .halted, current := some ⟨10, 99, .halt, []⟩ }
      buffer := [] }
  obtain ⟨log, hfirst⟩ : ∃ log, start.poll 20 = some ⟨.ok [], middle, log⟩ := ⟨_, rfl⟩
  obtain ⟨log', hsecond⟩ : ∃ log, middle.poll 20 = some ⟨.ok [⟨1, 7, 8⟩], last, log⟩ :=
    ⟨_, rfl⟩
  have hserved := Served.poll (.poll .start hfirst) hsecond
  obtain ⟨hvalues, -, hhalted⟩ := packets_of_served rfl rfl hserved
  exact ⟨start, middle, last, _, rfl, hserved, rfl, rfl, rfl, rfl, hvalues.symm, hhalted rfl 5⟩

end Node

/-- A poll that does not fail puts the node it leaves in the place of the node polled. -/
theorem exists_node_of_poll {rounds index : Nat} {network after : Network}
    {packets : List Packet} {log : Array Line}
    (h : network.poll rounds index = some ⟨.ok packets, after, log⟩) :
    ∃ node polled, network.nodes[index]? = some node ∧
      node.poll rounds = some ⟨.ok packets, polled, log⟩ ∧
      after = { network with nodes := network.nodes.setIfInBounds index polled } := by
  unfold poll at h
  cases hnode : network.nodes[index]? with
  | none => simp [hnode] at h
  | some node =>
    cases hpoll : node.poll rounds with
    | none => simp [hnode, hpoll] at h
    | some reply =>
      obtain ⟨outcome, polled, lines⟩ := reply
      simp only [hnode, hpoll, Option.some.injEq] at h
      obtain ⟨hsent, rfl, rfl⟩ := Reply.mk.inj h
      cases outcome with
      | error fault => nomatch hsent
      | ok sent =>
        obtain rfl := Except.ok.inj hsent
        exact ⟨node, polled, rfl, hpoll, rfl⟩

end IntegerMachine.Network
