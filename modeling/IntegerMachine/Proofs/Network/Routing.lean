import IntegerMachine.Proofs.Network.Calls
import IntegerMachine.Proofs.Network.Silence

/-!
# Packets for unknown addresses

A poll gives all packets at once, and they are routed one by one, so a packet that cannot be routed
takes those behind it along.  `Stop` is the record of a round that ends so.  What was done before is
made up of visits and routing that do not fail, and has the accounts these have; the failing call
changes nothing (`route_eq_error`), so the network left is the one reached before it
(`runRound_stops_at_unknown_address`).
-/

set_option autoImplicit false

namespace IntegerMachine.Network

/-! ## What fails -/

section Failing

variable {rounds : Nat} {network after : Network} {fault : Fault} {log : Array Line}

/-- Routing fails only for an address that no node has and that is not held, and changes nothing
then. -/
theorem route_eq_error {source : Int} {packet : Packet}
    (h : (network.route source packet).outcome = .error fault) :
    fault = .unknownAddress source packet.destination ∧
      packet.destination ≠ network.heldAddress ∧
      ¬ (0 ≤ packet.destination ∧ packet.destination < network.nodes.size) ∧
      (network.route source packet).after = network := by
  unfold route at h ⊢
  by_cases hheld : packet.destination = network.heldAddress
  · rw [if_pos hheld] at h
    exact absurd h (by simp)
  · rw [if_neg hheld] at h ⊢
    by_cases hnode : 0 ≤ packet.destination ∧ packet.destination < network.nodes.size
    · rw [if_pos hnode] at h
      exact absurd h (by simp)
    · rw [if_neg hnode] at h ⊢
      exact ⟨(Except.error.inj h).symm, hheld, hnode, rfl⟩

/-- Routing succeeds exactly if the address is that of the packets held or of a node. -/
theorem route_eq_ok_iff {source : Int} {packet : Packet} :
    (network.route source packet).outcome = .ok () ↔
      packet.destination = network.heldAddress ∨
        0 ≤ packet.destination ∧ packet.destination < network.nodes.size := by
  unfold route
  by_cases hheld : packet.destination = network.heldAddress
  · simp [hheld]
  · by_cases hnode : 0 ≤ packet.destination ∧ packet.destination < network.nodes.size
    · simp [hheld, hnode]
    · simp [hheld, hnode]

/-- Routing fails at a packet for an unknown address, and what it leaves is what the packets in
front of that one lead to. -/
theorem routeAll_eq_error {source : Int} {packets : List Packet}
    (h : network.routeAll source packets = ⟨.error fault, after, log⟩) :
    ∃ (delivered : List Packet) (bad : Packet) (lost : List Packet),
      packets = delivered ++ bad :: lost ∧
      (network.routeAll source delivered).reached = .ok after ∧
      fault = .unknownAddress source bad.destination ∧ bad.destination ≠ after.heldAddress ∧
      ¬ (0 ≤ bad.destination ∧ bad.destination < after.nodes.size) := by
  obtain ⟨delivered, bad, lost, middle, hsplit, hreached, hbad, hafter⟩ := Reply.each_eq_error h
  obtain ⟨hfault, hheld, hnode, hsame⟩ := route_eq_error hbad
  obtain rfl : middle = after := hsame.symm.trans hafter
  exact ⟨delivered, bad, lost, hsplit, hreached, hfault, hheld, hnode⟩

/-- A poll fails with a fault of its machine, or because there is no such node. -/
theorem poll_eq_error {index : Nat}
    (h : network.poll rounds index = some ⟨.error fault, after, log⟩) :
    (∃ inner, fault = .machine inner) ∨ fault = .missingNode index := by
  unfold poll at h
  cases hnode : network.nodes[index]? with
  | none =>
    simp only [hnode, Option.some.injEq, Reply.mk.injEq, Except.error.injEq] at h
    exact .inr h.1.symm
  | some node =>
    rcases hpoll : node.poll rounds with _ | ⟨inner | packets, polled, lines⟩
    · simp [hnode, hpoll] at h
    · simp only [hnode, hpoll, Except.mapError, Option.some.injEq, Reply.mk.injEq,
        Except.error.injEq] at h
      exact .inl ⟨inner, h.1.symm⟩
    · simp [hnode, hpoll, Except.mapError] at h

/-- Closing a round fails only when the network has nothing more to wait for. -/
theorem settle_eq_error {sent : Array Packet} (h : (network.settle sent).outcome = .error fault) :
    fault = .allHalted ∨ fault = .missingNode 0 := by
  unfold settle at h
  split at h
  · exact .inl (Except.error.inj h).symm
  · split at h
    · simp only at h
      split at h
      · rename_i hdue
        unfold wake at h
        split at h
        · rename_i hnone
          -- a wake is only tried with a packet held
          rw [Array.back?_eq_none_iff] at hnone
          rw [hnone] at hdue
          exact absurd hdue.2 (by simp)
        · simp only at h
          split at h
          · exact .inr (Except.error.inj h).symm
          · exact absurd h (by simp)
      · exact absurd h (by simp)
    · exact absurd h (by simp)

/-- The visits of a round fail in a poll or in the routing behind it, after visits that do not. -/
theorem visit_eq_error {indices : List Nat} {sent : Array Packet} {earlier : Array Line}
    (h : visit rounds indices network sent earlier = some ⟨.error fault, after, log⟩) :
    ∃ before index rest sent' midway lines, indices = before ++ index :: rest ∧
      visit rounds before network sent earlier = some ⟨.ok sent', midway, lines⟩ ∧
      ((∃ more, midway.poll rounds index = some ⟨.error fault, after, more⟩) ∨
        ∃ packets polled more routed, midway.poll rounds index = some ⟨.ok packets, polled, more⟩ ∧
          polled.routeAll index packets = ⟨.error fault, after, routed⟩) := by
  induction indices generalizing network sent earlier with
  | nil => exact absurd h (by simp [visit])
  | cons index rest ih =>
    rw [visit] at h
    rcases hpoll : network.poll rounds index with _ | ⟨found | packets, polled, lines⟩
    · simp [hpoll] at h
    · simp only [hpoll, Option.some.injEq, Reply.mk.injEq, Except.error.injEq] at h
      obtain ⟨rfl, rfl, -⟩ := h
      exact ⟨[], index, rest, sent, network, earlier, rfl, rfl, .inl ⟨lines, hpoll⟩⟩
    · rcases hroute : polled.routeAll index packets with ⟨found | _, routed, more⟩
      · simp only [hpoll, hroute, Reply.withLog, Option.some.injEq, Reply.mk.injEq,
          Except.error.injEq] at h
        obtain ⟨rfl, rfl, -⟩ := h
        exact ⟨[], index, rest, sent, network, earlier, rfl, rfl,
          .inr ⟨packets, polled, lines, more, hpoll, hroute⟩⟩
      · simp only [hpoll, hroute, Reply.withLog] at h
        obtain ⟨before, last, behind, sent', midway, lines', rfl, hvisit, hend⟩ := ih h
        refine ⟨index :: before, last, behind, sent', midway, lines', rfl, ?_, hend⟩
        rw [visit]
        simp only [hpoll, hroute, Reply.withLog]
        exact hvisit

/-- A round fails in polling the nodes or in closing. -/
theorem runRound_eq_error (h : network.runRound rounds = some ⟨.error fault, after, log⟩) :
    (∃ lines, visit rounds (List.range network.nodes.size) network #[] #[] =
        some ⟨.error fault, after, lines⟩) ∨
      ∃ (judged : Network) (sent : Array Packet), (judged.settle sent).outcome = .error fault := by
  unfold runRound at h
  rcases hvisit : visit rounds (List.range network.nodes.size) network #[] #[] with
    _ | ⟨found | sent, judged, lines⟩
  · simp [hvisit] at h
  · simp only [hvisit, Option.some.injEq] at h
    exact .inl ⟨log, congrArg some h⟩
  · rcases hsettle : judged.settle sent with ⟨found | _, settled, more⟩
    · simp only [hvisit, hsettle, Option.some.injEq, Reply.mk.injEq, Except.error.injEq] at h
      obtain ⟨rfl, -⟩ := h
      exact .inr ⟨judged, sent, by rw [hsettle]⟩
    · simp [hvisit, hsettle] at h

/-- A round never tries to wake without a packet held. -/
theorem runRound_ne_nothingHeld :
    network.runRound rounds ≠ some ⟨.error .nothingHeld, after, log⟩ := by
  intro h
  rcases runRound_eq_error h with ⟨lines, hvisit⟩ | ⟨judged, sent, hsettle⟩
  · obtain ⟨_, _, _, _, midway, _, -, -, ⟨_, hpoll⟩ | ⟨_, _, _, _, -, hroute⟩⟩ :=
      visit_eq_error hvisit
    · rcases poll_eq_error hpoll with ⟨_, hfault⟩ | hfault
      · exact absurd hfault (by simp)
      · exact absurd hfault (by simp)
    · obtain ⟨_, _, _, -, -, hfault, -⟩ := routeAll_eq_error hroute
      exact absurd hfault (by simp)
  · rcases settle_eq_error hsettle with hfault | hfault
    · exact absurd hfault (by simp)
    · exact absurd hfault (by simp)

end Failing

/-! ## What reaches a node -/

/-- Queues the values of packets, in order. -/
def Node.receiveAll (node : Node) (packets : List Packet) : Node :=
  { node with machine := node.machine.feedAll (packets.flatMap fun packet => [packet.x, packet.y]) }

/-- Receiving no packets changes nothing. -/
@[simp] theorem Node.receiveAll_nil (node : Node) : node.receiveAll [] = node := by
  rw [receiveAll, List.flatMap_nil, Machine.feedAll_nil]

/-- Packets received in two lists are received as one. -/
theorem Node.receiveAll_receiveAll (node : Node) (first second : List Packet) :
    (node.receiveAll first).receiveAll second = node.receiveAll (first ++ second) := by
  simp only [receiveAll, Machine.feedAll_feedAll, List.flatMap_append]

/-- Packets queued for a node after others, if there is the node. -/
theorem Node.map_receiveAll_receiveAll (node : Option Node) (first second : List Packet) :
    (node.map fun m => m.receiveAll first).map (fun m => m.receiveAll second) =
      node.map fun m => m.receiveAll (first ++ second) := by
  cases node with
  | none => rfl
  | some node => exact congrArg some (node.receiveAll_receiveAll first second)

section Effects

variable {rounds d : Nat} {network after : Network}

/-- A packet routed is received by the node it is for, and by no other. -/
theorem nodes_route {source : Int} {packet : Packet} (hapart : network.HeldApart)
    (h : (network.route source packet).reached = .ok after) :
    after.nodes[d]? =
      network.nodes[d]?.map fun node => node.receiveAll ([packet].filter (Packet.isFor d)) := by
  obtain ⟨houtcome, rfl⟩ := Reply.reached_eq_ok.mp h
  cases hnode : network.nodes[d]? with
  | none =>
    have hsize := (SameShape.route network source packet).size_eq
    rw [Array.getElem?_eq_none_iff] at hnode
    rw [Option.map_none, Array.getElem?_eq_none_iff]
    omega
  | some node =>
    obtain ⟨hd, -⟩ := Array.getElem?_eq_some_iff.mp hnode
    rcases route_eq_ok_iff.mp houtcome with hheld | hdestination
    · -- no node has the address of the packets held
      have hother : Packet.isFor d packet = false := by
        rw [Packet.isFor, beq_eq_false_iff_ne, hheld]
        exact (hapart d hd).symm
      simpa [route, hheld, hother] using hnode
    · have hheld : packet.destination ≠ network.heldAddress := by
        have := hapart packet.destination.toNat (by omega)
        omega
      unfold route
      rw [if_neg hheld, if_pos hdestination]
      simp only [receive, Array.getElem?_modify, hnode, Option.map_some]
      by_cases hsame : packet.destination = (d : Int)
      · have htoNat : packet.destination.toNat = d := by omega
        simp [Packet.isFor, hsame, Node.receive, Node.receiveAll]
      · have hother : Packet.isFor d packet = false := by
          rw [Packet.isFor, beq_eq_false_iff_ne]
          exact hsame
        have htoNat : packet.destination.toNat ≠ d := by omega
        simp [hother, htoNat]

/-- What routing does to a node is to queue the packets for it, in order. -/
theorem nodes_routeAll {source : Int} {packets : List Packet} (hapart : network.HeldApart)
    (h : (network.routeAll source packets).reached = .ok after) :
    after.nodes[d]? =
      network.nodes[d]?.map fun node => node.receiveAll (packets.filter (Packet.isFor d)) := by
  rw [routeAll, Reply.reached_each] at h
  induction packets generalizing network with
  | nil =>
    obtain rfl := Except.ok.inj h
    simp
  | cons packet rest ih =>
    rw [List.foldlM_cons] at h
    obtain ⟨routed, hroute, hrest⟩ := bind_eq_ok.mp h
    have hfirst := moves_route hapart hroute
    rw [ih (hapart.of_moves hfirst) hrest, nodes_route hapart hroute,
      Node.map_receiveAll_receiveAll, ← List.filter_append]
    rfl

/-- A node that is not visited has the packets for it queued and is left alone otherwise. -/
theorem nodes_visit {indices : List Nat} {sent sent' : Array Packet} {log log' : Array Line}
    (hapart : network.HeldApart) (hd : d ∉ indices)
    (h : visit rounds indices network sent log = some ⟨.ok sent', after, log'⟩) :
    after.nodes[d]? = network.nodes[d]?.map fun node => node.receiveAll
      (((visitsOf rounds indices network).flatMap Visit.sent).filter (Packet.isFor d)) := by
  induction indices generalizing network sent log with
  | nil =>
    obtain ⟨-, rfl, -⟩ := Reply.mk.inj (Option.some.inj h)
    simp [visitsOf]
  | cons index rest ih =>
    obtain ⟨node, packets, polled, lines, routed, log'', hnode, hpoll, hroute, hrest, hvisits⟩ :=
      visit_cons h
    obtain ⟨hne, hlater⟩ := List.ne_and_not_mem_of_not_mem_cons hd
    have hmoved := moves_poll hnode hpoll
    have hfirst := hmoved.trans (moves_routeAll (hapart.of_moves hmoved) hroute)
    obtain ⟨_, left, -, -, rfl⟩ := exists_node_of_poll hpoll
    rw [ih (hapart.of_moves hfirst) hlater hrest, nodes_routeAll (hapart.of_moves hmoved) hroute,
      Array.getElem?_setIfInBounds_ne (Ne.symm hne), Node.map_receiveAll_receiveAll, hvisits,
      List.flatMap_cons, List.filter_append]

end Effects

/-- A poll that gives packets runs the machine, and takes the packets out of the buffer. -/
theorem Node.exists_values_of_poll {rounds : Nat} {node after : Node} {packets : List Packet}
    {log : Array Line} (hpackets : packets ≠ [])
    (h : node.poll rounds = some ⟨.ok packets, after, log⟩) :
    ∃ values, node.prompted.run rounds = some ⟨.ok values, after.machine, log⟩ ∧
      packets.flatMap Packet.values ++ after.buffer = node.buffer ++ values ∧
      after.buffer.length ≤ 2 := by
  rcases Node.poll_eq_ok.mp h with ⟨-, hnone, -, -⟩ | ⟨-, values, machine, hrun, rfl, rfl⟩
  · exact absurd hnone hpackets
  · exact ⟨values, hrun, values_packetsOf (node.buffer ++ values)⟩

/-! ## The round that stops -/

/-- A round that a packet for an unknown address ended. -/
structure Stop where
  /-- The node that sent the packet. -/
  index : Nat
  /-- The packets of the nodes polled before. -/
  earlier : Array Packet
  /-- The network that the polls before left. -/
  midway : Network
  /-- The node before its poll and behind it. -/
  polled : Node
  left : Node
  /-- The packets of this poll in front of the bad one, and those behind it. -/
  delivered : List Packet
  bad : Packet
  lost : List Packet

namespace Stop

/-- The packets that were routed, in order. -/
def routed (stop : Stop) : List Packet :=
  stop.earlier.toList ++ stop.delivered

/-- The polls of the round, the last with the packets of it that were delivered. -/
def visits (stop : Stop) (rounds : Nat) (network : Network) : List Visit :=
  visitsOf rounds (List.range stop.index) network ++
    [⟨stop.index, stop.polled.isPrompted, stop.polled.taken rounds, stop.delivered⟩]

/-- The network with the node as its poll left it. -/
def behindPoll (stop : Stop) : Network :=
  { stop.midway with nodes := stop.midway.nodes.setIfInBounds stop.index stop.left }

/-- How a round comes to stop: the nodes before are polled and what they send is delivered, and the
poll of the next gives a packet for an address that is none. -/
structure IsMade (stop : Stop) (rounds : Nat) (network : Network) : Prop where
  visit_eq : ∃ log, visit rounds (List.range stop.index) network #[] #[] =
    some ⟨.ok stop.earlier, stop.midway, log⟩
  polled_eq : stop.midway.nodes[stop.index]? = some stop.polled
  poll_eq : ∃ log, stop.polled.poll rounds =
    some ⟨.ok (stop.delivered ++ stop.bad :: stop.lost), stop.left, log⟩
  destination_ne : stop.bad.destination ≠ network.heldAddress
  destination_not_mem :
    ¬ (0 ≤ stop.bad.destination ∧ stop.bad.destination < network.nodes.size)

/-- What a round that stops leaves. -/
structure Leaves (stop : Stop) (rounds : Nat) (network after : Network) : Prop where
  /-- The packets in front of the bad one are routed, and nothing is done behind them. -/
  routed_eq : (stop.behindPoll.routeAll stop.index stop.delivered).reached = .ok after
  /-- All packets of the poll are out of the buffer, the bad one and those behind it too. -/
  values_eq : ∃ values log,
    stop.polled.prompted.run rounds = some ⟨.ok values, stop.left.machine, log⟩ ∧
    (stop.delivered ++ stop.bad :: stop.lost).flatMap Packet.values ++ stop.left.buffer =
      stop.polled.buffer ++ values
  length_buffer_le : stop.left.buffer.length ≤ 2
  /-- Besides its queue, every node is as its poll left it. -/
  nodes_eq : ∀ d : Nat, after.nodes[d]? = stop.behindPoll.nodes[d]?.map fun node =>
    node.receiveAll (stop.delivered.filter (Packet.isFor d))
  /-- Besides its queue, a node behind the one that stopped the round is as it was. -/
  unvisited_eq : ∀ d : Nat, stop.index < d → after.nodes[d]? = network.nodes[d]?.map fun node =>
    node.receiveAll (stop.routed.filter (Packet.isFor d))
  /-- The packets routed reach the nodes and those held, and no others do. -/
  moves : Moves network after (stop.routed.filter (Packet.isFor network.heldAddress)) []
    (fun d => (stop.visits rounds network).flatMap (Visit.takenBy d))
    (fun d => (stop.visits rounds network).flatMap (Visit.blocksFor d))
  wakes_eq : after.wakes = network.wakes
  sameCount : SameCount network after

variable {stop : Stop} {rounds : Nat} {network after : Network}

/-- Up to the bad packet a round is made up of polls and routing that do not fail. -/
theorem IsMade.leaves (hapart : network.HeldApart) (hmade : stop.IsMade rounds network)
    (hrouted : (stop.behindPoll.routeAll stop.index stop.delivered).reached = .ok after) :
    stop.Leaves rounds network after := by
  obtain ⟨⟨log, hvisit⟩, hpolled, ⟨lines, hpoll⟩, -, -⟩ := hmade
  have hnetwork : stop.midway.poll rounds stop.index =
      some ⟨.ok (stop.delivered ++ stop.bad :: stop.lost), stop.behindPoll, lines⟩ := by
    rw [Network.poll, hpolled]
    simp only [hpoll]
    rfl
  -- three stretches: nodes visited before, the poll itself, packets routed up to the bad one
  obtain ⟨-, hsent, hvisited⟩ := moves_visit hapart hvisit
  have hsent : stop.earlier.toList =
      (visitsOf rounds (List.range stop.index) network).flatMap Visit.sent := hsent
  have hmidway := hapart.of_moves hvisited
  have hmoved := moves_poll hpolled hnetwork
  have hbehind := hmidway.of_moves hmoved
  have hrouting := moves_routeAll hbehind hrouted
  have hnodes := fun d => nodes_routeAll (d := d) hbehind hrouted
  obtain ⟨values, hrun, hvalues, hlength⟩ := Node.exists_values_of_poll (by simp) hpoll
  refine ⟨hrouted, ⟨values, lines, hrun, hvalues⟩, hlength, hnodes, ?_, ?_, ?_, ?_⟩
  · intro d hd
    have hunvisited : d ∉ List.range stop.index := by
      rw [List.mem_range]
      omega
    have hbehindPoll : stop.behindPoll.nodes[d]? = stop.midway.nodes[d]? :=
      Array.getElem?_setIfInBounds_ne (by omega)
    rw [hnodes, hbehindPoll, nodes_visit hapart hunvisited hvisit, ← hsent,
      Node.map_receiveAll_receiveAll, ← List.filter_append]
    rfl
  · have hall := hvisited.trans (hmoved.trans hrouting)
    rw [hmoved.heldAddress_eq, hvisited.heldAddress_eq, ← hsent] at hall
    simpa only [routed, visits, List.filter_append, List.flatMap_append, List.flatMap_singleton,
      Visit.takenBy, Visit.blocksFor, List.nil_append, List.append_nil] using hall
  · exact (steady_wakes.routeAll hrouted).trans
      ((steady_wakes.poll _ _ _ _ _ _ hnetwork).trans (steady_wakes.visit hvisit))
  · exact steady_sameCount.trans _ _ _ (steady_sameCount.visit hvisit)
      (steady_sameCount.trans _ _ _ (steady_sameCount.poll _ _ _ _ _ _ hnetwork)
        (steady_sameCount.routeAll hrouted))

end Stop

/-- In front of a number in a range stand the smaller ones. -/
theorem eq_range_of_append {n index : Nat} {before rest : List Nat}
    (h : List.range n = before ++ index :: rest) : before = List.range index := by
  rw [List.range_eq_range', List.range'_eq_append_iff] at h
  obtain ⟨k, -, rfl, hrest⟩ := h
  obtain ⟨hindex, -, -⟩ := List.range'_eq_cons_iff.mp hrest.symm
  rw [List.range_eq_range', ← hindex]
  simp

/-- A round that fails for an unknown address stops at a packet for it. -/
theorem exists_stop {rounds : Nat} {network after : Network} {source destination : Int}
    {log : Array Line} (hapart : network.HeldApart)
    (h : network.runRound rounds = some ⟨.error (.unknownAddress source destination), after, log⟩) :
    ∃ stop : Stop, stop.IsMade rounds network ∧ stop.Leaves rounds network after ∧
      source = stop.index ∧ destination = stop.bad.destination := by
  obtain ⟨lines, hvisit⟩ | ⟨judged, sent, hsettle⟩ := runRound_eq_error h
  · obtain ⟨before, index, rest, earlier, midway, more, hsplit, hbefore,
      ⟨_, hpoll⟩ | ⟨packets, polled, _, _, hpoll, hroute⟩⟩ := visit_eq_error hvisit
    · rcases poll_eq_error hpoll with ⟨_, hfault⟩ | hfault
      · exact absurd hfault (by simp)
      · exact absurd hfault (by simp)
    · obtain rfl := eq_range_of_append hsplit
      obtain ⟨delivered, bad, lost, rfl, hrouted, hfault, hheld, hnode⟩ := routeAll_eq_error hroute
      obtain ⟨hsource, hdestination⟩ := Fault.unknownAddress.inj hfault
      obtain ⟨node, left, hfound, hleft, rfl⟩ := exists_node_of_poll hpoll
      have hshape := ((SameShape.visit hbefore).trans (.poll hpoll)).trans
        (.routeAll _ index delivered)
      obtain ⟨-, hafter⟩ := Reply.reached_eq_ok.mp hrouted
      rw [hafter] at hshape
      rw [hshape.heldAddress_eq] at hheld
      rw [hshape.size_eq] at hnode
      let stop : Stop := ⟨index, earlier, midway, node, left, delivered, bad, lost⟩
      have hmade : stop.IsMade rounds network :=
        ⟨⟨_, hbefore⟩, hfound, ⟨_, hleft⟩, hheld, hnode⟩
      exact ⟨stop, hmade, hmade.leaves hapart hrouted, hsource, hdestination⟩
  · rcases settle_eq_error hsettle with hfault | hfault
    · exact absurd hfault (by simp)
    · exact absurd hfault (by simp)

/-- In a network that calls lead to, a round that fails for an unknown address is one that stops at
a packet for it: what the nodes before sent is delivered, and of the poll that gave the packet those
in front of it; the packet and those behind it are nowhere; the nodes behind are not polled.  No
round fails for want of a packet held.  Routing fails exactly for addresses that neither are those
of nodes nor the one whose packets are held, and for the latter it leaves all nodes alone. -/
theorem runRound_stops_at_unknown_address {program : List Int} {settings : Settings}
    {size heldAddress threshold : Int} {start network : Network}
    (hboot : boot program settings size heldAddress threshold = .ok start)
    (h : Reachable start network) :
    (∀ rounds source destination after log,
      network.runRound rounds = some ⟨.error (.unknownAddress source destination), after, log⟩ →
        ∃ stop : Stop, stop.IsMade rounds network ∧ stop.Leaves rounds network after ∧
          source = stop.index ∧ destination = stop.bad.destination) ∧
      (∀ rounds after log, network.runRound rounds ≠ some ⟨.error .nothingHeld, after, log⟩) ∧
      ∀ source packet,
        ((network.route source packet).outcome = .ok () ↔
          packet.destination = heldAddress ∨
            0 ≤ packet.destination ∧ packet.destination < size) ∧
        (packet.destination = heldAddress →
          (network.route source packet).after.nodes = network.nodes) := by
  obtain ⟨hnodes, hheldAddress, -, -, hapart⟩ := boot_eq_ok hboot
  obtain ⟨hsize, hsame⟩ := h.sameShape
  have hsize : network.nodes.size = size.toNat := by
    rw [hsize, hnodes]
    simp
  have hheldAddress : network.heldAddress = heldAddress := hsame.trans hheldAddress
  refine ⟨?_, ?_, ?_⟩
  · intro rounds source destination after log hround
    exact exists_stop (h.heldApart hapart) hround
  · intro rounds after log
    exact runRound_ne_nothingHeld
  · intro source packet
    refine ⟨?_, ?_⟩
    · rw [route_eq_ok_iff, hheldAddress, hsize]
      omega
    · intro hdestination
      rw [route, if_pos (hdestination.trans hheldAddress.symm)]

/-- The first of three nodes sends a packet to the last, one to an address that is none, and one to
be held: only the first of them is delivered, and the second node is not polled. -/
theorem runRound_stops_at_unknown_address_between :
    ∃ start after log stop,
      boot [3, 0, 104, 2, 104, 5, 104, 6, 104, 9, 104, 1, 104, 2, 104, 255, 104, 3, 104, 4, 99]
          {} 3 255 1 = .ok start ∧
        Reachable start start ∧
        start.runRound 40 = some ⟨.error (.unknownAddress 0 9), after, log⟩ ∧
        Stop.Leaves stop 40 start after ∧ stop.index = 0 ∧ stop.bad.destination = 9 ∧
        after.queue 1 = [1] ∧ after.queue 2 = [2, 5, 6] ∧ after.held = #[] := by
  let program : List Int :=
    [3, 0, 104, 2, 104, 5, 104, 6, 104, 9, 104, 1, 104, 2, 104, 255, 104, 3, 104, 4, 99]
  let start : Network := ⟨#[Node.boot program {} 0, Node.boot program {} 1,
    Node.boot program {} 2], 255, 1, 0, #[], #[]⟩
  let halted : Machine :=
    { Machine.boot (program.set 0 0) {} with
      ip := 20, state := .halted, current := some ⟨20, 99, .halt, []⟩ }
  let after : Network := ⟨#[⟨0, halted, []⟩, Node.boot program {} 1,
    (Node.boot program {} 2).receive 5 6], 255, 1, 0, #[], #[]⟩
  have hboot : boot program {} 3 255 1 = .ok start := by decide +kernel +zetaReduce
  obtain ⟨log, hround⟩ : ∃ log,
      start.runRound 40 = some ⟨.error (.unknownAddress 0 9), after, log⟩ := Reply.exists_log (by decide +kernel +zetaReduce)
  obtain ⟨hstops, -, -⟩ := runRound_stops_at_unknown_address hboot .start
  obtain ⟨stop, -, hleaves, hindex, hbad⟩ := hstops 40 0 9 after log hround
  exact ⟨start, after, log, stop, hboot, .start, hround, hleaves, by omega, hbad.symm, rfl, rfl,
    rfl⟩

end IntegerMachine.Network
