import IntegerMachine.Proofs.Network.History
import IntegerMachine.Proofs.Network.Polling
import Mathlib.Control.Monad.Basic

/-!
# Delivery

Every operation of a network moves values: a poll takes some from one queue, routing and waking
put some into others.  `Moves` keeps account of one operation for all nodes at once, and
accounts of operations one after another add up, so each operation needs its account only, and
rounds and runs of rounds have theirs by adding up.  `deliveries_of_reached` is the account from
the start.
-/

set_option autoImplicit false

namespace IntegerMachine.Network

/-- What is queued for a node. -/
def queue (network : Network) (d : Nat) : List Int :=
  match network.nodes[d]? with
  | none => []
  | some node => node.machine.inputs

/-- The queue of a node is that of its machine. -/
theorem queue_of_node {network : Network} {d : Nat} {node : Node}
    (h : network.nodes[d]? = some node) : network.queue d = node.machine.inputs := by
  rw [queue, h]

/-- The account of what happened between two networks: packets held, packets that woke the first
node, and for every node what it took and what reached it. -/
structure Moves (before after : Network) (held woken : List Packet) (taken : Nat → List Int)
    (blocks : Nat → List Block) : Prop where
  size_eq : after.nodes.size = before.nodes.size
  heldAddress_eq : after.heldAddress = before.heldAddress
  held_eq : after.held.toList = before.held.toList ++ held
  wakes_eq : after.wakes.toList = before.wakes.toList ++ woken
  queue_eq : ∀ d, d < before.nodes.size →
    taken d ++ after.queue d = before.queue d ++ (blocks d).flatMap Block.values

namespace Moves

variable {a b c : Network} {held held' woken woken' : List Packet} {taken taken' : Nat → List Int}
  {blocks blocks' : Nat → List Block}

/-- Nothing has happened between a network and itself. -/
theorem refl (a : Network) : Moves a a [] [] (fun _ => []) (fun _ => []) where
  size_eq := rfl
  heldAddress_eq := rfl
  held_eq := (List.append_nil _).symm
  wakes_eq := (List.append_nil _).symm
  queue_eq := by
    intro d _
    rw [List.nil_append, List.flatMap_nil, List.append_nil]

/-- Accounts add up. -/
theorem trans (h : Moves a b held woken taken blocks) (h' : Moves b c held' woken' taken' blocks') :
    Moves a c (held ++ held') (woken ++ woken') (fun d => taken d ++ taken' d)
      (fun d => blocks d ++ blocks' d) where
  size_eq := h'.size_eq.trans h.size_eq
  heldAddress_eq := h'.heldAddress_eq.trans h.heldAddress_eq
  held_eq := by rw [h'.held_eq, h.held_eq, List.append_assoc]
  wakes_eq := by rw [h'.wakes_eq, h.wakes_eq, List.append_assoc]
  queue_eq := by
    intro d hd
    have hfirst := h.queue_eq d hd
    have hsecond := h'.queue_eq d (h.size_eq ▸ hd)
    calc (taken d ++ taken' d) ++ c.queue d
        = taken d ++ (b.queue d ++ (blocks' d).flatMap Block.values) := by
          rw [List.append_assoc, hsecond]
      _ = a.queue d ++ (blocks d ++ blocks' d).flatMap Block.values := by
          rw [← List.append_assoc, hfirst, List.append_assoc, List.flatMap_append]

end Moves

/-- No node has the address of the packets held. -/
def HeldApart (network : Network) : Prop :=
  ∀ d : Nat, d < network.nodes.size → (d : Int) ≠ network.heldAddress

/-- No node gets the address of the packets held, as nodes and address stay. -/
theorem HeldApart.of_moves {before after : Network} {held woken : List Packet}
    {taken : Nat → List Int} {blocks : Nat → List Block} (hapart : before.HeldApart)
    (h : Moves before after held woken taken blocks) : after.HeldApart := by
  intro d hd
  rw [h.heldAddress_eq]
  exact hapart d (h.size_eq ▸ hd)

/-! ## Polls -/

/-- What a poll takes, and what it leaves, is what was queued with the idle value if there was
need of it. -/
theorem Node.inputs_poll {rounds : Nat} {node after : Node} {packets : List Packet}
    {log : Array Line} (h : node.poll rounds = some ⟨.ok packets, after, log⟩) :
    node.taken rounds ++ after.machine.inputs =
      node.machine.inputs ++ if node.isPrompted then [idleInput] else [] := by
  unfold Node.taken Node.isPrompted
  rcases Node.poll_eq_ok.mp h with ⟨hhalted, -, rfl, -⟩ | ⟨hhalted, values, machine, hrun, -, rfl⟩
  · simp [hhalted]
  · have hprompted : node.prompted.inputs =
        node.machine.inputs ++ if node.isIdle then [idleInput] else [] := by
      unfold Node.prompted
      by_cases hidle : node.isIdle = true
      · rw [if_pos hidle, if_pos hidle]
        rfl
      · rw [if_neg hidle, if_neg hidle, List.append_nil]
    have htaken := Machine.inputs_eq_taken_append hrun
    rw [hhalted, if_neg (by decide), ← htaken, hprompted]
    rfl

/-- Putting a node in its place changes the queue there and no other. -/
theorem queue_setIfInBounds {network : Network} {index : Nat}
    (hindex : index < network.nodes.size) (node : Node) (d : Nat) :
    ({ network with nodes := network.nodes.setIfInBounds index node } : Network).queue d =
      if index = d then node.machine.inputs else network.queue d := by
  unfold queue
  by_cases hd : index = d
  · subst hd
    simp [hindex]
  · simp only [Array.getElem?_setIfInBounds_ne hd, if_neg hd]

/-- A poll changes the node polled only. -/
theorem moves_poll {rounds index : Nat} {network after : Network} {node : Node}
    {packets : List Packet} {log : Array Line} (hnode : network.nodes[index]? = some node)
    (h : network.poll rounds index = some ⟨.ok packets, after, log⟩) :
    Moves network after [] [] (fun d => if index = d then node.taken rounds else [])
      (fun d => if index = d ∧ node.isPrompted then [.idle] else []) := by
  obtain ⟨hindex, -⟩ := Array.getElem?_eq_some_iff.mp hnode
  obtain ⟨found, polled, hfound, hpoll, rfl⟩ := exists_node_of_poll h
  obtain rfl := Option.some.inj (hnode.symm.trans hfound)
  refine ⟨by simp, rfl, by simp, by simp, ?_⟩
  intro d _
  rw [queue_setIfInBounds hindex]
  by_cases hd : index = d
  · subst hd
    rw [if_pos rfl, if_pos rfl, Node.inputs_poll hpoll, queue_of_node hnode]
    by_cases hprompted : node.isPrompted = true
    · rw [if_pos hprompted, if_pos ⟨rfl, hprompted⟩]
      rfl
    · rw [if_neg hprompted, if_neg (by simp [hprompted])]
      rfl
  · rw [if_neg hd, if_neg hd, if_neg (by simp [hd]), List.flatMap_nil, List.append_nil]
    rfl

/-! ## Routing and waking -/

/-- A packet received goes to the end of one queue. -/
theorem queue_receive {network : Network} {d : Nat} (hd : d < network.nodes.size) (index : Nat)
    (x y : Int) :
    (network.receive index x y).queue d =
      network.queue d ++ if index = d then [x, y] else [] := by
  unfold queue receive
  rw [Array.getElem?_modify, Array.getElem?_eq_getElem hd]
  by_cases hindex : index = d
  · rw [if_pos hindex, if_pos hindex]
    rfl
  · rw [if_neg hindex, if_neg hindex, List.append_nil]

/-- A packet goes to the node it is sent to, or is held. -/
theorem moves_route {network after : Network} {source : Int} {packet : Packet}
    (hapart : network.HeldApart) (h : (network.route source packet).reached = .ok after) :
    Moves network after ([packet].filter (Packet.isFor network.heldAddress)) [] (fun _ => [])
      (fun d => ([packet].filter (Packet.isFor d)).map Packet.block) := by
  unfold route at h
  by_cases hheld : packet.destination = network.heldAddress
  · rw [if_pos hheld] at h
    obtain ⟨-, rfl⟩ := Reply.reached_eq_ok.mp h
    refine ⟨rfl, rfl, by simp [Packet.isFor, hheld], by simp, ?_⟩
    intro d hd
    -- no node has this address, so no queue changes and no block is due
    have hother : ¬ network.heldAddress = (d : Int) := fun heq => hapart d hd heq.symm
    simp [Packet.isFor, hheld, hother, queue]
  · rw [if_neg hheld] at h
    by_cases hnode : 0 ≤ packet.destination ∧ packet.destination < network.nodes.size
    · rw [if_pos hnode] at h
      obtain ⟨-, rfl⟩ := Reply.reached_eq_ok.mp h
      refine ⟨by simp [receive], rfl, by simp [receive, Packet.isFor, hheld], by simp [receive], ?_⟩
      intro d hd
      rw [queue_receive hd, List.nil_append]
      congr 1
      by_cases hdestination : packet.destination = (d : Int)
      · have htoNat : packet.destination.toNat = d := by omega
        simp [Packet.isFor, hdestination, Packet.block, Block.values]
      · have htoNat : packet.destination.toNat ≠ d := by omega
        simp [Packet.isFor, hdestination, htoNat]
    · rw [if_neg hnode] at h
      exact absurd h (by simp [Reply.reached])

/-- Packets routed one after another are delivered in their order. -/
theorem moves_routeAll {network after : Network} {source : Int} {packets : List Packet}
    (hapart : network.HeldApart) (h : (network.routeAll source packets).reached = .ok after) :
    Moves network after (packets.filter (Packet.isFor network.heldAddress)) [] (fun _ => [])
      (fun d => (packets.filter (Packet.isFor d)).map Packet.block) := by
  rw [routeAll, Reply.reached_each] at h
  induction packets generalizing network with
  | nil =>
    obtain rfl := Except.ok.inj h
    exact .refl network
  | cons packet rest ih =>
    rw [List.foldlM_cons] at h
    obtain ⟨routed, hroute, hrest⟩ := bind_eq_ok.mp h
    have hfirst := moves_route hapart hroute
    have hboth := hfirst.trans (ih (hapart.of_moves hfirst) hrest)
    rw [hfirst.heldAddress_eq] at hboth
    simpa only [← List.filter_append, ← List.map_append, List.singleton_append,
      List.append_nil] using hboth

/-- The count of idle rounds has no part in the account. -/
theorem moves_count (network : Network) (idleRounds : Nat) :
    Moves network { network with idleRounds } [] [] (fun _ => []) (fun _ => []) :=
  ⟨rfl, rfl, (List.append_nil _).symm, (List.append_nil _).symm, (Moves.refl network).queue_eq⟩

/-- A wake delivers a packet to the first node. -/
theorem moves_wake {network after : Network} (h : network.wake.reached = .ok after) :
    ∃ latest, Moves network after [] [latest] (fun _ => [])
      (fun d => if d = 0 then [latest.block] else []) := by
  unfold wake at h
  cases hback : network.held.back? with
  | none =>
    rw [hback] at h
    exact absurd h (by simp [Reply.reached])
  | some latest =>
    rw [hback] at h
    by_cases hempty : network.nodes.isEmpty = true
    · simp only [if_pos hempty] at h
      exact absurd h (by simp [Reply.reached])
    · simp only [if_neg hempty] at h
      obtain ⟨-, rfl⟩ := Reply.reached_eq_ok.mp h
      refine ⟨latest, by simp [receive], rfl, by simp [receive], by simp, ?_⟩
      intro d hd
      have hqueue := queue_receive hd 0 latest.x latest.y
      rw [List.nil_append]
      refine hqueue.trans ?_
      by_cases hzero : d = 0
      · subst hzero
        rfl
      · rw [if_neg hzero, if_neg (Ne.symm hzero)]
        rfl

/-- Closing a round delivers the packet of a wake or nothing. -/
theorem moves_settle {network after : Network} {sent : Array Packet}
    (h : (network.settle sent).reached = .ok after) :
    ∃ woken, Moves network after [] woken (fun _ => [])
      (fun d => if d = 0 then woken.map Packet.block else []) := by
  have hnone : (fun d => if d = 0 then ([] : List Packet).map Packet.block else []) =
      fun _ : Nat => ([] : List Block) := by
    funext d
    simp
  unfold settle at h
  by_cases hhalted : (network.nodes.all fun node => node.machine.isHalted) = true
  · rw [if_pos hhalted] at h
    exact absurd h (by simp [Reply.reached])
  · rw [if_neg hhalted] at h
    by_cases hidle : network.isIdleAfter sent = true
    · rw [if_pos hidle] at h
      have hcount := moves_count network (network.idleRounds + 1)
      simp only at h
      split at h
      · obtain ⟨latest, hwake⟩ := moves_wake h
        exact ⟨[latest], hcount.trans hwake⟩
      · obtain ⟨-, rfl⟩ := Reply.reached_eq_ok.mp h
        refine ⟨[], ?_⟩
        rw [hnone]
        exact hcount
    · rw [if_neg hidle] at h
      obtain ⟨-, rfl⟩ := Reply.reached_eq_ok.mp h
      refine ⟨[], ?_⟩
      rw [hnone]
      exact moves_count network 0

/-! ## Rounds -/

/-- The parts of a round's visits that do not fail. -/
theorem visit_cons {rounds index : Nat} {rest : List Nat} {network after : Network}
    {sent sent' : Array Packet} {log log' : Array Line}
    (h : visit rounds (index :: rest) network sent log = some ⟨.ok sent', after, log'⟩) :
    ∃ node packets polled lines routed log'', network.nodes[index]? = some node ∧
      network.poll rounds index = some ⟨.ok packets, polled, lines⟩ ∧
      (polled.routeAll index packets).reached = .ok routed ∧
      visit rounds rest routed (sent ++ packets) log'' = some ⟨.ok sent', after, log'⟩ ∧
      visitsOf rounds (index :: rest) network =
        ⟨index, node.isPrompted, node.taken rounds, packets⟩ :: visitsOf rounds rest routed := by
  -- a visit that goes on had a node, a poll and a routing that did not fail
  rw [visit] at h
  cases hnode : network.nodes[index]? with
  | none =>
    have hmissing : network.poll rounds index =
        some ⟨.error (.missingNode index), network, #[]⟩ := by
      rw [poll, hnode]
    rw [hmissing] at h
    exact absurd h (by simp)
  | some node =>
    cases hpoll : network.poll rounds index with
    | none =>
      rw [hpoll] at h
      exact absurd h (by simp)
    | some reply =>
      obtain ⟨outcome, polled, lines⟩ := reply
      rw [hpoll] at h
      cases outcome with
      | error fault => exact absurd h (by simp)
      | ok packets =>
        simp only at h
        cases hroute : polled.routeAll index packets with
        | mk outcome routed more =>
          rw [hroute] at h
          cases outcome with
          | error fault => exact absurd h (by simp [Reply.withLog])
          | ok =>
            refine ⟨node, packets, polled, lines, routed, _, rfl, rfl, ?_, h, ?_⟩
            · rw [hroute]
              rfl
            · simp only [visitsOf, hnode, hpoll, hroute]

/-- The visits of a round are all made, give what the round gives, and account for it. -/
theorem moves_visit {rounds : Nat} {indices : List Nat} {network after : Network}
    {sent sent' : Array Packet} {log log' : Array Line} (hapart : network.HeldApart)
    (h : visit rounds indices network sent log = some ⟨.ok sent', after, log'⟩) :
    (visitsOf rounds indices network).map Visit.node = indices ∧
      sent'.toList = sent.toList ++ (visitsOf rounds indices network).flatMap Visit.sent ∧
      Moves network after
        (((visitsOf rounds indices network).flatMap Visit.sent).filter
          (Packet.isFor network.heldAddress)) []
        (fun d => (visitsOf rounds indices network).flatMap (Visit.takenBy d))
        (fun d => (visitsOf rounds indices network).flatMap (Visit.blocksFor d)) := by
  induction indices generalizing network sent log with
  | nil =>
    obtain ⟨hsent, rfl, -⟩ := Reply.mk.inj (Option.some.inj h)
    obtain rfl := Except.ok.inj hsent
    exact ⟨rfl, (List.append_nil _).symm, .refl network⟩
  | cons index rest ih =>
    obtain ⟨node, packets, polled, lines, routed, log'', hnode, hpoll, hroute, hrest, hvisits⟩ :=
      visit_cons h
    -- a poll and the routing of what it sent make up one visit
    have hmoved := moves_poll hnode hpoll
    have hfirst := hmoved.trans (moves_routeAll (hapart.of_moves hmoved) hroute)
    obtain ⟨hindices, hsent, hmoves⟩ := ih (hapart.of_moves hfirst) hrest
    have hall := hfirst.trans hmoves
    rw [hfirst.heldAddress_eq, hmoved.heldAddress_eq] at hall
    rw [hvisits]
    refine ⟨by rw [List.map_cons, hindices], ?_, ?_⟩
    · rw [hsent, Array.toList_appendList, List.append_assoc]
      rfl
    · simpa only [List.flatMap_cons, List.filter_append, Visit.takenBy, Visit.blocksFor,
        List.nil_append, List.append_nil] using hall

/-- The record of a round of so many nodes is whole: each was polled once, in order, and the
packets the round gave are those the polls sent. -/
structure Round.IsWhole (size : Nat) (round : Round) : Prop where
  node_eq : round.visits.map Visit.node = List.range size
  sent_eq : round.sent = round.visits.flatMap Visit.sent

/-- A round that does not fail visits every node and is then closed. -/
theorem runRound_eq_ok {rounds : Nat} {network after : Network} {sent : Array Packet}
    {log : Array Line} (h : network.runRound rounds = some ⟨.ok sent, after, log⟩) :
    ∃ judged lines,
      visit rounds (List.range network.nodes.size) network #[] #[] =
        some ⟨.ok sent, judged, lines⟩ ∧
      (judged.settle sent).reached = .ok after := by
  unfold runRound at h
  cases hvisit : visit rounds (List.range network.nodes.size) network #[] #[] with
  | none =>
    rw [hvisit] at h
    exact absurd h (by simp)
  | some reply =>
    obtain ⟨outcome, judged, lines⟩ := reply
    rw [hvisit] at h
    cases outcome with
    | error fault => exact absurd h (by simp)
    | ok packets =>
      simp only at h
      cases hsettle : judged.settle packets with
      | mk outcome settled more =>
        rw [hsettle] at h
        cases outcome with
        | error fault => exact absurd h (by simp)
        | ok =>
          obtain ⟨hpackets, rfl, -⟩ := Reply.mk.inj (Option.some.inj h)
          obtain rfl := Except.ok.inj hpackets
          refine ⟨judged, lines, rfl, ?_⟩
          rw [hsettle]
          rfl

/-- A round accounts for its polls and its wake. -/
theorem moves_runRound {rounds : Nat} {network after : Network} {sent : Array Packet}
    {log : Array Line} (hapart : network.HeldApart)
    (h : network.runRound rounds = some ⟨.ok sent, after, log⟩) :
    (roundOf rounds network sent after).IsWhole network.nodes.size ∧
      Moves network after
        ((roundOf rounds network sent after).sent.filter (Packet.isFor network.heldAddress))
        (roundOf rounds network sent after).woken
        (fun d => (roundOf rounds network sent after).takenBy d)
        (fun d => (roundOf rounds network sent after).blocksFor d) := by
  obtain ⟨judged, lines, hvisit, hreached⟩ := runRound_eq_ok h
  obtain ⟨hnodes, hsent, hpolls⟩ := moves_visit hapart hvisit
  obtain ⟨woken, hwake⟩ := moves_settle hreached
  have hboth := hpolls.trans hwake
  have hwoken : after.wakes.toList.drop network.wakes.size = woken := by
    rw [hboth.wakes_eq]
    simp
  have hround : sent.toList =
      (visitsOf rounds (List.range network.nodes.size) network).flatMap Visit.sent := by
    rw [hsent]
    rfl
  refine ⟨⟨hnodes, hround⟩, ?_⟩
  simp only [roundOf, Round.takenBy, Round.blocksFor, hwoken, hround]
  simpa only [List.append_nil, List.nil_append] using hboth

/-! ## Runs of rounds -/

/-- Rounds account for all their polls and wakes. -/
theorem moves_of_reached {start network : Network} {history : List Round}
    (hapart : start.HeldApart) (h : Reached start history network) :
    (∀ round ∈ history, round.IsWhole start.nodes.size) ∧
      Moves start network ((history.flatMap Round.sent).filter (Packet.isFor start.heldAddress))
        (history.flatMap Round.woken) (fun d => history.flatMap (Round.takenBy d))
        (fun d => history.flatMap (Round.blocksFor d)) := by
  induction h with
  | start => exact ⟨by simp, .refl start⟩
  | round before hround ih =>
    obtain ⟨hwhole, hmoves⟩ := ih
    obtain ⟨hlast, hmoved⟩ := moves_runRound (hapart.of_moves hmoves) hround
    rw [hmoves.size_eq] at hlast
    rw [hmoves.heldAddress_eq] at hmoved
    refine ⟨?_, ?_⟩
    · intro round hmem
      rcases List.mem_append.mp hmem with hmem | hmem
      · exact hwhole round hmem
      · obtain rfl := List.mem_singleton.mp hmem
        exact hlast
    · simpa only [List.flatMap_append, List.filter_append, List.flatMap_singleton] using
        hmoves.trans hmoved

/-! ## From the start -/

/-- A network about to run: every node has its own address queued, and nothing was sent. -/
theorem boot_eq_ok {program : List Int} {settings : Settings} {size heldAddress threshold : Int}
    {start : Network} (h : boot program settings size heldAddress threshold = .ok start) :
    start.nodes = (Array.range size.toNat).map (Node.boot program settings) ∧
      start.heldAddress = heldAddress ∧ start.held = #[] ∧ start.wakes = #[] ∧
      start.HeldApart := by
  unfold boot at h
  by_cases hcollision : heldAddress < size
  · rw [if_pos hcollision] at h
    exact absurd h (by simp)
  · rw [if_neg hcollision] at h
    obtain rfl := Except.ok.inj h
    refine ⟨rfl, rfl, rfl, rfl, ?_⟩
    intro d hd
    have hsize : d < size.toNat := by simpa using hd
    show (d : Int) ≠ heldAddress
    omega

/-- The pair blocks that reach a node in a whole round are its packets. -/
theorem Round.IsWhole.pairs_eq {size : Nat} {round : Round} (h : round.IsWhole size) (d : Nat) :
    (round.blocksFor d).filterMap Block.pair? =
      (round.packetsFor d).map fun packet => (packet.x, packet.y) := by
  have hpackets : ∀ packets : List Packet, (packets.map Packet.block).filterMap Block.pair? =
      packets.map fun packet => (packet.x, packet.y) := by
    intro packets
    have hpair : Block.pair? ∘ Packet.block = some ∘ fun packet => (packet.x, packet.y) := rfl
    rw [List.filterMap_map, hpair, List.filterMap_eq_map]
  have hvisit : ∀ visit : Visit, (visit.blocksFor d).filterMap Block.pair? =
      (visit.sent.filter (Packet.isFor d)).map fun packet => (packet.x, packet.y) := by
    intro visit
    have hidle : (if visit.node = d ∧ visit.prompted then [Block.idle] else []).filterMap
        Block.pair? = [] := by
      split <;> rfl
    rw [Visit.blocksFor, List.filterMap_append, hidle, hpackets, List.nil_append]
  have hwoken : (if d = 0 then round.woken.map Packet.block else []).filterMap Block.pair? =
      (if d = 0 then round.woken else []).map fun packet => (packet.x, packet.y) := by
    by_cases hzero : d = 0
    · rw [if_pos hzero, if_pos hzero, hpackets]
    · rw [if_neg hzero, if_neg hzero]
      rfl
  rw [Round.blocksFor, Round.packetsFor, h.sent_eq, List.filterMap_append, hwoken,
    List.filterMap_flatMap, List.map_append, List.filter_flatMap, List.map_flatMap]
  simp only [hvisit]

/-- After rounds from the start, none of which failed: the packets held are those sent to the
address of held packets, in the order in which the rounds gave them.  What the machine of a node
took, and behind it what is queued for it, are its address and the values of blocks.  The idle
blocks stand where the node was polled with nothing queued, and the others are the packets sent
to it, once each and in order, for the first node with the packet of each wake behind the
packets of its round. -/
theorem deliveries_of_reached {program : List Int} {settings : Settings}
    {size heldAddress threshold : Int} {start network : Network} {history : List Round}
    (hboot : boot program settings size heldAddress threshold = .ok start)
    (h : Reached start history network) :
    network.held.toList = (history.flatMap Round.sent).filter (Packet.isFor heldAddress) ∧
      network.wakes.toList = history.flatMap Round.woken ∧
      network.nodes.size = size.toNat ∧
      (∀ round ∈ history, round.IsWhole size.toNat) ∧
      ∀ d node, network.nodes[d]? = some node →
        history.flatMap (Round.takenBy d) ++ node.machine.inputs =
            (d : Int) :: (history.flatMap (Round.blocksFor d)).flatMap Block.values ∧
          (history.flatMap (Round.blocksFor d)).filterMap Block.pair? =
            (history.flatMap (Round.packetsFor d)).map fun packet => (packet.x, packet.y) := by
  obtain ⟨hnodes, hheldAddress, hheld, hwakes, hapart⟩ := boot_eq_ok hboot
  obtain ⟨hwhole, hmoves⟩ := moves_of_reached hapart h
  have hsize : start.nodes.size = size.toNat := by
    rw [hnodes]
    simp
  rw [hsize] at hwhole
  refine ⟨?_, ?_, ?_, hwhole, ?_⟩
  · rw [hmoves.held_eq, hheld, hheldAddress]
    rfl
  · rw [hmoves.wakes_eq, hwakes]
    rfl
  · rw [hmoves.size_eq, hsize]
  · intro d node hnode
    obtain ⟨hd, -⟩ := Array.getElem?_eq_some_iff.mp hnode
    rw [hmoves.size_eq] at hd
    -- at first each node has its own address queued
    have hqueue : start.queue d = [(d : Int)] := by
      have hstart : start.nodes[d]? = some (Node.boot program settings d) := by
        rw [hsize] at hd
        simp [hnodes, hd]
      rw [queue_of_node hstart]
      rfl
    refine ⟨?_, ?_⟩
    · rw [← queue_of_node hnode, hmoves.queue_eq d hd, hqueue]
      rfl
    · rw [List.filterMap_flatMap, List.map_flatMap, List.flatMap_def, List.flatMap_def]
      exact congrArg List.flatten
        (List.map_congr_left fun round hmem => (hwhole round hmem).pairs_eq d)

/-- A node that sends a packet to be held and then reads on, after two rounds: it took its
address and the idle value, and has the packet queued that woke it. -/
theorem deliveries_of_reached_wake :
    ∃ start history network node,
      boot [3, 0, 104, 1, 104, 7, 104, 8, 3, 0, 1106, 0, 8] {} 1 1 1 = .ok start ∧
        Reached start history network ∧ network.nodes[0]? = some node ∧
        network.held.toList = [⟨1, 7, 8⟩] ∧ network.wakes.toList = [⟨1, 7, 8⟩] ∧
        history.flatMap (Round.takenBy 0) ++ node.machine.inputs = [0, -1, 7, 8] ∧
        (history.flatMap (Round.blocksFor 0)).filterMap Block.pair? = [(7, 8)] := by
  let start : Network :=
    ⟨#[Node.boot [3, 0, 104, 1, 104, 7, 104, 8, 3, 0, 1106, 0, 8] {} 0], 1, 1, 0, #[], #[]⟩
  let waiting : Machine :=
    { Machine.boot [0, 0, 104, 1, 104, 7, 104, 8, 3, 0, 1106, 0, 8] {} with
      ip := 8, state := .blocked, current := some ⟨8, 3, .input, [.position]⟩,
      pending := some ⟨8, 3, .input, [.position]⟩ }
  let middle : Network := ⟨#[⟨0, waiting, []⟩], 1, 1, 0, #[⟨1, 7, 8⟩], #[]⟩
  let woken : Node :=
    ⟨0, { waiting with memory := waiting.memory.set! 0 (-1), inputs := [7, 8] }, []⟩
  let last : Network := ⟨#[woken], 1, 1, 0, #[⟨1, 7, 8⟩], #[⟨1, 7, 8⟩]⟩
  have hboot : boot [3, 0, 104, 1, 104, 7, 104, 8, 3, 0, 1106, 0, 8] {} 1 1 1 = .ok start := by
    decide +kernel +zetaReduce
  obtain ⟨log, hfirst⟩ : ∃ log, start.runRound 20 = some ⟨.ok #[⟨1, 7, 8⟩], middle, log⟩ :=
    Reply.exists_log (by decide +kernel +zetaReduce)
  obtain ⟨log', hsecond⟩ : ∃ log, middle.runRound 20 = some ⟨.ok #[], last, log⟩ :=
    Reply.exists_log (by decide +kernel +zetaReduce)
  have hreached := Reached.round (.round .start hfirst) hsecond
  obtain ⟨hheld, hwakes, -, -, hnode⟩ := deliveries_of_reached hboot hreached
  obtain ⟨hvalues, hpairs⟩ := hnode 0 woken rfl
  exact ⟨start, _, last, woken, hboot, hreached, rfl, hheld.trans (by decide +kernel +zetaReduce),
    hwakes.trans (by decide +kernel +zetaReduce), hvalues.trans (by decide +kernel +zetaReduce),
    hpairs.trans (by decide +kernel +zetaReduce)⟩

end IntegerMachine.Network
