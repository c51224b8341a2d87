import IntegerMachine.Network.Round
import IntegerMachine.Proofs.Machine.Consumption

/-!
# The history of a network

Networks that rounds lead to, with a record of every poll and every wake on the way.  A record
holds what the poll found and did: whether the node was given the idle value, what its machine
took from its queue, and what it sent.  From the records follows what reached a node: blocks of
values in the order of arrival, each the idle value or the two values of a packet.
-/

set_option autoImplicit false

namespace IntegerMachine.Network

/-! ## Records -/

/-- Whether a poll gives the node the idle value: it has not halted and has nothing queued. -/
def Node.isPrompted (node : Node) : Bool :=
  !node.machine.isHalted && node.isIdle

/-- What the machine of a node takes from its queue when the node is polled. -/
def Node.taken (rounds : Nat) (node : Node) : List Int :=
  if node.machine.isHalted then [] else node.prompted.taken rounds

/-- A poll of a node. -/
structure Visit where
  node : Nat
  /-- Whether the node had not halted and had nothing queued. -/
  prompted : Bool
  /-- What its machine took from its queue. -/
  taken : List Int
  sent : List Packet
  deriving DecidableEq, Repr

/-- The polls of the nodes of the given numbers, each after what was sent before is routed. -/
def visitsOf (rounds : Nat) : List Nat → Network → List Visit
  | [], _ => []
  | index :: rest, network =>
    match network.nodes[index]?, network.poll rounds index with
    | some node, some ⟨.ok packets, polled, _⟩ =>
      ⟨index, node.isPrompted, node.taken rounds, packets⟩ ::
        visitsOf rounds rest (polled.routeAll index packets).after
    | _, _ => []

/-- A round: its polls, the packets it gave, and those that woke the first node at its end. -/
structure Round where
  visits : List Visit
  sent : List Packet
  woken : List Packet
  deriving DecidableEq, Repr

/-- The record of a round that gave packets and left a network. -/
def roundOf (rounds : Nat) (network : Network) (sent : Array Packet) (after : Network) : Round where
  visits := visitsOf rounds (List.range network.nodes.size) network
  sent := sent.toList
  woken := after.wakes.toList.drop network.wakes.size

/-- The networks that rounds without a fault lead to, with the record of these rounds. -/
inductive Reached (start : Network) : List Round → Network → Prop where
  | start : Reached start [] start
  | round {history : List Round} {network after : Network} {rounds : Nat} {sent : Array Packet}
      {log : Array Line} (before : Reached start history network)
      (hround : network.runRound rounds = some ⟨.ok sent, after, log⟩) :
      Reached start (history ++ [roundOf rounds network sent after]) after

/-! ## Arrivals -/

/-- Values that reach a node together. -/
inductive Block where
  /-- The idle value. -/
  | idle
  /-- The values of a packet. -/
  | pair (x y : Int)
  deriving DecidableEq, Repr

namespace Block

/-- The values of a block. -/
def values : Block → List Int
  | idle => [idleInput]
  | pair x y => [x, y]

/-- The values of a packet, if the block is one. -/
def pair? : Block → Option (Int × Int)
  | idle => none
  | pair x y => some (x, y)

end Block

/-- Whether a packet is sent to an address. -/
def Packet.isFor (address : Int) (packet : Packet) : Bool :=
  packet.destination == address

/-- The block that a packet arrives as. -/
def Packet.block (packet : Packet) : Block :=
  .pair packet.x packet.y

/-- What a node takes at a poll, which may be that of another node. -/
def Visit.takenBy (d : Nat) (visit : Visit) : List Int :=
  if visit.node = d then visit.taken else []

/-- What reaches a node at a poll: the idle value if it is this node that is polled and has
nothing queued, and then the packets sent to it. -/
def Visit.blocksFor (d : Nat) (visit : Visit) : List Block :=
  (if visit.node = d ∧ visit.prompted then [.idle] else []) ++
    (visit.sent.filter (Packet.isFor d)).map Packet.block

/-- What a node takes in a round. -/
def Round.takenBy (d : Nat) (round : Round) : List Int :=
  round.visits.flatMap (Visit.takenBy d)

/-- What reaches a node in a round; the packet of a wake comes last. -/
def Round.blocksFor (d : Nat) (round : Round) : List Block :=
  round.visits.flatMap (Visit.blocksFor d) ++ if d = 0 then round.woken.map Packet.block else []

/-- The packets for a node among those a round gave, and behind them those of its wake. -/
def Round.packetsFor (d : Nat) (round : Round) : List Packet :=
  round.sent.filter (Packet.isFor d) ++ if d = 0 then round.woken else []

end IntegerMachine.Network
