import IntegerMachine.Network.Node

/-!
# The network

Nodes on one program, numbered from zero, send each other packets.  Packets for one more
address are held apart: when the network is idle, the last of them is delivered to the first
node and wakes it.
-/

set_option autoImplicit false

namespace IntegerMachine

/-- A network of nodes. -/
structure Network where
  nodes : Array Network.Node
  /-- The address whose packets are held. -/
  heldAddress : Int
  /-- The idle rounds in a row after which the first node is woken. -/
  threshold : Int
  /-- The idle rounds in a row up to now. -/
  idleRounds : Nat
  /-- The packets held, the latest last. -/
  held : Array Network.Packet
  /-- The packets that woke the first node, the latest last. -/
  wakes : Array Network.Packet
  deriving DecidableEq, Repr

namespace Network

/-- The number of nodes when nothing else is asked for. -/
def defaultSize : Int := 50

/-- The address whose packets are held when nothing else is asked for. -/
def defaultHeldAddress : Int := 255

/-- The threshold when nothing else is asked for. -/
def defaultThreshold : Int := 1

/-- Why an operation of a network fails. -/
inductive Fault where
  /-- The machine of a node failed. -/
  | machine (fault : IntegerMachine.Fault)
  /-- A packet was sent to an address that no node has. -/
  | unknownAddress (source destination : Int)
  /-- There is no packet to wake the network with. -/
  | nothingHeld
  /-- Nothing can ever happen again. -/
  | allHalted
  /-- The network has no node of the number. -/
  | missingNode (index : Nat)
  /-- The address of held packets is that of a node or negative. -/
  | heldAddressTaken (address : Int)
  deriving DecidableEq, Repr

/-- The text of a fault. -/
def Fault.message : Fault → String
  | machine fault => fault.message
  | unknownAddress source destination =>
    s!"Node {source} sent to unknown address {destination}"
  | nothingHeld => "Network idle with nothing held by the NAT"
  | allHalted => "Every node has halted"
  | missingNode index => s!"No node {index}"
  | heldAddressTaken address => s!"NAT address {address} collides with a node"

/-- A network about to run. -/
def boot (program : List Int) (settings : Settings) (size heldAddress threshold : Int) :
    Except Fault Network :=
  if heldAddress < size then .error (.heldAddressTaken heldAddress)
  else
    .ok
      { nodes := (Array.range size.toNat).map (Node.boot program settings)
        heldAddress
        threshold
        idleRounds := 0
        held := #[]
        wakes := #[] }

/-- What a call on a network leaves. -/
abbrev Answer (α : Type) := Reply Fault Network α

/-- Delivers two values to a node. -/
def receive (network : Network) (index : Nat) (x y : Int) : Network :=
  { network with nodes := network.nodes.modify index fun node => node.receive x y }

/-- Delivers two values to the node of a number, if there is one. -/
def deliver (network : Network) (index : Nat) (x y : Int) : Answer Unit :=
  if index < network.nodes.size then ⟨.ok (), network.receive index x y, #[]⟩
  else ⟨.error (.missingNode index), network, #[]⟩

/-- Sends a packet on: to a node, or to those held. -/
def route (network : Network) (source : Int) (packet : Packet) : Answer Unit :=
  if packet.destination = network.heldAddress then
    ⟨.ok (), { network with held := network.held.push packet },
      #[.debug s!"NAT <- {source}: {packet.x},{packet.y}"]⟩
  else if 0 ≤ packet.destination ∧ packet.destination < network.nodes.size then
    ⟨.ok (), network.receive packet.destination.toNat packet.x packet.y, #[]⟩
  else ⟨.error (.unknownAddress source packet.destination), network, #[]⟩

/-- Sends packets on, one after another; the first that cannot be sent stops the rest. -/
def routeAll (network : Network) (source : Int) (packets : List Packet) : Answer Unit :=
  Reply.each (fun network packet => network.route source packet) network packets

/-- Wakes the first node with the packet held last. -/
def wake (network : Network) : Answer Unit :=
  match network.held.back? with
  | none => ⟨.error .nothingHeld, network, #[]⟩
  | some latest =>
    let log := #[.debug s!"NAT -> 0: {latest.x},{latest.y}"]
    if network.nodes.isEmpty then ⟨.error (.missingNode 0), network, log⟩
    else
      let woken := network.receive 0 latest.x latest.y
      ⟨.ok (), { woken with wakes := network.wakes.push latest, idleRounds := 0 }, log⟩

/-- Polls a node. -/
def poll (rounds : Nat) (network : Network) (index : Nat) : Option (Answer (List Packet)) :=
  match network.nodes[index]? with
  | none => some ⟨.error (.missingNode index), network, #[]⟩
  | some node =>
    match node.poll rounds with
    | none => none
    | some ⟨outcome, node, log⟩ =>
      let network := { network with nodes := network.nodes.setIfInBounds index node }
      some ⟨outcome.mapError .machine, network, log⟩

end Network

end IntegerMachine
