import IntegerMachine.Machine.Run

/-!
# Nodes

A node is a machine that talks in packets.  Three outputs in a row make up a packet: the
address it is sent to and two values.  Outputs that do not make up a packet yet are kept until
the machine writes more.
-/

set_option autoImplicit false

namespace IntegerMachine.Network

/-- The value a node reads when nothing was sent to it. -/
def idleInput : Int := -1

/-- Two values on their way to an address. -/
structure Packet where
  destination : Int
  x : Int
  y : Int
  deriving DecidableEq, Repr

/-- The packets that values make up, and the values left over. -/
def packetsOf : List Int → List Packet × List Int
  | destination :: x :: y :: rest =>
    let (packets, left) := packetsOf rest
    (⟨destination, x, y⟩ :: packets, left)
  | left => ([], left)

/-- A machine with an address. -/
structure Node where
  address : Nat
  machine : Machine
  /-- The outputs that do not make up a packet yet. -/
  buffer : List Int
  deriving DecidableEq, Repr

namespace Node

/-- A node about to run; the first value it reads is its address. -/
def boot (program : List Int) (settings : Settings) (address : Nat) : Node where
  address
  machine := (Machine.boot program settings).feed address
  buffer := []

/-- Queues the values of a packet. -/
def receive (node : Node) (x y : Int) : Node :=
  { node with machine := node.machine.feedAll [x, y] }

/-- Whether nothing is queued. -/
def isIdle (node : Node) : Bool :=
  node.machine.inputs.isEmpty

/-- The machine of a node as it is polled: with the idle value if nothing is queued. -/
def prompted (node : Node) : Machine :=
  if node.isIdle then node.machine.feed idleInput else node.machine

/-- Runs a node until it blocks or halts, and gives the packets completed; a halted node gives
none.  If the machine fails, the outputs of this run are gone. -/
def poll (rounds : Nat) (node : Node) : Option (Reply Fault Node (List Packet)) :=
  if node.machine.isHalted then some ⟨.ok [], node, #[]⟩
  else
    match node.prompted.run rounds with
    | none => none
    | some ⟨.error fault, machine, log⟩ => some ⟨.error fault, { node with machine }, log⟩
    | some ⟨.ok values, machine, log⟩ =>
      let (packets, buffer) := packetsOf (node.buffer ++ values)
      some ⟨.ok packets, { node with machine, buffer }, log⟩

end Node

end IntegerMachine.Network
