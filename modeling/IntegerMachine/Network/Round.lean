import IntegerMachine.Network.Basic

/-!
# Rounds of a network

In a round every node is polled in turn, and what it sends is routed before the next node is
polled.  A round in which nothing is sent and after which no node has anything queued is idle;
once enough idle rounds followed each other and a packet is held, the first node is woken.
-/

set_option autoImplicit false

namespace IntegerMachine.Network

/-- Polls the nodes of the given numbers and routes what they send; the packets sent follow
those of `sent`. -/
def visit (rounds : Nat) (indices : List Nat) (network : Network) (sent : Array Packet)
    (log : Array Line) : Option (Answer (Array Packet)) :=
  match indices with
  | [] => some ⟨.ok sent, network, log⟩
  | index :: rest =>
    match network.poll rounds index with
    | none => none
    | some ⟨.error fault, network, lines⟩ => some ⟨.error fault, network, log ++ lines⟩
    | some ⟨.ok packets, network, lines⟩ =>
      match (network.routeAll index packets).withLog (log ++ lines) with
      | ⟨.error fault, network, log⟩ => some ⟨.error fault, network, log⟩
      | ⟨.ok (), network, log⟩ => visit rounds rest network (sent ++ packets) log

/-- Whether a round that sent packets leaves the network idle. -/
def isIdleAfter (network : Network) (sent : Array Packet) : Bool :=
  sent.isEmpty && network.nodes.all Node.isIdle

/-- Closes a round that sent packets: counts it if it was idle and wakes the first node when its
time has come. -/
def settle (network : Network) (sent : Array Packet) : Answer Unit :=
  if network.nodes.all fun node => node.machine.isHalted then ⟨.error .allHalted, network, #[]⟩
  else if network.isIdleAfter sent then
    let counted := { network with idleRounds := network.idleRounds + 1 }
    if counted.threshold ≤ counted.idleRounds ∧ counted.held.isEmpty = false then counted.wake
    else ⟨.ok (), counted, #[]⟩
  else ⟨.ok (), { network with idleRounds := 0 }, #[]⟩

/-- One round; it gives the packets sent. -/
def runRound (rounds : Nat) (network : Network) : Option (Answer (Array Packet)) :=
  match visit rounds (List.range network.nodes.size) network #[] #[] with
  | none => none
  | some ⟨.error fault, network, log⟩ => some ⟨.error fault, network, log⟩
  | some ⟨.ok sent, network, log⟩ =>
    match network.settle sent with
    | ⟨.error fault, network, lines⟩ => some ⟨.error fault, network, log ++ lines⟩
    | ⟨.ok (), network, lines⟩ => some ⟨.ok sent, network, log ++ lines⟩

/-- Runs rounds until a test on the network before and after a round gives an answer. -/
def runRoundsUntil {α : Type} (rounds : Nat) (test : Network → Network → Option α)
    (network : Network) (log : Array Line) : Option (Answer α) :=
  let next : Network × Array Line → Network × Array Line ⊕ Option (Answer α) :=
    fun (before, log) =>
      match before.runRound rounds with
      | none => .inr none
      | some ⟨.error fault, after, lines⟩ => .inr (some ⟨.error fault, after, log ++ lines⟩)
      | some ⟨.ok _, after, lines⟩ =>
        match test before after with
        | some answer => .inr (some ⟨.ok answer, after, log ++ lines⟩)
        | none => .inl (after, log ++ lines)
  (repeatUntil next rounds (network, log)).join

/-- The first packet held; rounds are run until there is one. -/
def firstHeld (rounds : Nat) (network : Network) : Option (Answer Packet) :=
  match network.held[0]? with
  | some packet => some ⟨.ok packet, network, #[]⟩
  | none => runRoundsUntil rounds (fun _ after => after.held[0]?) network #[]

/-- The second value of the last wake, if a round made it and it equals that of the wake
before. -/
def repeatedWake? (before after : Network) : Option Int :=
  if before.wakes.size < after.wakes.size then
    match after.wakes.toList.reverse with
    | last :: previous :: _ => if last.y = previous.y then some last.y else none
    | _ => none
  else none

/-- Runs rounds until two wakes in a row carry the same second value, and gives it. -/
def runUntilRepeatedWake (rounds : Nat) (network : Network) : Option (Answer Int) :=
  runRoundsUntil rounds repeatedWake? network #[]

end IntegerMachine.Network
