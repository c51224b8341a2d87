import IntegerMachine.Proofs.Network.Rounds

/-!
# Calls on a network

A network is used by calls: rounds, loops of rounds, polls, packets routed or delivered by hand,
and wakes.  A call that fails leaves a network too.  No call changes how many nodes there are or
which address is held apart (`Reachable.sameShape`).
-/

set_option autoImplicit false

namespace IntegerMachine.Network

/-- A call on a network; those that run machines have a number of steps they may use up. -/
inductive Call where
  | runRound (rounds : Nat)
  | firstHeld (rounds : Nat)
  | runUntilRepeatedWake (rounds : Nat)
  | poll (rounds index : Nat)
  | deliver (index : Nat) (x y : Int)
  | route (source : Int) (packet : Packet)
  | wake
  deriving DecidableEq, Repr

/-- The network that a call leaves, none if it does not end within its steps. -/
def after? (network : Network) : Call → Option Network
  | .runRound rounds => (network.runRound rounds).map Reply.after
  | .firstHeld rounds => (network.firstHeld rounds).map Reply.after
  | .runUntilRepeatedWake rounds => (network.runUntilRepeatedWake rounds).map Reply.after
  | .poll rounds index => (network.poll rounds index).map Reply.after
  | .deliver index x y => some (network.deliver index x y).after
  | .route source packet => some (network.route source packet).after
  | .wake => some network.wake.after

/-- The networks that calls lead to, whether they fail or not. -/
inductive Reachable (start : Network) : Network → Prop where
  | start : Reachable start start
  | call {network after : Network} (h : Reachable start network) (call : Call)
      (hafter : network.after? call = some after) : Reachable start after

/-- Two networks with as many nodes each, that hold the packets for the same address. -/
structure SameShape (a b : Network) : Prop where
  size_eq : b.nodes.size = a.nodes.size
  heldAddress_eq : b.heldAddress = a.heldAddress

namespace SameShape

variable {a b c network after start : Network}

/-- A network has its own shape. -/
theorem refl (a : Network) : SameShape a a :=
  ⟨rfl, rfl⟩

/-- The shape is kept through one change after another. -/
theorem trans (h : SameShape a b) (h' : SameShape b c) : SameShape a c :=
  ⟨h'.size_eq.trans h.size_eq, h'.heldAddress_eq.trans h.heldAddress_eq⟩

/-- A packet received changes a queue and no shape. -/
theorem receive (network : Network) (index : Nat) (x y : Int) :
    SameShape network (network.receive index x y) :=
  ⟨by simp [Network.receive], rfl⟩

/-- Delivering a packet keeps the shape, also if there is no such node. -/
theorem deliver (network : Network) (index : Nat) (x y : Int) :
    SameShape network (network.deliver index x y).after := by
  unfold Network.deliver
  split
  · exact receive network index x y
  · exact .refl network

/-- Routing a packet keeps the shape, also if its address is unknown. -/
theorem route (network : Network) (source : Int) (packet : Packet) :
    SameShape network (network.route source packet).after := by
  unfold Network.route
  split
  · exact ⟨rfl, rfl⟩
  · split
    · exact receive network _ _ _
    · exact .refl network

/-- Routing packets keeps the shape, also if one of them has no place to go. -/
theorem routeAll (network : Network) (source : Int) (packets : List Packet) :
    SameShape network (network.routeAll source packets).after :=
  Reply.after_each (SameShape network) (fun a packet h => h.trans (route a source packet))
    (.refl network) packets

/-- A poll keeps the shape, also if the machine fails. -/
theorem poll {rounds index : Nat} {answer : Answer (List Packet)}
    (h : network.poll rounds index = some answer) : SameShape network answer.after := by
  unfold Network.poll at h
  cases hnode : network.nodes[index]? with
  | none =>
    simp only [hnode, Option.some.injEq] at h
    exact h ▸ .refl network
  | some node =>
    cases hpoll : node.poll rounds with
    | none => simp [hnode, hpoll] at h
    | some reply =>
      simp only [hnode, hpoll, Option.some.injEq] at h
      exact h ▸ ⟨by simp, rfl⟩

/-- Polling the nodes in turn keeps the shape, also up to one that fails. -/
theorem visit {rounds : Nat} {indices : List Nat} {sent : Array Packet} {log : Array Line}
    {answer : Answer (Array Packet)}
    (h : Network.visit rounds indices network sent log = some answer) :
    SameShape network answer.after := by
  induction indices generalizing network sent log with
  | nil => exact Option.some.inj h ▸ .refl network
  | cons index rest ih =>
    rw [Network.visit] at h
    rcases hpoll : network.poll rounds index with _ | ⟨fault | packets, polled, lines⟩
    · simp [hpoll] at h
    · simp only [hpoll, Option.some.injEq] at h
      exact h ▸ poll hpoll
    · have hrouted := (poll hpoll).trans (routeAll polled index packets)
      simp only [hpoll] at h
      rcases hroute : polled.routeAll index packets with ⟨fault | _, routed, more⟩
      · rw [hroute] at hrouted
        simp only [hroute, Reply.withLog, Option.some.injEq] at h
        exact h ▸ hrouted
      · rw [hroute] at hrouted
        simp only [hroute, Reply.withLog] at h
        exact hrouted.trans (ih h)

/-- A wake keeps the shape, also if there is no packet for it. -/
theorem wake (network : Network) : SameShape network network.wake.after := by
  unfold Network.wake
  split
  · exact .refl network
  · simp only
    split
    · exact .refl network
    · exact ⟨by simp [Network.receive], rfl⟩

/-- Closing a round keeps the shape. -/
theorem settle (network : Network) (sent : Array Packet) :
    SameShape network (network.settle sent).after := by
  unfold Network.settle
  split
  · exact .refl network
  · split
    · simp only
      split
      · exact ⟨(wake _).size_eq, (wake _).heldAddress_eq⟩
      · exact ⟨rfl, rfl⟩
    · exact ⟨rfl, rfl⟩

/-- A round keeps the shape, also if it fails. -/
theorem runRound {rounds : Nat} {answer : Answer (Array Packet)}
    (h : network.runRound rounds = some answer) : SameShape network answer.after := by
  unfold Network.runRound at h
  rcases hvisit : Network.visit rounds (List.range network.nodes.size) network #[] #[] with
    _ | ⟨fault | sent, judged, lines⟩
  · simp [hvisit] at h
  · simp only [hvisit, Option.some.injEq] at h
    exact h ▸ visit hvisit
  · have hsettled := (visit hvisit).trans (settle judged sent)
    simp only [hvisit] at h
    rcases hsettle : judged.settle sent with ⟨fault | _, settled, more⟩
    · rw [hsettle] at hsettled
      simp only [hsettle, Option.some.injEq] at h
      exact h ▸ hsettled
    · rw [hsettle] at hsettled
      simp only [hsettle, Option.some.injEq] at h
      exact h ▸ hsettled

/-- Rounds up to a test keep the shape. -/
theorem runRoundsUntil {α : Type} {rounds : Nat} {test : Network → Network → Option α}
    {log : Array Line} {answer : Answer α}
    (h : Network.runRoundsUntil rounds test network log = some answer) :
    SameShape network answer.after := by
  rw [runRoundsUntil_eq, Option.join_eq_some_iff] at h
  refine holds_of_repeatUntil (fun s => SameShape network s.1)
    (fun r => ∀ answer, r = some answer → SameShape network answer.after) ?_ ?_
    (SameShape.refl network) h answer rfl
  · rintro ⟨before, earlier⟩ ⟨after, later⟩ hbefore hnext
    obtain ⟨sent, more, hround, -⟩ := tested_eq_inl.mp hnext
    exact hbefore.trans (runRound hround)
  · rintro ⟨before, earlier⟩ _ hbefore hnext answer rfl
    obtain ⟨outcome, more, hround⟩ := runRound_of_tested hnext
    exact hbefore.trans (runRound hround)

/-- Every call that ends keeps the shape. -/
theorem after? {call : Call} (h : network.after? call = some after) : SameShape network after := by
  cases call with
  | runRound rounds =>
    obtain ⟨answer, hanswer, rfl⟩ := Option.map_eq_some_iff.mp h
    exact runRound hanswer
  | firstHeld rounds =>
    obtain ⟨answer, hanswer, rfl⟩ := Option.map_eq_some_iff.mp h
    unfold Network.firstHeld at hanswer
    cases hheld : network.held[0]? with
    | none =>
      rw [hheld] at hanswer
      exact runRoundsUntil hanswer
    | some packet =>
      rw [hheld] at hanswer
      exact Option.some.inj hanswer ▸ .refl network
  | runUntilRepeatedWake rounds =>
    obtain ⟨answer, hanswer, rfl⟩ := Option.map_eq_some_iff.mp h
    exact runRoundsUntil hanswer
  | poll rounds index =>
    obtain ⟨answer, hanswer, rfl⟩ := Option.map_eq_some_iff.mp h
    exact poll hanswer
  | deliver index x y => exact Option.some.inj h ▸ deliver network index x y
  | route source packet => exact Option.some.inj h ▸ route network source packet
  | wake => exact Option.some.inj h ▸ wake network

end SameShape

/-- Whatever calls a network has had, it has the shape it started with. -/
theorem Reachable.sameShape {start network : Network} (h : Reachable start network) :
    SameShape start network := by
  induction h with
  | start => exact .refl start
  | call _ _ hafter ih => exact ih.trans (.after? hafter)

/-- No node of a network that calls lead to has the address of the packets held, if none had at
the start. -/
theorem Reachable.heldApart {start network : Network} (hapart : start.HeldApart)
    (h : Reachable start network) : network.HeldApart := by
  intro d hd
  rw [h.sameShape.heldAddress_eq]
  exact hapart d (h.sameShape.size_eq ▸ hd)

end IntegerMachine.Network
