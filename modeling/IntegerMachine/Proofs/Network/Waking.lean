import IntegerMachine.Proofs.Network.Delivery

/-!
# When the first node is woken

A round is judged once every node was polled: it is idle if nothing was sent and nothing is queued
anywhere.  The network counts idle rounds, and the count alone does not say much, since it goes on
past the threshold as long as no packet is held.  `wakes_of_judged` ties it to the record of the
rounds: it is the number of idle rounds at the end of the record that woke nobody, and a wake
happens in the first idle round that brings this number to the threshold with a packet held.
-/

set_option autoImplicit false

namespace IntegerMachine.Network

/-! ## Records -/

/-- A round as it was judged. -/
structure Judgement where
  /-- The network the round began with. -/
  before : Network
  sent : List Packet
  /-- The network after all polls, when the round is judged. -/
  judged : Network
  /-- The network the round left. -/
  after : Network

/-- The record of a round that gave packets and left a network. -/
def judgementOf (rounds : Nat) (network : Network) (sent : Array Packet) (after : Network) :
    Judgement where
  before := network
  sent := sent.toList
  judged := (visit rounds (List.range network.nodes.size) network #[] #[]).elim network Reply.after
  after

/-- The networks that rounds without a fault lead to, with the record of how each was judged. -/
inductive Judged (start : Network) : List Judgement → Network → Prop where
  | start : Judged start [] start
  | round {history : List Judgement} {network after : Network} {rounds : Nat}
      {sent : Array Packet} {log : Array Line} (before : Judged start history network)
      (hround : network.runRound rounds = some ⟨.ok sent, after, log⟩) :
      Judged start (history ++ [judgementOf rounds network sent after]) after

namespace Judgement

/-- Whether nothing was sent and nothing is queued for any node. -/
def isIdle (j : Judgement) : Bool :=
  j.sent.isEmpty && (List.range j.judged.nodes.size).all fun d => (j.judged.queue d).isEmpty

/-- The packets that the round woke the first node with. -/
def woken (j : Judgement) : List Packet :=
  j.after.wakes.toList.drop j.before.wakes.size

/-- Whether the round was idle and woke nobody. -/
def isQuiet (j : Judgement) : Bool :=
  j.isIdle && j.woken.isEmpty

end Judgement

/-- The number of quiet rounds at the end of a record. -/
def quietRounds (history : List Judgement) : Nat :=
  (history.reverse.takeWhile Judgement.isQuiet).length

/-- A quiet round counts one more, and any other starts the count again. -/
theorem quietRounds_concat (history : List Judgement) (j : Judgement) :
    quietRounds (history ++ [j]) = if j.isQuiet then quietRounds history + 1 else 0 := by
  rw [quietRounds, List.reverse_append, List.reverse_singleton, List.singleton_append,
    List.takeWhile_cons]
  split
  · rfl
  · rfl

/-! ## What polls and routing leave alone -/

/-- A relation between networks that single polls and single packets routed keep. -/
structure Steady (R : Network → Network → Prop) : Prop where
  refl : ∀ a, R a a
  trans : ∀ a b c, R a b → R b c → R a c
  poll : ∀ rounds index a b packets log,
    a.poll rounds index = some ⟨.ok packets, b, log⟩ → R a b
  route : ∀ a b source packet, (a.route source packet).reached = .ok b → R a b

namespace Steady

variable {R : Network → Network → Prop}

/-- Routing packets keeps what routing each of them keeps. -/
theorem routeAll (hsteady : Steady R) {network after : Network} {source : Int}
    {packets : List Packet} (h : (network.routeAll source packets).reached = .ok after) :
    R network after := by
  rw [Network.routeAll, Reply.reached_each] at h
  induction packets generalizing network with
  | nil =>
    obtain rfl := Except.ok.inj h
    exact hsteady.refl network
  | cons packet rest ih =>
    rw [List.foldlM_cons] at h
    obtain ⟨routed, hroute, hrest⟩ := bind_eq_ok.mp h
    exact hsteady.trans _ _ _ (hsteady.route _ _ _ _ hroute) (ih hrest)

/-- The visits of a round keep what polls and routing keep. -/
theorem visit (hsteady : Steady R) {rounds : Nat} {indices : List Nat} {network after : Network}
    {sent sent' : Array Packet} {log log' : Array Line}
    (h : Network.visit rounds indices network sent log = some ⟨.ok sent', after, log'⟩) :
    R network after := by
  induction indices generalizing network sent log with
  | nil =>
    obtain ⟨-, rfl, -⟩ := Reply.mk.inj (Option.some.inj h)
    exact hsteady.refl network
  | cons index rest ih =>
    obtain ⟨node, packets, polled, lines, routed, log'', -, hpoll, hroute, hrest, -⟩ :=
      visit_cons h
    have hpolled := hsteady.poll _ _ _ _ _ _ hpoll
    exact hsteady.trans _ _ _ (hsteady.trans _ _ _ hpolled (hsteady.routeAll hroute)) (ih hrest)

end Steady

/-- Two networks with the same threshold and the same count of idle rounds. -/
structure SameCount (a b : Network) : Prop where
  threshold_eq : b.threshold = a.threshold
  idleRounds_eq : b.idleRounds = a.idleRounds

/-- Polls and routing leave the count and the threshold as they are. -/
theorem steady_sameCount : Steady SameCount where
  refl _ := ⟨rfl, rfl⟩
  trans _ _ _ h h' :=
    ⟨h'.threshold_eq.trans h.threshold_eq, h'.idleRounds_eq.trans h.idleRounds_eq⟩
  poll _ _ _ _ _ _ h := by
    obtain ⟨_, _, -, -, rfl⟩ := exists_node_of_poll h
    exact ⟨rfl, rfl⟩
  route _ _ _ _ h := by
    obtain ⟨-, rfl⟩ := Reply.reached_eq_ok.mp h
    unfold Network.route
    split
    · exact ⟨rfl, rfl⟩
    · split
      · exact ⟨rfl, rfl⟩
      · exact ⟨rfl, rfl⟩

/-! ## Closing a round -/

/-- The network woken with a packet. -/
def wokenWith (network : Network) (latest : Packet) : Network :=
  { network.receive 0 latest.x latest.y with wakes := network.wakes.push latest, idleRounds := 0 }

/-- Closing a round that does not fail starts the count again, counts one more, or wakes. -/
inductive Closes (network : Network) (sent : Array Packet) : Network → Prop where
  | busy (hbusy : network.isIdleAfter sent = false) :
      Closes network sent { network with idleRounds := 0 }
  | quiet (hidle : network.isIdleAfter sent = true)
      (hearly : (network.idleRounds : Int) + 1 < network.threshold ∨ network.held = #[]) :
      Closes network sent { network with idleRounds := network.idleRounds + 1 }
  | wake (latest : Packet) (hidle : network.isIdleAfter sent = true)
      (hdue : network.threshold ≤ (network.idleRounds : Int) + 1)
      (hlatest : network.held.back? = some latest) (hnodes : 0 < network.nodes.size) :
      Closes network sent (network.wokenWith latest)

/-- A wake that does not fail delivers the packet held last. -/
theorem eq_wokenWith_of_wake {network after : Network} (h : network.wake.reached = .ok after) :
    ∃ latest, network.held.back? = some latest ∧ 0 < network.nodes.size ∧
      after = network.wokenWith latest := by
  unfold wake at h
  cases hback : network.held.back? with
  | none =>
    rw [hback] at h
    exact absurd h (by simp [Reply.reached])
  | some latest =>
    rw [hback] at h
    by_cases hempty : network.nodes.isEmpty = true
    · simp only [if_pos hempty] at h
      exact absurd h (by simp [Reply.reached])
    · simp only [if_neg hempty] at h
      obtain ⟨-, rfl⟩ := Reply.reached_eq_ok.mp h
      rw [Array.isEmpty_iff] at hempty
      exact ⟨latest, rfl, Array.size_pos_iff.mpr hempty, rfl⟩

/-- Closing a round that does not fail closes it in one of these ways. -/
theorem closes_of_settle {network after : Network} {sent : Array Packet}
    (h : (network.settle sent).reached = .ok after) : Closes network sent after := by
  unfold settle at h
  by_cases hhalted : (network.nodes.all fun node => node.machine.isHalted) = true
  · rw [if_pos hhalted] at h
    exact absurd h (by simp [Reply.reached])
  · rw [if_neg hhalted] at h
    by_cases hidle : network.isIdleAfter sent = true
    · rw [if_pos hidle] at h
      simp only at h
      split at h
      · rename_i hdue
        -- the wake sets the count back, so that it was raised before does not show
        obtain ⟨latest, hlatest, hnodes, rfl⟩ := eq_wokenWith_of_wake h
        exact .wake latest hidle (by exact_mod_cast hdue.1) hlatest hnodes
      · rename_i hearly
        obtain ⟨-, rfl⟩ := Reply.reached_eq_ok.mp h
        refine .quiet hidle ?_
        by_cases hheld : network.held = #[]
        · exact .inr hheld
        · left
          have hsome : network.held.isEmpty = false := by
            rw [Array.isEmpty_eq_false_iff]
            exact hheld
          have hlt : ¬ network.threshold ≤ ((network.idleRounds + 1 : Nat) : Int) :=
            fun hle => hearly ⟨hle, hsome⟩
          omega
    · rw [if_neg hidle] at h
      obtain ⟨-, rfl⟩ := Reply.reached_eq_ok.mp h
      exact .busy (by simpa using hidle)

/-- The network is idle exactly if nothing was sent and every queue is empty. -/
theorem isIdleAfter_iff {network : Network} {sent : Array Packet} :
    network.isIdleAfter sent = true ↔ sent = #[] ∧ ∀ d, network.queue d = [] := by
  have hnodes : network.nodes.all Node.isIdle = true ↔ ∀ d, network.queue d = [] := by
    rw [Array.all_eq_true]
    constructor
    · intro hall d
      unfold queue
      cases hd : network.nodes[d]? with
      | none => rfl
      | some node =>
        obtain ⟨hlt, rfl⟩ := Array.getElem?_eq_some_iff.mp hd
        exact List.isEmpty_iff.mp (hall d hlt)
    · intro hall d hd
      have hqueue := hall d
      rw [queue_of_node (Array.getElem?_eq_getElem hd)] at hqueue
      exact List.isEmpty_iff.mpr hqueue
  rw [isIdleAfter, Bool.and_eq_true, Array.isEmpty_iff, hnodes]

/-- Where there is no node there is no queue. -/
theorem queue_of_size_le {network : Network} {d : Nat} (h : network.nodes.size ≤ d) :
    network.queue d = [] := by
  rw [queue, Array.getElem?_eq_none h]

/-- The record of a round tells idleness as the network judges it. -/
theorem isIdle_eq {j : Judgement} {sent : Array Packet} (h : j.sent = sent.toList) :
    j.isIdle = j.judged.isIdleAfter sent := by
  rw [Bool.eq_iff_iff, isIdleAfter_iff, Judgement.isIdle, Bool.and_eq_true, List.isEmpty_iff, h,
    Array.toList_eq_nil_iff, List.all_eq_true]
  refine and_congr_right fun _ => ⟨?_, ?_⟩
  · intro hall d
    by_cases hd : d < j.judged.nodes.size
    · exact List.isEmpty_iff.mp (hall d (List.mem_range.mpr hd))
    · exact queue_of_size_le (by omega)
  · intro hall d _
    exact List.isEmpty_iff.mpr (hall d)

/-! ## One round -/

/-- What a wake does: it delivers the packet held last to the first node, and nothing else is
queued. -/
structure Judgement.Wakes (j : Judgement) (packet : Packet) : Prop where
  latest : j.judged.held.back? = some packet
  first_eq : j.after.queue 0 = [packet.x, packet.y]
  others_eq : ∀ d, d ≠ 0 → j.after.queue d = []

/-- What holds of a round by itself, given the threshold and the quiet rounds before it. -/
structure Judgement.IsRegular (j : Judgement) (threshold : Int) (quiet : Nat) : Prop where
  wakes_eq : j.after.wakes.toList = j.before.wakes.toList ++ j.woken
  /-- A round wakes when it is idle with a packet held and the count reaches the threshold. -/
  woken_iff : j.woken ≠ [] ↔
    j.isIdle = true ∧ j.judged.held ≠ #[] ∧ max threshold 1 ≤ (quiet : Int) + 1
  length_woken_le : j.woken.length ≤ 1
  wakes : ∀ packet ∈ j.woken, j.Wakes packet

/-- The wakes of a round are those behind the ones before it. -/
theorem woken_eq {j : Judgement} {packets : List Packet}
    (h : j.after.wakes.toList = j.before.wakes.toList ++ packets) : j.woken = packets := by
  rw [Judgement.woken, h]
  simp

/-- A round that leaves the wakes as they were is regular if no wake was due. -/
theorem isRegular_of_wakes_eq {j : Judgement} (threshold : Int) (quiet : Nat)
    (h : j.after.wakes = j.before.wakes)
    (hnotDue : ¬ (j.isIdle = true ∧ j.judged.held ≠ #[] ∧ max threshold 1 ≤ (quiet : Int) + 1)) :
    j.woken = [] ∧ j.IsRegular threshold quiet := by
  have hwakes : j.after.wakes.toList = j.before.wakes.toList ++ [] := by rw [h, List.append_nil]
  have hwoken := woken_eq hwakes
  refine ⟨hwoken, by rw [hwakes, hwoken], ?_, by simp [hwoken], by simp [hwoken]⟩
  simp only [hwoken, ne_eq, not_true_eq_false, false_iff]
  exact hnotDue

/-- A wake that is due delivers the packet held last to queues that are all empty. -/
theorem isRegular_of_wokenWith {j : Judgement} {latest : Packet} (threshold : Int) (quiet : Nat)
    (hafter : j.after = j.judged.wokenWith latest) (hwakes : j.judged.wakes = j.before.wakes)
    (hlatest : j.judged.held.back? = some latest) (hnodes : 0 < j.judged.nodes.size)
    (hidle : j.isIdle = true) (hempty : ∀ d, j.judged.queue d = [])
    (hdue : max threshold 1 ≤ (quiet : Int) + 1) :
    j.woken = [latest] ∧ j.IsRegular threshold quiet := by
  have hconcat : j.after.wakes.toList = j.before.wakes.toList ++ [latest] := by
    rw [hafter, ← hwakes]
    exact Array.toList_push
  have hwoken := woken_eq hconcat
  have hheld : j.judged.held ≠ #[] := by
    intro hnone
    rw [hnone] at hlatest
    exact absurd hlatest (by simp)
  -- the queues were empty, as the round was idle
  have hqueue : ∀ d, d < j.judged.nodes.size →
      j.after.queue d = if 0 = d then [latest.x, latest.y] else [] := by
    intro d hd
    have hreceive := queue_receive hd 0 latest.x latest.y
    rw [hempty d, List.nil_append] at hreceive
    rw [hafter]
    exact hreceive
  have hsize : j.after.nodes.size = j.judged.nodes.size := by
    rw [hafter]
    simp [wokenWith, receive]
  refine ⟨hwoken, by rw [hconcat, hwoken], ?_, by simp [hwoken], ?_⟩
  · simp [hwoken, hidle, hheld, hdue]
  · intro packet hpacket
    rw [hwoken] at hpacket
    obtain rfl := List.mem_singleton.mp hpacket
    refine ⟨hlatest, hqueue 0 hnodes, ?_⟩
    intro d hd
    by_cases hlt : d < j.judged.nodes.size
    · rw [hqueue d hlt, if_neg (Ne.symm hd)]
    · exact queue_of_size_le (by omega)

/-- How a round leaves the count: one more if it was quiet, none otherwise, and below the
threshold if a packet is held. -/
structure Judgement.Counted (j : Judgement) (threshold : Int) (quiet : Nat) : Prop where
  threshold_eq : j.after.threshold = threshold
  idleRounds_eq : j.after.idleRounds = if j.isQuiet then quiet + 1 else 0
  lt_threshold : j.after.held ≠ #[] → (j.after.idleRounds : Int) < max threshold 1

/-- The count starts again below every threshold. -/
theorem counted_of_zero {j : Judgement} {threshold : Int} (quiet : Nat)
    (hthreshold : j.after.threshold = threshold) (hzero : j.after.idleRounds = 0)
    (hloud : j.isQuiet = false) : j.Counted threshold quiet := by
  refine ⟨hthreshold, by rw [hzero, hloud]; rfl, ?_⟩
  intro _
  rw [hzero]
  omega

/-- How a round is closed tells everything about its record. -/
theorem isRegular_of_closes (j : Judgement) (sent : Array Packet) (threshold : Int) (quiet : Nat)
    (hsent : j.sent = sent.toList) (hwakes : j.judged.wakes = j.before.wakes)
    (hthreshold : j.judged.threshold = threshold) (hcount : j.judged.idleRounds = quiet)
    (h : Closes j.judged sent j.after) :
    j.IsRegular threshold quiet ∧ j.Counted threshold quiet := by
  have hidleAfter := isIdle_eq hsent
  generalize hafter : j.after = after at h
  cases h with
  | busy hbusy =>
    have hbusy : j.isIdle = false := hidleAfter.trans hbusy
    obtain ⟨-, hregular⟩ := isRegular_of_wakes_eq threshold quiet
      (by rw [hafter, ← hwakes]) (by simp [hbusy])
    refine ⟨hregular, counted_of_zero quiet (by rw [hafter]; exact hthreshold) (by rw [hafter]) ?_⟩
    rw [Judgement.isQuiet, hbusy, Bool.false_and]
  | quiet hidle hearly =>
    have hidle : j.isIdle = true := hidleAfter.trans hidle
    rw [hthreshold, hcount] at hearly
    obtain ⟨hwoken, hregular⟩ := isRegular_of_wakes_eq (j := j) threshold quiet
      (by rw [hafter, ← hwakes]) (by
        rintro ⟨-, hheld, hdue⟩
        rcases hearly with hlt | hempty
        · omega
        · exact hheld hempty)
    have hquiet : j.isQuiet = true := by
      rw [Judgement.isQuiet, hidle, hwoken]
      rfl
    refine ⟨hregular, by rw [hafter]; exact hthreshold, ?_, ?_⟩
    · rw [hafter, hquiet, if_pos rfl, ← hcount]
    · rw [hafter]
      intro hheld
      rcases hearly with hlt | hempty
      · show ((j.judged.idleRounds + 1 : Nat) : Int) < max threshold 1
        omega
      · exact absurd hempty hheld
  | wake latest hidle hdue hlatest hnodes =>
    have hempty : ∀ d, j.judged.queue d = [] := (isIdleAfter_iff.mp hidle).2
    rw [hthreshold, hcount] at hdue
    obtain ⟨hwoken, hregular⟩ := isRegular_of_wokenWith threshold quiet
      hafter hwakes hlatest hnodes (hidleAfter.trans hidle) hempty (by omega)
    refine ⟨hregular, counted_of_zero quiet (by rw [hafter]; exact hthreshold)
      (by rw [hafter]; rfl) ?_⟩
    rw [Judgement.isQuiet, hwoken]
    simp

/-! ## Runs of rounds -/

/-- What holds after every round: the count is that of the record, and it is below the threshold
once a packet is held. -/
structure Counts (threshold : Int) (history : List Judgement) (network : Network) : Prop where
  threshold_eq : network.threshold = threshold
  heldApart : network.HeldApart
  idleRounds_eq : network.idleRounds = quietRounds history
  lt_threshold : network.held ≠ #[] → (network.idleRounds : Int) < max threshold 1

/-- One round keeps the count in step with the record and is regular. -/
theorem counts_round {threshold : Int} {history : List Judgement} {rounds : Nat}
    {network after : Network} {sent : Array Packet} {log : Array Line}
    (hcounts : Counts threshold history network)
    (h : network.runRound rounds = some ⟨.ok sent, after, log⟩) :
    Counts threshold (history ++ [judgementOf rounds network sent after]) after ∧
      (judgementOf rounds network sent after).IsRegular threshold (quietRounds history) := by
  obtain ⟨judged, lines, hvisit, hsettle⟩ := runRound_eq_ok h
  obtain ⟨-, -, hmoves⟩ := moves_visit hcounts.heldApart hvisit
  have hcount := steady_sameCount.visit hvisit
  have hjudged : (judgementOf rounds network sent after).judged = judged := by
    rw [judgementOf, hvisit]
    rfl
  have hwakes : judged.wakes = network.wakes := by
    apply Array.toList_inj.mp
    rw [hmoves.wakes_eq, List.append_nil]
  obtain ⟨hregular, hcounted⟩ :=
    isRegular_of_closes (judgementOf rounds network sent after) sent threshold
      (quietRounds history) rfl (by rw [hjudged]; exact hwakes)
      (by rw [hjudged, hcount.threshold_eq, hcounts.threshold_eq])
      (by rw [hjudged, hcount.idleRounds_eq, hcounts.idleRounds_eq])
      (by rw [hjudged]; exact closes_of_settle hsettle)
  refine ⟨⟨hcounted.threshold_eq, ?_, ?_, hcounted.lt_threshold⟩, hregular⟩
  · exact hcounts.heldApart.of_moves (moves_runRound hcounts.heldApart h).2
  · rw [quietRounds_concat]
    exact hcounted.idleRounds_eq

/-- What a member of a list with one more at its end is: that one, or a member of the list with
the same before it. -/
theorem split_concat {α : Type} {history before later : List α} {last a : α}
    (h : history ++ [last] = before ++ a :: later) :
    (before = history ∧ a = last) ∨ ∃ rest, history = before ++ a :: rest := by
  rcases List.eq_nil_or_concat later with rfl | ⟨rest, b, rfl⟩
  · obtain ⟨rfl, hlast⟩ := List.append_inj' h rfl
    exact .inl ⟨rfl, (List.cons.inj hlast).1.symm⟩
  · rw [List.concat_eq_append, ← List.cons_append, ← List.append_assoc] at h
    exact .inr ⟨rest, (List.append_inj' h rfl).1⟩

/-- The count is in step with the record after any number of rounds, and each of them is regular. -/
theorem counts_of_judged {start network : Network} {history : List Judgement} {threshold : Int}
    (hstart : Counts threshold [] start) (h : Judged start history network) :
    Counts threshold history network ∧
      ∀ before j later, history = before ++ j :: later →
        j.IsRegular threshold (quietRounds before) := by
  induction h with
  | start =>
    refine ⟨hstart, ?_⟩
    intro before j later hsplit
    exact absurd hsplit (by simp)
  | round before hround ih =>
    obtain ⟨hcounts, hregular⟩ := ih
    obtain ⟨hafter, hlast⟩ := counts_round hcounts hround
    refine ⟨hafter, ?_⟩
    intro before j later hsplit
    rcases split_concat hsplit with ⟨rfl, rfl⟩ | ⟨rest, hrest⟩
    · exact hlast
    · exact hregular before j rest hrest

/-- After rounds from the start, none of which failed: the count of idle rounds is the number of
rounds since the last one that was not idle or woke the first node, and it is below the threshold
if a packet is held.  A round wakes the first node exactly if it is idle, a packet is held and
the count, this round included, reaches the threshold; it does so with the packet held last, and
leaves nothing else queued. -/
theorem wakes_of_judged {program : List Int} {settings : Settings}
    {size heldAddress threshold : Int} {start network : Network} {history : List Judgement}
    (hboot : boot program settings size heldAddress threshold = .ok start)
    (h : Judged start history network) :
    network.idleRounds = quietRounds history ∧
      (network.held ≠ #[] → (network.idleRounds : Int) < max threshold 1) ∧
      ∀ before j later, history = before ++ j :: later →
        j.after.wakes.toList = j.before.wakes.toList ++ j.woken ∧
        (j.woken ≠ [] ↔ j.isIdle = true ∧ j.judged.held ≠ #[] ∧
          max threshold 1 ≤ (quietRounds before : Int) + 1) ∧
        j.woken.length ≤ 1 ∧
        ∀ packet ∈ j.woken, j.judged.held.back? = some packet ∧
          j.after.queue 0 = [packet.x, packet.y] ∧ ∀ d, d ≠ 0 → j.after.queue d = [] := by
  obtain ⟨-, -, hheld, -, hapart⟩ := boot_eq_ok hboot
  obtain ⟨hthreshold, hidleRounds⟩ : start.threshold = threshold ∧ start.idleRounds = 0 := by
    unfold boot at hboot
    split at hboot
    · exact absurd hboot (by simp)
    · obtain rfl := Except.ok.inj hboot
      exact ⟨rfl, rfl⟩
  have hstart : Counts threshold [] start :=
    ⟨hthreshold, hapart, hidleRounds, fun hne => absurd hheld hne⟩
  obtain ⟨hcounts, hregular⟩ := counts_of_judged hstart h
  refine ⟨hcounts.idleRounds_eq, hcounts.lt_threshold, ?_⟩
  intro before j later hsplit
  have hj := hregular before j later hsplit
  refine ⟨hj.wakes_eq, hj.woken_iff, hj.length_woken_le, ?_⟩
  intro packet hpacket
  obtain ⟨hlatest, hfirst, hothers⟩ := hj.wakes packet hpacket
  exact ⟨hlatest, hfirst, hothers⟩

/-- A node that sends a packet to be held and then reads on, with a threshold of two: two quiet
rounds after the first, of which the second wakes the node and starts the count again. -/
theorem wakes_of_judged_second_idle_round :
    ∃ start network busy early due,
      boot [3, 0, 104, 1, 104, 7, 104, 8, 3, 0, 1106, 0, 8] {} 1 1 2 = .ok start ∧
        Judged start [busy, early, due] network ∧ busy.isIdle = false ∧ early.isIdle = true ∧
        due.isIdle = true ∧ early.woken = [] ∧ due.woken = [⟨1, 7, 8⟩] ∧
        due.after.queue 0 = [7, 8] ∧ network.idleRounds = quietRounds [busy, early, due] ∧
        network.idleRounds = 0 ∧ (network.idleRounds : Int) < max 2 1 := by
  let start : Network :=
    ⟨#[Node.boot [3, 0, 104, 1, 104, 7, 104, 8, 3, 0, 1106, 0, 8] {} 0], 1, 2, 0, #[], #[]⟩
  let waiting : Machine :=
    { Machine.boot [0, 0, 104, 1, 104, 7, 104, 8, 3, 0, 1106, 0, 8] {} with
      ip := 8, state := .blocked, current := some ⟨8, 3, .input, [.position]⟩,
      pending := some ⟨8, 3, .input, [.position]⟩ }
  let idling : Machine := { waiting with memory := waiting.memory.setIfInBounds 0 (-1) }
  let first : Network := ⟨#[⟨0, waiting, []⟩], 1, 2, 0, #[⟨1, 7, 8⟩], #[]⟩
  let second : Network := ⟨#[⟨0, idling, []⟩], 1, 2, 1, #[⟨1, 7, 8⟩], #[]⟩
  let third : Network :=
    ⟨#[⟨0, { idling with inputs := [7, 8] }, []⟩], 1, 2, 0, #[⟨1, 7, 8⟩], #[⟨1, 7, 8⟩]⟩
  have hboot : boot [3, 0, 104, 1, 104, 7, 104, 8, 3, 0, 1106, 0, 8] {} 1 1 2 = .ok start := by
    decide +kernel +zetaReduce
  obtain ⟨log, hfirst⟩ : ∃ log, start.runRound 20 = some ⟨.ok #[⟨1, 7, 8⟩], first, log⟩ :=
    Reply.exists_log (by decide +kernel +zetaReduce)
  obtain ⟨log', hsecond⟩ : ∃ log, first.runRound 20 = some ⟨.ok #[], second, log⟩ :=
    Reply.exists_log (by decide +kernel +zetaReduce)
  obtain ⟨log'', hthird⟩ : ∃ log, second.runRound 20 = some ⟨.ok #[], third, log⟩ :=
    Reply.exists_log (by decide +kernel +zetaReduce)
  have hjudged := Judged.round (.round (.round .start hfirst) hsecond) hthird
  obtain ⟨hcount, hlt, hwakes⟩ := wakes_of_judged hboot hjudged
  have hwoken : (judgementOf 20 second #[] third).woken = [⟨1, 7, 8⟩] := by decide +kernel +zetaReduce
  obtain ⟨-, -, -, hdue⟩ := hwakes
    [judgementOf 20 start #[⟨1, 7, 8⟩] first, judgementOf 20 first #[] second] _ [] rfl
  exact ⟨start, third, _, _, _, hboot, hjudged, by decide +kernel +zetaReduce, by decide +kernel +zetaReduce, by decide +kernel +zetaReduce, by decide +kernel +zetaReduce, hwoken,
    (hdue ⟨1, 7, 8⟩ (by rw [hwoken]; simp)).2.1, hcount, rfl, hlt (by simp [third])⟩

end IntegerMachine.Network
