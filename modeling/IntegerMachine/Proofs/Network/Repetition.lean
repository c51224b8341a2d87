import IntegerMachine.Proofs.Network.Rounds
import Mathlib.Data.List.Chain

/-!
# The first wake repeated

The loop compares the last two wakes only, and only behind a round that made one.  As a round wakes
at most once, no two neighbours among the wakes escape it: the rounds it has answered nothing for
are those whose wakes differ from neighbour to neighbour (`forall_repeatedWake?_eq_none_iff`).
-/

set_option autoImplicit false

namespace IntegerMachine.Network

/-! ## Wakes compared -/

section Compared

variable {before after : Network} {woken : List Packet} {y : Int}

/-- Behind a round that woke at most once, the wake is compared with the last one before it. -/
theorem repeatedWake?_eq_some_iff (hwakes : after.wakes.toList = before.wakes.toList ++ woken)
    (hlength : woken.length ≤ 1) :
    repeatedWake? before after = some y ↔
      ∃ earlier previous latest, before.wakes.toList = earlier ++ [previous] ∧
        woken = [latest] ∧ previous.y = y ∧ latest.y = y := by
  have hsize : after.wakes.size = before.wakes.size + woken.length := by
    rw [← Array.length_toList, hwakes, List.length_append, Array.length_toList]
  unfold repeatedWake?
  rcases woken with _ | ⟨latest, _ | ⟨second, more⟩⟩
  · rw [if_neg (by simp [hsize])]
    simp
  · rw [if_pos (by simp [hsize]), hwakes, List.reverse_append]
    rcases List.eq_nil_or_concat before.wakes.toList with hnone | ⟨earlier, previous, hsome⟩
    · simp [hnone]
    · rw [hsome, List.concat_eq_append, List.reverse_append]
      simp only [List.reverse_singleton, List.singleton_append]
      constructor
      · intro h
        obtain ⟨hsame, hy⟩ := Option.ite_none_right_eq_some.mp h
        exact ⟨earlier, previous, latest, rfl, rfl, hsame ▸ Option.some.inj hy, Option.some.inj hy⟩
      · rintro ⟨earlier', previous', latest', hsplit, hlatest, hprevious, hy⟩
        obtain ⟨-, hsame⟩ := List.append_inj' hsplit rfl
        obtain rfl := List.singleton_inj.mp hsame
        obtain rfl := List.singleton_inj.mp hlatest
        rw [if_pos (hy.trans hprevious.symm), hy]
  · simp at hlength

/-- A round that woke at most once and was answered nothing for adds no neighbours with the same
second value. -/
theorem isChain_wakes_iff (hwakes : after.wakes.toList = before.wakes.toList ++ woken)
    (hlength : woken.length ≤ 1) :
    after.wakes.toList.IsChain (fun a b => a.y ≠ b.y) ↔
      before.wakes.toList.IsChain (fun a b => a.y ≠ b.y) ∧ repeatedWake? before after = none := by
  rw [hwakes, List.isChain_append]
  refine and_congr_right fun _ => ?_
  rw [Option.eq_none_iff_forall_ne_some]
  rcases woken with _ | ⟨latest, _ | ⟨second, more⟩⟩
  · simp [repeatedWake?_eq_some_iff hwakes hlength]
  · simp only [ne_eq, repeatedWake?_eq_some_iff hwakes hlength, List.head?_cons,
      List.getLast?_eq_some_iff, Option.mem_def, Option.some.injEq, List.isChain_singleton, true_and]
    constructor
    · rintro hne y ⟨earlier, previous, _, hsplit, hlatest, hprevious, hy⟩
      obtain rfl := List.singleton_inj.mp hlatest
      exact hne previous ⟨earlier, hsplit⟩ _ rfl (hprevious.trans hy.symm)
    · rintro hnone previous ⟨earlier, hsplit⟩ _ rfl hsame
      exact hnone _ ⟨earlier, previous, latest, hsplit, rfl, hsame, rfl⟩
  · simp at hlength

end Compared

/-! ## Where the packets of wakes come from -/

section Sources

variable {start network after : Network} {history : List Judgement} {threshold heldAddress : Int}

/-- What rounds leave behind: the packets held are those sent to be held, and the wakes are those
of the rounds. -/
structure Sourced (heldAddress : Int) (history : List Judgement) (network : Network) : Prop where
  heldAddress_eq : network.heldAddress = heldAddress
  held_eq : network.held.toList =
    (history.flatMap Judgement.sent).filter (Packet.isFor heldAddress)
  wakes_eq : network.wakes.toList = history.flatMap Judgement.woken

/-- What holds of the wake of a round, given the rounds before it. -/
structure Judgement.IsSourced (j : Judgement) (heldAddress : Int) (before : List Judgement) :
    Prop where
  length_woken_le : j.woken.length ≤ 1
  exists_sent : ∀ packet ∈ j.woken,
    packet.destination = heldAddress ∧ ∃ round ∈ before, packet ∈ round.sent

/-- The packet of a wake was held before the round, as an idle round sends nothing. -/
theorem mem_held_of_mem_woken {rounds : Nat} {sent : Array Packet} {log : Array Line}
    {packet : Packet} (hcounts : Counts threshold history network)
    (h : network.runRound rounds = some ⟨.ok sent, after, log⟩)
    (hpacket : packet ∈ (judgementOf rounds network sent after).woken) :
    packet ∈ network.held := by
  obtain ⟨-, hregular⟩ := counts_round hcounts h
  obtain ⟨judged, lines, hvisit, -⟩ := runRound_eq_ok h
  obtain ⟨-, hsent, hpolls⟩ := moves_visit hcounts.heldApart hvisit
  have hjudged : (judgementOf rounds network sent after).judged = judged := by
    rw [judgementOf, hvisit]
    rfl
  have hidle : judged.isIdleAfter sent = true := by
    rw [← hjudged, ← isIdle_eq rfl]
    exact (hregular.woken_iff.mp (List.ne_nil_of_mem hpacket)).1
  have hlatest := (hregular.wakes packet hpacket).latest
  have hheld := hpolls.held_eq
  obtain ⟨rfl, -⟩ := isIdleAfter_iff.mp hidle
  rw [List.nil_append] at hsent
  rw [← hsent, List.filter_nil, List.append_nil, Array.toList_inj] at hheld
  rw [hjudged, hheld] at hlatest
  exact Array.mem_of_back? hlatest

/-- One round keeps the account of the packets held and the wakes, and its own wake comes from
packets sent before it. -/
theorem sourced_round {rounds : Nat} {sent : Array Packet} {log : Array Line}
    (hcounts : Counts threshold history network) (hsourced : Sourced heldAddress history network)
    (h : network.runRound rounds = some ⟨.ok sent, after, log⟩) :
    Sourced heldAddress (history ++ [judgementOf rounds network sent after]) after ∧
      (judgementOf rounds network sent after).IsSourced heldAddress history := by
  obtain ⟨-, hregular⟩ := counts_round hcounts h
  obtain ⟨-, hmoves⟩ := moves_runRound hcounts.heldApart h
  have hheld : after.held.toList = network.held.toList ++
      sent.toList.filter (Packet.isFor network.heldAddress) := hmoves.held_eq
  refine ⟨⟨hmoves.heldAddress_eq.trans hsourced.heldAddress_eq, ?_, ?_⟩,
    hregular.length_woken_le, ?_⟩
  · rw [hheld, hsourced.held_eq, hsourced.heldAddress_eq, List.flatMap_append, List.filter_append,
      List.flatMap_singleton]
    rfl
  · rw [List.flatMap_append, List.flatMap_singleton, ← hsourced.wakes_eq]
    exact hregular.wakes_eq
  · intro packet hpacket
    have hmem := Array.mem_toList_iff.mpr (mem_held_of_mem_woken hcounts h hpacket)
    rw [hsourced.held_eq, List.mem_filter] at hmem
    exact ⟨beq_iff_eq.mp hmem.2, List.mem_flatMap.mp hmem.1⟩

/-- The account of the packets held and the wakes holds after any number of rounds, and the wake of
each has its source. -/
theorem sourced_of_judged (hcounts : Counts threshold [] start)
    (hstart : Sourced heldAddress [] start) (h : Judged start history network) :
    Sourced heldAddress history network ∧
      ∀ before j later, history = before ++ j :: later → j.IsSourced heldAddress before := by
  induction h with
  | start =>
    refine ⟨hstart, ?_⟩
    intro before j later hsplit
    exact absurd hsplit (by simp)
  | round before hround ih =>
    obtain ⟨hsourced, hearlier⟩ := ih
    obtain ⟨hafter, hlast⟩ := sourced_round (counts_of_judged hcounts before).1 hsourced hround
    refine ⟨hafter, ?_⟩
    intro before j later hsplit
    rcases split_concat hsplit with ⟨rfl, rfl⟩ | ⟨rest, hrest⟩
    · exact hlast
    · exact hearlier before j rest hrest

end Sources

/-! ## From the start -/

section Start

variable {program : List Int} {settings : Settings} {size heldAddress threshold : Int}
  {start network : Network} {history : List Judgement}

/-- A fresh network counts nothing. -/
theorem counts_boot (h : boot program settings size heldAddress threshold = .ok start) :
    Counts threshold [] start := by
  obtain ⟨-, -, hheld, -, hapart⟩ := boot_eq_ok h
  unfold boot at h
  split at h
  · exact absurd h (by simp)
  · obtain rfl := Except.ok.inj h
    exact ⟨rfl, hapart, rfl, fun hne => absurd hheld hne⟩

/-- A fresh network holds no packet and was never woken. -/
theorem sourced_boot (h : boot program settings size heldAddress threshold = .ok start) :
    Sourced heldAddress [] start := by
  obtain ⟨-, haddress, hheld, hwakes, -⟩ := boot_eq_ok h
  exact ⟨haddress, by rw [hheld]; rfl, by rw [hwakes]; rfl⟩

/-- The rounds that end nothing are those without two neighbours among the wakes that carry the
same second value. -/
theorem forall_repeatedWake?_eq_none_iff (hcounts : Counts threshold [] start)
    (hnone : start.wakes = #[]) (h : Judged start history network) :
    (∀ j ∈ history, repeatedWake? j.before j.after = none) ↔
      network.wakes.toList.IsChain fun a b => a.y ≠ b.y := by
  induction h with
  | start => simp [hnone]
  | @round history network after rounds sent log before hround ih =>
    obtain ⟨-, hregular⟩ := counts_round (counts_of_judged hcounts before).1 hround
    have hlast := isChain_wakes_iff hregular.wakes_eq hregular.length_woken_le
    rw [List.forall_mem_append, ih]
    exact (and_congr_right fun _ => List.forall_mem_singleton).trans hlast.symm

/-- The last of some rounds is the first to end the wait exactly if its wake carries the second
value of the wake before, and no two neighbours among the wakes before it do. -/
theorem first_repeatedWake?_iff {final : Judgement} {last : Network} {y : Int}
    (hboot : boot program settings size heldAddress threshold = .ok start)
    (h : Judged start (history ++ [final]) last) :
    ((∀ j ∈ history, repeatedWake? j.before j.after = none) ∧
        repeatedWake? final.before final.after = some y) ↔
      ∃ earlier previous latest,
        history.flatMap Judgement.woken = earlier ++ [previous] ∧ final.woken = [latest] ∧
        last.wakes.toList = earlier ++ [previous, latest] ∧ previous.y = y ∧ latest.y = y ∧
        (earlier ++ [previous]).IsChain fun a b => a.y ≠ b.y := by
  have hcounts := counts_boot hboot
  obtain ⟨-, -, -, hnone, -⟩ := boot_eq_ok hboot
  obtain ⟨network, rounds, sent, log, hbefore, hround, rfl⟩ := judged_concat h
  obtain ⟨hsourced, -⟩ := sourced_of_judged hcounts (sourced_boot hboot) hbefore
  obtain ⟨-, hregular⟩ := counts_round (counts_of_judged hcounts hbefore).1 hround
  have hwakes : last.wakes.toList = history.flatMap Judgement.woken ++
      (judgementOf rounds network sent last).woken := hsourced.wakes_eq ▸ hregular.wakes_eq
  have hearlier : (judgementOf rounds network sent last).before.wakes.toList =
      history.flatMap Judgement.woken := hsourced.wakes_eq
  rw [forall_repeatedWake?_eq_none_iff hcounts hnone hbefore, hsourced.wakes_eq,
    repeatedWake?_eq_some_iff hregular.wakes_eq hregular.length_woken_le, hearlier]
  constructor
  · rintro ⟨hdiffer, earlier, previous, latest, hsplit, hwoken, hprevious, hlatest⟩
    refine ⟨earlier, previous, latest, hsplit, hwoken, ?_, hprevious, hlatest, hsplit ▸ hdiffer⟩
    rw [hwakes, hsplit, hwoken, List.append_assoc]
    rfl
  · rintro ⟨earlier, previous, latest, hsplit, hwoken, -, hprevious, hlatest, hdiffer⟩
    exact ⟨hsplit ▸ hdiffer, earlier, previous, latest, hsplit, hwoken, hprevious, hlatest⟩

/-- Waiting for a repeated wake ends in the first round that wakes the first node with the second
value of the wake before, however many rounds lie between the two, and not as long as neighbours
among the wakes differ.  A round wakes at most once, with a packet that a node sent to be held in a
round before. -/
theorem ends_with_first_repeated_wake
    (hboot : boot program settings size heldAddress threshold = .ok start) :
    (∀ y last, (∃ rounds log, start.runUntilRepeatedWake rounds = some ⟨.ok y, last, log⟩) ↔
      ∃ history final earlier previous latest, Judged start (history ++ [final]) last ∧
        history.flatMap Judgement.woken = earlier ++ [previous] ∧ final.woken = [latest] ∧
        last.wakes.toList = earlier ++ [previous, latest] ∧ previous.y = y ∧ latest.y = y ∧
        (earlier ++ [previous]).IsChain fun a b => a.y ≠ b.y) ∧
    ∀ history network, Judged start history network →
      network.wakes.toList = history.flatMap Judgement.woken ∧
      ∀ before j later, history = before ++ j :: later → j.woken.length ≤ 1 ∧
        ∀ packet ∈ j.woken,
          packet.destination = heldAddress ∧ ∃ round ∈ before, packet ∈ round.sent := by
  refine ⟨?_, ?_⟩
  · intro y last
    refine runRoundsUntil_iff.trans (exists_congr fun history => exists_congr fun final => ?_)
    constructor
    · rintro ⟨hjudged, hfirst⟩
      obtain ⟨earlier, previous, latest, hall⟩ := (first_repeatedWake?_iff hboot hjudged).mp hfirst
      exact ⟨earlier, previous, latest, hjudged, hall⟩
    · rintro ⟨earlier, previous, latest, hjudged, hall⟩
      exact ⟨hjudged, (first_repeatedWake?_iff hboot hjudged).mpr ⟨earlier, previous, latest, hall⟩⟩
  · intro history network hjudged
    obtain ⟨hsourced, hwoken⟩ :=
      sourced_of_judged (counts_boot hboot) (sourced_boot hboot) hjudged
    refine ⟨hsourced.wakes_eq, ?_⟩
    intro before j later hsplit
    obtain ⟨hlength, hsent⟩ := hwoken before j later hsplit
    exact ⟨hlength, hsent⟩

/-- A node that sends one packet to be held and then reads on: it is woken twice with it, and no
wake comes before these two. -/
theorem ends_with_first_repeated_wake_two_wakes :
    ∃ start last history final,
      boot [3, 0, 104, 1, 104, 7, 104, 8, 3, 0, 1106, 0, 8] {} 1 1 1 = .ok start ∧
        (∃ log, start.runUntilRepeatedWake 20 = some ⟨.ok 8, last, log⟩) ∧
        Judged start (history ++ [final]) last ∧
        last.wakes.toList = [⟨1, 7, 8⟩, ⟨1, 7, 8⟩] ∧
        history.flatMap Judgement.woken = [⟨1, 7, 8⟩] ∧ final.woken = [⟨1, 7, 8⟩] ∧
        ∃ round ∈ history, ⟨1, 7, 8⟩ ∈ round.sent := by
  let start : Network :=
    ⟨#[Node.boot [3, 0, 104, 1, 104, 7, 104, 8, 3, 0, 1106, 0, 8] {} 0], 1, 1, 0, #[], #[]⟩
  let waiting : Machine :=
    { Machine.boot [8, 0, 104, 1, 104, 7, 104, 8, 3, 0, 1106, 0, 8] {} with
      ip := 8, state := .blocked, current := some ⟨8, 3, .input, [.position]⟩,
      pending := some ⟨8, 3, .input, [.position]⟩, inputs := [7, 8] }
  let last : Network :=
    ⟨#[⟨0, waiting, []⟩], 1, 1, 0, #[⟨1, 7, 8⟩], #[⟨1, 7, 8⟩, ⟨1, 7, 8⟩]⟩
  have hboot : boot [3, 0, 104, 1, 104, 7, 104, 8, 3, 0, 1106, 0, 8] {} 1 1 1 = .ok start := by
    decide +kernel +zetaReduce
  have hrun : ∃ log, start.runUntilRepeatedWake 20 = some ⟨.ok 8, last, log⟩ :=
    Reply.exists_log (by decide +kernel +zetaReduce)
  obtain ⟨hends, hsources⟩ := ends_with_first_repeated_wake hboot
  obtain ⟨history, final, earlier, previous, latest, hjudged, hhistory, hfinal, hlast, -⟩ :=
    (hends 8 last).mp ⟨20, hrun⟩
  -- both wakes carry the packet held
  obtain ⟨rfl, rfl, rfl⟩ : earlier = [] ∧ previous = ⟨1, 7, 8⟩ ∧ latest = ⟨1, 7, 8⟩ := by
    have hwakes : [] ++ [⟨1, 7, 8⟩, ⟨1, 7, 8⟩] = earlier ++ [previous, latest] := hlast
    obtain ⟨hnone, hpair⟩ := List.append_inj' hwakes rfl
    simpa [eq_comm] using And.intro hnone hpair
  obtain ⟨-, hwoken⟩ := hsources _ _ hjudged
  obtain ⟨-, hsent⟩ := hwoken history final [] rfl
  exact ⟨start, last, history, final, hboot, hrun, hjudged, rfl, hhistory, hfinal,
    (hsent _ (hfinal ▸ List.mem_singleton_self _)).2⟩

end Start

end IntegerMachine.Network
