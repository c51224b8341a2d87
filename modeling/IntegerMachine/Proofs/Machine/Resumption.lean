import IntegerMachine.Proofs.Machine.Rest

/-!
# Runs that are interrupted and resumed

A machine that finds no value queued stops, and goes on once there is one.  It makes no
difference to a run whether its values are queued at once or in batches with a run after each:
`settles_feedAll_iff` cuts a run where the machine stops for a value, and
`settlesInBatches_iff` is the statement for any number of batches.
-/

set_option autoImplicit false

namespace IntegerMachine.Machine

/-- Queues values batch by batch and runs after each.  A fault ends the runs; a machine that
has halted is not run again, and the batches that are left stay in its queue. -/
def runBatches (rounds : Nat) :
    List (List Int) → Machine → Option (Reply Fault Machine (List Int))
  | [], m => some ⟨.ok [], m, #[]⟩
  | batch :: batches, m =>
    match (m.feedAll batch).run rounds with
    | none => none
    | some ⟨.error fault, m, log⟩ => some ⟨.error fault, m, log⟩
    | some ⟨.ok values, m, log⟩ =>
      if m.isHalted then some ⟨.ok values, m.feedAll batches.flatten, log⟩
      else (runBatches rounds batches m).map (following values log)

/-- The runs after each batch, given enough rounds, settle with what is given. -/
def SettlesInBatches (batches : List (List Int)) (m : Machine)
    (x : Except Fault (List Int × Machine)) : Prop :=
  ∃ rounds reply, runBatches rounds batches m = some reply ∧ settled reply = x

/-- How a run that settled goes on when values are queued behind: a fault stays, a halted machine
keeps the values, and another machine does what `next` says, after the values given so far. -/
def GoesOn (values : List Int) (next : Machine → Except Fault (List Int × Machine) → Prop) :
    Except Fault (List Int × Machine) → Except Fault (List Int × Machine) → Prop
  | .error fault, x => x = .error fault
  | .ok (first, w), x =>
    if w.isHalted then x = .ok (first, w.feedAll values)
    else ∃ z, next w z ∧ x = z.map fun given => (first ++ given.1, given.2)

/-- Runs over batches that end within some rounds end so within more. -/
theorem runBatches_add {n : Nat} {batches : List (List Int)} {m : Machine}
    {reply : Reply Fault Machine (List Int)} (h : runBatches n batches m = some reply)
    (more : Nat) : runBatches (n + more) batches m = some reply := by
  induction batches generalizing m reply with
  | nil => exact h
  | cons batch batches ih =>
    rw [runBatches] at h ⊢
    cases hrun : (m.feedAll batch).run n with
    | none => simp [hrun] at h
    | some first =>
      rw [run_add hrun more]
      obtain ⟨fault | values, w, log⟩ := first
      · simpa only [hrun] using h
      · simp only [hrun] at h ⊢
        by_cases hw : w.isHalted = true
        · simpa only [hw, if_true] using h
        · simp only [hw] at h ⊢
          obtain ⟨inner, hinner, rfl⟩ := Option.map_eq_some_iff.mp h
          rw [ih hinner]
          rfl

/-- The first run settles, and the other batches follow where it stopped. -/
theorem settlesInBatches_cons {batch : List Int} {batches : List (List Int)} {m : Machine}
    {x : Except Fault (List Int × Machine)} :
    m.SettlesInBatches (batch :: batches) x ↔
      ∃ y, (m.feedAll batch).Settles y ∧
        GoesOn batches.flatten (SettlesInBatches batches) y x := by
  constructor
  · rintro ⟨n, reply, hruns, rfl⟩
    rw [runBatches] at hruns
    cases hrun : (m.feedAll batch).run n with
    | none => simp [hrun] at hruns
    | some first =>
      refine ⟨settled first, ⟨n, first, hrun, rfl⟩, ?_⟩
      obtain ⟨fault | values, w, log⟩ := first
      · simp only [hrun, Option.some.injEq] at hruns
        subst hruns
        rfl
      · simp only [hrun] at hruns
        simp only [settled, Except.map, GoesOn]
        split at hruns
        · rename_i hw
          rw [if_pos hw]
          cases hruns
          rfl
        · rename_i hw
          rw [if_neg hw]
          obtain ⟨inner, hinner, rfl⟩ := Option.map_eq_some_iff.mp hruns
          exact ⟨settled inner, ⟨n, inner, hinner, rfl⟩, settled_following values log inner⟩
  · rintro ⟨y, ⟨n, first, hrun, rfl⟩, hon⟩
    obtain ⟨fault | values, w, log⟩ := first
    · refine ⟨n, ⟨.error fault, w, log⟩, ?_, hon.symm⟩
      simp only [runBatches, hrun]
    · simp only [settled, Except.map, GoesOn] at hon
      split at hon
      · rename_i hw
        refine ⟨n, ⟨.ok values, w.feedAll batches.flatten, log⟩, ?_, hon.symm⟩
        simp only [runBatches, hrun, if_pos hw]
      · rename_i hw
        obtain ⟨z, ⟨k, inner, hinner, rfl⟩, rfl⟩ := hon
        -- the rounds of both runs together are enough for each
        refine ⟨n + k, following values log inner, ?_, settled_following values log inner⟩
        rw [runBatches, run_add hrun k]
        simp only [if_neg hw]
        rw [Nat.add_comm n k, runBatches_add hinner n]
        rfl

/-- Where the machine laid between outputs and inputs comes to rest, so does the machine. -/
theorem Rests.of_amid {m : Machine} {earlier : List Int} {state : Suspension} {later : List Int}
    {result : Except Fault Signal × Machine} (h : Rests (m.amid earlier state later) result)
    (hm : m.state ≠ .halted) (hstate : state ≠ .halted) : ∃ inner, Rests m inner := by
  generalize hsource : m.amid earlier state later = source at h
  induction h generalizing m state with
  | stop hstop =>
    subst hsource
    refine ⟨m.step, .stop ?_⟩
    intro hgo
    rw [step_amid earlier later hm hstate (by simp [hgo]), amidResult_fst] at hstop
    exact hstop hgo
  | proceed hgo _ ih =>
    subst hsource
    rcases hstep : m.step with ⟨fault | signal, w⟩
    · exact ⟨m.step, .stop (by simp [hstep])⟩
    · cases signal with
      | proceed =>
        have hamid := step_amid earlier later hm hstate (by simp [hstep])
        rw [hgo, hstep] at hamid
        have hw := state_of_step_proceed hstep
        have hactive : w.state ≠ .halted := by simp [hw]
        obtain ⟨inner, hinner⟩ := ih hactive hactive (Prod.mk.inj hamid).2.symm
        exact ⟨inner, .proceed hstep hinner⟩
      | blocked | halted => exact ⟨m.step, .stop (by simp [hstep])⟩

/-- What a step reports: the signal and the machine left, or the fault. -/
def report (result : Except Fault Signal × Machine) : Except Fault (Signal × Machine) :=
  result.1.map fun signal => (signal, result.2)

/-- A step reports a signal exactly if it ends with it. -/
theorem report_eq_ok {result : Except Fault Signal × Machine} {signal : Signal} {w : Machine} :
    report result = .ok (signal, w) ↔ result = (.ok signal, w) := by
  obtain ⟨fault | s, m⟩ := result <;> simp [report, Except.map]

/-- Laying a machine between no outputs and no inputs changes nothing in what a step reports but its
machine. -/
theorem report_amidResult (state : Suspension) (result : Except Fault Signal × Machine) :
    report (amidResult [] state [] result) = report result := by
  obtain ⟨fault | s, m⟩ := result
  · rfl
  · simp [report, amidResult, amid, Except.map]

/-- Machines whose next steps report the same give the same. -/
theorem Drains.of_report {m other : Machine} {x : Except Fault (List Int × Machine)}
    (h : m.Drains x) (hreport : report other.step = report m.step) : other.Drains x := by
  obtain ⟨result, hrests, rfl⟩ := h
  cases hrests with
  | stop hstop =>
    have hstop' : other.step.1 ≠ .ok .proceed := by
      intro hgo
      have hother : report other.step = .ok (.proceed, other.step.2) :=
        report_eq_ok.mpr (Prod.ext hgo rfl)
      rw [hreport] at hother
      exact hstop (congrArg Prod.fst (report_eq_ok.mp hother))
    refine ⟨other.step, .stop hstop', ?_⟩
    rcases hm : m.step with ⟨fault | signal, w⟩
    · rcases ho : other.step with ⟨fault' | signal', w'⟩
      · rw [hm, ho] at hreport
        cases Except.error.inj hreport
        rfl
      · rw [hm, ho] at hreport
        exact absurd hreport (by simp [report, Except.map])
    · rw [hm, report_eq_ok.mpr rfl] at hreport
      rw [report_eq_ok.mp hreport]
  | proceed hgo hrest =>
    rw [report_eq_ok.mpr hgo] at hreport
    exact ⟨result, .proceed (report_eq_ok.mp hreport) hrest, rfl⟩

/-- A machine that stopped for a value goes on like the machine before, once values are queued:
the instruction kept is the one it would have decoded. -/
theorem report_step_of_blocked {m w : Machine} (h : m.step = (.ok .blocked, w))
    (values : List Int) : report (w.feedAll values).step = report (m.feedAll values).step := by
  have hm : (m.feedAll values).state ≠ .halted := (step_eq_ok.mp h).1
  obtain ⟨-, i, hdue, -, rfl⟩ := step_eq_blocked h
  have hw : ((m.waiting i).feedAll values).state ≠ .halted := by simp [waiting]
  have hdue' : (m.feedAll values).due = .ok i := hdue
  have hkept : ((m.waiting i).feedAll values).due = .ok i := rfl
  have hbegun : ((m.waiting i).feedAll values).begun i =
      ((m.feedAll values).amid [] .blocked []).begun i := by
    simp [begun, waiting, feedAll, amid]
  have hperform : ((m.waiting i).feedAll values).perform i =
      ((m.feedAll values).amid [] .blocked []).perform i := by
    rw [perform_eq, perform_eq, hbegun]
  rw [step_eq hm, step_eq hw, hdue', hkept]
  simp only [hperform]
  rw [perform_amid _ _ _ _ _ (fun _ => rfl), report_amidResult]

/-- What stepping gives after values are queued is what the machine gives that stopped for
them. -/
theorem drains_feedAll_of_blocked {m w : Machine} (h : Rests m (.ok .blocked, w))
    (values : List Int) {x : Except Fault (List Int × Machine)} :
    (m.feedAll values).Drains x ↔ (w.feedAll values).Drains x := by
  generalize hresult : ((.ok .blocked, w) : Except Fault Signal × Machine) = result at h
  induction h with
  | stop hstop =>
    have hreport := report_step_of_blocked hresult.symm values
    exact ⟨fun hx => hx.of_report hreport, fun hx => hx.of_report hreport.symm⟩
  | @proceed m next result hgo _ ih =>
    have hm : m.state ≠ .halted := (step_eq_ok.mp hgo).1
    have hstep : (m.feedAll values).step = (.ok .proceed, next.feedAll values) := by
      rw [feedAll_eq_amid, step_amid [] values hm hm (by simp [hgo]), hgo]
      rfl
    rw [← ih hresult]
    constructor
    · rintro ⟨last, hrests, rfl⟩
      cases hrests with
      | stop hstop => exact absurd (by rw [hstep]) hstop
      | proceed hgo' hrest =>
        rw [hstep] at hgo'
        cases hgo'
        exact ⟨last, hrest, rfl⟩
    · rintro ⟨last, hrests, rfl⟩
      exact ⟨last, .proceed hstep hrests, rfl⟩

/-- Outputs already queued stand in front of what stepping gives. -/
theorem drains_behind {m : Machine} (hm : m.state ≠ .halted) (earlier : List Int)
    {state : Suspension} (hstate : state ≠ .halted) {x : Except Fault (List Int × Machine)} :
    (m.amid earlier state []).Drains x ↔
      ∃ z, m.Drains z ∧ x = z.map fun given => (earlier ++ given.1, given.2) := by
  have houter : ∀ result, Rests m result → (m.amid earlier state []).Drains
      ((drained result).map fun given => (earlier ++ given.1, given.2)) := by
    intro result hresult
    obtain ⟨last, hlast⟩ := hresult.amid earlier [] hm hstate (fun _ => rfl)
    exact ⟨_, hlast, drained_amidResult earlier last result⟩
  constructor
  · intro hx
    obtain ⟨outer, hrests, -⟩ := id hx
    obtain ⟨inner, hinner⟩ := hrests.of_amid hm hstate
    exact ⟨drained inner, ⟨inner, hinner, rfl⟩, hx.unique (houter inner hinner)⟩
  · rintro ⟨z, ⟨inner, hinner, rfl⟩, rfl⟩
    exact houter inner hinner

/-- Once it is known how stepping comes to rest, it is known how it does with values queued
behind. -/
theorem drains_feedAll_iff {m : Machine} (hm : m.state ≠ .halted) (values : List Int)
    {result : Except Fault Signal × Machine} (h : Rests m result)
    {x : Except Fault (List Int × Machine)} :
    (m.feedAll values).Drains x ↔
      GoesOn values (fun w => (w.feedAll values).Settles) (drained result) x := by
  rcases result with ⟨fault | signal, w⟩
  · obtain ⟨last, hlast⟩ := h.amid [] values hm hm (by simp)
    have hdrains : (m.feedAll values).Drains (.error fault) := ⟨_, hlast, rfl⟩
    constructor
    · intro hx
      exact hx.unique hdrains
    · rintro rfl
      exact hdrains
  · rcases h.state_eq with ⟨rfl, hw⟩ | ⟨rfl, hw⟩
    · have hhalted : ¬ ({ w with outputs := [] } : Machine).isHalted = true := by
        simp [isHalted, hw]
      have hback : w.feedAll values =
          ({ w with outputs := [] }.feedAll values).amid w.outputs w.state [] := by
        simp [feedAll, amid]
      have hstate : ({ w with outputs := [] }.feedAll values).state ≠ .halted := by simp [hw]
      rw [drains_feedAll_of_blocked h values, hback]
      rw [drains_behind hstate w.outputs (by simp [hw])]
      simp only [drained, GoesOn, if_neg hhalted, settles_iff_drains hstate]
    · have hhalted : ({ w with outputs := [] } : Machine).isHalted = true := by
        simp [isHalted, hw]
      obtain ⟨last, hlast⟩ := h.amid [] values hm hm (by simp)
      have hdrains : (m.feedAll values).Drains
          (.ok (w.outputs, { w with outputs := [] }.feedAll values)) := ⟨_, hlast, rfl⟩
      simp only [drained, GoesOn, if_pos hhalted]
      constructor
      · intro hx
        exact hx.unique hdrains
      · rintro rfl
        exact hdrains

/-- A run on queued values is a run without them, resumed where it stopped for a value. -/
theorem settles_feedAll_iff {m : Machine} (hm : m.state ≠ .halted) (values : List Int)
    {x : Except Fault (List Int × Machine)} :
    (m.feedAll values).Settles x ↔
      ∃ y, m.Settles y ∧ GoesOn values (fun w => (w.feedAll values).Settles) y x := by
  have hfed : (m.feedAll values).state ≠ .halted := hm
  rw [settles_iff_drains hfed]
  constructor
  · intro hx
    obtain ⟨outer, hrests, -⟩ := id hx
    rw [feedAll_eq_amid] at hrests
    obtain ⟨inner, hinner⟩ := hrests.of_amid hm hm
    have hsettles : m.Settles (drained inner) := (settles_iff_drains hm).mpr ⟨inner, hinner, rfl⟩
    exact ⟨drained inner, hsettles, (drains_feedAll_iff hm values hinner).mp hx⟩
  · rintro ⟨y, hy, hon⟩
    obtain ⟨inner, hinner, rfl⟩ := (settles_iff_drains hm).mp hy
    exact (drains_feedAll_iff hm values hinner).mpr hon

/-- A single batch is a single run. -/
theorem settlesInBatches_singleton {batch : List Int} {m : Machine}
    {x : Except Fault (List Int × Machine)} :
    m.SettlesInBatches [batch] x ↔ (m.feedAll batch).Settles x := by
  have hon : ∀ y x, GoesOn [].flatten (SettlesInBatches []) y x ↔ x = y := by
    intro y x
    rcases y with fault | ⟨first, w⟩
    · rfl
    · simp only [GoesOn, List.flatten_nil, feedAll_nil]
      split
      · rfl
      · constructor
        · rintro ⟨z, ⟨n, reply, hruns, rfl⟩, rfl⟩
          cases hruns
          simp [settled, Except.map]
        · rintro rfl
          exact ⟨.ok ([], w), ⟨0, _, rfl, rfl⟩, by simp [Except.map]⟩
  rw [settlesInBatches_cons]
  simp only [hon]
  constructor
  · rintro ⟨y, hy, rfl⟩
    exact hy
  · intro hx
    exact ⟨x, hx, rfl⟩

/-- However values are cut into batches, with a run after each, the runs give in sum what one run
on all the values gives: the same values and the same machine, or the same fault. -/
theorem settlesInBatches_iff (m : Machine) (batches : List (List Int))
    (hm : m.state ≠ .halted) (hbatches : batches ≠ []) (x : Except Fault (List Int × Machine)) :
    m.SettlesInBatches batches x ↔ (m.feedAll batches.flatten).Settles x := by
  induction batches generalizing m x with
  | nil => exact absurd rfl hbatches
  | cons batch batches ih =>
    cases batches with
    | nil => simpa using settlesInBatches_singleton
    | cons next rest =>
      have hfed : (m.feedAll batch).state ≠ .halted := hm
      rw [List.flatten_cons, ← feedAll_feedAll, settles_feedAll_iff hfed, settlesInBatches_cons]
      -- the runs differ only in how a machine that waits goes on
      have hon : ∀ y, GoesOn (next :: rest).flatten (SettlesInBatches (next :: rest)) y x ↔
          GoesOn (next :: rest).flatten
            (fun w => (w.feedAll (next :: rest).flatten).Settles) y x := by
        intro y
        rcases y with fault | ⟨first, w⟩
        · rfl
        · simp only [GoesOn]
          split
          · rfl
          · rename_i hw
            have hstate : w.state ≠ .halted := by simpa [isHalted] using hw
            simp only [ih w hstate (by simp)]
      simp only [hon]

/-- A program that writes two values it reads, resumed twice, once with nothing: what it gives is
what one run gives, and the value behind the halt stays queued. -/
theorem settlesInBatches_two_values :
    (boot [3, 0, 4, 0, 3, 1, 4, 1, 99] {}).state ≠ .halted ∧
      [[7], [], [5, 6]] ≠ ([] : List (List Int)) ∧
      (boot [3, 0, 4, 0, 3, 1, 4, 1, 99] {}).SettlesInBatches [[7], [], [5, 6]]
        (.ok ([7, 5],
          { boot [7, 5, 4, 0, 3, 1, 4, 1, 99] {} with
            ip := 8, inputs := [6], state := .halted, current := some ⟨8, 99, .halt, []⟩ })) :=
  have hstate : (boot [3, 0, 4, 0, 3, 1, 4, 1, 99] {}).state ≠ .halted := by decide
  have hbatches : [[7], [], [5, 6]] ≠ ([] : List (List Int)) := by decide
  ⟨hstate, hbatches,
    (settlesInBatches_iff _ [[7], [], [5, 6]] hstate hbatches _).mpr ⟨20, _, rfl, rfl⟩⟩

end IntegerMachine.Machine
