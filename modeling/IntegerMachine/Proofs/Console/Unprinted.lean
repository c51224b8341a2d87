import IntegerMachine.Proofs.Console.Feeding
import IntegerMachine.Proofs.Machine.Stepping

/-!
# What an execution prints that fails

An execution prints what its machine wrote each time the machine stops.  One that fails does not
come to the next stop, and what the machine wrote since the last one is not printed.  `Leads`
follows the machine by plain steps, which leave every value in its queue, and separates the values
written before the last stop from those written since.  `exists_converse_fault_iff` says that the
former are what is printed.
-/

set_option autoImplicit false

namespace IntegerMachine

namespace Machine

variable {m u w : Machine}

/-! ## Steps and the outputs that wait -/

/-- The machine with other outputs waiting. -/
def withOutputs (m : Machine) (outputs : List Int) : Machine :=
  { m with outputs }

/-- A step adds to the outputs that wait, and does not look at them. -/
theorem step_withOutputs (hm : m.state ≠ .halted) (outputs : List Int) :
    (m.withOutputs outputs).step =
      (m.step.1, m.step.2.withOutputs (outputs ++ m.stepWritten)) := by
  -- both machines are the one without outputs, laid behind some
  have hother := step_amid (m := m.withOutputs []) outputs [] hm hm fun _ => rfl
  have hsame := step_amid (m := m.withOutputs []) m.outputs [] hm hm fun _ => rfl
  have hwithOutputs : (m.withOutputs []).amid outputs m.state [] = m.withOutputs outputs := by
    simp [amid, withOutputs]
  have hback : (m.withOutputs []).amid m.outputs m.state [] = m := by simp [amid, withOutputs]
  have hwritten := outputs_step m
  rw [hwithOutputs] at hother
  rw [hback] at hsame
  rw [hother]
  rcases hstep : (m.withOutputs []).step with ⟨fault | signal, v⟩
  all_goals
    rw [hstep] at hsame
    rw [hsame] at hwritten ⊢
    have hv : v.outputs = m.stepWritten := List.append_cancel_left hwritten
    simp [amidResult, amid, withOutputs, hv]

/-- A machine that had not halted has not halted by steps that proceed. -/
theorem Advances.state_ne_halted {values : List Int} (h : Advances m values u)
    (hm : m.state ≠ .halted) : u.state ≠ .halted := by
  induction h with
  | refl m => exact hm
  | step hstep _ ih =>
    apply ih
    rw [state_of_step_proceed hstep]
    decide

/-- Outputs that wait change nothing in how a machine advances; what it writes comes behind them. -/
theorem Advances.withOutputs {values : List Int} (h : Advances m values u) (outputs : List Int) :
    Advances (m.withOutputs outputs) values (u.withOutputs (outputs ++ values)) := by
  induction h generalizing outputs with
  | refl m =>
    rw [List.append_nil]
    exact .refl _
  | @step m w v values hstep _ ih =>
    have hother := step_withOutputs (step_eq_ok.mp hstep).1 outputs
    rw [hstep] at hother
    have hrest := ih (outputs ++ m.stepWritten)
    rw [List.append_assoc] at hrest
    exact .step hother hrest

/-- A machine proceeds alike once its outputs are handed over. -/
theorem advances_withOutputs_nil_iff {values : List Int} :
    Advances (m.withOutputs []) values w ↔
      ∃ u, Advances m values u ∧ w = u.withOutputs values := by
  constructor
  · intro h
    refine ⟨_, h.withOutputs m.outputs, ?_⟩
    have hw : w.outputs = values := h.outputs_eq
    rw [← hw]
    rfl
  · rintro ⟨u, hu, rfl⟩
    exact hu.withOutputs []

/-- A step that ends a run gives what waits and leaves the machine with nothing to hand over. -/
theorem drained_step_withOutputs (hu : u.state ≠ .halted) (hstop : u.step.1 ≠ .ok .proceed)
    (values : List Int) :
    drained (u.withOutputs values).step =
      (report u.step).map fun given => (values, given.2.withOutputs []) := by
  rw [step_withOutputs hu, stepWritten_of_stop hstop, List.append_nil]
  rcases u.step with ⟨fault | signal, v⟩ <;> rfl

/-- A run of a machine whose outputs are handed over ends with the first step that does not proceed,
and gives the values written up to it. -/
theorem settles_withOutputs_nil_iff (hm : m.state ≠ .halted)
    {x : Except Fault (List Int × Machine)} :
    (m.withOutputs []).Settles x ↔
      ∃ values u, Advances m values u ∧ u.step.1 ≠ .ok .proceed ∧
        x = (report u.step).map fun given => (values, given.2.withOutputs []) := by
  rw [settles_iff_drains (m := m.withOutputs []) hm]
  constructor
  · rintro ⟨result, hrests, rfl⟩
    obtain ⟨values, w, hw, rfl, hstop⟩ := rests_iff_advances.mp hrests
    obtain ⟨u, hadvances, rfl⟩ := advances_withOutputs_nil_iff.mp hw
    have hu := hadvances.state_ne_halted hm
    rw [step_withOutputs hu] at hstop
    exact ⟨values, u, hadvances, hstop, drained_step_withOutputs hu hstop values⟩
  · rintro ⟨values, u, hadvances, hstop, rfl⟩
    have hu := hadvances.state_ne_halted hm
    have hw := advances_withOutputs_nil_iff.mpr ⟨u, hadvances, rfl⟩
    have hstop' : (u.withOutputs values).step.1 ≠ .ok .proceed := by
      rw [step_withOutputs hu]
      exact hstop
    exact ⟨_, rests_iff_advances.mpr ⟨values, _, hw, rfl, hstop'⟩,
      drained_step_withOutputs hu hstop values⟩

/-- A run settles with a fault exactly if a step reached has that fault. -/
theorem settles_fault_iff (hm : m.state ≠ .halted) {fault : Fault} :
    (m.withOutputs []).Settles (.error fault) ↔
      ∃ values u v, Advances m values u ∧ u.step = (.error fault, v) := by
  rw [settles_withOutputs_nil_iff hm]
  constructor
  · rintro ⟨values, u, hu, -, hx⟩
    rcases hstep : u.step with ⟨fault' | signal, v⟩
    · rw [hstep] at hx
      obtain rfl := Except.error.inj hx
      exact ⟨values, u, v, hu, hstep⟩
    · rw [hstep] at hx
      exact absurd hx (by simp [report, Except.map])
  · rintro ⟨values, u, v, hu, hstep⟩
    refine ⟨values, u, hu, by simp [hstep], ?_⟩
    rw [hstep]
    rfl

/-- A run settles without halting exactly if a step reached is blocked, and hands over what was
written up to there. -/
theorem settles_waiting_iff (hm : m.state ≠ .halted) {values : List Int} {v : Machine} :
    (m.withOutputs []).Settles (.ok (values, v)) ∧ v.isHalted = false ↔
      ∃ u w, Advances m values u ∧ u.step = (.ok .blocked, w) ∧ v = w.withOutputs [] := by
  rw [settles_withOutputs_nil_iff hm]
  constructor
  · rintro ⟨⟨values', u, hu, hstop, hx⟩, hv⟩
    rcases hstep : u.step with ⟨fault | signal, w⟩
    · rw [hstep] at hx
      exact absurd hx (by simp [report, Except.map])
    · rw [hstep] at hx hstop
      obtain ⟨rfl, rfl⟩ := Prod.mk.inj (Except.ok.inj hx)
      have hw : w.isHalted = false := hv
      rw [isHalted, state_of_step hstep] at hw
      cases signal with
      | proceed => exact absurd rfl hstop
      | halted => exact absurd hw (by decide)
      | blocked => exact ⟨u, w, hu, hstep, rfl⟩
  · rintro ⟨u, w, hu, hstep, rfl⟩
    refine ⟨⟨values, u, hu, by simp [hstep], ?_⟩, ?_⟩
    · rw [hstep]
      rfl
    · show w.isHalted = false
      rw [isHalted, state_of_step hstep]
      rfl

end Machine

namespace Console

open Machine

variable {style : Style} {m u w : Machine} {fault : Fault}

/-! ## Lines that are fed -/

/-- A line that is fed feeds the same values to every machine. -/
theorem feeds_of_feed {line : String} {log : Array Line} (h : style.feed m line = ⟨.ok w, log⟩) :
    ∃ batch, Feeds style line batch ∧ w = m.feedAll batch := by
  cases style with
  | numbers =>
    rw [Style.feed] at h
    rcases hload : Program.load line 0 with ⟨fault | batch, read⟩
    · rw [hload] at h
      exact absurd (congrArg Logged.result h) (by simp)
    · rw [hload] at h
      refine ⟨batch, feeds_numbers (by rw [hload]), ?_⟩
      exact (Except.ok.inj (congrArg Logged.result h)).symm
  | text =>
    refine ⟨_, fun _ => ⟨_, rfl⟩, ?_⟩
    exact (Except.ok.inj (congrArg Logged.result h)).symm

/-- Steps lead from one machine to another, with a line fed whenever a step waits.  They write
pieces, each up to a stop, and some values since the last stop. -/
inductive Leads (style : Style) :
    Machine → List String → List (List Int) → List Int → Machine → Prop
  | running {m u : Machine} {lines : List String} {since : List Int}
      (h : Advances m since u) : Leads style m lines [] since u
  | fed {m u w v : Machine} {line : String} {lines : List String} {batch piece : List Int}
      {pieces : List (List Int)} {since : List Int} (h : Advances m piece u)
      (hwait : u.step = (.ok .blocked, w)) (hline : Feeds style line batch)
      (rest : Leads style (w.feedAll batch) lines pieces since v) :
      Leads style m (line :: lines) (piece :: pieces) since v

/-- All that is written on the way waits in the queue. -/
theorem Leads.outputs_eq {lines : List String} {pieces : List (List Int)} {since : List Int}
    (h : Leads style m lines pieces since u) :
    u.outputs = m.outputs ++ (pieces.flatten ++ since) := by
  induction h with
  | running hu => exact hu.outputs_eq
  | @fed m u w v line lines batch piece pieces since hu hwait _ _ ih =>
    have hout := outputs_of_stop hu (by simp [hwait])
    rw [hwait] at hout
    have hfed : (w.feedAll batch).outputs = m.outputs ++ piece := hout
    rw [ih, hfed, List.flatten_cons, List.append_assoc, List.append_assoc]

/-! ## Executions that fail -/

/-- A machine that was fed goes on. -/
theorem state_feedAll_ne_halted (hwait : u.step = (.ok .blocked, w)) (batch : List Int) :
    (w.feedAll batch).state ≠ .halted := by
  rw [feedAll_state, state_of_step hwait]
  decide

/-- An execution that fails is led to the instruction that fails. -/
theorem exists_leads_of_ends (hm : m.state ≠ .halted) {lines : List String} {shown : String}
    (h : Ends style lines (m.withOutputs []) (.error (.machine fault)) shown) :
    ∃ pieces since u v, Leads style m lines pieces since u ∧ u.step = (.error fault, v) ∧
      shown = style.printedAll pieces := by
  generalize hsource : m.withOutputs [] = source at h
  generalize houtcome : Except.error (Failure.machine fault) = outcome at h
  -- by the rules of how an execution ends
  induction h generalizing m with
  | failed hsettles =>
    subst hsource
    cases houtcome
    obtain ⟨since, u, v, hu, hstep⟩ := (settles_fault_iff hm).mp hsettles
    exact ⟨[], since, u, v, .running hu, hstep, rfl⟩
  | halted | starved | refused => exact absurd houtcome (by simp)
  | @fed line lines source w v piece log outcome printed hsettles hw hfeed _ ih =>
    subst hsource
    obtain ⟨u, x, hu, hwait, rfl⟩ := (settles_waiting_iff hm).mp ⟨hsettles, hw⟩
    obtain ⟨batch, hline, rfl⟩ := feeds_of_feed hfeed
    obtain ⟨pieces, since, y, z, hleads, hstep, rfl⟩ :=
      ih (state_feedAll_ne_halted hwait batch) rfl houtcome
    exact ⟨piece :: pieces, since, y, z, .fed hu hwait hline hleads, hstep, by simp⟩

/-- What leads to an instruction that fails is an execution that fails. -/
theorem Leads.ends {lines : List String} {pieces : List (List Int)} {since : List Int} {v : Machine}
    (h : Leads style m lines pieces since u) (hm : m.state ≠ .halted)
    (hstep : u.step = (.error fault, v)) :
    Ends style lines (m.withOutputs []) (.error (.machine fault)) (style.printedAll pieces) := by
  induction h with
  | running hu => exact .failed ((settles_fault_iff hm).mpr ⟨_, _, _, hu, hstep⟩)
  | @fed m u w y line lines batch piece pieces since hu hwait hline _ ih =>
    obtain ⟨hsettles, hw⟩ := (settles_waiting_iff hm).mpr ⟨u, w, hu, hwait, rfl⟩
    obtain ⟨read, hfed⟩ := hline (w.withOutputs [])
    rw [Style.printedAll_cons]
    exact .fed hsettles hw hfed (ih (state_feedAll_ne_halted hwait batch) hstep)

/-- An execution that fails has printed the pieces up to the last stop. -/
theorem exists_converse_fault_iff (hm : m.state ≠ .halted) {lines : List String}
    {output printed : String} {log : Array Line} :
    (∃ rounds log', converse rounds style lines (m.withOutputs []) output log =
        some ⟨.error (.machine fault), printed, log'⟩) ↔
      ∃ pieces since u v, Leads style m lines pieces since u ∧ u.step = (.error fault, v) ∧
        printed = output ++ style.printedAll pieces := by
  rw [exists_converse_iff_ends]
  constructor
  · rintro ⟨shown, h, rfl⟩
    obtain ⟨pieces, since, u, v, hleads, hstep, rfl⟩ := exists_leads_of_ends hm h
    exact ⟨pieces, since, u, v, hleads, hstep, rfl⟩
  · rintro ⟨pieces, since, u, v, hleads, hstep, rfl⟩
    exact ⟨_, hleads.ends hm hstep, rfl⟩

/-- An execution that ends in a fault has printed the pieces up to the last stop, and none of the
values written since. -/
theorem exists_execute_fault_iff {program : List Int} {settings : Settings} {inputs : List Int}
    {input output : String} :
    (∃ rounds log, execute rounds program settings inputs style input =
        some ⟨.error (.machine fault), output, log⟩) ↔
      ∃ pieces since u v,
        Leads style ((boot program settings).feedAll inputs) (Text.lines input) pieces since u ∧
          u.step = (.error fault, v) ∧ output = style.printedAll pieces := by
  have hboot : ((boot program settings).feedAll inputs).state ≠ .halted := by
    show Suspension.active ≠ .halted
    decide
  refine (exists_converse_fault_iff hboot).trans ?_
  simp only [String.empty_append]

/-- The lines of the values stand in the output, in order. -/
def Shows (output : String) (values : List Int) : Prop :=
  (numberLines values).toList.Sublist output.toList

/-- The lines of values show these values. -/
theorem shows_numberLines (values : List Int) : Shows (numberLines values) values :=
  List.Sublist.refl _

/-- A value that is left out is missed. -/
theorem shows_append_iff {printed since : List Int} :
    Shows (numberLines printed) (printed ++ since) ↔ since = [] := by
  constructor
  · intro h
    cases since with
    | nil => rfl
    | cons value rest =>
      have hlength := h.length_le
      have hline : 0 < (numberLines (value :: rest)).toList.length := by
        have hend : (toString "\n").toList.length = 1 := rfl
        simp only [numberLines, List.map_cons, String.join_cons, String.toList_append,
          List.length_append]
        omega
      rw [numberLines_append, String.toList_append, List.length_append] at hlength
      omega
  · rintro rfl
    rw [List.append_nil]
    exact shows_numberLines printed

/-- An execution that fails prints the values written up to the last stop and no other.  So all that
its machine wrote is printed exactly if nothing was written between that stop and the instruction
that fails. -/
theorem printed_of_fault (program : List Int) (settings : Settings) (inputs : List Int)
    (input : String) :
    (∀ fault output,
      (∃ rounds log, execute rounds program settings inputs .numbers input =
          some ⟨.error (.machine fault), output, log⟩) ↔
        ∃ pieces since u v,
          Leads .numbers ((boot program settings).feedAll inputs) (Text.lines input) pieces since
              u ∧
            u.step = (.error fault, v) ∧ output = numberLines pieces.flatten) ∧
    (∀ pieces since u,
      Leads .numbers ((boot program settings).feedAll inputs) (Text.lines input) pieces since u →
        u.outputs = pieces.flatten ++ since ∧
          (Shows (numberLines pieces.flatten) u.outputs ↔ since = [])) := by
  constructor
  · intro fault output
    rw [exists_execute_fault_iff]
    simp only [printedAll_numbers]
  · intro pieces since u h
    have hout : u.outputs = pieces.flatten ++ since := h.outputs_eq
    refine ⟨hout, ?_⟩
    rw [hout]
    exact shows_append_iff

/-- Writes a value, reads one, writes another and fails. -/
def writesThenFails : List Int := [104, 65, 3, 0, 104, 66, 42]

/-- The first value is printed when the machine waits, the second is not. -/
theorem printed_of_fault_after_stop :
    let m : Machine := (boot writesThenFails {}).feedAll []
    let v : Machine :=
      { m with
        memory := #[1, 65, 3, 0, 104, 66, 42]
        ip := 6
        outputs := [65, 66]
        current := some ⟨4, 104, .output, [.immediate]⟩ }
    Leads .numbers m (Text.lines "1\n") [[65]] [66] v ∧ v.outputs = [65, 66] ∧
      ¬ Shows (numberLines [65]) v.outputs ∧
      ∃ rounds log, execute rounds writesThenFails {} [] .numbers "1\n" =
        some ⟨.error (.machine ⟨.illegalOpcode 42, 6, some 42⟩), numberLines [65], log⟩ := by
  intro m v
  have hlines : Text.lines "1\n" = ["1\n"] := by decide +kernel
  have hload : (Program.load "1\n" 0).result = .ok [1] := by decide +kernel
  let u : Machine :=
    { m with ip := 2, outputs := [65], current := some ⟨0, 104, .output, [.immediate]⟩ }
  let reading : Instruction := ⟨2, 3, .input, [.position]⟩
  let w : Machine := u.waiting reading
  let x : Machine :=
    { u with memory := #[1, 65, 3, 0, 104, 66, 42], ip := 4, current := some reading }
  have hfirst : Advances m [65] u := .step rfl (.refl u)
  have hwait : u.step = (.ok .blocked, w) := rfl
  have hread : (w.feedAll [1]).step = (.ok .proceed, x) := rfl
  have hwrite : x.step = (.ok .proceed, v) := rfl
  have hsecond : Advances (w.feedAll [1]) [66] v := .step hread (.step hwrite (.refl v))
  have hleads : Leads .numbers m (Text.lines "1\n") [[65]] [66] v := by
    rw [hlines]
    exact .fed hfirst hwait (feeds_numbers hload) (.running hsecond)
  obtain ⟨hfails, hshown⟩ := printed_of_fault writesThenFails {} [] "1\n"
  obtain ⟨hout, hshows⟩ := hshown _ _ _ hleads
  refine ⟨hleads, hout, ?_, (hfails _ _).mpr ⟨_, _, _, _, hleads, rfl, rfl⟩⟩
  exact mt hshows.mp (by simp)

/-- A value written right before an instruction that fails is not printed. -/
theorem not_all_shown :
    ¬ ∀ program settings inputs input rounds fault output log,
      execute rounds program settings inputs .numbers input =
          some ⟨.error (.machine fault), output, log⟩ →
        ∀ pieces since u v,
          Leads .numbers ((boot program settings).feedAll inputs) (Text.lines input) pieces since
              u →
            u.step = (.error fault, v) → Shows output u.outputs := by
  intro hall
  let m : Machine := (boot [104, 5, 42] {}).feedAll []
  have hleads : Leads .numbers m (Text.lines "") [] [5] m.step.2 :=
    .running (.step rfl (.refl _))
  have hstep : m.step.2.step =
      (.error ⟨.illegalOpcode 42, 2, some 42⟩, m.step.2.step.2) := rfl
  obtain ⟨rounds, log, hfails⟩ := exists_execute_fault_iff.mpr ⟨_, _, _, _, hleads, hstep, rfl⟩
  have hshows : Shows (numberLines []) ([] ++ [5]) :=
    hall _ _ _ _ _ _ _ _ hfails _ _ _ _ hleads hstep
  exact absurd (shows_append_iff.mp hshows) (by simp)

end Console

end IntegerMachine
