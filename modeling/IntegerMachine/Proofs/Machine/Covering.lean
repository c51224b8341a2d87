import IntegerMachine.Proofs.Machine.Cells
import IntegerMachine.Proofs.Machine.Effect
import IntegerMachine.Proofs.Machine.Transcript

/-!
# Machines able to do more

Two machines are alike if nothing tells them apart but dialect, growth, and how far memory reaches
with zeros at its end.  Of two that are alike, one covers the other if it knows its opcodes and modes
and reaches its cells.  `simulation_covers` says that what the first completes the other completes
alike; from it follow that zeros at the end of memory that grows are never seen
(`transcripts_of_equalUpToZeros`) and that a run that succeeds succeeds alike on a machine that is
able to do more (`transcript_of_enlarged`).
-/

set_option autoImplicit false

namespace IntegerMachine.Machine

/-- Machines with the same registers, queues and instructions under way, whose cells agree with
zeros behind the end of memory. -/
structure Alike (m w : Machine) : Prop where
  ip_eq : w.ip = m.ip
  base_eq : w.base = m.base
  inputs_eq : w.inputs = m.inputs
  outputs_eq : w.outputs = m.outputs
  state_eq : w.state = m.state
  current_eq : w.current = m.current
  pending_eq : w.pending = m.pending
  cell_eq : ∀ address, w.cell address = m.cell address

/-- The second machine is alike and able to do what the first is.  If the faults of the first are to
be those of the second as well, both have one dialect and memory that grows. -/
structure Covers (faults : Prop) (m w : Machine) : Prop extends Alike m w where
  opcodes_subset : m.dialect.opcodes ⊆ w.dialect.opcodes
  modes_subset : m.dialect.modes ⊆ w.dialect.modes
  room : w.grows = true ∨ m.grows = false ∧ m.memory.size ≤ w.memory.size
  same : faults → w.dialect = m.dialect ∧ m.grows = true

/-- What is computed from a shared outcome alike is alike. -/
theorem bind_eq_of_shared {α β : Type} {faults : Prop} {x y : Except Fault α}
    {f g : α → Except Fault β} (h : Shared faults (x >>= f)) (hx : Shared faults x → y = x)
    (hf : ∀ a, Shared faults (f a) → g a = f a) : y >>= g = x >>= f := by
  cases x with
  | error fault =>
    rw [hx fun _ _ => h.of_error]
    rfl
  | ok a =>
    rw [hx (shared_ok faults a)]
    exact hf a h

/-- Why a cell cannot be accessed, with the causes for a negative address and for one past the
end. -/
def accessCause? (negative beyond : Int → Cause) (m : Machine) (address : Int) : Option Cause :=
  if address < 0 then some (negative address)
  else if m.memory.size ≤ address.toNat ∧ m.grows = false then some (beyond address)
  else none

section Access

variable {faults : Prop} {m w : Machine} (h : Covers faults m w)

include h

/-- A cause makes the same fault of both machines, as the last instruction is the same. -/
theorem faultOf_of_covers (cause : Cause) : w.faultOf cause = m.faultOf cause := by
  simp only [faultOf, h.ip_eq, h.current_eq]

/-- A cell within reach of the first machine is within reach of the second. -/
theorem within_of_covers {size : Nat} (hm : ¬ (m.memory.size ≤ size ∧ m.grows = false)) :
    ¬ (w.memory.size ≤ size ∧ w.grows = false) := by
  rintro ⟨hsize, hw⟩
  rcases h.room with hgrows | ⟨hfixed, hle⟩
  · rw [hw] at hgrows
    exact absurd hgrows (by decide)
  · exact hm ⟨Nat.le_trans hle hsize, hfixed⟩

/-- A cell past the end of the first machine's memory is no cause if faults are shared. -/
theorem within_of_faults (hfaults : faults) (size : Nat) :
    ¬ (m.memory.size ≤ size ∧ m.grows = false) := by
  rintro ⟨-, hm⟩
  rw [(h.same hfaults).2] at hm
  exact absurd hm (by decide)

/-- What stands in the way of an access to a cell is the same, unless it is a fault of the first
machine that need not be shared. -/
theorem accessCause?_of_covers (negative beyond : Int → Cause) {address : Int}
    (hm : ∀ cause, accessCause? negative beyond m address = some cause → faults) :
    accessCause? negative beyond w address = accessCause? negative beyond m address := by
  unfold accessCause? at hm ⊢
  by_cases hneg : address < 0
  · simp only [if_pos hneg]
  · by_cases hbeyond : m.memory.size ≤ address.toNat ∧ m.grows = false
    · have hfaults := hm (beyond address) (by simp [hneg, hbeyond])
      exact absurd hbeyond (within_of_faults h hfaults _)
    · simp only [if_neg hneg, if_neg hbeyond, if_neg (within_of_covers h hbeyond)]

/-- What the first machine can read the second can, and what it cannot is the same if faults are
shared. -/
theorem readCause?_of_covers {address : Int}
    (hm : ∀ cause, m.readCause? address = some cause → faults) :
    w.readCause? address = m.readCause? address :=
  accessCause?_of_covers h .readNegative .readBeyond hm

/-- What the first machine can write the second can, and what it cannot is the same if faults are
shared. -/
theorem writeCause?_of_covers {address : Int}
    (hm : ∀ cause, m.writeCause? address = some cause → faults) :
    w.writeCause? address = m.writeCause? address :=
  accessCause?_of_covers h .writeNegative .writeBeyond hm

/-- A cell reads the same, or fails the same if faults are shared. -/
theorem read_of_covers (address : Int) (hshared : Shared faults (m.read address)) :
    w.read address = m.read address := by
  unfold read at hshared ⊢
  have hcause : w.readCause? address = m.readCause? address := by
    apply readCause?_of_covers h
    intro cause hcause
    rw [hcause] at hshared
    exact hshared.of_error
  rw [hcause, h.cell_eq]
  simp only [faultOf_of_covers h]

end Access

section Operands

variable {faults : Prop} {m w : Machine} (h : Covers faults m w) (i : Instruction)

include h

/-- An operand word is the same. -/
theorem operand_of_covers (n : Nat) (hshared : Shared faults (m.operand i n)) :
    w.operand i n = m.operand i n :=
  read_of_covers h _ hshared

/-- The address of an operand is the same. -/
theorem address_of_covers (n : Nat) (hshared : Shared faults (m.address i n)) :
    w.address i n = m.address i n := by
  unfold address at hshared ⊢
  cases hmode : i.mode n with
  | immediate => simp only [faultOf_of_covers h]
  | position =>
    simp only [hmode] at hshared
    exact operand_of_covers h i n hshared
  | relative =>
    simp only [hmode] at hshared
    refine bind_eq_of_shared hshared (operand_of_covers h i n) fun a _ => ?_
    rw [h.base_eq]

/-- The value of an operand is the same. -/
theorem value_of_covers (n : Nat) (hshared : Shared faults (m.value i n)) :
    w.value i n = m.value i n := by
  unfold value at hshared ⊢
  cases hmode : i.mode n with
  | immediate =>
    simp only [hmode] at hshared
    exact operand_of_covers h i n hshared
  | position | relative =>
    simp only [hmode] at hshared
    exact bind_eq_of_shared hshared (address_of_covers h i n) (read_of_covers h)

/-- The effect of an arithmetic instruction is the same. -/
theorem arithmetic_of_covers (op : Int → Int → Int) (hshared : Shared faults (m.arithmetic i op)) :
    w.arithmetic i op = m.arithmetic i op := by
  refine bind_eq_of_shared hshared (value_of_covers h i 0) fun a ha => ?_
  refine bind_eq_of_shared ha (value_of_covers h i 1) fun b hb => ?_
  exact bind_eq_of_shared hb (address_of_covers h i 2) fun _ _ => rfl

/-- The effect of a branch is the same. -/
theorem branch_of_covers (condition : Int → Bool) (hshared : Shared faults (m.branch i condition)) :
    w.branch i condition = m.branch i condition := by
  refine bind_eq_of_shared hshared (value_of_covers h i 0) fun a ha => ?_
  by_cases hc : condition a = true
  · simp only [if_pos hc] at ha ⊢
    exact bind_eq_of_shared ha (value_of_covers h i 1) fun _ _ => rfl
  · simp only [if_neg hc]

/-- The effect of an instruction is the same. -/
theorem effect_of_covers (hshared : Shared faults (m.effect i)) : w.effect i = m.effect i := by
  unfold effect at hshared ⊢
  cases hop : i.opcode with
  | add | multiply | lessThan | equals =>
    rw [hop] at hshared
    exact arithmetic_of_covers h i _ hshared
  | jumpIfTrue | jumpIfFalse =>
    rw [hop] at hshared
    exact branch_of_covers h i _ hshared
  | output | adjustBase =>
    rw [hop] at hshared
    exact bind_eq_of_shared hshared (value_of_covers h i 0) fun _ _ => rfl
  | halt => rfl
  | input =>
    rw [hop] at hshared
    simp only [h.inputs_eq]
    cases hin : m.inputs with
    | nil => rfl
    | cons value rest =>
      simp only [hin] at hshared
      exact bind_eq_of_shared hshared (address_of_covers h i 0) fun _ _ => rfl

end Operands

section Step

variable {faults : Prop} {m w : Machine}

/-- The same write on both keeps the one covered by the other. -/
theorem Covers.store (h : Covers faults m w) (address value : Int) :
    Covers faults (m.store address value) (w.store address value) := by
  have hm := store_eq_with m address value
  have hw := store_eq_with w address value
  have hcell : ∀ other,
      (w.store address value).cell other = (m.store address value).cell other := by
    intro other
    rw [cell_store, cell_store, h.cell_eq]
  have hroom : w.grows = true ∨
      m.grows = false ∧
        (m.store address value).memory.size ≤ (w.store address value).memory.size := by
    rw [size_store, size_store]
    refine h.room.imp_right fun ⟨hfixed, hle⟩ => ⟨hfixed, ?_⟩
    omega
  rw [hm, hw] at hcell ⊢
  exact { h with cell_eq := hcell, room := hroom }

/-- Machines that move on stay alike. -/
theorem Covers.advance (h : Covers faults m w) (target : Int) :
    ∃ w', w.advance target = ((m.advance target).1, w') ∧ Covers faults (m.advance target).2 w' :=
  ⟨_, rfl, { h with ip_eq := rfl, state_eq := rfl }⟩

/-- Carrying out an effect leaves the one covered by the other. -/
theorem Covers.apply (h : Covers faults m w) (i : Instruction) (e : Effect)
    (hshared : Shared faults (m.apply i e).1) :
    ∃ w', w.apply i e = ((m.apply i e).1, w') ∧ Covers faults (m.apply i e).2 w' := by
  cases e with
  | store address value =>
    simp only [Machine.apply] at hshared ⊢
    -- the second machine can write wherever the first can
    cases hm : m.writeCause? address with
    | some cause =>
      simp only [hm] at hshared
      rw [writeCause?_of_covers h fun _ _ => hshared.of_error, hm]
      exact ⟨w, by simp only [faultOf_of_covers h], h⟩
    | none =>
      rw [writeCause?_of_covers h (by simp [hm]), hm, h.ip_eq]
      exact (h.store address value).advance _
  | take address value =>
    simp only [Machine.apply] at hshared ⊢
    have htail : Covers faults { m with inputs := m.inputs.tail }
        { w with inputs := w.inputs.tail } := { h with inputs_eq := by simp only [h.inputs_eq] }
    cases hm : m.writeCause? address with
    | some cause =>
      simp only [hm] at hshared
      rw [writeCause?_of_covers h fun _ _ => hshared.of_error, hm]
      exact ⟨_, by simp only [faultOf_of_covers h], htail⟩
    | none =>
      have hnext : w.ip + i.size = m.ip + i.size := by rw [h.ip_eq]
      rw [writeCause?_of_covers h (by simp [hm]), hm, hnext]
      exact (htail.store address value).advance _
  | emit value =>
    have hemit : Covers faults { m with outputs := m.outputs ++ [value] }
        { w with outputs := w.outputs ++ [value] } :=
      { h with outputs_eq := by simp only [h.outputs_eq] }
    simp only [Machine.apply, h.ip_eq]
    exact hemit.advance _
  | jump target => exact h.advance target
  | skip =>
    simp only [Machine.apply, h.ip_eq]
    exact h.advance _
  | rebase offset =>
    have hrebase : Covers faults { m with base := m.base + offset }
        { w with base := w.base + offset } := { h with base_eq := by simp only [h.base_eq] }
    simp only [Machine.apply, h.ip_eq]
    exact hrebase.advance _
  | wait => exact ⟨_, rfl, { h with pending_eq := rfl, state_eq := rfl }⟩
  | stop => exact ⟨_, rfl, { h with state_eq := rfl }⟩

/-- An instruction carried out on both leaves them alike, with the same outcome. -/
theorem Covers.perform (h : Covers faults m w) (i : Instruction)
    (hshared : Shared faults (m.perform i).1) :
    ∃ w', w.perform i = ((m.perform i).1, w') ∧ Covers faults (m.perform i).2 w' := by
  have hbegun : Covers faults (m.begun i) (w.begun i) :=
    { h with current_eq := rfl, pending_eq := rfl }
  rw [perform_eq m] at hshared ⊢
  rw [perform_eq w]
  cases heffect : (m.begun i).effect i with
  | error fault =>
    simp only [heffect] at hshared
    rw [effect_of_covers hbegun i (by rw [heffect]; exact fun _ _ => hshared.of_error), heffect]
    exact ⟨_, rfl, hbegun⟩
  | ok e =>
    simp only [heffect] at hshared
    rw [effect_of_covers hbegun i (by rw [heffect]; exact shared_ok faults e), heffect]
    exact hbegun.apply i e hshared

/-- Modes that one dialect reads from digits a dialect with all of its modes reads as well. -/
theorem decodeModes_of_subset {dialect other : Dialect} (hmodes : dialect.modes ⊆ other.modes)
    {digits : List Int} {modes : List Mode} (h : decodeModes dialect digits = .ok modes) :
    decodeModes other digits = .ok modes := by
  induction digits generalizing modes with
  | nil => exact h
  | cons digit digits ih =>
    rw [decodeModes] at h ⊢
    cases hdigit : Mode.ofDigit? digit with
    | none => simp [hdigit] at h
    | some mode =>
      simp only [hdigit] at h ⊢
      split at h
      · rename_i hmem
        rw [if_pos (hmodes hmem)]
        cases hrest : decodeModes dialect digits with
        | error cause => simp [hrest] at h
        | ok rest =>
          rw [ih hrest]
          simpa only [hrest] using h
      · exact absurd h (by simp)

/-- What stands under the instruction pointer is decoded the same. -/
theorem decode_of_covers (h : Covers faults m w) (hshared : Shared faults m.decode) :
    w.decode = m.decode := by
  unfold decode at hshared ⊢
  rw [h.ip_eq, h.cell_eq]
  cases hread : m.readCause? m.ip with
  | some cause =>
    simp only [hread] at hshared
    rw [readCause?_of_covers h fun _ _ => hshared.of_error, hread]
  | none =>
    have hreadable : w.readCause? m.ip = m.readCause? m.ip :=
      readCause?_of_covers h (by simp [hread])
    simp only [hread] at hshared hreadable
    simp only [hreadable]
    cases hcode : Opcode.ofCode? (Word.split (m.cell m.ip)).1 with
    | none => simp only
    | some opcode =>
      simp only [hcode] at hshared ⊢
      by_cases hillegal : m.cell m.ip < 0 ∨ opcode ∉ m.dialect.opcodes
      · rw [if_pos hillegal] at hshared ⊢
        rw [(h.same hshared.of_error).1, if_pos hillegal]
      · have hlegal : ¬ (m.cell m.ip < 0 ∨ opcode ∉ w.dialect.opcodes) := by
          rw [not_or, Decidable.not_not] at hillegal ⊢
          exact ⟨hillegal.1, h.opcodes_subset hillegal.2⟩
        rw [if_neg hillegal] at hshared ⊢
        rw [if_neg hlegal]
        cases hmodes : decodeModes m.dialect
            ((Word.split (m.cell m.ip)).2.take opcode.operands) with
        | error cause =>
          simp only [hmodes] at hshared
          rw [(h.same hshared.of_error).1, hmodes]
        | ok modes => rw [decodeModes_of_subset h.modes_subset hmodes]

/-- The instruction that is due is the same. -/
theorem due_of_covers (h : Covers faults m w) (hshared : Shared faults m.due) :
    w.due = m.due := by
  unfold due at hshared ⊢
  rw [h.pending_eq]
  cases hpending : m.pending with
  | some i => rfl
  | none =>
    simp only [hpending] at hshared
    exact decode_of_covers h hshared

/-- A step of the one is the step of the other. -/
theorem Covers.step (h : Covers faults m w) (hshared : Shared faults m.step.1) :
    ∃ w', w.step = (m.step.1, w') ∧ Covers faults m.step.2 w' := by
  by_cases hm : m.state = .halted
  · have hw : w.state = .halted := h.state_eq.trans hm
    refine ⟨w, ?_, ?_⟩
    · simp only [Machine.step, if_pos hm, if_pos hw, h.ip_eq]
    · simp only [Machine.step, if_pos hm]
      exact h
  · have hw : w.state ≠ .halted := by rwa [h.state_eq]
    rw [step_eq hm] at hshared ⊢
    rw [step_eq hw]
    cases hdue : m.due with
    | error fault =>
      simp only [hdue] at hshared
      rw [due_of_covers h (by rw [hdue]; exact fun _ _ => hshared.of_error), hdue]
      exact ⟨_, rfl, { h with current_eq := rfl }⟩
    | ok i =>
      simp only [hdue] at hshared
      rw [due_of_covers h (by rw [hdue]; exact shared_ok faults i), hdue]
      exact h.perform i hshared

/-- What a machine completes, one that covers it completes alike. -/
theorem simulation_covers (faults : Prop) : Simulation faults (Covers faults) where
  step h hstep hshared := by
    have hcovers := h.step (by rw [hstep]; exact hshared)
    rwa [hstep] at hcovers
  read address h := read_of_covers h address
  outputs_eq h := h.outputs_eq
  handedOver left h := { h with outputs_eq := rfl, state_eq := rfl }
  feedAll values h := { h with inputs_eq := by simp only [Machine.feedAll, h.inputs_eq] }

end Step

/-! ### Zeros at the end of memory -/

/-- Machines of one dialect, both with memory that grows, that are alike. -/
structure EqualUpToZeros (m w : Machine) : Prop extends Alike m w where
  dialect_eq : w.dialect = m.dialect
  grows_left : m.grows = true
  grows_right : w.grows = true

/-- Equality up to zeros goes both ways. -/
theorem EqualUpToZeros.symm {m w : Machine} (h : EqualUpToZeros m w) : EqualUpToZeros w m where
  ip_eq := h.ip_eq.symm
  base_eq := h.base_eq.symm
  inputs_eq := h.inputs_eq.symm
  outputs_eq := h.outputs_eq.symm
  state_eq := h.state_eq.symm
  current_eq := h.current_eq.symm
  pending_eq := h.pending_eq.symm
  cell_eq address := (h.cell_eq address).symm
  dialect_eq := h.dialect_eq.symm
  grows_left := h.grows_right
  grows_right := h.grows_left

/-- Machines equal up to zeros cover each other, faults included. -/
theorem covers_iff_equalUpToZeros {m w : Machine} : Covers True m w ↔ EqualUpToZeros m w := by
  constructor
  · intro h
    obtain ⟨hdialect, hm⟩ := h.same trivial
    have hw : w.grows = true := by
      rcases h.room with hw | ⟨hfixed, -⟩
      · exact hw
      · rw [hm] at hfixed
        exact absurd hfixed (by decide)
    exact { h.toAlike with dialect_eq := hdialect, grows_left := hm, grows_right := hw }
  · intro h
    have hopcodes : m.dialect.opcodes ⊆ w.dialect.opcodes := by
      rw [h.dialect_eq]
      exact fun _ => id
    have hmodes : m.dialect.modes ⊆ w.dialect.modes := by
      rw [h.dialect_eq]
      exact fun _ => id
    exact { h.toAlike with
      opcodes_subset := hopcodes, modes_subset := hmodes, room := .inl h.grows_right
      same := fun _ => ⟨h.dialect_eq, h.grows_left⟩ }

/-- Machines that were started on the same program are alike, whatever follows the program in
memory. -/
theorem alike_start (program : List Int) (settings others : Settings) (dialect other : Dialect)
    (padding more : Int) :
    Alike (start program settings dialect padding) (start program others other more) where
  ip_eq := rfl
  base_eq := rfl
  inputs_eq := rfl
  outputs_eq := rfl
  state_eq := rfl
  current_eq := rfl
  pending_eq := rfl
  cell_eq address := by rw [cell_start, cell_start]

/-- Zeros at the end of memory that grows are never seen: machines equal up to them answer every
sequence of calls alike, faults included, and stay equal up to them after every call. -/
theorem transcripts_of_equalUpToZeros (m w : Machine) (h : EqualUpToZeros m w)
    (calls : List Call) :
    Option.Rel (List.Forall₂ fun x y => y.1 = x.1 ∧ EqualUpToZeros x.2 y.2)
      (m.transcript? calls) (w.transcript? calls) := by
  have hforth : ∀ {m w : Machine}, EqualUpToZeros m w → ∀ {given},
      m.transcript? calls = some given → ∃ others, w.transcript? calls = some others ∧
        List.Forall₂ (fun x y => y.1 = x.1 ∧ EqualUpToZeros x.2 y.2) given others := by
    intro m w h given hgiven
    have hcovers := covers_iff_equalUpToZeros.mpr h
    obtain ⟨others, hothers, hall⟩ :=
      (simulation_covers True).transcript? hcovers hgiven fun _ _ _ _ => trivial
    refine ⟨others, hothers, hall.imp fun x y hxy => ?_⟩
    exact ⟨hxy.1, covers_iff_equalUpToZeros.mp hxy.2⟩
  cases hm : m.transcript? calls with
  | some given =>
    obtain ⟨others, hothers, hall⟩ := hforth h hm
    rw [hothers]
    exact .some hall
  | none =>
    cases hw : w.transcript? calls with
    | none => exact .none
    | some others =>
      obtain ⟨given, hgiven, -⟩ := hforth h.symm hw
      rw [hm] at hgiven
      exact absurd hgiven (by simp)

/-- A program that reads a value, stores it past its end and shows what it finds further on, on two
paddings, up to a look at an address that is none. -/
theorem transcripts_of_equalUpToZeros_paddings :
    EqualUpToZeros (boot [3, 9, 4, 20, 99] {}) (boot [3, 9, 4, 20, 99] { padding := 7 }) ∧
      Option.Rel (List.Forall₂ fun x y => y.1 = x.1 ∧ EqualUpToZeros x.2 y.2)
        ((boot [3, 9, 4, 20, 99] {}).transcript? [.run 9, .feed 5, .run 9, .peek 9, .peek (-1)])
        ((boot [3, 9, 4, 20, 99] { padding := 7 }).transcript?
          [.run 9, .feed 5, .run 9, .peek 9, .peek (-1)]) :=
  have hequal : EqualUpToZeros (boot [3, 9, 4, 20, 99] {})
      (boot [3, 9, 4, 20, 99] { padding := 7 }) :=
    { alike_start [3, 9, 4, 20, 99] {} { padding := 7 } .relative .relative 0 7 with
      dialect_eq := rfl, grows_left := rfl, grows_right := rfl }
  ⟨hequal, transcripts_of_equalUpToZeros _ _ hequal _⟩

/-! ### More opcodes, more modes, more memory -/

/-- A machine with all opcodes and modes of another, and with memory that grows or, as long as
neither grows, has no fewer cells, does on the same program what the other does: calls none of
which fault answer alike, and leave machines that are alike. -/
theorem transcript_of_enlarged {program : List Int} {settings others : Settings}
    {dialect wider : Dialect} {padding more : Int} {m w : Machine}
    (hm : m = start program settings dialect padding) (hw : w = start program others wider more)
    (hopcodes : dialect.opcodes ⊆ wider.opcodes) (hmodes : dialect.modes ⊆ wider.modes)
    (hroom : w.grows = true ∨ m.grows = false ∧ w.grows = false ∧ padding ≤ more)
    {calls : List Call} {given : List (Except Fault Answer × Machine)}
    (hgiven : m.transcript? calls = some given) (hok : ∀ x ∈ given, ∃ answer, x.1 = .ok answer) :
    ∃ found, w.transcript? calls = some found ∧
      List.Forall₂ (fun x y => y.1 = x.1 ∧ Alike x.2 y.2) given found := by
  have halike : Alike m w := by
    rw [hm, hw]
    exact alike_start program settings others dialect wider padding more
  have hreach : w.grows = true ∨ m.grows = false ∧ m.memory.size ≤ w.memory.size := by
    refine hroom.imp_right fun ⟨hfixed, _, hle⟩ => ⟨hfixed, ?_⟩
    rw [hm, hw]
    simp only [start, Array.size_append, List.size_toArray, Array.size_replicate]
    omega
  have hknown : m.dialect.opcodes ⊆ w.dialect.opcodes ∧ m.dialect.modes ⊆ w.dialect.modes := by
    rw [hm, hw]
    exact ⟨hopcodes, hmodes⟩
  have hcovers : Covers False m w :=
    { halike with
      opcodes_subset := hknown.1, modes_subset := hknown.2, room := hreach, same := False.elim }
  have hshared : ∀ x ∈ given, Shared False x.1 := by
    intro x hx
    obtain ⟨answer, hanswer⟩ := hok x hx
    rw [hanswer]
    exact shared_ok False answer
  obtain ⟨found, hfound, hall⟩ := (simulation_covers False).transcript? hcovers hgiven hshared
  exact ⟨found, hfound, hall.imp fun x y hxy => ⟨hxy.1, hxy.2.toAlike⟩⟩

/-- A program that reads and writes on a machine with fixed memory does the same on one of the
widest dialect with no padding at all, whose memory grows. -/
theorem transcript_of_enlarged_echo :
    Dialect.interactive.opcodes ⊆ Dialect.relative.opcodes ∧
      Dialect.interactive.modes ⊆ Dialect.relative.modes ∧
      (start [3, 9, 4, 9, 99] {} .relative 0).grows = true ∧
      ∃ given,
        (start [3, 9, 4, 9, 99] {} .interactive 5).transcript? [.feedAll [7], .run 9] =
          some given ∧
        (∀ x ∈ given, ∃ answer, x.1 = .ok answer) ∧
        ∃ found,
          (start [3, 9, 4, 9, 99] {} .relative 0).transcript? [.feedAll [7], .run 9] =
            some found ∧
          List.Forall₂ (fun x y => y.1 = x.1 ∧ Alike x.2 y.2) given found := by
  have hopcodes : Dialect.interactive.opcodes ⊆ Dialect.relative.opcodes := by decide
  have hmodes : Dialect.interactive.modes ⊆ Dialect.relative.modes := by decide
  let fed := (start [3, 9, 4, 9, 99] {} .interactive 5).feedAll [7]
  let halted : Machine :=
    { fed with
      memory := #[3, 9, 4, 9, 99, 0, 0, 0, 0, 7]
      ip := 4, inputs := [], state := .halted, current := some ⟨4, 99, .halt, []⟩ }
  have hgiven : (start [3, 9, 4, 9, 99] {} .interactive 5).transcript? [.feedAll [7], .run 9] =
      some [(.ok .made, fed), (.ok (.outputs [7]), halted)] := rfl
  have hok : ∀ x ∈ [(.ok .made, fed), (.ok (.outputs [7]), halted)],
      ∃ answer, x.1 = (.ok answer : Except Fault Answer) := by simp
  exact ⟨hopcodes, hmodes, rfl, _, hgiven, hok,
    transcript_of_enlarged rfl rfl hopcodes hmodes (.inl rfl) hgiven hok⟩

end IntegerMachine.Machine
