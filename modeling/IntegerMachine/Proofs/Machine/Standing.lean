import IntegerMachine.Proofs.Machine.Cells
import IntegerMachine.Proofs.Machine.Stepping

/-!
# Running a program that is not changed

To follow a machine through a given program, what it does at one address is stated by itself and the
statements are put together with `Advances.trans`.  `Stands` is what they start from and end in: the
machine is at an address, the program is as it was loaded, and some values are left to read.  Of the
cells behind the program only those are pinned down that a statement is about, so that it does not
matter whether memory has grown.  An instruction that was kept is the one the program has there, and
needs no statement of its own.
-/

set_option autoImplicit false

namespace IntegerMachine.Machine

variable {m w : Machine} {address : Int} {queue : List Int}

/-! ## Steps put together -/

/-- One step that proceeds advances by what it put behind the outputs. -/
theorem Advances.of_step {values : List Int} (h : m.step = (.ok .proceed, w))
    (hout : w.outputs = m.outputs ++ values) : Advances m values w := by
  have hwritten := outputs_step m
  rw [h, hout] at hwritten
  rw [List.append_cancel_left hwritten, ← List.append_nil m.stepWritten]
  exact .step h (.refl w)

/-- Advances follow one another, with their values in order. -/
theorem Advances.trans {first second : List Int} {v : Machine} (h₁ : Advances m first v)
    (h₂ : Advances v second w) : Advances m (first ++ second) w := by
  induction h₁ with
  | refl m => exact h₂
  | step hstep _ ih =>
    rw [List.append_assoc]
    exact .step hstep (ih h₂)

/-- Decoding looks at one word and at the dialect. -/
theorem decode_congr (hdialect : m.dialect = w.dialect) (hip : m.ip = w.ip)
    (hread : m.readCause? m.ip = w.readCause? w.ip) (hcell : m.cell m.ip = w.cell w.ip) :
    m.decode = w.decode := by
  unfold decode
  rw [hread, hcell, hip, hdialect]

/-- Memory that grows has no end. -/
theorem not_isOutOfReach_of_grows (hgrows : m.grows = true) (hlow : 0 ≤ address) :
    ¬ m.IsOutOfReach address := by
  rintro (hnegative | ⟨-, hfixed⟩)
  · omega
  · exact absurd (hgrows.symm.trans hfixed) (by decide)

/-- In memory that grows every address that is not negative can be read. -/
theorem readCause?_of_grows (hgrows : m.grows = true) (hlow : 0 ≤ address) :
    m.readCause? address = none :=
  readCause?_eq_none_iff.mpr (not_isOutOfReach_of_grows hgrows hlow)

/-! ## Standing in a program -/

/-- The fresh machine of a program, moved to an address. -/
def freshAt (program : List Int) (address : Int) : Machine :=
  { boot program {} with ip := address }

/-- A machine at an address of a program it has not changed, with values left to read.  Nothing is
said of the cells behind the program, nor of how far memory has grown. -/
structure Stands (program : List Int) (address : Int) (queue : List Int) (m : Machine) : Prop where
  dialect_eq : m.dialect = .relative
  grows_eq : m.grows = true
  cell_eq : ∀ k : Int, 0 ≤ k → k < program.length → m.cell k = (boot program {}).cell k
  ip_eq : m.ip = address
  inputs_eq : m.inputs = queue
  state_ne : m.state ≠ .halted
  keepsDue : m.KeepsDue

/-- A fresh machine stands at the beginning of its program. -/
theorem stands_boot (program : List Int) : Stands program 0 [] (boot program {}) where
  dialect_eq := rfl
  grows_eq := rfl
  cell_eq _ _ _ := rfl
  ip_eq := rfl
  inputs_eq := rfl
  state_ne := by
    show Suspension.active ≠ .halted
    decide
  keepsDue _ hpending := absurd hpending (by simp [boot, start])

/-- The instruction a program has at an address. -/
def InstructionAt (program : List Int) (address : Int) (i : Instruction) : Prop :=
  0 ≤ address ∧ address < program.length ∧ (freshAt program address).decode = .ok i

namespace Stands

variable {program : List Int} {i : Instruction} {e : Effect}

/-- Values queued are left to read behind the others. -/
theorem feedAll (h : Stands program address queue m) (values : List Int) :
    Stands program address (queue ++ values) (m.feedAll values) :=
  { h with inputs_eq := congrArg (· ++ values) h.inputs_eq }

/-- What is due is what the fresh machine has there, also when it was kept. -/
theorem due_eq (h : Stands program address queue m) (hlow : 0 ≤ address)
    (hhigh : address < program.length) : m.due = (freshAt program address).decode := by
  have hread : m.readCause? m.ip = (freshAt program address).readCause? address := by
    rw [h.ip_eq, readCause?_of_grows h.grows_eq hlow]
    exact (readCause?_of_grows rfl hlow).symm
  have hcell : m.cell m.ip = (freshAt program address).cell address := by
    rw [h.ip_eq]
    exact h.cell_eq address hlow hhigh
  rw [h.keepsDue.due_eq]
  exact decode_congr h.dialect_eq h.ip_eq hread hcell

/-- A step carries out the instruction the program has there. -/
theorem step_eq (h : Stands program address queue m) (hi : InstructionAt program address i)
    (he : (m.begun i).effect i = .ok e) : m.step = (m.begun i).apply i e := by
  obtain ⟨hlow, hhigh, hdecode⟩ := hi
  rw [Machine.step_eq h.state_ne, h.due_eq hlow hhigh, hdecode]
  simp only [perform_eq, he]

/-- A cell whose address is not negative is read, wherever memory ends. -/
theorem read_eq (h : Stands program address queue m) (i : Instruction) {k : Int} (hk : 0 ≤ k) :
    (m.begun i).read k = .ok (m.cell k) := by
  have hcause : (m.begun i).readCause? k = none := readCause?_of_grows h.grows_eq hk
  rw [read, hcause]
  rfl

/-- A cell of the program reads as it was loaded. -/
theorem read_program (h : Stands program address queue m) (i : Instruction) {k : Int} (hk : 0 ≤ k)
    (hend : k < program.length) : (m.begun i).read k = .ok ((boot program {}).cell k) := by
  rw [h.read_eq i hk, h.cell_eq k hk hend]

/-- An operand that is an address stands for the value of the cell, in the program or behind it. -/
theorem value_eq (h : Stands program address queue m) {n : Nat} (hmode : i.mode n = .position)
    {k : Int} (hk : 0 ≤ k) (haddress : (m.begun i).address i n = .ok k) :
    (m.begun i).value i n = .ok (m.cell k) := by
  rw [value, hmode, haddress]
  exact h.read_eq i hk

/-- The instruction of the program is carried out, and the machine advances by what it writes. -/
theorem advances (h : Stands program address queue m) (hi : InstructionAt program address i)
    (he : (m.begun i).effect i = .ok e) (hgo : (m.begun i).apply i e = (.ok .proceed, w)) :
    Advances m e.written w := by
  have hout := outputs_apply (m.begun i) i e
  rw [hgo] at hout
  exact .of_step ((h.step_eq hi he).trans hgo) hout

/-- A step that leaves memory and the queue alone leads to another address of the program. -/
theorem moved (h : Stands program address queue m) (i : Instruction) (target : Int)
    (outputs : List Int) :
    Stands program target queue { m.begun i with ip := target, state := .active, outputs } where
  dialect_eq := h.dialect_eq
  grows_eq := h.grows_eq
  cell_eq := h.cell_eq
  ip_eq := rfl
  inputs_eq := h.inputs_eq
  state_ne := by
    show Suspension.active ≠ .halted
    decide
  keepsDue _ hpending := absurd hpending (by simp [begun])

/-! There is one rule for each kind of effect that lets the machine go on in the program. -/

/-- A jump moves the machine to its target and changes nothing else. -/
theorem jumps (h : Stands program address queue m) (hi : InstructionAt program address i)
    {target : Int} (he : (m.begun i).effect i = .ok (.jump target)) :
    ∃ w, Advances m [] w ∧ Stands program target queue w ∧ w.memory = m.memory :=
  ⟨_, h.advances hi he rfl, h.moved i target m.outputs, rfl⟩

/-- A branch not taken moves the machine behind it and changes nothing else. -/
theorem skips (h : Stands program address queue m) (hi : InstructionAt program address i)
    (he : (m.begun i).effect i = .ok .skip) :
    ∃ w, Advances m [] w ∧ Stands program (address + i.size) queue w ∧ w.memory = m.memory := by
  rw [← h.ip_eq]
  exact ⟨_, h.advances hi he rfl, h.moved i _ m.outputs, rfl⟩

/-- An output moves the machine behind it and gives its value. -/
theorem emits (h : Stands program address queue m) (hi : InstructionAt program address i)
    {value : Int} (he : (m.begun i).effect i = .ok (.emit value)) :
    ∃ w, Advances m [value] w ∧ Stands program (address + i.size) queue w := by
  rw [← h.ip_eq]
  exact ⟨_, h.advances hi he rfl, h.moved i _ (m.outputs ++ [value])⟩

/-- A value taken from the queue may be put behind the program. -/
theorem takes {value target : Int} {rest : List Int} (h : Stands program address (value :: rest) m)
    (hi : InstructionAt program address i) (he : (m.begun i).effect i = .ok (.take target value))
    (htarget : program.length ≤ target) :
    ∃ w, Advances m [] w ∧ Stands program (address + i.size) rest w ∧ w.cell target = value := by
  have hwrite : (m.begun i).writeCause? target = none :=
    writeCause?_eq_none_iff.mpr (not_isOutOfReach_of_grows h.grows_eq (by omega))
  let taken : Machine := { m.begun i with inputs := rest }
  let w : Machine :=
    { taken with
      memory := (taken.store target value).memory, ip := address + i.size, state := .active }
  have hgo : (m.begun i).apply i (.take target value) = (.ok .proceed, w) := by
    have hin : (m.begun i).inputs.tail = rest := congrArg List.tail h.inputs_eq
    have hnext : (m.begun i).ip + i.size = address + i.size := congrArg (· + _) h.ip_eq
    simp only [apply, hwrite, hin, hnext]
    rw [store_eq_with]
    rfl
  have hcell : ∀ k, w.cell k = if k.toNat = target.toNat then value else m.cell k :=
    cell_store taken target value
  refine ⟨w, h.advances hi he hgo, ?_, (hcell target).trans (if_pos rfl)⟩
  have hmoved := h.moved i (address + i.size) m.outputs
  refine { hmoved with cell_eq := ?_, inputs_eq := rfl, keepsDue := ?_ }
  · intro k hlow hhigh
    rw [hcell k, if_neg (by omega)]
    exact h.cell_eq k hlow hhigh
  · exact fun _ hpending => absurd hpending (by simp [w, taken, begun])

/-- With nothing queued the machine waits where it is, at an input. -/
theorem waits (h : Stands program address [] m) (hi : InstructionAt program address i)
    (hop : i.opcode = .input) :
    m.step = (.ok .blocked, m.waiting i) ∧ Stands program address [] (m.waiting i) := by
  have he : (m.begun i).effect i = .ok .wait := (input_eq_ok hop).mpr (.inl ⟨h.inputs_eq, rfl⟩)
  have hstep : m.step = (.ok .blocked, m.waiting i) := h.step_eq hi he
  have hkept := keepsDue_step m h.keepsDue
  rw [hstep] at hkept
  refine ⟨hstep, { h with state_ne := ?_, keepsDue := hkept }⟩
  show Suspension.blocked ≠ .halted
  decide

end Stands

end IntegerMachine.Machine
