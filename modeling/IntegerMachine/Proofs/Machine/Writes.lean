import IntegerMachine.Proofs.Machine.Cells
import IntegerMachine.Proofs.Machine.Effect

/-!
# Memory and what is written to it

Additions, multiplications, comparisons and inputs write one cell, the one their destination names,
and they write it when they complete.  No other step touches memory.  `stepStored?` is the write of
one step and `writes` those of a number of steps, the latest first.  From the step lemma
`memory_step` it follows along any number of steps that a cell holds the last value written to it,
or what it held at first, and that memory reaches as far as it did or as the farthest write.
-/

set_option autoImplicit false

namespace IntegerMachine

/-- The operation on two sources that an opcode stands for. -/
def Opcode.operation? : Opcode → Option (Int → Int → Int)
  | add => some fun a b => a + b
  | multiply => some fun a b => a * b
  | lessThan => some fun a b => if a < b then 1 else 0
  | equals => some fun a b => if a = b then 1 else 0
  | input | output | jumpIfTrue | jumpIfFalse | adjustBase | halt => none

/-- Only the operations and the input instruction have a destination. -/
theorem Opcode.destination?_cases (op : Opcode) :
    (∃ f, op.operation? = some f) ∨ op = .input ∨ op.destination? = none := by
  cases op with
  | add | multiply | lessThan | equals => exact .inl ⟨_, rfl⟩
  | input => exact .inr (.inl rfl)
  | output | jumpIfTrue | jumpIfFalse | adjustBase | halt => exact .inr (.inr rfl)

namespace Machine

/-! ## The write of one step -/

/-- What an instruction computes for its destination. -/
inductive Computes (m : Machine) (i : Instruction) : Int → Prop
  | operation {op : Int → Int → Int} {a b : Int} (hop : i.opcode.operation? = some op)
      (ha : m.value i 0 = .ok a) (hb : m.value i 1 = .ok b) : Computes m i (op a b)
  | input {value : Int} {rest : List Int} (hop : i.opcode = .input)
      (hin : m.inputs = value :: rest) : Computes m i value

/-- The address and the value of the write that an effect makes, if the cell can be written. -/
def stored? (m : Machine) : Effect → Option (Int × Int)
  | .store address value | .take address value =>
    if m.writeCause? address = none then some (address, value) else none
  | .emit _ | .jump _ | .skip | .rebase _ | .wait | .stop => none

/-- The address and the value of the write that a step makes, if it completes and makes one. -/
def stepStored? (m : Machine) : Option (Int × Int) :=
  if m.state = .halted then none
  else
    match m.due with
    | .error _ => none
    | .ok i =>
      match (m.begun i).effect i with
      | .error _ => none
      | .ok e => m.stored? e

/-- Memory after a write, or after none. -/
def memoryAfter (m : Machine) : Option (Int × Int) → Array Int
  | none => m.memory
  | some (address, value) => (m.store address value).memory

section Effect

variable {m : Machine} {i : Instruction} {e : Effect} {address value : Int}

/-- An effect writes a cell if it stores or takes a value, and the cell can be written. -/
theorem stored?_eq_some :
    m.stored? e = some (address, value) ↔
      (e = .store address value ∨ e = .take address value) ∧ m.writeCause? address = none := by
  cases e with
  | store target v | take target v =>
    simp only [stored?, Option.ite_none_right_eq_some, Option.some.injEq, Prod.mk.injEq,
      Effect.store.injEq, Effect.take.injEq, reduceCtorEq, or_false, false_or]
    constructor
    · rintro ⟨hcause, rfl, rfl⟩
      exact ⟨⟨rfl, rfl⟩, hcause⟩
    · rintro ⟨⟨rfl, rfl⟩, hcause⟩
      exact ⟨hcause, rfl, rfl⟩
  | emit v | jump target | skip | rebase offset | wait | stop => simp [stored?]

/-- An operation resolves its destination last, and its effect is a write there. -/
theorem effect_of_operation? {op : Int → Int → Int} (h : i.opcode.operation? = some op) :
    i.opcode.destination? = some 2 ∧ m.effect i = m.arithmetic i op := by
  unfold effect
  cases hop : i.opcode with
  | add | multiply | lessThan | equals =>
    rw [hop] at h
    obtain rfl := Option.some.inj h
    exact ⟨rfl, rfl⟩
  | input | output | jumpIfTrue | jumpIfFalse | adjustBase | halt =>
    rw [hop] at h
    exact absurd h (by simp [Opcode.operation?])

/-- An instruction without a destination has an effect that is no write. -/
theorem not_write_of_destination? (h : i.opcode.destination? = none) (he : m.effect i = .ok e)
    (address value : Int) : ¬ (e = .store address value ∨ e = .take address value) := by
  unfold effect at he
  cases hop : i.opcode with
  | add | multiply | lessThan | equals | input =>
    rw [hop] at h
    exact absurd h (by simp [Opcode.destination?])
  | jumpIfTrue | jumpIfFalse =>
    rw [hop] at he
    obtain ⟨a, -, ⟨-, target, -, rfl⟩ | ⟨-, rfl⟩⟩ := branch_eq_ok.mp he <;> simp
  | output | adjustBase =>
    rw [hop] at he
    obtain ⟨a, -, he⟩ := bind_eq_ok.mp he
    cases Except.ok.inj he
    simp
  | halt =>
    rw [hop] at he
    cases Except.ok.inj he
    simp

/-- The effect of an instruction is a write if the instruction has a destination: the write of what
it computes to the cell that the destination names. -/
theorem effect_writes_iff :
    (∃ e, m.effect i = .ok e ∧ (e = .store address value ∨ e = .take address value)) ↔
      ∃ n, i.opcode.destination? = some n ∧ m.address i n = .ok address ∧
        Computes m i value := by
  constructor
  · rintro ⟨e, he, hwrite⟩
    rcases i.opcode.destination?_cases with ⟨op, hop⟩ | hop | hnone
    · obtain ⟨hdestination, heffect⟩ := effect_of_operation? (m := m) hop
      rw [heffect] at he
      obtain ⟨a, b, target, ha, hb, htarget, rfl⟩ := arithmetic_eq_ok.mp he
      obtain ⟨rfl, rfl⟩ := Effect.store.inj (hwrite.resolve_right (by simp))
      exact ⟨2, hdestination, htarget, .operation hop ha hb⟩
    · rcases (input_eq_ok hop).mp he with ⟨-, rfl⟩ | ⟨first, rest, target, hin, htarget, rfl⟩
      · exact absurd hwrite (by simp)
      · obtain ⟨rfl, rfl⟩ := Effect.take.inj (hwrite.resolve_left (by simp))
        exact ⟨0, congrArg Opcode.destination? hop, htarget, .input hop hin⟩
    · exact absurd hwrite (not_write_of_destination? hnone he address value)
  · rintro ⟨n, hdestination, haddress, hcomputes⟩
    cases hcomputes with
    | operation hop ha hb =>
      obtain ⟨htwo, heffect⟩ := effect_of_operation? (m := m) hop
      obtain rfl : 2 = n := Option.some.inj (htwo.symm.trans hdestination)
      rw [heffect]
      exact ⟨_, arithmetic_eq_ok.mpr ⟨_, _, _, ha, hb, haddress, rfl⟩, .inl rfl⟩
    | input hop hin =>
      rw [hop] at hdestination
      obtain rfl : 0 = n := Option.some.inj hdestination
      exact ⟨_, (input_eq_ok hop).mpr (.inr ⟨_, _, _, hin, haddress, rfl⟩), .inr rfl⟩

/-- A write is carried out if the cell can be written, and the next instruction follows. -/
theorem apply_write_iff (h : e = .store address value ∨ e = .take address value)
    {signal : Signal} :
    (m.apply i e).1 = .ok signal ↔ m.writeCause? address = none ∧ signal = .proceed := by
  rcases h with rfl | rfl <;> simp only [apply] <;> cases m.writeCause? address <;>
    simp [advance, eq_comm]

end Effect

/-- Memory after a write depends on the memory before it only. -/
theorem memoryAfter_congr {m w : Machine} (h : w.memory = m.memory) (write : Option (Int × Int)) :
    w.memoryAfter write = m.memoryAfter write := by
  cases write with
  | none => exact h
  | some write => exact memory_store_congr h write.1 write.2

/-- Carrying out an effect, also one that fails, changes memory by the write it makes. -/
theorem memory_apply (m : Machine) (i : Instruction) (e : Effect) :
    (m.apply i e).2.memory = m.memoryAfter (m.stored? e) := by
  cases e with
  | store address value =>
    simp only [apply, stored?]
    cases m.writeCause? address <;> rfl
  | take address value =>
    have hstore := memory_store_congr (w := { m with inputs := m.inputs.tail })
      (show _ = m.memory from rfl) address value
    simp only [apply, stored?]
    cases m.writeCause? address with
    | some cause => rfl
    | none => exact hstore
  | emit value | jump target | skip | rebase offset | wait | stop => rfl

/-- The step lemma: a step, also one that fails, changes memory by its write. -/
theorem memory_step (m : Machine) : m.step.2.memory = m.memoryAfter m.stepStored? := by
  by_cases hm : m.state = .halted
  · rw [stepStored?, step, if_pos hm, if_pos hm]
    rfl
  · rw [stepStored?, step_eq hm, if_neg hm]
    cases m.due with
    | error fault => rfl
    | ok i =>
      have hbegun : (m.begun i).memory = m.memory := rfl
      simp only [perform_eq]
      cases (m.begun i).effect i with
      | error fault => rfl
      | ok e =>
        simp only [memory_apply, memoryAfter_congr hbegun]
        rfl

/-- Applying an effect never changes whether memory grows. -/
theorem grows_apply (m : Machine) (i : Instruction) (e : Effect) :
    (m.apply i e).2.grows = m.grows := by
  cases e with
  | store address value | take address value =>
    simp only [apply]
    split
    · rfl
    · rw [store_eq_with]
      rfl
  | emit value | jump target | skip | rebase offset | wait | stop => rfl

/-- A step never changes whether memory grows. -/
theorem grows_step (m : Machine) : m.step.2.grows = m.grows := by
  by_cases hm : m.state = .halted
  · rw [step, if_pos hm]
  · rw [step_eq hm]
    cases m.due with
    | error fault => rfl
    | ok i =>
      simp only [perform_eq]
      cases (m.begun i).effect i with
      | error fault => rfl
      | ok e => exact grows_apply (m.begun i) i e

section Step

variable {m : Machine} {address value : Int}

/-- A step writes a cell exactly if the effect of the instruction due does. -/
theorem stepStored?_eq_some :
    m.stepStored? = some (address, value) ↔
      m.state ≠ .halted ∧ ∃ i e, m.due = .ok i ∧ (m.begun i).effect i = .ok e ∧
        (e = .store address value ∨ e = .take address value) ∧ m.writeCause? address = none := by
  unfold stepStored?
  by_cases hm : m.state = .halted
  · simp [hm]
  · rw [if_neg hm]
    cases hdue : m.due with
    | error fault => simp
    | ok i =>
      cases he : (m.begun i).effect i with
      | error fault => simp [he]
      | ok e =>
        simp only [Except.ok.injEq, exists_and_left, exists_eq_left', he, ne_eq, hm,
          not_false_eq_true, true_and]
        exact stored?_eq_some

/-- A step writes if it completes an instruction that has a destination: it writes what the
instruction computes to the cell that the destination names. -/
theorem stepStored?_iff :
    m.stepStored? = some (address, value) ↔
      ∃ i n w, m.step = (.ok .proceed, w) ∧ m.due = .ok i ∧ i.opcode.destination? = some n ∧
        (m.begun i).address i n = .ok address ∧ Computes (m.begun i) i value := by
  rw [stepStored?_eq_some]
  constructor
  · rintro ⟨hm, i, e, hdue, he, hwrite, hcause⟩
    obtain ⟨n, hcomputed⟩ := effect_writes_iff.mp ⟨e, he, hwrite⟩
    have happly : ((m.begun i).apply i e).1 = .ok .proceed :=
      (apply_write_iff hwrite).mpr ⟨hcause, rfl⟩
    have hstep := step_eq_ok.mpr ⟨hm, i, e, hdue, he, Prod.ext happly rfl⟩
    exact ⟨i, n, _, hstep, hdue, hcomputed⟩
  · rintro ⟨i, n, w, hstep, hdue, hcomputed⟩
    obtain ⟨hm, i', e, hdue', he, happly⟩ := step_eq_ok.mp hstep
    obtain rfl : i = i' := Except.ok.inj (hdue.symm.trans hdue')
    obtain ⟨e', he', hwrite⟩ := effect_writes_iff.mpr ⟨n, hcomputed⟩
    obtain rfl : e = e' := Except.ok.inj (he.symm.trans he')
    have hcause := ((apply_write_iff hwrite).mp (congrArg Prod.fst happly)).1
    exact ⟨hm, i, e, hdue, he, hwrite, hcause⟩

/-- What is written is written to a cell in reach. -/
theorem reach_of_stepStored? (h : m.stepStored? = some (address, value)) :
    0 ≤ address ∧ (m.grows = false → address.toNat < m.memory.size) := by
  obtain ⟨-, i, e, -, -, -, hcause⟩ := stepStored?_eq_some.mp h
  obtain ⟨hnonneg, hwithin⟩ := not_or.mp (writeCause?_eq_none_iff.mp hcause)
  exact ⟨Int.not_lt.mp hnonneg, fun hgrows => Nat.lt_of_not_le fun hle => hwithin ⟨hle, hgrows⟩⟩

/-- A step changes the cell that it writes, and no other. -/
theorem cell_step (m : Machine) (k : Nat) :
    m.step.2.cell k = (m.stepStored?.toList.lookup (k : Int)).getD (m.cell k) := by
  show m.step.2.memory.getD k 0 = _
  rw [memory_step]
  cases hstored : m.stepStored? with
  | none => rfl
  | some write =>
    obtain ⟨address, value⟩ := write
    have hnonneg := (reach_of_stepStored? hstored).1
    show (m.store address value).cell k = _
    rw [cell_store, Option.toList_some, List.lookup_cons]
    by_cases hk : (k : Int) = address
    · subst hk
      simp
    · have hk' : (k : Int).toNat ≠ address.toNat := by omega
      rw [if_neg hk', beq_false_of_ne hk]
      rfl

/-- Memory reaches as far as it did, or to the cell that a step writes. -/
theorem size_step (m : Machine) :
    m.step.2.memory.size =
      (m.stepStored?.toList.map fun write => write.1.toNat + 1).foldr max m.memory.size := by
  rw [memory_step]
  cases m.stepStored? with
  | none => rfl
  | some write =>
    show (m.store write.1 write.2).memory.size = max (write.1.toNat + 1) m.memory.size
    rw [size_store, Nat.max_comm]

end Step

/-! ## The writes of a number of steps -/

/-- The machine that a number of steps leave; a step that fails leaves a machine too. -/
def stepped (m : Machine) : Nat → Machine
  | 0 => m
  | n + 1 => (m.stepped n).step.2

/-- The writes of a number of steps, the latest first. -/
def writes (m : Machine) : Nat → List (Int × Int)
  | 0 => []
  | n + 1 => (m.stepped n).stepStored?.toList ++ m.writes n

/-- A cell holds the last value written to it, or what it held at first. -/
theorem cell_stepped (m : Machine) (n k : Nat) :
    (m.stepped n).cell k = ((m.writes n).lookup (k : Int)).getD (m.cell k) := by
  induction n with
  | zero => rfl
  | succ n ih =>
    rw [stepped, writes, cell_step, ih, List.lookup_append, Option.getD_or]

/-- Memory reaches as far as it did at first, or to the farthest cell written. -/
theorem size_stepped (m : Machine) (n : Nat) :
    (m.stepped n).memory.size =
      ((m.writes n).map fun write => write.1.toNat + 1).foldr max m.memory.size := by
  induction n with
  | zero => rfl
  | succ n ih =>
    rw [stepped, writes, size_step, ih, List.map_append, List.foldr_append]

/-- No number of steps changes whether memory grows. -/
theorem grows_stepped (m : Machine) (n : Nat) : (m.stepped n).grows = m.grows := by
  induction n with
  | zero => rfl
  | succ n ih => rw [stepped, grows_step, ih]

/-- Memory that does not grow keeps its length. -/
theorem size_stepped_of_fixed {m : Machine} (h : m.grows = false) (n : Nat) :
    (m.stepped n).memory.size = m.memory.size := by
  induction n with
  | zero => rfl
  | succ n ih =>
    rw [stepped, size_step]
    cases hstored : (m.stepped n).stepStored? with
    | none => exact ih
    | some write =>
      have hgrows := (m.grows_stepped n).trans h
      have hreach := (reach_of_stepStored? hstored).2 hgrows
      show max (write.1.toNat + 1) (m.stepped n).memory.size = m.memory.size
      omega

/-- What memory has at a place is the cell there. -/
theorem getElem?_memory {m : Machine} {k : Nat} (h : k < m.memory.size) :
    m.memory[k]? = some (m.cell k) := by
  simp [cell, h]

/-- Cells behind memory hold zero. -/
theorem cell_of_size_le {m : Machine} {k : Nat} (h : m.memory.size ≤ k) : m.cell k = 0 := by
  simp [cell, h]

/-- After steps memory has at each place the last value written there, or what was there at first.
-/
theorem getElem?_stepped {m : Machine} {n k : Nat} (h : k < (m.stepped n).memory.size) :
    (m.stepped n).memory[k]? = some (((m.writes n).lookup (k : Int)).getD (m.cell k)) := by
  rw [getElem?_memory h, cell_stepped]

/-- A cell between the end of memory and a cell written past it is zero. -/
theorem getElem?_gap {m : Machine} {n k : Nat} (hk : m.memory.size ≤ k)
    (hreach : k < (m.stepped n).memory.size) (hgap : ∀ write ∈ m.writes n, write.1 ≠ k) :
    (m.stepped n).memory[k]? = some 0 := by
  have hnone : (m.writes n).lookup (k : Int) = none := by
    rw [List.lookup_eq_none_iff]
    intro write hwrite
    exact bne_iff_ne.mpr (hgap write hwrite).symm
  rw [getElem?_stepped hreach, hnone, Option.getD_none, cell_of_size_le hk]

/-- Memory never shrinks. -/
theorem size_le_stepped (m : Machine) (n : Nat) :
    m.memory.size ≤ (m.stepped n).memory.size := by
  rw [size_stepped]
  induction m.writes n with
  | nil => exact Nat.le_refl _
  | cons write rest ih => exact Nat.le_trans ih (Nat.le_max_right _ _)

/-- Memory is a store in which the last write wins.  A step writes one cell, or none, and it is the
completed instructions with a destination that write.  Memory never shrinks, and only a write past
its end makes it longer, by zeros up to the cell written. -/
theorem memory_of_steps (m : Machine) :
    (∀ address value, m.stepStored? = some (address, value) ↔
      ∃ i n w, m.step = (.ok .proceed, w) ∧ m.due = .ok i ∧ i.opcode.destination? = some n ∧
        (m.begun i).address i n = .ok address ∧ Computes (m.begun i) i value) ∧
    (∀ address value, m.stepStored? = some (address, value) →
      0 ≤ address ∧ m.step.2.cell address = value ∧
        ∀ k : Nat, k ≠ address → m.step.2.cell k = m.cell k) ∧
    (m.stepStored? = none → m.step.2.memory = m.memory) ∧
    (m.step.2.memory.size ≠ m.memory.size →
      ∃ address value, m.stepStored? = some (address, value) ∧ m.memory.size ≤ address.toNat) ∧
    ∀ n,
      (∀ k < (m.stepped n).memory.size,
        (m.stepped n).memory[k]? = some (((m.writes n).lookup (k : Int)).getD (m.cell k))) ∧
      (m.stepped n).memory.size =
        ((m.writes n).map fun write => write.1.toNat + 1).foldr max m.memory.size ∧
      m.memory.size ≤ (m.stepped n).memory.size ∧
      (∀ k : Nat, m.memory.size ≤ k → k < (m.stepped n).memory.size →
        (∀ write ∈ m.writes n, write.1 ≠ k) → (m.stepped n).memory[k]? = some 0) ∧
      (m.grows = false → (m.stepped n).memory.size = m.memory.size) := by
  refine ⟨fun address value => stepStored?_iff, ?_, ?_, ?_, fun n => ⟨?_, size_stepped m n,
    size_le_stepped m n, ?_, fun h => size_stepped_of_fixed h n⟩⟩
  · intro address value h
    obtain ⟨hnonneg, -⟩ := reach_of_stepStored? h
    obtain ⟨target, rfl⟩ := Int.eq_ofNat_of_zero_le hnonneg
    refine ⟨hnonneg, ?_, fun k hk => ?_⟩
    · rw [cell_step, h]
      simp
    · rw [cell_step, h, Option.toList_some, List.lookup_cons, beq_false_of_ne hk]
      rfl
  · intro h
    rw [memory_step, h]
    rfl
  · intro h
    rw [size_step] at h
    cases hstored : m.stepStored? with
    | none =>
      rw [hstored] at h
      exact absurd rfl h
    | some write =>
      rw [hstored] at h
      have hmax : max (write.1.toNat + 1) m.memory.size ≠ m.memory.size := h
      exact ⟨write.1, write.2, rfl, by omega⟩
  · intro k hk
    exact getElem?_stepped hk
  · intro k hk hreach hgap
    exact getElem?_gap hk hreach hgap

/-- A cell past the end is written twice, and a third write, which fails, changes nothing. -/
theorem memory_of_steps_past_end :
    let m : Machine := boot [1101, 2, 3, 20, 1101, 4, 5, 20, 1101, 1, 1, -1] {}
    m.writes 4 = [(20, 9), (20, 5)] ∧ (m.stepped 4).memory.size = 21 ∧
      (m.stepped 4).memory[20]? = some 9 ∧ (m.stepped 4).memory[15]? = some 0 := by
  intro m
  have hwrites : m.writes 4 = [(20, 9), (20, 5)] := by decide +kernel
  have hlength : m.memory.size = 12 := rfl
  obtain ⟨hcell, hsize, -, hgap, -⟩ := (memory_of_steps m).2.2.2.2 4
  rw [hwrites] at hcell hsize hgap
  have hreach : (m.stepped 4).memory.size = 21 := hsize
  refine ⟨hwrites, hreach, hcell 20 (by omega), hgap 15 (by omega) (by omega) ?_⟩
  simp

end Machine

end IntegerMachine
