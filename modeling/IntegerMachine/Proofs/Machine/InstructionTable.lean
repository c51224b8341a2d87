import IntegerMachine.Proofs.Machine.Cells
import IntegerMachine.Proofs.Machine.Effect
import Mathlib.Algebra.Order.Ring.Int

/-!
# The instruction table

What one step does, read off the state before it.  A table says for every opcode what stands in
the way of its operands, in the order in which it is found, and what the instruction leaves when
nothing does.  Every value in the table is that of the state before the step, also when the
destination is an operand or the instruction itself.  `step_eq_tableStep` says that a step of a
machine that starts an instruction is the one of the table.  Which cells are in reach the table
takes from the machine; `readCause?_eq_some_iff` and `writeCause?_eq_some_iff` write that rule out.
-/

set_option autoImplicit false

namespace IntegerMachine.Machine

/-! ### Operands -/

/-- The word under the instruction pointer. -/
def word (m : Machine) : Int := m.cell m.ip

/-- The two lowest digits of the word. -/
def code (m : Machine) : Int := m.word % 100

/-- The digit of the word for the mode of an operand. -/
def modeDigit (m : Machine) (n : Nat) : Int := m.word / 10 ^ (n + 2) % 10

/-- The mode of an operand, whose digit is known to be one of the dialect. -/
def modeOf (m : Machine) (n : Nat) : Mode := (Mode.ofDigit? (m.modeDigit n)).getD .position

/-- The address of the cell an operand stands for; that of a value is its own. -/
def placeOf (m : Machine) (n : Nat) : Int :=
  match m.modeOf n with
  | .position => m.cell (m.ip + 1 + n)
  | .immediate => m.ip + 1 + n
  | .relative => m.base + m.cell (m.ip + 1 + n)

/-- The value an operand stands for. -/
def valueOf (m : Machine) (n : Nat) : Int := m.cell (m.placeOf n)

/-! ### What stands in the way -/

/-- A cell cannot be read if its address is negative, or past the end of a memory that does not
grow. -/
theorem readCause?_eq_some_iff {m : Machine} {address : Int} {cause : Cause} :
    m.readCause? address = some cause ↔
      address < 0 ∧ cause = .readNegative address ∨
      0 ≤ address ∧ m.memory.size ≤ address ∧ m.grows = false ∧ cause = .readBeyond address := by
  unfold readCause?
  grind

/-- A cell cannot be written if its address is negative, or past the end of a memory that does not
grow. -/
theorem writeCause?_eq_some_iff {m : Machine} {address : Int} {cause : Cause} :
    m.writeCause? address = some cause ↔
      address < 0 ∧ cause = .writeNegative address ∨
      0 ≤ address ∧ m.memory.size ≤ address ∧ m.grows = false ∧ cause = .writeBeyond address := by
  unfold writeCause?
  grind

/-- The first cause in a list. -/
def firstCause (causes : List (Option Cause)) : Option Cause := causes.findSome? id

/-- The opcode of the word, if the word is not negative and the dialect has the opcode. -/
def opcode? (m : Machine) : Option Opcode :=
  if m.word < 0 then none else m.dialect.opcodes.find? fun op => op.code = m.code

/-- Why a digit is no mode of the dialect. -/
def modeCause? (dialect : Dialect) (digit : Int) : Option Cause :=
  match Mode.ofDigit? digit with
  | none => some (.unknownMode digit)
  | some mode => if mode ∈ dialect.modes then none else some (.foreignMode mode dialect)

/-- Why the modes of the operands cannot be read; digits past the operands do not count. -/
def modeCauses (m : Machine) (op : Opcode) : List (Option Cause) :=
  (List.range op.operands).map fun n => modeCause? m.dialect (m.modeDigit n)

/-- Why an operand has no value. -/
def sourceCauses (m : Machine) (n : Nat) : List (Option Cause) :=
  [m.readCause? (m.ip + 1 + n), m.readCause? (m.placeOf n)]

/-- Why an operand names no address. -/
def addressCauses (m : Machine) (n : Nat) : List (Option Cause) :=
  [if m.modeOf n = .immediate then some (.immediateDestination (n + 1)) else none,
    m.readCause? (m.ip + 1 + n)]

/-- Why an operand is no destination. -/
def destinationCauses (m : Machine) (n : Nat) : List (Option Cause) :=
  m.addressCauses n ++ [m.writeCause? (m.placeOf n)]

/-- Why the operands cannot be resolved: sources from left to right, then the destination.  The
target of a jump is resolved when the jump is taken, the destination of an input when a value is
queued. -/
def operandCauses (m : Machine) : Opcode → List (Option Cause)
  | .add | .multiply | .lessThan | .equals =>
    m.sourceCauses 0 ++ m.sourceCauses 1 ++ m.destinationCauses 2
  | .input => if m.inputs = [] then [] else m.destinationCauses 0
  | .output | .adjustBase => m.sourceCauses 0
  | .jumpIfTrue => m.sourceCauses 0 ++ if m.valueOf 0 ≠ 0 then m.sourceCauses 1 else []
  | .jumpIfFalse => m.sourceCauses 0 ++ if m.valueOf 0 = 0 then m.sourceCauses 1 else []
  | .halt => []

/-! ### What an instruction leaves -/

/-- The instruction under the instruction pointer. -/
def instruction (m : Machine) (op : Opcode) : Instruction :=
  ⟨m.ip, m.word, op, (List.range op.operands).map m.modeOf⟩

/-- Memory with one cell changed, cell by cell: it reaches to that cell, and what is new in
between is zero. -/
def memoryWith (m : Machine) (address value : Int) : Array Int :=
  Array.ofFn fun k : Fin (max m.memory.size (address.toNat + 1)) =>
    if k = address.toNat then value else m.memory.getD k 0

/-- The queue after operands that cannot be resolved: an input instruction that has its address
has taken its value. -/
def inputsAfterFault (m : Machine) (op : Opcode) : List Int :=
  if op = .input ∧ firstCause (m.addressCauses 0) = none then m.inputs.tail else m.inputs

/-- The table: what an instruction leaves. -/
def tableEffect (m : Machine) (op : Opcode) : Signal × Machine :=
  let i := m.instruction op
  let next := m.ip + 1 + op.operands
  let done := { m with current := some i, ip := next, state := .active }
  match op with
  | .add =>
    (.proceed, { done with memory := m.memoryWith (m.placeOf 2) (m.valueOf 0 + m.valueOf 1) })
  | .multiply =>
    (.proceed, { done with memory := m.memoryWith (m.placeOf 2) (m.valueOf 0 * m.valueOf 1) })
  | .input =>
    match m.inputs with
    | [] => (.blocked, { m with current := some i, pending := some i, state := .blocked })
    | value :: rest =>
      (.proceed, { done with memory := m.memoryWith (m.placeOf 0) value, inputs := rest })
  | .output => (.proceed, { done with outputs := m.outputs ++ [m.valueOf 0] })
  | .jumpIfTrue => (.proceed, { done with ip := if m.valueOf 0 ≠ 0 then m.valueOf 1 else next })
  | .jumpIfFalse => (.proceed, { done with ip := if m.valueOf 0 = 0 then m.valueOf 1 else next })
  | .lessThan =>
    (.proceed,
      { done with
        memory := m.memoryWith (m.placeOf 2) (if m.valueOf 0 < m.valueOf 1 then 1 else 0) })
  | .equals =>
    (.proceed,
      { done with
        memory := m.memoryWith (m.placeOf 2) (if m.valueOf 0 = m.valueOf 1 then 1 else 0) })
  | .adjustBase => (.proceed, { done with base := m.base + m.valueOf 0 })
  | .halt => (.halted, { m with current := some i, state := .halted })

/-- One step by the table: the word must be readable, then its opcode legal, then its modes, then
its operands must resolve; what is found first is the fault. -/
def tableStep (m : Machine) : Except Fault Signal × Machine :=
  match m.readCause? m.ip with
  | some cause => (.error ⟨cause, m.ip, none⟩, { m with current := none })
  | none =>
    match m.opcode? with
    | none => (.error ⟨.illegalOpcode m.code, m.ip, some m.word⟩, { m with current := none })
    | some op =>
      match firstCause (m.modeCauses op) with
      | some cause => (.error ⟨cause, m.ip, some m.word⟩, { m with current := none })
      | none =>
        match firstCause (m.operandCauses op) with
        | some cause =>
          (.error ⟨cause, m.ip, some m.word⟩,
            { m with current := some (m.instruction op), inputs := m.inputsAfterFault op })
        | none => (.ok (m.tableEffect op).1, (m.tableEffect op).2)

/-! ### A step is the one of the table -/

/-- A result that stands unless there is a cause in the list. -/
def judged {α : Type} (m : Machine) (causes : List (Option Cause)) (a : α) : Except Fault α :=
  match firstCause causes with
  | some cause => .error ⟨cause, m.ip, some m.word⟩
  | none => .ok a

/-- The first cause of two lists is that of the first, or, if it has none, that of the second. -/
theorem firstCause_append (first second : List (Option Cause)) :
    firstCause (first ++ second) = (firstCause first).or (firstCause second) :=
  List.findSome?_append

/-- Causes of a first result and of what follows it are found one after another. -/
theorem judged_bind {α β : Type} (m : Machine) (first second : List (Option Cause)) (a : α)
    (b : β) {next : α → Except Fault β} (h : next a = m.judged second b) :
    (m.judged first a >>= next) = m.judged (first ++ second) b := by
  unfold judged at h ⊢
  rw [firstCause_append]
  cases firstCause first with
  | some cause => rfl
  | none => exact h

/-- An instruction that stands where the machine is and has the modes of its word. -/
structure Fits (m : Machine) (i : Instruction) : Prop where
  ip_eq : i.ip = m.ip
  word_eq : i.word = m.word
  mode_eq : ∀ n, n < i.opcode.operands → i.mode n = m.modeOf n

/-- The instruction of the table fits the machine. -/
theorem fits_instruction (m : Machine) (op : Opcode) : m.Fits (m.instruction op) where
  ip_eq := rfl
  word_eq := rfl
  mode_eq := by
    intro n hn
    have hn' : n < op.operands := hn
    simp [Instruction.mode, instruction, List.getD_eq_getElem?_getD, hn']

section Operands

variable {m : Machine} {i : Instruction} (h : m.Fits i)

include h

/-- A cell is read as the table judges its reach. -/
theorem read_begun (address : Int) :
    (m.begun i).read address = m.judged [m.readCause? address] (m.cell address) := by
  have hcause : (m.begun i).readCause? address = m.readCause? address := rfl
  unfold read judged firstCause
  rw [hcause]
  cases m.readCause? address with
  | none => rfl
  | some cause =>
    have hfault : (m.begun i).faultOf cause = ⟨cause, m.ip, some m.word⟩ := by
      rw [← h.word_eq]
      rfl
    exact congrArg Except.error hfault

/-- An operand word is read as the table judges its reach. -/
theorem operand_begun (n : Nat) :
    (m.begun i).operand i n = m.judged [m.readCause? (m.ip + 1 + n)] (m.cell (m.ip + 1 + n)) := by
  rw [operand, h.ip_eq, read_begun h]

/-- The address of an operand is the one of the table. -/
theorem address_begun {n : Nat} (hn : n < i.opcode.operands) :
    (m.begun i).address i n = m.judged (m.addressCauses n) (m.placeOf n) := by
  unfold address addressCauses placeOf
  rw [h.mode_eq n hn]
  cases hmode : m.modeOf n with
  | immediate =>
    have hfault : (m.begun i).faultOf (.immediateDestination (n + 1)) =
        ⟨.immediateDestination (n + 1), m.ip, some m.word⟩ := by
      rw [← h.word_eq]
      rfl
    exact congrArg Except.error hfault
  | position =>
    simp only [operand_begun h]
    rfl
  | relative =>
    simp only [operand_begun h]
    exact judged_bind m [m.readCause? (m.ip + 1 + n)] [] _ _ rfl

/-- The value of an operand is the one of the table. -/
theorem value_begun {n : Nat} (hn : n < i.opcode.operands) :
    (m.begun i).value i n = m.judged (m.sourceCauses n) (m.valueOf n) := by
  have haddress := address_begun h hn
  unfold value
  rw [h.mode_eq n hn]
  cases hmode : m.modeOf n with
  | immediate =>
    -- a value is read where the operand stands, and there it can be read if the operand can
    have hplace : m.placeOf n = m.ip + 1 + n := by simp [placeOf, hmode]
    simp only [operand_begun h, valueOf, sourceCauses, hplace, judged, firstCause,
      List.findSome?_cons, id]
    cases m.readCause? (m.ip + 1 + n) <;> rfl
  | position | relative =>
    have hcauses : firstCause (m.sourceCauses n) =
        firstCause (m.addressCauses n ++ [m.readCause? (m.placeOf n)]) := by
      simp [firstCause, sourceCauses, addressCauses, hmode]
    simp only [haddress]
    rw [judged_bind m _ _ _ _ (read_begun h (m.placeOf n)), judged, ← hcauses]
    rfl

/-- An operation on two sources resolves them and then its destination. -/
theorem arithmetic_begun (hop : i.opcode.operands = 3) (op : Int → Int → Int) :
    (m.begun i).arithmetic i op =
      m.judged (m.sourceCauses 0 ++ m.sourceCauses 1 ++ m.addressCauses 2)
        (.store (m.placeOf 2) (op (m.valueOf 0) (m.valueOf 1))) := by
  unfold arithmetic
  rw [value_begun h (by omega), List.append_assoc]
  apply judged_bind
  rw [value_begun h (by omega)]
  apply judged_bind
  rw [address_begun h (by omega), ← List.append_nil (m.addressCauses 2)]
  apply judged_bind
  rfl

/-- A jump resolves its target only when it is taken. -/
theorem branch_begun (hop : i.opcode.operands = 2) (condition : Int → Bool) :
    (m.begun i).branch i condition =
      m.judged
        (m.sourceCauses 0 ++ if condition (m.valueOf 0) = true then m.sourceCauses 1 else [])
        (if condition (m.valueOf 0) = true then .jump (m.valueOf 1) else .skip) := by
  unfold branch
  rw [value_begun h (by omega)]
  apply judged_bind
  by_cases hc : condition (m.valueOf 0) = true
  · simp only [if_pos hc]
    rw [value_begun h (by omega), ← List.append_nil (m.sourceCauses 1)]
    apply judged_bind
    rfl
  · simp only [if_neg hc]
    rfl

/-- An operation on one source resolves it. -/
theorem unary_begun (hop : 0 < i.opcode.operands) (e : Int → Effect) :
    ((m.begun i).value i 0 >>= fun a => pure (e a)) =
      m.judged (m.sourceCauses 0) (e (m.valueOf 0)) := by
  rw [value_begun h hop, ← List.append_nil (m.sourceCauses 0)]
  apply judged_bind
  rfl

/-- An input with a value queued resolves its destination. -/
theorem input_begun (hop : i.opcode = .input) {value : Int} {rest : List Int}
    (hin : m.inputs = value :: rest) :
    (m.begun i).effect i = m.judged (m.addressCauses 0) (.take (m.placeOf 0) value) := by
  have hqueued : (m.begun i).inputs = value :: rest := hin
  have hoperand : 0 < i.opcode.operands := by
    rw [hop]
    decide
  unfold effect
  rw [hop]
  simp only [hqueued]
  rw [address_begun h hoperand, ← List.append_nil (m.addressCauses 0)]
  apply judged_bind
  rfl

end Operands

/-- Reading the modes of digits finds the first digit that is none of the dialect. -/
theorem decodeModes_eq (dialect : Dialect) (digits : List Int) :
    decodeModes dialect digits =
      match firstCause (digits.map (modeCause? dialect)) with
      | some cause => .error cause
      | none => .ok (digits.map fun digit => (Mode.ofDigit? digit).getD .position) := by
  induction digits with
  | nil => rfl
  | cons digit digits ih =>
    rw [decodeModes, ih]
    unfold firstCause
    rw [List.map_cons, List.findSome?_cons]
    cases hdigit : Mode.ofDigit? digit with
    | none => simp [modeCause?, hdigit]
    | some mode =>
      by_cases hmode : mode ∈ dialect.modes
      · simp only [modeCause?, hdigit, hmode, if_true, id]
        cases List.findSome? id (digits.map (modeCause? dialect)) <;> simp [hdigit]
      · simp [modeCause?, hdigit, hmode]

/-- The digits read for the operands of an opcode are the mode digits of the word. -/
theorem take_split (m : Machine) (op : Opcode) :
    (Word.split m.word).2.take op.operands = (List.range op.operands).map m.modeDigit := by
  cases op <;> rfl

/-- The opcode of a word is that of its code, if the dialect has it. -/
theorem opcode?_eq_some {m : Machine} {op : Opcode} :
    m.opcode? = some op ↔
      0 ≤ m.word ∧ Opcode.ofCode? m.code = some op ∧ op ∈ m.dialect.opcodes := by
  unfold opcode?
  constructor
  · intro h
    split at h
    · exact absurd h (by simp)
    · rename_i hword
      have hcode : op.code = m.code := by simpa using List.find?_some h
      exact ⟨by omega, hcode ▸ Opcode.ofCode?_code op, List.mem_of_find?_eq_some h⟩
  · rintro ⟨hword, hcode, hmem⟩
    rw [if_neg (by omega)]
    have hop : op.code = m.code := by simpa using List.find?_some hcode
    cases hfind : m.dialect.opcodes.find? fun op => op.code = m.code with
    | none =>
      have := List.find?_eq_none.mp hfind op hmem
      exact absurd hop (by simpa using this)
    | some found =>
      have hfound : found.code = m.code := by simpa using List.find?_some hfind
      rw [← hfound, Opcode.ofCode?_code] at hcode
      exact hcode

/-- Decoding finds what the table says. -/
theorem decode_eq (m : Machine) :
    m.decode =
      match m.readCause? m.ip with
      | some cause => .error ⟨cause, m.ip, none⟩
      | none =>
        match m.opcode? with
        | none => .error ⟨.illegalOpcode m.code, m.ip, some m.word⟩
        | some op => m.judged (m.modeCauses op) (m.instruction op) := by
  unfold decode
  cases m.readCause? m.ip with
  | some cause => rfl
  | none =>
    have hsplit : Word.split (m.cell m.ip) = (m.code, (Word.split m.word).2) := rfl
    simp only [hsplit]
    cases hcode : Opcode.ofCode? m.code with
    | none =>
      have hnone : m.opcode? = none := by
        apply Option.eq_none_iff_forall_ne_some.mpr
        intro op hop
        rw [(opcode?_eq_some.mp hop).2.1] at hcode
        exact absurd hcode (by simp)
      rw [hnone]
      rfl
    | some op =>
      -- an opcode is found, but a negative word or a foreign opcode still has none
      simp only
      split
      · rename_i hillegal
        have hnone : m.opcode? = none := by
          apply Option.eq_none_iff_forall_ne_some.mpr
          intro found hfound
          obtain ⟨hword, hfound, hmem⟩ := opcode?_eq_some.mp hfound
          rw [hfound] at hcode
          cases hcode
          rcases hillegal with hneg | hforeign
          · exact absurd hneg (Int.not_lt.mpr hword)
          · exact hforeign hmem
        rw [hnone]
        rfl
      · rename_i hlegal
        obtain ⟨hword, hmem⟩ := not_or.mp hlegal
        have hsome : m.opcode? = some op :=
          opcode?_eq_some.mpr ⟨Int.not_lt.mp hword, hcode, Decidable.not_not.mp hmem⟩
        simp only [hsome]
        rw [decodeModes_eq, take_split, List.map_map, List.map_map]
        unfold judged modeCauses
        have hcauses : (List.range op.operands).map (modeCause? m.dialect ∘ m.modeDigit) =
            (List.range op.operands).map fun n => modeCause? m.dialect (m.modeDigit n) := rfl
        rw [hcauses]
        cases firstCause ((List.range op.operands).map
          fun n => modeCause? m.dialect (m.modeDigit n)) <;> rfl

/-- Memory after a value is stored is that of the table: old cells, zeros of a gap and the value. -/
theorem store_memory (m : Machine) (address value : Int) :
    (m.store address value).memory = m.memoryWith address value := by
  unfold store memoryWith
  by_cases hsize : m.memory.size ≤ address.toNat
  · simp only [if_pos hsize]
    apply Array.ext
    · simp only [Array.size_push, Array.size_append, Array.size_replicate, Array.size_ofFn]
      omega
    · intro k hk hk'
      simp only [Array.getElem_ofFn, Array.getElem_push, Array.size_append, Array.size_replicate,
        Nat.add_sub_cancel' hsize]
      -- a cell is an old one, a zero of the gap, or the one written
      rcases Nat.lt_or_ge k m.memory.size with hold | hnew
      · have hk : k < address.toNat := Nat.lt_of_lt_of_le hold hsize
        simp [hk, hold, Nat.ne_of_lt hk]
      · by_cases hgap : k < address.toNat
        · simp [hgap, Nat.ne_of_lt hgap, Nat.not_lt.mpr hnew, Array.getElem_append]
        · have hk : k = address.toNat := by
            simp only [Array.size_push, Array.size_append, Array.size_replicate] at hk
            omega
          simp [hk]
  · simp only [if_neg hsize]
    apply Array.ext
    · simp only [Array.size_setIfInBounds, Array.size_ofFn]
      omega
    · intro k hk hk'
      have hold : k < m.memory.size := by simpa using hk
      simp [Array.getElem_setIfInBounds, hold, eq_comm]

/-- Storing a value changes memory as the table says. -/
theorem store_eq (m : Machine) (address value : Int) :
    m.store address value = { m with memory := m.memoryWith address value } := by
  rw [← store_memory]
  exact m.store_eq_with address value

/-- The instruction after one that does not jump. -/
theorem next_instruction (m : Machine) (op : Opcode) :
    m.ip + (m.instruction op).size = m.ip + 1 + op.operands := by
  simp only [Instruction.size, instruction, List.length_map, List.length_range]
  omega

section Perform

variable {m : Machine} (hp : m.pending = none) (op : Opcode)

include hp

/-- Beginning the instruction of the table marks it as the latest one. -/
theorem begun_instruction :
    m.begun (m.instruction op) = { m with current := some (m.instruction op) } := by
  simp only [begun, ← hp]

/-- An effect worked out by the table is carried out, or its first cause is the fault. -/
theorem perform_of_judged {causes : List (Option Cause)} {e : Effect}
    (h : (m.begun (m.instruction op)).effect (m.instruction op) = m.judged causes e) :
    m.perform (m.instruction op) =
      match firstCause causes with
      | some cause =>
        (.error ⟨cause, m.ip, some m.word⟩, { m with current := some (m.instruction op) })
      | none => ({ m with current := some (m.instruction op) } : Machine).apply
          (m.instruction op) e := by
  rw [perform_eq, h, begun_instruction hp]
  unfold judged
  cases firstCause causes <;> rfl

/-- An instruction with two sources and a destination. -/
theorem perform_arithmetic (f : Int → Int → Int) (hop : op.operands = 3)
    (h : (m.begun (m.instruction op)).effect (m.instruction op) =
      (m.begun (m.instruction op)).arithmetic (m.instruction op) f) :
    m.perform (m.instruction op) =
      match firstCause (m.sourceCauses 0 ++ m.sourceCauses 1 ++ m.destinationCauses 2) with
      | some cause =>
        (.error ⟨cause, m.ip, some m.word⟩, { m with current := some (m.instruction op) })
      | none =>
        (.ok .proceed,
          { m with
            current := some (m.instruction op), ip := m.ip + 1 + op.operands, state := .active
            memory := m.memoryWith (m.placeOf 2) (f (m.valueOf 0) (m.valueOf 1)) }) := by
  rw [arithmetic_begun (m.fits_instruction op) hop] at h
  rw [perform_of_judged hp op h, destinationCauses, ← List.append_assoc, firstCause_append _ [_]]
  cases firstCause (m.sourceCauses 0 ++ m.sourceCauses 1 ++ m.addressCauses 2) with
  | some cause => rfl
  | none =>
    rw [← next_instruction m op]
    have hwritable : ({ m with current := some (m.instruction op) } : Machine).writeCause?
        (m.placeOf 2) = m.writeCause? (m.placeOf 2) := rfl
    simp only [apply, hwritable, store_eq, Option.none_or, firstCause, List.findSome?_cons, id]
    cases m.writeCause? (m.placeOf 2) <;> rfl

/-- A jump on a condition. -/
theorem perform_branch (condition : Int → Bool) (hop : op.operands = 2)
    (h : (m.begun (m.instruction op)).effect (m.instruction op) =
      (m.begun (m.instruction op)).branch (m.instruction op) condition) :
    m.perform (m.instruction op) =
      match firstCause
        (m.sourceCauses 0 ++ if condition (m.valueOf 0) = true then m.sourceCauses 1 else []) with
      | some cause =>
        (.error ⟨cause, m.ip, some m.word⟩, { m with current := some (m.instruction op) })
      | none =>
        (.ok .proceed,
          { m with
            current := some (m.instruction op), state := .active
            ip := if condition (m.valueOf 0) = true then m.valueOf 1
              else m.ip + 1 + op.operands }) := by
  rw [branch_begun (m.fits_instruction op) hop] at h
  rw [perform_of_judged hp op h, ← next_instruction m op]
  cases firstCause
    (m.sourceCauses 0 ++ if condition (m.valueOf 0) = true then m.sourceCauses 1 else []) with
  | some cause => rfl
  | none => by_cases hc : condition (m.valueOf 0) = true <;> simp only [hc, if_true] <;> rfl

/-- An input waits on an empty queue, and otherwise writes the first value; one that is refused
has taken it. -/
theorem perform_input :
    m.perform (m.instruction .input) =
      match firstCause (m.operandCauses .input) with
      | some cause =>
        (.error ⟨cause, m.ip, some m.word⟩,
          { m with
            current := some (m.instruction .input), inputs := m.inputsAfterFault .input })
      | none => (.ok (m.tableEffect .input).1, (m.tableEffect .input).2) := by
  have hfits := m.fits_instruction .input
  cases hin : m.inputs with
  | nil =>
    have heffect : (m.begun (m.instruction .input)).effect (m.instruction .input) =
        m.judged [] .wait := (input_eq_ok rfl).mpr (.inl ⟨hin, rfl⟩)
    rw [perform_of_judged hp .input heffect]
    simp only [operandCauses, tableEffect, hin, if_true]
    rfl
  | cons value rest =>
    rw [perform_of_judged hp .input (input_begun hfits rfl hin)]
    have hcauses : m.operandCauses .input =
        m.addressCauses 0 ++ [m.writeCause? (m.placeOf 0)] := by
      simp [operandCauses, destinationCauses, hin]
    rw [hcauses, firstCause_append]
    -- the value is taken once the address is found, before the cell is known to be in reach
    unfold inputsAfterFault
    cases firstCause (m.addressCauses 0) with
    | some cause => simp
    | none =>
      have hwritable : ({ m with current := some (m.instruction .input) } : Machine).writeCause?
          (m.placeOf 0) = m.writeCause? (m.placeOf 0) := rfl
      simp only [apply, hwritable, store_eq, Option.none_or, firstCause, List.findSome?_cons, id,
        and_self, if_true]
      rw [next_instruction m .input]
      cases m.writeCause? (m.placeOf 0) with
      | some cause => rfl
      | none => simp only [tableEffect, hin]; rfl

/-- Carrying out the instruction under the instruction pointer is what the table says. -/
theorem perform_instruction :
    m.perform (m.instruction op) =
      match firstCause (m.operandCauses op) with
      | some cause =>
        (.error ⟨cause, m.ip, some m.word⟩,
          { m with current := some (m.instruction op), inputs := m.inputsAfterFault op })
      | none => (.ok (m.tableEffect op).1, (m.tableEffect op).2) := by
  cases op with
  | add => exact perform_arithmetic hp .add (fun a b => a + b) rfl rfl
  | multiply => exact perform_arithmetic hp .multiply (fun a b => a * b) rfl rfl
  | lessThan =>
    exact perform_arithmetic hp .lessThan (fun a b => if a < b then 1 else 0) rfl rfl
  | equals =>
    exact perform_arithmetic hp .equals (fun a b => if a = b then 1 else 0) rfl rfl
  | input => exact perform_input hp
  | jumpIfTrue =>
    have hbranch := perform_branch hp .jumpIfTrue (fun a => a != 0) rfl rfl
    simp only [bne_iff_ne] at hbranch
    exact hbranch
  | jumpIfFalse =>
    have hbranch := perform_branch hp .jumpIfFalse (fun a => a == 0) rfl rfl
    simp only [beq_iff_eq] at hbranch
    exact hbranch
  | output =>
    have heffect : (m.begun (m.instruction .output)).effect (m.instruction .output) =
        m.judged (m.sourceCauses 0) (.emit (m.valueOf 0)) :=
      unary_begun (m.fits_instruction .output) Nat.one_pos .emit
    rw [perform_of_judged hp .output heffect]
    simp only [operandCauses, apply, advance, next_instruction m .output]
    rfl
  | adjustBase =>
    have heffect : (m.begun (m.instruction .adjustBase)).effect (m.instruction .adjustBase) =
        m.judged (m.sourceCauses 0) (.rebase (m.valueOf 0)) :=
      unary_begun (m.fits_instruction .adjustBase) Nat.one_pos .rebase
    rw [perform_of_judged hp .adjustBase heffect]
    simp only [operandCauses, apply, advance, next_instruction m .adjustBase]
    rfl
  | halt =>
    have heffect : (m.begun (m.instruction .halt)).effect (m.instruction .halt) =
        m.judged [] .stop := rfl
    rw [perform_of_judged hp .halt heffect]
    rfl

end Perform

/-- A step that starts an instruction is the one of the table: the same effect when nothing
stands in the way, and otherwise the fault that the table finds first. -/
theorem step_eq_tableStep (m : Machine) (hm : m.state ≠ .halted) (hp : m.pending = none) :
    m.step = m.tableStep := by
  have hdue : m.due = m.decode := by simp only [due, hp]
  rw [step_eq hm, hdue, decode_eq]
  unfold tableStep
  cases m.readCause? m.ip with
  | some cause => rfl
  | none =>
    cases m.opcode? with
    | none => rfl
    | some op =>
      simp only [judged]
      cases firstCause (m.modeCauses op) with
      | some cause => rfl
      | none => exact perform_instruction hp op

/-- An addition that overwrites its own opcode word leaves the sum of the values it found. -/
theorem step_eq_tableStep_own_word :
    (boot [1101, 20, 22, 0, 99] {}).state ≠ .halted ∧
      (boot [1101, 20, 22, 0, 99] {}).pending = none ∧
      (boot [1101, 20, 22, 0, 99] {}).step =
        (.ok .proceed,
          { boot [42, 20, 22, 0, 99] {} with
            ip := 4, current := some ⟨0, 1101, .add, [.immediate, .immediate, .position]⟩ }) :=
  have hstate : (boot [1101, 20, 22, 0, 99] {}).state ≠ .halted := by decide
  have hpending : (boot [1101, 20, 22, 0, 99] {}).pending = none := rfl
  ⟨hstate, hpending, (step_eq_tableStep _ hstate hpending).trans rfl⟩

/-- Of two faults the earlier one in the table is found: here the mode of the first operand comes
before the destination that is a value. -/
example : (boot [11302, 0, 0, 0] {}).tableStep.1 = .error ⟨.unknownMode 3, 0, some 11302⟩ := rfl

end IntegerMachine.Machine
