import IntegerMachine.Proofs.Machine.Effect

/-!
# Faults of steps

A step fails for what stands in memory: a word that is no instruction, an operand that has no value
or names no cell.  An instruction that is carried out fails for one of its operands: a cell is out of
reach, or the destination is a value (`OperandCause`).  The other causes are about how a machine is
used, and a step has one of them only if the machine has halted.
-/

set_option autoImplicit false

namespace IntegerMachine

/-- Whether a cause is about how machines are used, and not about what stands in memory. -/
def Cause.isProtocol : Cause → Bool
  | .stepAfterHalt | .withoutOutput _ | .blockedInLoop _ => true
  | .illegalOpcode _ | .unknownMode _ | .foreignMode _ _ | .immediateDestination _
  | .readNegative _ | .readBeyond _ | .writeNegative _ | .writeBeyond _ => false

namespace Machine

/-- An outcome that is no fault of use. -/
def InProtocol {α : Type} (outcome : Except Fault α) : Prop :=
  ∀ fault, outcome = .error fault → fault.cause.isProtocol = false

/-- An answer is no fault of use. -/
theorem inProtocol_ok {α : Type} (a : α) : InProtocol (.ok a) := by
  intro fault h
  exact absurd h (by simp)

/-- A fault that is none of use is in protocol. -/
theorem inProtocol_error {α : Type} {fault : Fault} (h : fault.cause.isProtocol = false) :
    InProtocol (α := α) (.error fault) := by
  intro other hother
  exact Except.error.inj hother ▸ h

variable (m : Machine) (i : Instruction)

/-! ## Instructions carried out -/

/-- Why a cell is out of reach. -/
inductive ReachCause : Cause → Prop
  | readNegative (address : Int) : ReachCause (.readNegative address)
  | readBeyond (address : Int) : ReachCause (.readBeyond address)
  | writeNegative (address : Int) : ReachCause (.writeNegative address)
  | writeBeyond (address : Int) : ReachCause (.writeBeyond address)

/-- Why an instruction that is decoded cannot be carried out. -/
inductive OperandCause (i : Instruction) : Cause → Prop
  | reach {cause : Cause} (h : ReachCause cause) : OperandCause i cause
  /-- Only the destination must not be a value. -/
  | destination {n : Nat} (hdestination : i.opcode.destination? = some n)
      (hmode : i.mode n = .immediate) : OperandCause i (.immediateDestination (n + 1))

/-- A cell out of reach is no fault of use. -/
theorem ReachCause.isProtocol_eq {cause : Cause} (h : ReachCause cause) :
    cause.isProtocol = false := by
  cases h <;> rfl

/-- An operand that cannot be resolved is no fault of use. -/
theorem OperandCause.isProtocol_eq {i : Instruction} {cause : Cause} (h : OperandCause i cause) :
    cause.isProtocol = false := by
  cases h with
  | reach hreach => exact hreach.isProtocol_eq
  | destination _ _ => rfl

/-- What cannot be read is out of reach. -/
theorem reachCause_of_readCause? {address : Int} {cause : Cause}
    (h : m.readCause? address = some cause) : ReachCause cause := by
  unfold readCause? at h
  split at h
  · exact Option.some.inj h ▸ .readNegative address
  · split at h
    · exact Option.some.inj h ▸ .readBeyond address
    · exact absurd h (by simp)

/-- What cannot be written is out of reach. -/
theorem reachCause_of_writeCause? {address : Int} {cause : Cause}
    (h : m.writeCause? address = some cause) : ReachCause cause := by
  unfold writeCause? at h
  split at h
  · exact Option.some.inj h ▸ .writeNegative address
  · split at h
    · exact Option.some.inj h ▸ .writeBeyond address
    · exact absurd h (by simp)

/-- An outcome that is a failure only for an operand. -/
def FailsByOperand (i : Instruction) {α : Type} (outcome : Except Fault α) : Prop :=
  ∀ fault, outcome = .error fault → OperandCause i fault.cause

section Operands

variable {i}

/-- An answer does not fail. -/
theorem failsByOperand_ok {α : Type} (a : α) : FailsByOperand i (.ok a) := by
  intro fault h
  exact absurd h (by simp)

/-- A failure with such a cause is one for an operand. -/
theorem failsByOperand_error {α : Type} {fault : Fault} (h : OperandCause i fault.cause) :
    FailsByOperand (α := α) i (.error fault) := by
  intro other hother
  exact Except.error.inj hother ▸ h

/-- Computations one after the other fail only for an operand if both do. -/
theorem FailsByOperand.bind {α β : Type} {x : Except Fault α} {f : α → Except Fault β}
    (hx : FailsByOperand i x) (hf : ∀ a, FailsByOperand i (f a)) : FailsByOperand i (x >>= f) := by
  cases x with
  | error fault => exact failsByOperand_error (hx fault rfl)
  | ok a => exact hf a

/-- Reading a cell fails only for its reach. -/
theorem failsByOperand_read (address : Int) : FailsByOperand i (m.read address) := by
  unfold read
  cases hcause : m.readCause? address with
  | some cause => exact failsByOperand_error (.reach (m.reachCause_of_readCause? hcause))
  | none => exact failsByOperand_ok _

end Operands

/-- An operand that is no value names a cell, and one that is a value may not be written to. -/
theorem failsByOperand_address {n : Nat}
    (h : i.mode n = .immediate → i.opcode.destination? = some n) :
    FailsByOperand i (m.address i n) := by
  unfold address
  cases hmode : i.mode n with
  | immediate => exact failsByOperand_error (.destination (h hmode) hmode)
  | position => exact m.failsByOperand_read _
  | relative => exact (m.failsByOperand_read _).bind fun _ => failsByOperand_ok _

/-- The value of an operand fails only for that operand. -/
theorem failsByOperand_value (n : Nat) : FailsByOperand i (m.value i n) := by
  unfold value
  cases hmode : i.mode n with
  | immediate => exact m.failsByOperand_read _
  | position | relative =>
    have haddress := m.failsByOperand_address i (n := n) (by simp [hmode])
    exact haddress.bind fun a => m.failsByOperand_read a

/-- An instruction that computes fails only for its operands: the third one is its destination. -/
theorem failsByOperand_arithmetic (h : i.opcode.destination? = some 2) (op : Int → Int → Int) :
    FailsByOperand i (m.arithmetic i op) := by
  refine (m.failsByOperand_value i 0).bind fun a => (m.failsByOperand_value i 1).bind fun b => ?_
  exact (m.failsByOperand_address i fun _ => h).bind fun _ => failsByOperand_ok _

/-- A branch fails only for its operands, as it has no destination. -/
theorem failsByOperand_branch (condition : Int → Bool) :
    FailsByOperand i (m.branch i condition) := by
  refine (m.failsByOperand_value i 0).bind fun a => ?_
  split
  · exact (m.failsByOperand_value i 1).bind fun _ => failsByOperand_ok _
  · exact failsByOperand_ok _

/-- No opcode fails by what it does but for its operands. -/
theorem failsByOperand_effect : FailsByOperand i (m.effect i) := by
  unfold effect
  cases hop : i.opcode with
  | add | multiply | lessThan | equals =>
    exact m.failsByOperand_arithmetic i (by rw [hop]; rfl) _
  | jumpIfTrue | jumpIfFalse => exact m.failsByOperand_branch i _
  | input =>
    cases m.inputs with
    | nil => exact failsByOperand_ok _
    | cons value rest =>
      have haddress := m.failsByOperand_address i (n := 0) fun _ => by rw [hop]; rfl
      exact haddress.bind fun _ => failsByOperand_ok _
  | output | adjustBase => exact (m.failsByOperand_value i 0).bind fun _ => failsByOperand_ok _
  | halt => exact failsByOperand_ok _

/-- Applying an effect fails only where its destination is out of reach. -/
theorem failsByOperand_apply (e : Effect) : FailsByOperand i (m.apply i e).1 := by
  cases e with
  | store address value | take address value =>
    simp only [apply]
    cases hcause : m.writeCause? address with
    | some cause => exact failsByOperand_error (.reach (m.reachCause_of_writeCause? hcause))
    | none => exact failsByOperand_ok _
  | emit value | jump target | skip | rebase offset | wait | stop => exact failsByOperand_ok _

/-- An instruction that is carried out fails for one of its operands. -/
theorem failsByOperand_perform : FailsByOperand i (m.perform i).1 := by
  rw [perform_eq]
  cases he : (m.begun i).effect i with
  | error fault => exact failsByOperand_error ((m.begun i).failsByOperand_effect i fault he)
  | ok e => exact (m.begun i).failsByOperand_apply i e

/-! ## Steps -/

/-- A mode that is not of the dialect is no fault of use. -/
theorem isProtocol_of_decodeModes {dialect : Dialect} {digits : List Int} {cause : Cause}
    (h : decodeModes dialect digits = .error cause) : cause.isProtocol = false := by
  induction digits with
  | nil => exact absurd h (by simp [decodeModes])
  | cons digit digits ih =>
    rw [decodeModes] at h
    split at h
    · exact Except.error.inj h ▸ rfl
    · split at h
      · split at h
        · exact absurd h (by simp)
        · rename_i hrest
          exact ih (hrest.trans (congrArg Except.error (Except.error.inj h)))
      · exact Except.error.inj h ▸ rfl

/-- Decoding fails for what stands in memory, never by a fault of use. -/
theorem inProtocol_decode : InProtocol m.decode := by
  unfold decode
  cases hread : m.readCause? m.ip with
  | some cause => exact inProtocol_error (m.reachCause_of_readCause? hread).isProtocol_eq
  | none =>
    simp only
    split
    · exact inProtocol_error rfl
    · split
      · exact inProtocol_error rfl
      · split
        · rename_i hmodes
          exact inProtocol_error (isProtocol_of_decodeModes hmodes)
        · exact inProtocol_ok _

/-- A machine that has not halted takes no step that is against its use. -/
theorem inProtocol_step {m : Machine} (hm : m.state ≠ .halted) : InProtocol m.step.1 := by
  rw [step_eq hm]
  have hdue : InProtocol m.due := by
    unfold due
    cases m.pending with
    | some i => exact inProtocol_ok i
    | none => exact m.inProtocol_decode
  cases hi : m.due with
  | error fault => exact inProtocol_error (hdue fault hi)
  | ok i =>
    intro fault hfault
    exact (m.failsByOperand_perform i fault hfault).isProtocol_eq

end Machine

end IntegerMachine
