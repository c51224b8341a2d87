import IntegerMachine.Machine.Basic

/-!
# Cells

Memory seen cell by cell, with zeros behind its end.  A write changes the cell it names and no
other, and memory then reaches to that cell.  A cell can be read and written unless it is out of
reach.
-/

set_option autoImplicit false

namespace IntegerMachine.Machine

/-- An address that is negative, or past the end of memory that does not grow. -/
def IsOutOfReach (m : Machine) (address : Int) : Prop :=
  address < 0 ∨ m.memory.size ≤ address.toNat ∧ m.grows = false

instance (m : Machine) (address : Int) : Decidable (m.IsOutOfReach address) :=
  inferInstanceAs (Decidable (_ ∨ _))

/-- A cell can be read exactly if it is not out of reach. -/
theorem readCause?_eq_none_iff {m : Machine} {address : Int} :
    m.readCause? address = none ↔ ¬ m.IsOutOfReach address := by
  unfold readCause? IsOutOfReach
  split <;> simp_all

/-- A cell can be written exactly if it is not out of reach. -/
theorem writeCause?_eq_none_iff {m : Machine} {address : Int} :
    m.writeCause? address = none ↔ ¬ m.IsOutOfReach address := by
  unfold writeCause? IsOutOfReach
  split <;> simp_all

/-- A write changes nothing but memory. -/
theorem store_eq_with (m : Machine) (address value : Int) :
    m.store address value = { m with memory := (m.store address value).memory } := by
  by_cases hsize : m.memory.size ≤ address.toNat
  · simp only [store, if_pos hsize]
  · simp only [store, if_neg hsize]

/-- What a write leaves in memory depends on memory alone. -/
theorem memory_store_congr {m w : Machine} (h : w.memory = m.memory) (address value : Int) :
    (w.store address value).memory = (m.store address value).memory := by
  by_cases hsize : m.memory.size ≤ address.toNat
  · simp only [store, h, if_pos hsize]
  · simp only [store, h, if_neg hsize]

/-- Memory reaches to the cell that is written. -/
theorem size_store (m : Machine) (address value : Int) :
    (m.store address value).memory.size = max m.memory.size (address.toNat + 1) := by
  by_cases hsize : m.memory.size ≤ address.toNat
  · simp only [store, if_pos hsize, Array.size_push, Array.size_append, Array.size_replicate]
    omega
  · simp only [store, if_neg hsize, Array.size_setIfInBounds]
    omega

/-- The cell that is written holds the value, every other one what it held before. -/
theorem cell_store (m : Machine) (address value other : Int) :
    (m.store address value).cell other =
      if other.toNat = address.toNat then value else m.cell other := by
  by_cases hsize : m.memory.size ≤ address.toNat
  · simp only [cell, store, if_pos hsize, Array.getD_eq_getD_getElem?]
    grind
  · simp only [cell, store, if_neg hsize, Array.getD_eq_getD_getElem?]
    grind

/-- A machine at its start holds the program, and zeros behind it. -/
theorem cell_start (program : List Int) (settings : Settings) (dialect : Dialect)
    (padding address : Int) :
    (start program settings dialect padding).cell address = program.getD address.toNat 0 := by
  simp only [cell, start, Array.getD_eq_getD_getElem?, List.getD_eq_getElem?_getD]
  grind

end IntegerMachine.Machine
