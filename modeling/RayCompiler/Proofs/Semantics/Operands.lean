import RayCompiler.Proofs.Semantics.Basic

namespace RayCompiler.Activation

open RayCompiler.Frame

variable {activation : Activation} {low high : Int} {store : Store} {memory : Memory}
  {machine : Machine}

theorem slotAddress_eq_spot (activation : Activation) (slot : Nat) :
    activation.slotAddress slot = spot activation.base (-(8 * (slot + 1) : Nat)) := by
  rw [slotAddress, SlotTable.slotSize, sub_ofNat_eq_spot, Nat.mul_comm]

-- The memory of the machine holds the cells at their places. It may differ from the memory around
-- them only in a range of distances from the frame pointer.
structure Mirrors (activation : Activation) (low high : Int) (store : Store) (memory : Memory) :
    Prop where
  cells : ∀ slot < activation.frame.slots.length,
    memory.read (activation.slotAddress slot) = store.cells slot
  outside : Memory.SameOutside activation.base low high memory store.memory

-- An address that may be read through: the place of a slot, or one out of the range.
def Safe (activation : Activation) (low high : Int) (address : Word) : Prop :=
  (∃ slot < activation.frame.slots.length, address = activation.slotAddress slot) ∨
    Clear activation.base low high address

theorem Mirrors.read_eq_peek (h : activation.Mirrors low high store memory) {address : Word}
    (hsafe : activation.Safe low high address) :
    memory.read address = activation.peek store address := by
  unfold peek
  cases hfind : (List.range activation.frame.slots.length).find?
      (activation.slotAddress · = address) with
  | some slot =>
      have hslot : activation.slotAddress slot = address := by
        simpa using List.find?_some hfind
      have hlt := List.mem_range.mp (List.mem_of_find?_eq_some hfind)
      rw [← hslot]
      exact h.cells slot hlt
  | none =>
      rcases hsafe with ⟨slot, hlt, rfl⟩ | hclear
      · have hnone := List.find?_eq_none.mp hfind slot (List.mem_range.mpr hlt)
        simp at hnone
      · apply Memory.read_congr
        intro i hi
        exact h.outside _ (hclear i hi)

theorem address_slotPlace (hbase : machine.registers .rbp = activation.base) (slot : Nat)
    (layout : Layout) : machine.address layout (slotPlace slot) = activation.slotAddress slot := by
  rw [slotPlace, Machine.address, hbase, slotAddress]

-- Loading an operand sets its register to the value of the operand and changes nothing else.
theorem Mirrors.steps_loading (h : activation.Mirrors low high store machine.memory)
    (hbase : machine.registers .rbp = activation.base) {operand : Operand}
    (hgives : activation.frame.Gives operand)
    (hsafe : ∀ address ∈ activation.accesses store operand, activation.Safe low high address)
    (register : Register) :
    machine.steps activation.layout (loading register operand) =
      machine.set register (activation.value store operand) := by
  cases operand with
  | literal value => rfl
  | «variable» slot =>
      simp only [loading, Machine.steps_cons, Machine.steps_nil, Machine.step]
      rw [address_slotPlace hbase, h.cells slot hgives]
      rfl
  | address slot =>
      simp only [loading, Machine.steps_cons, Machine.steps_nil, Machine.step]
      rw [address_slotPlace hbase]
      rfl
  | pointee slot =>
      simp only [loading, Machine.steps_cons, Machine.steps_nil, Machine.step]
      rw [address_slotPlace hbase, h.cells slot hgives, Machine.set_set, Machine.address,
        Machine.set_same, Machine.set_memory]
      rw [h.read_eq_peek (hsafe _ (by simp [accesses]))]
      rfl
  | external name =>
      simp only [loading, Machine.steps_cons, Machine.steps_nil, Machine.step, Machine.address]
      rw [h.read_eq_peek (hsafe _ (by simp [accesses]))]
      rfl
  | symbolAddress name => rfl
  | data offset => rfl
  | absent => exact hgives.elim

theorem sameOutside_slot (activation : Activation) (memory : Memory) (value : Word) {slot : Nat}
    (hfits : 8 * (slot + 1) ≤ 2 ^ 62) :
    Memory.SameOutside activation.base (-(8 * (slot + 1) : Nat)) (-(8 * slot : Nat))
      (memory.write (activation.slotAddress slot) value) memory := by
  have hwrite := @Memory.sameOutside_write activation.base memory value (-(8 * (slot + 1) : Nat))
    (by omega) (by omega)
  rw [← slotAddress_eq_spot] at hwrite
  exact hwrite.mono (Int.le_refl _) (by omega)

theorem Mirrors.setCell (h : activation.Mirrors low high store memory) {slot : Nat} {value : Word}
    (hslot : slot < activation.frame.slots.length)
    (hlow : low ≤ -(8 * activation.frame.slots.length : Nat)) (hhigh : 0 ≤ high)
    (hfits : 8 * activation.frame.slots.length ≤ 2 ^ 62) :
    activation.Mirrors low high (store.setCell slot value)
      (memory.write (activation.slotAddress slot) value) := by
  have hwrite := @sameOutside_slot activation memory value slot (by omega)
  refine ⟨fun other hother => ?_, ?_⟩
  · by_cases he : other = slot
    · subst he
      simp [Store.setCell, Memory.read_write_same]
    · simp only [Store.setCell, he, if_false]
      rw [← h.cells other hother, slotAddress_eq_spot activation other]
      apply hwrite.read_eq <;> omega
  · exact (hwrite.mono (by omega) (by omega)).trans h.outside

end RayCompiler.Activation
