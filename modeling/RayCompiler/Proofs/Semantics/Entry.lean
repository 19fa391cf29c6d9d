import RayCompiler.Proofs.Semantics.Arguments

namespace RayCompiler.Machine

open RayCompiler.Frame

variable {layout : Layout} {machine : Machine} {base : Word}

-- Receiving a parameter puts it into its slot, wherever the caller left it.
theorem steps_receiving (layout : Layout) (index : Nat) (value : Word)
    (hbase : machine.registers .rbp = base)
    (hregister : ∀ register, Register.arguments[index]? = some register →
      machine.registers register = value)
    (hstack : 6 ≤ index → machine.memory.read (spot base (16 + 8 * (index - 6) : Nat)) = value) :
    (machine.steps layout (receiving index)).memory =
        machine.memory.write (spot base (-(8 * (index + 1) : Nat))) value ∧
      ∀ register, register ≠ .rax →
        (machine.steps layout (receiving index)).registers register = machine.registers register := by
  have hslot : base - .ofNat 64 ((index + 1) * SlotTable.slotSize) =
      spot base (-(8 * (index + 1) : Nat)) := by
    rw [SlotTable.slotSize, Nat.mul_comm, sub_ofNat_eq_spot]
  unfold receiving
  cases hfound : Register.arguments[index]? with
  | some register =>
      simp only [steps_cons, steps_nil, step, slotPlace, address, hbase, hslot]
      exact ⟨by rw [put_memory, hregister register hfound], fun _ _ => rfl⟩
  | none =>
      have hsix : 6 ≤ index := List.getElem?_eq_none_iff.mp hfound
      have hparameter : base + .ofNat 64 (stackParameter index) =
          spot base (16 + 8 * (index - 6) : Nat) := by
        have hbytes : stackParameter index = 16 + 8 * (index - 6) := by
          simp only [stackParameter, SlotTable.slotSize, Register.arguments, List.length_cons,
            List.length_nil]
          omega
        rw [hbytes, add_ofNat_eq_spot]
      simp only [steps_cons, steps_nil, step, slotPlace, address, hbase, hparameter, hstack hsix]
      refine ⟨?_, fun register hrax => by simp [hrax]⟩
      rw [put_memory, set_same, set_other _ _ (by decide), hbase, hslot, set_memory]

-- After so many parameters the slots of these hold the arguments, and all else is as it was.
theorem steps_receivingAll (layout : Layout) (count : Nat) (arguments : Nat → Word)
    (hbase : machine.registers .rbp = base)
    (hregister : ∀ index register, Register.arguments[index]? = some register →
      machine.registers register = arguments index)
    (hstack : ∀ index, index < count → 6 ≤ index →
      machine.memory.read (spot base (16 + 8 * (index - 6) : Nat)) = arguments index)
    (hfits : 8 * count + 16 ≤ 2 ^ 62) :
    let after := machine.steps layout ((List.range count).flatMap receiving)
    (∀ register, register ≠ .rax → after.registers register = machine.registers register) ∧
      Memory.SameOutside base (-(8 * count : Nat)) 0 after.memory machine.memory ∧
      ∀ index < count,
        after.memory.read (spot base (-(8 * (index + 1) : Nat))) = arguments index := by
  induction count with
  | zero => exact ⟨fun _ _ => rfl, .refl _ _ _ _, by simp⟩
  | succ count ih =>
      obtain ⟨hothers, hmemory, hvalues⟩ := ih (fun index hlt => hstack index (by omega)) (by omega)
      simp only [List.range_succ, List.flatMap_append, steps_append]
      generalize machine.steps layout ((List.range count).flatMap receiving) = middle at *
      obtain ⟨hwritten, hothers'⟩ := steps_receiving layout count (arguments count)
        (by rw [hothers .rbp (by decide), hbase])
        (fun register hfound => by
          have hrax : register ≠ .rax := argument_register_ne hfound (by decide)
          rw [hothers register hrax, hregister count register hfound])
        (fun hsix => by
          rw [hmemory.read_eq (by omega) (by omega) (by omega)]
          exact hstack count (by omega) hsix)
      have hwrite : Memory.SameOutside base (-(8 * (count + 1) : Nat)) (-(8 * (count + 1) : Nat) + 8)
          (middle.steps layout (receiving count)).memory middle.memory := by
        rw [hwritten]
        apply Memory.sameOutside_write <;> omega
      simp only [List.flatMap_cons, List.flatMap_nil, List.append_nil]
      refine ⟨?_, ?_, ?_⟩
      · intro register hrax
        rw [hothers' register hrax, hothers register hrax]
      · exact (hwrite.mono (by omega) (by omega)).trans (hmemory.mono (by omega) (by omega))
      · intro index hlt
        by_cases he : index = count
        · subst he
          rw [hwritten]
          exact Memory.read_write_same _ _ _
        · rw [hwrite.read_eq (by omega) (by omega) (by omega)]
          exact hvalues index (by omega)

-- What the code at the beginning of a function leaves behind, the frame pointer of the function
-- being the given one: the arguments in their slots, and the frame pointer of the caller kept.
structure Entered (slots : SlotTable) (base : Word) (machine after : Machine) : Prop where
  pointer : after.registers .rbp = base
  stack : after.registers .rsp = spot base (-(slots.frameSize : Nat))
  memory : Memory.SameOutside base (-(8 * slots.parameters.length : Nat)) 8 after.memory
    machine.memory
  saved : after.memory.read base = machine.registers .rbp
  parameters : ∀ index < slots.parameters.length,
    after.memory.read (spot base (-(8 * (index + 1) : Nat))) = machine.argument index

theorem entered (layout : Layout) (slots : SlotTable)
    (hstack : machine.registers .rsp = spot base 8)
    (hfits : 8 * slots.parameters.length + 24 ≤ 2 ^ 62) :
    machine.Entered slots base (machine.steps layout (entering slots)) := by
  let pushed := machine.push (machine.registers .rbp)
  let based := pushed.set .rbp (pushed.registers .rsp)
  have hpushed := push_stack (machine.registers .rbp) hstack
  have hwritten := push_memory (machine.registers .rbp) hstack
  rw [show (8 : Int) - 8 = 0 by omega] at hpushed hwritten
  have hwrite : Memory.SameOutside base (8 - 8) 8 pushed.memory machine.memory :=
    sameOutside_push _ hstack (by omega) (by omega)
  have hbased : based.registers .rsp = spot base 0 := by
    rw [set_other _ _ (by decide), hpushed]
  obtain ⟨hmemory, hreserved, hothers⟩ := steps_moving layout (-(slots.frameSize : Nat)) hbased
  rw [← reserving_eq_moving] at hmemory hreserved hothers
  have hsteps : machine.steps layout (entering slots) =
      (based.steps layout (reserving slots.frameSize)).steps layout
        ((List.range slots.parameters.length).flatMap receiving) := by
    rw [entering, List.append_assoc, steps_append, steps_append]
    rfl
  generalize based.steps layout (reserving slots.frameSize) = framed at *
  have hpointer : framed.registers .rbp = base := by
    rw [hothers .rbp (by decide), set_same, hpushed, spot_zero]
  have hothers' : ∀ register, register ≠ .rsp → register ≠ .rbp →
      framed.registers register = machine.registers register := by
    intro register hrsp hrbp
    rw [hothers register hrsp, set_other _ _ hrbp, push_other _ hrsp]
  have hregister : ∀ index register, Register.arguments[index]? = some register →
      framed.registers register = machine.argument index := by
    intro index register hfound
    have hrsp : register ≠ .rsp := argument_register_ne hfound (by decide)
    have hrbp : register ≠ .rbp := argument_register_ne hfound (by decide)
    rw [argument_of_register hfound, hothers' register hrsp hrbp]
  have hparameter : ∀ index, index < slots.parameters.length → 6 ≤ index →
      framed.memory.read (spot base (16 + 8 * (index - 6) : Nat)) = machine.argument index := by
    intro index hlt hsix
    have hplace : (8 : Int) + (8 + 8 * (index - 6) : Nat) = (16 + 8 * (index - 6) : Nat) := by omega
    rw [argument_of_stack hsix, hstack, spot_add_ofNat, hplace, hmemory]
    apply hwrite.read_eq <;> omega
  obtain ⟨hkept, hcopied, hvalues⟩ := steps_receivingAll layout slots.parameters.length
    machine.argument hpointer hregister hparameter (by omega)
  rw [hsteps]
  rw [hmemory, set_memory] at hcopied
  refine ⟨?_, ?_, ?_, ?_, hvalues⟩
  · rw [hkept .rbp (by decide), hpointer]
  · rw [hkept .rsp (by decide), hreserved]
    congr 1
    omega
  · exact (hcopied.mono (by omega) (by omega)).trans (hwrite.mono (by omega) (by omega))
  · have hsaved := hcopied.read_eq (.inr (Int.le_refl 0)) (by omega) (by omega)
    rw [spot_zero] at hsaved
    rw [hsaved, hwritten, spot_zero]
    exact Memory.read_write_same _ _ _

end RayCompiler.Machine

namespace RayCompiler.Frame

theorem isPlain_of_mem_entering {slots : SlotTable} {instruction : Instruction}
    (h : instruction ∈ entering slots) : instruction.isPlain := by
  simp only [entering, List.mem_append, List.mem_flatMap] at h
  rcases h with (h | h) | ⟨index, _, h⟩
  · simp only [List.mem_cons, List.not_mem_nil, or_false] at h
    rcases h with rfl | rfl <;> rfl
  · exact isPlain_of_mem_moving (reserving_eq_moving _ ▸ h)
  · unfold receiving at h
    split at h
    · rw [List.mem_singleton.mp h]
      rfl
    · simp only [List.mem_cons, List.not_mem_nil, or_false] at h
      rcases h with rfl | rfl <;> rfl

end RayCompiler.Frame
