import RayCompiler.Proofs.Semantics.Operands

namespace RayCompiler.Machine

open RayCompiler.Frame

variable {machine : Machine} {base : Word} {top : Int}

theorem steps_moving (layout : Layout) (distance : Int)
    (hstack : machine.registers .rsp = spot base top) :
    let after := machine.steps layout (moving distance)
    after.memory = machine.memory ∧ after.registers .rsp = spot base (top + distance) ∧
      ∀ register, register ≠ .rsp → after.registers register = machine.registers register := by
  rcases moving_forms distance with ⟨rfl, he⟩ | ⟨bytes, rfl, he⟩ | ⟨bytes, rfl, he⟩ <;> rw [he]
  · simp [hstack]
  · refine ⟨rfl, ?_, fun register hne => set_other _ _ hne⟩
    rw [steps_cons, steps_nil, step, set_same, hstack, spot_sub_ofNat, Int.sub_eq_add_neg]
  · refine ⟨rfl, ?_, fun register hne => set_other _ _ hne⟩
    rw [steps_cons, steps_nil, step, set_same, hstack, spot_add_ofNat]

end RayCompiler.Machine

namespace RayCompiler.Activation

open RayCompiler.Frame

variable {activation : Activation} {low high : Int} {store : Store} {memory later : Memory}
  {machine : Machine}

-- Changes below the slots and inside the range keep the cells.
theorem Mirrors.below (h : activation.Mirrors low high store memory) {first last : Int}
    (hlater : Memory.SameOutside activation.base first last later memory) (hlow : low ≤ first)
    (hhigh : last ≤ high) (hslots : last ≤ -(8 * activation.frame.slots.length : Nat))
    (hfits : 8 * activation.frame.slots.length ≤ 2 ^ 62) :
    activation.Mirrors low high store later := by
  refine ⟨fun slot hslot => ?_, (hlater.mono hlow hhigh).trans h.outside⟩
  rw [← h.cells slot hslot, slotAddress_eq_spot]
  apply hlater.read_eq <;> omega

-- What pushing operands one after another leaves behind: they lie one below another.
structure Pushed (activation : Activation) (store : Store) (top : Int) (operands : List Operand)
    (machine after : Machine) : Prop where
  stack : after.registers .rsp = spot activation.base (top - (8 * operands.length : Nat))
  others : ∀ register, register ≠ .rax → register ≠ .rsp →
    after.registers register = machine.registers register
  memory : Memory.SameOutside activation.base (top - (8 * operands.length : Nat)) top after.memory
    machine.memory
  values : ∀ i (hi : i < operands.length),
    after.memory.read (spot activation.base (top - (8 * (i + 1) : Nat))) =
      activation.value store operands[i]

theorem Mirrors.pushed (operands : List Operand) {top : Int}
    (h : activation.Mirrors low high store machine.memory)
    (hbase : machine.registers .rbp = activation.base)
    (hstack : machine.registers .rsp = spot activation.base top)
    (hgives : ∀ operand ∈ operands, activation.frame.Gives operand)
    (hsafe : ∀ operand ∈ operands, ∀ address ∈ activation.accesses store operand,
      activation.Safe low high address)
    (hlow : low ≤ top - (8 * operands.length : Nat)) (hhigh : top ≤ high)
    (hslots : top ≤ -(8 * activation.frame.slots.length : Nat))
    (hfits : -2 ^ 62 ≤ top - (8 * operands.length : Nat)) :
    activation.Pushed store top operands machine
      (machine.steps activation.layout (pushing operands)) := by
  induction operands generalizing machine top with
  | nil =>
      refine ⟨by simpa using hstack, fun _ _ _ => rfl, .refl _ _ _ _, ?_⟩
      intro i hi
      simp at hi
  | cons operand more ih =>
      have hload := h.steps_loading hbase (hgives operand (by simp)) (hsafe operand (by simp)) .rax
      simp only [List.length_cons] at hlow hfits
      let loaded := machine.set .rax (activation.value store operand)
      let pushed := loaded.push (activation.value store operand)
      have hloaded : loaded.registers .rsp = spot activation.base top := by
        simpa [loaded] using hstack
      have hothers : ∀ register, register ≠ .rax → register ≠ .rsp →
          pushed.registers register = machine.registers register := by
        intro register hrax hrsp
        simp [pushed, loaded, hrax, hrsp]
      have hmemory : pushed.memory = machine.memory.write (spot activation.base (top - 8))
          (activation.value store operand) := Machine.push_memory _ hloaded
      have hwrite : Memory.SameOutside activation.base (top - 8) top pushed.memory machine.memory :=
        Machine.sameOutside_push _ hloaded (by omega) (by omega)
      have hmirrors : activation.Mirrors low high store pushed.memory := by
        apply h.below hwrite <;> omega
      have hmore := ih hmirrors (by rw [hothers .rbp (by decide) (by decide), hbase])
        (Machine.push_stack _ hloaded) (fun other hm => hgives other (by simp [hm]))
        (fun other hm => hsafe other (by simp [hm])) (by omega) (by omega) (by omega) (by omega)
      have hsteps : machine.steps activation.layout (pushing (operand :: more)) =
          pushed.steps activation.layout (pushing more) := by
        rw [pushing_cons, Machine.steps_append, Machine.steps_cons, hload]
        simp [Machine.step, pushed, loaded]
      have hlength : top - (8 * (operand :: more).length : Nat) =
          top - 8 - (8 * more.length : Nat) := by
        simp only [List.length_cons]
        omega
      rw [hsteps]
      refine ⟨by rw [hlength]; exact hmore.stack, ?_, ?_, ?_⟩
      · intro register hrax hrsp
        rw [hmore.others register hrax hrsp, hothers register hrax hrsp]
      · rw [hlength]
        exact (hmore.memory.mono (by omega) (by omega)).trans (hwrite.mono (by omega) (by omega))
      · intro i hi
        cases i with
        | zero =>
            have hplace : top - (8 * (0 + 1) : Nat) = top - 8 := by omega
            rw [hplace, hmore.memory.read_eq (by omega) (by omega) (by omega), hmemory]
            exact Memory.read_write_same _ _ _
        | succ i =>
            have hvalue := hmore.values i (by simpa using hi)
            have hplace : top - (8 * (i + 1 + 1) : Nat) = top - 8 - (8 * (i + 1) : Nat) := by omega
            rw [hplace, hvalue]
            rfl

-- Loads into registers of their own do not disturb one another.
theorem Mirrors.steps_loads (pairs : List (Operand × Register))
    (h : activation.Mirrors low high store machine.memory)
    (hbase : machine.registers .rbp = activation.base) (hnodup : (pairs.map (·.2)).Nodup)
    (hrbp : .rbp ∉ pairs.map (·.2)) (hgives : ∀ pair ∈ pairs, activation.frame.Gives pair.1)
    (hsafe : ∀ pair ∈ pairs, ∀ address ∈ activation.accesses store pair.1,
      activation.Safe low high address) :
    let after := machine.steps activation.layout (loadingAll pairs)
    after.memory = machine.memory ∧
      (∀ register, register ∉ pairs.map (·.2) →
        after.registers register = machine.registers register) ∧
      ∀ pair ∈ pairs, after.registers pair.2 = activation.value store pair.1 := by
  induction pairs generalizing machine with
  | nil => simp
  | cons pair more ih =>
      have hload := h.steps_loading hbase (hgives pair (by simp)) (hsafe pair (by simp)) pair.2
      simp only [List.map_cons, List.nodup_cons, List.mem_cons, not_or] at hnodup hrbp
      have hkept : (machine.set pair.2 (activation.value store pair.1)).registers .rbp =
          activation.base := by
        rw [Machine.set_other _ _ hrbp.1, hbase]
      obtain ⟨hmemory, hothers, hvalues⟩ := ih (by simpa using h) hkept hnodup.2 hrbp.2
        (fun other hm => hgives other (by simp [hm])) (fun other hm => hsafe other (by simp [hm]))
      simp only [loadingAll_cons, Machine.steps_append, hload]
      refine ⟨by simpa using hmemory, ?_, ?_⟩
      · intro register hm
        simp only [List.map_cons, List.mem_cons, not_or] at hm
        rw [hothers register hm.2, Machine.set_other _ _ hm.1]
      · intro other hm
        rcases List.mem_cons.mp hm with rfl | hm
        · rw [hothers _ hnodup.1, Machine.set_same]
        · exact hvalues other hm

end RayCompiler.Activation

namespace RayCompiler.Frame

theorem isPlain_of_mem_loading {register : Register} {operand : Operand} {instruction : Instruction}
    (h : instruction ∈ loading register operand) : instruction.isPlain := by
  cases operand <;> simp only [loading, List.mem_cons, List.not_mem_nil, or_false] at h
  case pointee =>
    rcases h with rfl | rfl <;> rfl
  all_goals subst h; rfl

theorem isPlain_of_mem_moving {distance : Int} {instruction : Instruction}
    (h : instruction ∈ moving distance) : instruction.isPlain := by
  rcases moving_forms distance with ⟨_, he⟩ | ⟨_, _, he⟩ | ⟨_, _, he⟩ <;> rw [he] at h
  · cases h
  · rw [List.mem_singleton.mp h]
    rfl
  · rw [List.mem_singleton.mp h]
    rfl

theorem isPlain_of_mem_passing {arguments : List Operand} {instruction : Instruction}
    (h : instruction ∈ passing arguments) : instruction.isPlain := by
  simp only [passing, pushing, loadingAll, List.mem_append, List.mem_flatMap] at h
  rcases h with ((h | ⟨_, _, h | h⟩) | ⟨_, _, h⟩) | h
  · exact isPlain_of_mem_moving (reserving_eq_moving _ ▸ h)
  · exact isPlain_of_mem_loading h
  · rw [List.mem_singleton.mp h]
    rfl
  · exact isPlain_of_mem_loading h
  · rw [List.mem_singleton.mp h]
    rfl

theorem length_stacked (arguments : List Operand) :
    (stacked arguments).length = arguments.length - 6 := by
  simp [stacked, Register.arguments]

-- The bytes of the stack that the arguments of a call take.
def stackedBytes (arguments : List Operand) : Nat :=
  ((stacked arguments).length + padding arguments) * SlotTable.slotSize

end RayCompiler.Frame

namespace RayCompiler.Activation

open RayCompiler.Frame

variable {activation : Activation} {low high : Int} {store : Store} {machine : Machine}

-- What the code before a call leaves behind, the stack pointer being so many bytes below the frame
-- pointer before it: every argument is where the called function looks for it.
structure Passed (activation : Activation) (store : Store) (size : Nat) (arguments : List Operand)
    (machine after : Machine) : Prop where
  base : after.registers .rbp = activation.base
  stack : after.registers .rsp = spot activation.base (-(size + stackedBytes arguments : Nat))
  accumulator : after.registers .rax = 0
  memory : Memory.SameOutside activation.base (-(size + stackedBytes arguments : Nat))
    (-(size + 8 * padding arguments : Nat)) after.memory machine.memory
  values : ∀ returnAddress i (hi : i < arguments.length),
    (after.push returnAddress).argument i = activation.value store arguments[i]

-- The stack grows downwards, so the last argument is pushed first.
theorem Pushed.value_stacked {arguments : List Operand} {top : Int} {after : Machine}
    (h : activation.Pushed store top (stacked arguments).reverse machine after) {i : Nat}
    (hi : i < arguments.length) (hsix : 6 ≤ i) :
    after.memory.read (spot activation.base (top - (8 * (arguments.length - i) : Nat))) =
      activation.value store arguments[i] := by
  have hcount := length_stacked arguments
  have hindex : arguments.length - 1 - i < (stacked arguments).reverse.length := by
    rw [List.length_reverse]
    omega
  have hargument : (stacked arguments).reverse[arguments.length - 1 - i] = arguments[i] := by
    rw [List.getElem_reverse]
    simp only [stacked, Register.arguments, List.getElem_drop]
    congr 1
    simp
    omega
  have hvalue := h.values (arguments.length - 1 - i) hindex
  rw [hargument] at hvalue
  rw [← hvalue]
  congr 2
  omega

theorem map_snd_zip_arguments (arguments : List Operand) :
    ((arguments.zip Register.arguments).map (·.2)).Sublist Register.arguments := by
  rw [List.zip_eq_zip_take_min, List.map_snd_zip (by simp)]
  exact List.take_sublist _ _

theorem Mirrors.passed (h : activation.Mirrors low high store machine.memory)
    (hbase : machine.registers .rbp = activation.base) {size : Nat}
    (hstack : machine.registers .rsp = spot activation.base (-(size : Nat)))
    {arguments : List Operand} (hgives : ∀ operand ∈ arguments, activation.frame.Gives operand)
    (hsafe : ∀ operand ∈ arguments, ∀ address ∈ activation.accesses store operand,
      activation.Safe low high address)
    (hlow : low ≤ -(size + stackedBytes arguments : Nat))
    (hhigh : -(size + 8 * padding arguments : Nat) ≤ high)
    (hslots : 8 * activation.frame.slots.length ≤ size)
    (hfits : size + stackedBytes arguments + 8 ≤ 2 ^ 62) :
    activation.Passed store size arguments machine
      (machine.steps activation.layout (passing arguments)) := by
  have hbytes : stackedBytes arguments =
      8 * (stacked arguments).length + 8 * padding arguments := by
    rw [stackedBytes, SlotTable.slotSize]
    omega
  obtain ⟨hmemory₀, hstack₀, hothers₀⟩ := Machine.steps_moving activation.layout
    (-(padding arguments * SlotTable.slotSize : Nat)) hstack
  have hpadding : -((size : Nat) : Int) + -((padding arguments * SlotTable.slotSize : Nat) : Int) =
      -(size + 8 * padding arguments : Nat) := by
    rw [SlotTable.slotSize]
    omega
  rw [hpadding, ← reserving_eq_moving] at hstack₀
  rw [← reserving_eq_moving] at hmemory₀ hothers₀
  generalize hmiddle₀ : machine.steps activation.layout
    (reserving (padding arguments * SlotTable.slotSize)) = middle₀ at *
  have hbase₀ : middle₀.registers .rbp = activation.base := by
    rw [hothers₀ .rbp (by decide), hbase]
  have hpushed := Mirrors.pushed (stacked arguments).reverse (hmemory₀ ▸ h) hbase₀ hstack₀
    (fun operand hm => hgives operand (List.mem_of_mem_drop (List.mem_reverse.mp hm)))
    (fun operand hm => hsafe operand (List.mem_of_mem_drop (List.mem_reverse.mp hm)))
    (by rw [List.length_reverse]; omega) hhigh (by omega) (by rw [List.length_reverse]; omega)
  generalize hmiddle₁ : middle₀.steps activation.layout (pushing (stacked arguments).reverse) =
    middle₁ at *
  have htop : -((size + 8 * padding arguments : Nat) : Int) -
      (8 * (stacked arguments).reverse.length : Nat) = -(size + stackedBytes arguments : Nat) := by
    rw [List.length_reverse]
    omega
  have hmemory₁ := hpushed.memory
  rw [htop, hmemory₀] at hmemory₁
  have hmirrors₁ : activation.Mirrors low high store middle₁.memory := by
    apply h.below hmemory₁ <;> omega
  have hbase₁ : middle₁.registers .rbp = activation.base := by
    rw [hpushed.others .rbp (by decide) (by decide), hbase₀]
  have htaken := map_snd_zip_arguments arguments
  obtain ⟨hmemory₂, hothers₂, hvalues₂⟩ := hmirrors₁.steps_loads (arguments.zip Register.arguments)
    hbase₁ (htaken.nodup (by decide)) (fun hm => absurd (htaken.subset hm) (by decide))
    (fun pair hm => hgives pair.1 (List.of_mem_zip hm).1)
    (fun pair hm => hsafe pair.1 (List.of_mem_zip hm).1)
  have hafter : machine.steps activation.layout (passing arguments) = (middle₁.steps
      activation.layout (loadingAll (arguments.zip Register.arguments))).set .rax 0 := by
    rw [passing, Machine.steps_append, Machine.steps_append, Machine.steps_append, hmiddle₀, hmiddle₁]
    rfl
  generalize middle₁.steps activation.layout (loadingAll (arguments.zip Register.arguments)) =
    middle₂ at *
  rw [hafter]
  have hstack₂ : (middle₂.set .rax 0).registers .rsp =
      spot activation.base (-(size + stackedBytes arguments : Nat)) := by
    rw [Machine.set_other _ _ (by decide),
      hothers₂ .rsp (fun hm => absurd (htaken.subset hm) (by decide)), hpushed.stack, htop]
  refine ⟨?_, hstack₂, by simp, by simpa [hmemory₂] using hmemory₁, ?_⟩
  · rw [Machine.set_other _ _ (by decide),
      hothers₂ .rbp (fun hm => absurd (htaken.subset hm) (by decide)), hbase₁]
  · intro returnAddress i hi
    by_cases hsix : i < 6
    · obtain ⟨register, hregister⟩ : ∃ register, Register.arguments[i]? = some register :=
        ⟨_, List.getElem?_eq_getElem (show i < Register.arguments.length from hsix)⟩
      have hpair : (arguments[i], register) ∈ arguments.zip Register.arguments := by
        obtain ⟨hlt, rfl⟩ := List.getElem?_eq_some_iff.mp hregister
        refine List.mem_iff_getElem.mpr ⟨i, by simpa using ⟨hi, hlt⟩, by simp⟩
      have hrax : register ≠ .rax := Machine.argument_register_ne hregister (by decide)
      have hrsp : register ≠ .rsp := Machine.argument_register_ne hregister (by decide)
      rw [Machine.argument_of_register hregister, Machine.push_other _ hrsp,
        Machine.set_other _ _ hrax, hvalues₂ _ hpair]
    · have hcount := length_stacked arguments
      have hspot : -((size + stackedBytes arguments : Nat) : Int) + (8 * (i - 6) : Nat) =
          -((size + 8 * padding arguments : Nat) : Int) - (8 * (arguments.length - i) : Nat) := by
        omega
      rw [Machine.argument_push_of_stack _ hstack₂ (by omega) (by omega) (by omega), hspot,
        Machine.set_memory, hmemory₂, hpushed.value_stacked hi (by omega)]

end RayCompiler.Activation
