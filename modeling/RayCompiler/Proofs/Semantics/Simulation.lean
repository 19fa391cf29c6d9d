import RayCompiler.Proofs.Semantics.Entry

namespace RayCompiler

-- What a function has to give back to its caller: the frame pointer and the place to go on from.
structure Linkage where
  pointer : Word
  address : Word

-- The reply leaves the bytes alone that lie at certain distances from a base.
def Reply.Spares (reply : Reply) (base : Word) (low high : Int) : Prop :=
  ∀ address, low ≤ offset base address → offset base address < high → reply.bytes address = none

theorem Reply.Spares.read_patch {reply : Reply} {base : Word} {low high distance : Int}
    (h : reply.Spares base low high) (memory : Memory) (hlow : low ≤ distance)
    (hhigh : distance + 8 ≤ high) (hmin : -2 ^ 62 ≤ distance) (hmax : distance ≤ 2 ^ 62) :
    (reply.patch memory).read (spot base distance) = memory.read (spot base distance) := by
  apply Memory.read_congr
  intro i hi
  have hoffset := @offset_spot base (distance + (i : Nat)) (by omega) (by omega)
  unfold Memory.byte
  rw [spot_add_ofNat, patch, h _ (by omega) (by omega)]
  rfl

namespace Activation

open RayCompiler.Frame

-- What a function meets while it runs. It takes so many bytes below its frame pointer, and the
-- functions that it calls spare its frame, the saved frame pointer and the return address.
structure Hosts (activation : Activation) (reach : Nat) (world : World) : Prop where
  layout : world.layout = activation.layout
  frame : activation.frame.slots.frameSize ≤ reach
  fits : reach ≤ 2 ^ 61
  spares : ∀ history, (world.oracle history).Spares activation.base
    (-(activation.frame.slots.frameSize : Nat)) 16

-- The memory holds the cells, and above them what goes back to the caller.
structure Keeps (activation : Activation) (reach : Nat) (linkage : Linkage) (store : Store)
    (memory : Memory) : Prop where
  mirrors : activation.Mirrors (-(reach : Nat)) 8 store memory
  saved : memory.read activation.base = linkage.pointer
  back : memory.read (spot activation.base 8) = linkage.address

-- Between two statements the machine is in the middle of the frame and nothing is pushed.
structure Tracks (activation : Activation) (reach : Nat) (linkage : Linkage) (store : Store)
    (machine : Machine) : Prop where
  base : machine.registers .rbp = activation.base
  stack : machine.registers .rsp =
    spot activation.base (-(activation.frame.slots.frameSize : Nat))
  keeps : activation.Keeps reach linkage store machine.memory

variable {activation : Activation} {low high : Int} {reach : Nat} {world : World} {linkage : Linkage}
  {store : Store} {memory later : Memory} {machine : Machine}

theorem Keeps.of_eq {other : Store} (h : activation.Keeps reach linkage store memory)
    (hcells : other.cells = store.cells) (hmemory : other.memory = store.memory) :
    activation.Keeps reach linkage other memory :=
  ⟨⟨hcells ▸ h.mirrors.cells, hmemory ▸ h.mirrors.outside⟩, h.saved, h.back⟩

-- Changes below the frame pointer leave the saved words as they are.
theorem Keeps.of_mirrors {other : Store} (h : activation.Keeps reach linkage store memory)
    (hmirrors : activation.Mirrors (-(reach : Nat)) 8 other later) {first last : Int}
    (hlater : Memory.SameOutside activation.base first last later memory) (hlast : last ≤ 0) :
    activation.Keeps reach linkage other later := by
  have hread : ∀ distance : Int, 0 ≤ distance → distance ≤ 8 →
      later.read (spot activation.base distance) = memory.read (spot activation.base distance) := by
    intro distance hlow hhigh
    apply hlater.read_eq <;> omega
  refine ⟨hmirrors, ?_, ?_⟩
  · rw [← h.saved]
    simpa using hread 0 (by omega) (by omega)
  · rw [← h.back]
    exact hread 8 (by omega) (by omega)

theorem Keeps.below (hosts : activation.Hosts reach world)
    (h : activation.Keeps reach linkage store memory) {first last : Int}
    (hlater : Memory.SameOutside activation.base first last later memory)
    (hfirst : -(reach : Nat) ≤ first)
    (hlast : last ≤ -(activation.frame.slots.frameSize : Nat)) :
    activation.Keeps reach linkage store later := by
  have hslots := activation.frame.slots.length_le_frameSize
  have hframe := hosts.frame
  have hfits := hosts.fits
  refine h.of_mirrors ?_ hlater (by omega)
  apply h.mirrors.below hlater <;> omega

theorem Keeps.setCell (hosts : activation.Hosts reach world)
    (h : activation.Keeps reach linkage store memory) {slot : Nat}
    (hslot : slot < activation.frame.slots.length) (value : Word) :
    activation.Keeps reach linkage (store.setCell slot value)
      (memory.write (activation.slotAddress slot) value) := by
  have hslots := activation.frame.slots.length_le_frameSize
  have hframe := hosts.frame
  have hfits := hosts.fits
  refine h.of_mirrors ?_ (sameOutside_slot activation memory value (by omega)) (by omega)
  apply h.mirrors.setCell <;> omega

-- A called function changes the memory around the cells in the same way on both sides.
theorem Keeps.patch (hosts : activation.Hosts reach world)
    (h : activation.Keeps reach linkage store memory) (history : List CallEvent) :
    activation.Keeps reach linkage
      { store with memory := (world.oracle history).patch store.memory }
      ((world.oracle history).patch memory) := by
  have hslots := activation.frame.slots.length_le_frameSize
  have hframe := hosts.frame
  have hfits := hosts.fits
  have hspares := hosts.spares history
  refine ⟨⟨?_, ?_⟩, ?_, ?_⟩
  · intro slot hslot
    rw [← h.mirrors.cells slot hslot, slotAddress_eq_spot]
    apply hspares.read_patch <;> omega
  · intro address hout
    simp only [Reply.patch, h.mirrors.outside address hout]
  · have hsaved := @Reply.Spares.read_patch _ _ _ _ 0 hspares memory (by omega) (by omega) (by omega)
      (by omega)
    rw [spot_zero] at hsaved
    rw [hsaved, h.saved]
  · rw [hspares.read_patch memory (by omega) (by omega) (by omega) (by omega), h.back]

theorem Tracks.reading (h : activation.Tracks reach linkage store machine)
    (operands : List Operand) :
    activation.Tracks reach linkage (activation.reading store operands) machine :=
  ⟨h.base, h.stack, h.keeps.of_eq rfl rfl⟩

theorem Tracks.set (h : activation.Tracks reach linkage store machine) {register : Register}
    (hrbp : .rbp ≠ register) (hrsp : .rsp ≠ register) (value : Word) :
    activation.Tracks reach linkage store (machine.set register value) :=
  ⟨by rw [Machine.set_other _ _ hrbp, h.base], by rw [Machine.set_other _ _ hrsp, h.stack], h.keeps⟩

theorem Tracks.put (hosts : activation.Hosts reach world)
    (h : activation.Tracks reach linkage store machine) {slot : Nat}
    (hslot : slot < activation.frame.slots.length) (value : Word) :
    activation.Tracks reach linkage (store.setCell slot value)
      (machine.put (activation.slotAddress slot) value) :=
  ⟨h.base, h.stack, h.keeps.setCell hosts hslot value⟩

-- The operand of a statement is loaded and put into a cell.
theorem Tracks.steps_storing (hosts : activation.Hosts reach world)
    (h : activation.Tracks reach linkage store machine) {slot : Nat} {operand : Operand}
    (hslot : slot < activation.frame.slots.length) (hgives : activation.frame.Gives operand)
    (hsafe : ∀ address ∈ activation.accesses store operand,
      activation.Safe (-(reach : Nat)) 8 address) :
    activation.Tracks reach linkage
      ((activation.reading store [operand]).setCell slot (activation.value store operand))
      (machine.steps activation.layout (loading .rax operand ++ [.store (slotPlace slot) .rax])) := by
  have hloaded : activation.Tracks reach linkage (activation.reading store [operand])
      (machine.set .rax (activation.value store operand)) :=
    (h.reading [operand]).set (by decide) (by decide) _
  have hput := hloaded.put hosts hslot (activation.value store operand)
  rw [Machine.steps_append, h.keeps.mirrors.steps_loading h.base hgives hsafe, Machine.steps_cons,
    Machine.steps_nil, Machine.step, address_slotPlace hloaded.base, Machine.set_same]
  exact hput

theorem Tracks.steps_clearing (hosts : activation.Hosts reach world) (names : List String)
    (h : activation.Tracks reach linkage store machine)
    (hnames : ∀ name ∈ names, (activation.frame.slots.resolve? name).isSome) :
    activation.Tracks reach linkage
      (names.foldl (fun later name => later.setCell (activation.frame.variableCell name) 0) store)
      (machine.steps activation.layout
        (names.map fun name => .clear (slotPlace (activation.frame.variableCell name)))) := by
  induction names generalizing store machine with
  | nil => exact h
  | cons name more ih =>
      have hcell := variableCell_lt (hnames name (by simp))
      have hput := h.put hosts hcell 0
      rw [List.map_cons, Machine.steps_cons, Machine.step, address_slotPlace h.base]
      exact ih hput fun other hm => hnames other (by simp [hm])

theorem targetOf_target (h : activation.Mirrors low high store machine.memory)
    (hbase : machine.registers .rbp = activation.base) {name : String}
    (hcallable : name ∈ activation.frame.symbols ∨ (activation.frame.slots.resolve? name).isSome) :
    machine.targetOf activation.layout (activation.frame.target name) =
      activation.callee store name := by
  unfold target callee
  by_cases hsymbol : activation.frame.symbols.contains name = true
  · simp only [hsymbol, if_true]
    rfl
  · have hvariable : (activation.frame.slots.resolve? name).isSome := by
      refine hcallable.resolve_left fun hm => hsymbol ?_
      simpa using hm
    simp only [hsymbol]
    rw [if_neg (by decide), if_neg (by decide), Machine.targetOf, address_slotPlace hbase,
      h.cells _ (variableCell_lt hvariable)]

-- The machine when a called function has returned: the arguments are still pushed.
structure Resumed (activation : Activation) (reach : Nat) (linkage : Linkage) (store : Store)
    (bytes : Nat) (result : Word) (machine : Machine) : Prop where
  base : machine.registers .rbp = activation.base
  stack : machine.registers .rsp =
    spot activation.base (-(activation.frame.slots.frameSize + bytes : Nat))
  accumulator : machine.registers .rax = result
  keeps : activation.Keeps reach linkage store machine.memory

theorem Tracks.resumed (hosts : activation.Hosts reach world)
    (h : activation.Tracks reach linkage store machine) {call : Call}
    (hcalls : activation.frame.Calls store.history.length call)
    (harity : world.arities[store.history.length]? = some call.arguments.length)
    (hroom : activation.frame.slots.frameSize + stackedBytes call.arguments + 8 ≤ reach)
    (hsafe : ∀ operand ∈ call.arguments, ∀ address ∈ activation.accesses store operand,
      activation.Safe (-(reach : Nat)) 8 address) :
    ∃ after, activation.Resumed reach linkage (activation.answered world.oracle store call)
        (stackedBytes call.arguments)
        (world.oracle (store.history ++ [activation.event store call])).result after ∧
      ∀ rest, world.run (passing call.arguments ++ .call (activation.frame.target call.callee) :: rest)
          store.history machine =
        world.run rest (store.history ++ [activation.event store call]) after := by
  have hslots := activation.frame.slots.length_le_frameSize
  have hframe := hosts.frame
  have hfits := hosts.fits
  have hpassed := h.keeps.mirrors.passed h.base h.stack hcalls.gives hsafe (by omega) (by omega)
    hslots (by omega)
  have hplain := fun rest => world.run_plain rest store.history machine
    (fun _ hm => isPlain_of_mem_passing hm : ∀ instruction ∈ passing call.arguments, _)
  rw [hosts.layout] at hplain
  generalize machine.steps activation.layout (passing call.arguments) = calling at *
  have hkeeps := h.keeps.below hosts hpassed.memory (by omega) (by omega)
  have hwrite := Machine.sameOutside_push (world.returnAddress store.history) hpassed.stack (by omega)
    (by omega)
  have hkeeps' := hkeeps.below hosts hwrite (by omega) (by omega)
  have hstack := Machine.push_stack (world.returnAddress store.history) hpassed.stack
  have hpointer : (calling.push (world.returnAddress store.history)).registers .rbp =
      activation.base := by
    rw [Machine.push_other _ (by decide), hpassed.base]
  have hvalues := hpassed.values (world.returnAddress store.history)
  generalize hentered : calling.push (world.returnAddress store.history) = entered at *
  generalize hsize : activation.frame.slots.frameSize + stackedBytes call.arguments = size at *
  have hevent : (⟨calling.targetOf world.layout (activation.frame.target call.callee),
      (List.range (world.arities.getD store.history.length 0)).map entered.argument⟩ : CallEvent) =
        activation.event store call := by
    have harguments : (List.range call.arguments.length).map entered.argument =
        call.arguments.map (activation.value store) := by
      apply List.ext_getElem
      · simp
      · intro i hi hi'
        simpa using hvalues i (by simpa using hi)
    rw [hosts.layout, targetOf_target hkeeps.mirrors hpassed.base hcalls.callable,
      List.getD_eq_getElem?_getD, harity, Option.getD_some, harguments, event]
  refine ⟨entered.resume (world.oracle (store.history ++ [activation.event store call])), ?_, ?_⟩
  · refine ⟨hpointer, ?_, rfl, ?_⟩
    · rw [hsize, Machine.resume, hstack]
      refine (spot_add_ofNat _ _ 8).trans ?_
      congr 1
      omega
    · exact (hkeeps'.patch hosts _).of_eq rfl rfl
  · intro rest
    rw [hplain, World.run, hentered, hevent]

theorem Resumed.collected (hosts : activation.Hosts reach world) {arguments : List Operand}
    {result : Word}
    (h : activation.Resumed reach linkage store (stackedBytes arguments) result machine)
    {number : Nat} (hresult : (activation.frame.slots.resultOf? number).isSome)
    {output : Option Slot} (houtput : ∀ slot, output = some slot → slot < activation.frame.slots.length) :
    activation.Tracks reach linkage (activation.collected number store result output)
      (machine.steps activation.layout (activation.frame.collecting number arguments output)) := by
  obtain ⟨hmemory, hstack, hothers⟩ := Machine.steps_moving activation.layout
    (stackedBytes arguments) h.stack
  rw [← releasing_eq_moving] at hmemory hstack hothers
  unfold collecting
  rw [← stackedBytes, List.append_assoc, Machine.steps_append]
  generalize machine.steps activation.layout (releasing (stackedBytes arguments)) = released at *
  have hrax : released.registers .rax = result := by
    rw [hothers .rax (by decide), h.accumulator]
  have htracks : activation.Tracks reach linkage store released := by
    refine ⟨by rw [hothers .rbp (by decide), h.base], ?_, hmemory ▸ h.keeps⟩
    rw [hstack]
    congr 1
    omega
  have hkept := htracks.put hosts (resultCell_lt hresult) result
  cases output with
  | none =>
      simp only [List.append_nil, Machine.steps_cons, Machine.steps_nil, Machine.step]
      rw [address_slotPlace htracks.base, hrax]
      exact hkept
  | some slot =>
      have hput := hkept.put hosts (houtput slot rfl) result
      simp only [List.cons_append, List.nil_append, Machine.steps_cons, Machine.steps_nil, Machine.step]
      rw [address_slotPlace htracks.base, hrax, address_slotPlace hkept.base, Machine.put_registers,
        hrax]
      exact hput

end Activation

namespace Frame

theorem isPlain_of_mem_collecting {frame : Frame} {number : Nat} {arguments : List Operand}
    {output : Option Slot} {instruction : Instruction}
    (h : instruction ∈ frame.collecting number arguments output) : instruction.isPlain := by
  simp only [collecting, List.mem_append] at h
  rcases h with (h | h) | h
  · exact isPlain_of_mem_moving (releasing_eq_moving _ ▸ h)
  · rw [List.mem_singleton.mp h]
    rfl
  · split at h
    · rw [List.mem_singleton.mp h]
      rfl
    · simp at h

end Frame

namespace Activation

open RayCompiler.Frame

variable {activation : Activation} {reach : Nat} {world : World} {linkage : Linkage}
  {store : Store} {machine : Machine}

theorem Tracks.called (hosts : activation.Hosts reach world)
    (h : activation.Tracks reach linkage store machine) {call : Call}
    (hcalls : activation.frame.Calls store.history.length call)
    (harity : world.arities[store.history.length]? = some call.arguments.length)
    (hroom : activation.frame.slots.frameSize + stackedBytes call.arguments + 8 ≤ reach)
    (hsafe : ∀ operand ∈ call.arguments, ∀ address ∈ activation.accesses store operand,
      activation.Safe (-(reach : Nat)) 8 address)
    {output : Option Slot}
    (houtput : ∀ slot, output = some slot → slot < activation.frame.slots.length) :
    ∃ after, activation.Tracks reach linkage (activation.call world.oracle store call output) after ∧
      ∀ rest, world.run (activation.frame.calling store.history.length call output ++ rest)
          store.history machine =
        world.run rest (store.history ++ [activation.event store call]) after := by
  obtain ⟨middle, hresumed, hrun⟩ := h.resumed hosts hcalls harity hroom hsafe
  refine ⟨_, hresumed.collected hosts hcalls.result houtput, ?_⟩
  intro rest
  rw [calling, List.append_assoc, List.cons_append, hrun,
    world.run_plain _ _ _ fun _ hm => isPlain_of_mem_collecting hm, hosts.layout]

end Activation

end RayCompiler
