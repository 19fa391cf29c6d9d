import RayCompiler.Proofs.Operands
import RayCompiler.Proofs.Semantics.Entry

namespace RayCompiler

namespace Machine

-- The value that a machine in the middle of a function loads for an operand.
def operand (layout : Layout) (machine : Machine) : Operand → Word
  | .literal value => value.toBitVec
  | .variable slot => machine.memory.read (machine.address layout (Frame.slotPlace slot))
  | .address slot => machine.address layout (Frame.slotPlace slot)
  | .pointee slot =>
    machine.memory.read (machine.memory.read (machine.address layout (Frame.slotPlace slot)))
  | .external name => machine.memory.read (layout.symbol name)
  | .symbolAddress name => layout.symbol name
  | .data offset => layout.data + .ofNat 64 offset
  | .absent => 0

-- The addresses other than slots that are read for an operand.
def accessed (layout : Layout) (machine : Machine) : Operand → List Word
  | .pointee slot => [machine.memory.read (machine.address layout (Frame.slotPlace slot))]
  | .external name => [layout.symbol name]
  | _ => []

end Machine

namespace Activation

variable {activation : Activation} {machine : Machine}

-- The cells as the machine holds them.
def view (activation : Activation) (machine : Machine) : Store where
  cells slot := machine.memory.read (activation.slotAddress slot)
  memory := machine.memory
  history := []
  reads := []

theorem mirrors_view (activation : Activation) (machine : Machine) (low high : Int) :
    activation.Mirrors low high (activation.view machine) machine.memory :=
  ⟨fun _ _ => rfl, .refl _ _ _ _⟩

theorem peek_view (activation : Activation) (machine : Machine) (address : Word) :
    activation.peek (activation.view machine) address = machine.memory.read address := by
  unfold peek
  split
  · next slot hfind =>
      have hslot : activation.slotAddress slot = address := by
        simpa using List.find?_some hfind
      rw [← hslot]
      rfl
  · rfl

theorem value_view (hbase : machine.registers .rbp = activation.base) (operand : Operand) :
    activation.value (activation.view machine) operand =
      machine.operand activation.layout operand := by
  cases operand with
  | literal | symbolAddress | data | absent => rfl
  | «variable» slot => rw [Machine.operand, address_slotPlace hbase]; rfl
  | address slot => rw [Machine.operand, address_slotPlace hbase]; rfl
  | pointee slot =>
      rw [Machine.operand, address_slotPlace hbase]
      exact peek_view activation machine _
  | external name => exact peek_view activation machine _

theorem accesses_view (hbase : machine.registers .rbp = activation.base) (operand : Operand) :
    activation.accesses (activation.view machine) operand =
      machine.accessed activation.layout operand := by
  cases operand with
  | pointee slot => rw [Machine.accessed, address_slotPlace hbase]; rfl
  | _ => rfl

end Activation

-- From the first instruction of a call statement to the end of the beginning of the called function:
-- what the two functions rely on.
structure HandsOver (layout : Layout) (slots : SlotTable) (arguments : List Operand)
    (machine calling entered : Machine) : Prop where
  accumulator : (calling.registers .rax).extractLsb' 0 8 = 0
  received : ∀ i (hi : i < arguments.length),
    entered.memory.read (entered.address layout (Frame.slotPlace i)) =
      machine.operand layout arguments[i]
  slots : ∀ slot < slots.length,
    entered.memory.read (machine.address layout (Frame.slotPlace slot)) =
      machine.memory.read (machine.address layout (Frame.slotPlace slot))
  saved : entered.memory.read (machine.registers .rbp) =
    machine.memory.read (machine.registers .rbp)
  returnAddress : entered.memory.read (machine.registers .rbp + 8#64) =
    machine.memory.read (machine.registers .rbp + 8#64)

namespace Activation

open RayCompiler.Frame

variable {activation : Activation} {machine : Machine}

theorem handsOver {arguments : List Operand} {callee : SlotTable}
    (hbase : machine.registers .rbp = activation.base)
    (hstack : machine.registers .rsp =
      spot activation.base (-(activation.frame.slots.frameSize : Nat)))
    (hgives : ∀ operand ∈ arguments, activation.frame.Gives operand)
    (hclear : ∀ operand ∈ arguments, ∀ address ∈ machine.accessed activation.layout operand,
      Clear activation.base (-(activation.frame.slots.frameSize + stackedBytes arguments : Nat))
        (-(activation.frame.slots.frameSize + 8 * padding arguments : Nat)) address)
    (hcount : callee.parameters.length = arguments.length)
    (hfits : activation.frame.slots.frameSize + stackedBytes arguments + callee.frameSize ≤ 2 ^ 61)
    (returnAddress : Word) :
    HandsOver activation.layout activation.frame.slots arguments machine
      (machine.steps activation.layout (passing arguments))
      (((machine.steps activation.layout (passing arguments)).push returnAddress).steps
        activation.layout (entering callee)) := by
  have hslots := activation.frame.slots.length_le_frameSize
  have hparameters := callee.parameters_le_length
  have hcallee := callee.length_le_frameSize
  have hbytes : 8 * padding arguments ≤ stackedBytes arguments := by
    rw [stackedBytes, SlotTable.slotSize]
    omega
  have hpassed := (activation.mirrors_view machine _ _).passed hbase hstack hgives
    (fun operand hm address hmem => .inr (hclear operand hm address
      (accesses_view hbase operand ▸ hmem))) (Int.le_refl _) (Int.le_refl _) hslots (by omega)
  generalize machine.steps activation.layout (passing arguments) = calling at *
  have hstack' := hpassed.stack
  have hmemory := hpassed.memory
  generalize hsize : activation.frame.slots.frameSize + stackedBytes arguments = size at *
  have hpushed := Machine.push_stack returnAddress hstack'
  have hargument := fun i hi => (hpassed.values returnAddress i hi).trans (value_view hbase _)
  have hwrite := Machine.sameOutside_push returnAddress hstack' (by omega) (by omega)
  generalize calling.push returnAddress = called at *
  -- The frame pointer of the called function lies below the return address.
  have hcalled : called.registers .rsp =
      spot (spot activation.base (-(size : Nat) - 16)) 8 := by
    rw [hpushed, spot_spot]
    congr 1
    omega
  have hentered := Machine.entered activation.layout callee hcalled (by omega)
  have hchanged := hentered.memory.rebase (by omega) (by omega) (by omega)
  generalize called.steps activation.layout (entering callee) = entered at *
  have hsame : Memory.SameOutside activation.base
      (-(8 * callee.parameters.length : Nat) + (-(size : Nat) - 16))
      (-(activation.frame.slots.frameSize + 8 * padding arguments : Nat)) entered.memory
      machine.memory :=
    ((hchanged.mono (by omega) (by omega)).trans (hwrite.mono (by omega) (by omega))).trans
      (hmemory.mono (by omega) (by omega))
  have hread : ∀ distance : Int, -(activation.frame.slots.frameSize : Nat) ≤ distance →
      distance ≤ 8 → entered.memory.read (spot activation.base distance) =
        machine.memory.read (spot activation.base distance) := by
    intro distance hlow hhigh
    apply hsame.read_eq <;> omega
  refine ⟨?_, ?_, ?_, ?_, ?_⟩
  · rw [hpassed.accumulator]
    rfl
  · intro i hi
    rw [← hargument i hi, ← hentered.parameters i (by omega), slotPlace, Machine.address,
      hentered.pointer, SlotTable.slotSize, Nat.mul_comm, sub_ofNat_eq_spot]
  · intro slot hslot
    rw [address_slotPlace hbase, slotAddress_eq_spot]
    apply hread <;> omega
  · rw [hbase]
    simpa using hread 0 (by omega) (by omega)
  · rw [hbase, add_ofNat_eq_spot]
    exact hread _ (by omega) (by omega)

end Activation

open Text

-- Under the remark on the statement at a position the passage has the lines of the written code, and a
-- reader takes them for the other one.
def Text.Passage.Holds (passage : Passage) (position : Position) (written read : List Instruction) :
    Prop :=
  (∃ front back, passage.lines =
    front ++ ("\t; " ++ position.render) :: Operand.linesOfCode written ++ back) ∧
  (Operand.linesOfCode written).mapM Instruction.ofText? = some read

def Text.Passage.Begins (passage : Passage) (written read : List Instruction) : Prop :=
  Operand.linesOfCode written <+: passage.lines ∧
    (Operand.linesOfCode written).mapM Instruction.ofText? = some read

namespace Function

variable {function : Function} {symbols : List String}

theorem lines_of_mem {before after : List Statement} {position : Position} {scope : String}
    {action : Action} (hbody : function.body = before ++ .action position scope action :: after) :
    ∃ front back, (function.block symbols).passage.lines = front ++ ("\t; " ++ position.render) ::
      Operand.linesOfCode ((function.frame symbols).acting (Statement.callTotal before) action) ++
        back := by
  obtain ⟨front, back, hlines⟩ := function.exists_lines_eq symbols hbody
  refine ⟨front.map Line.text, back.map Line.text, ?_⟩
  rw [Block.passage, hlines, Operand.linesOfCode, List.map_append, List.map_append, List.map_cons,
    List.map_map]
  rfl

theorem entering_prefix (function : Function) (symbols : List String) :
    Operand.linesOfCode (Frame.entering function.slots) <+: (function.block symbols).passage.lines := by
  rw [Block.passage, block, List.append_assoc, List.map_append, List.map_map]
  exact List.prefix_append _ _

theorem resolves_of_mem (h : function.Resolved symbols) {before after : List Statement}
    {position : Position} {scope : String} {action : Action}
    (hbody : function.body = before ++ .action position scope action :: after) :
    (function.frame symbols).Resolves (Statement.callTotal before) action := by
  have hall := h.body
  rw [hbody] at hall
  have hrest := Statement.resolvesAll_append hall
  rw [Nat.zero_add] at hrest
  exact hrest.1 position scope action rfl

end Function

theorem Action.call?_eq_some {action : Action} {call : Call} (h : action.call? = some call)
    {frame : Frame} {number : Nat} (hresolves : frame.Resolves number action) :
    frame.Calls number call ∧ ∃ collecting, frame.acting number action =
      Frame.passing call.arguments ++ .call (frame.target call.callee) :: collecting := by
  cases action with
  | call made =>
      cases h
      exact ⟨hresolves, _, rfl⟩
  | callAssign name made =>
      cases h
      exact ⟨hresolves.2, _, rfl⟩
  | _ => cases h

-- The code before a call and the code at the beginning of the called function bring every argument
-- to its slot, however many there are. The addresses that the call reads through must not lie where
-- it pushes, and the two frames must fit into the memory.
def Call.ReachesSlots (call : Call) (caller callee : SlotTable) (passing entering : List Instruction) :
    Prop :=
  ∀ (layout : Layout) (machine : Machine) (returnAddress : Word),
    caller.frameSize + Frame.stackedBytes call.arguments + callee.frameSize ≤ 2 ^ 61 →
    machine.registers .rsp = machine.registers .rbp - .ofNat 64 caller.frameSize →
    (∀ operand ∈ call.arguments, ∀ address ∈ machine.accessed layout operand,
      Clear (machine.registers .rbp)
        (-(caller.frameSize + Frame.stackedBytes call.arguments : Nat))
        (-(caller.frameSize + 8 * Frame.padding call.arguments : Nat)) address) →
    HandsOver layout caller call.arguments machine (machine.steps layout passing)
      (((machine.steps layout passing).push returnAddress).steps layout entering)

theorem Frame.Calls.reachesSlots {frame : Frame} {number : Nat} {call : Call}
    (h : frame.Calls number call) {callee : SlotTable}
    (hcount : callee.parameters.length = call.arguments.length) :
    call.ReachesSlots frame.slots callee (Frame.passing call.arguments) (Frame.entering callee) := by
  intro layout machine returnAddress hfits hstack hclear
  let activation : Activation := ⟨layout, frame, machine.registers .rbp⟩
  rw [sub_ofNat_eq_spot] at hstack
  exact @Activation.handsOver activation machine call.arguments callee rfl hstack h.gives hclear
    hcount hfits returnAddress

namespace Frame

variable {instruction : Instruction} {name : String}

theorem not_names_moving {distance : Int} (h : instruction ∈ moving distance) :
    ¬instruction.Names name := by
  rcases moving_forms distance with ⟨_, he⟩ | ⟨_, _, he⟩ | ⟨_, _, he⟩ <;> rw [he] at h
  · cases h
  · simp [List.mem_singleton.mp h, Instruction.Names, Instruction.address?]
  · simp [List.mem_singleton.mp h, Instruction.Names, Instruction.address?]

theorem not_names_entering {slots : SlotTable} (h : instruction ∈ entering slots) :
    ¬instruction.Names name := by
  simp only [entering, List.mem_append, List.mem_flatMap, List.mem_cons, List.not_mem_nil, or_false]
    at h
  rcases h with ((rfl | rfl) | h) | ⟨index, _, h⟩
  · simp [Instruction.Names, Instruction.address?]
  · simp [Instruction.Names, Instruction.address?]
  · exact not_names_moving (reserving_eq_moving _ ▸ h)
  · unfold receiving at h
    split at h
    · simp [List.mem_singleton.mp h, Instruction.Names, Instruction.address?, slotPlace]
    · simp only [List.mem_cons, List.not_mem_nil, or_false] at h
      rcases h with rfl | rfl <;> simp [Instruction.Names, Instruction.address?, slotPlace]

-- Only the operands of a call put names into the code before it.
theorem names_passing {arguments : List Operand} (h : instruction ∈ passing arguments)
    (hnames : instruction.Names name) :
    ∃ operand ∈ arguments, operand = .external name ∨ operand = .symbolAddress name := by
  simp only [passing, pushing, loadingAll, List.mem_append, List.mem_flatMap, List.mem_singleton] at h
  rcases h with ((h | ⟨operand, hoperand, h | rfl⟩) | ⟨pair, hpair, h⟩) | rfl
  · exact absurd hnames (not_names_moving (reserving_eq_moving _ ▸ h))
  · exact ⟨operand, List.mem_of_mem_drop (List.mem_reverse.mp hoperand),
      Operand.names_loading h hnames⟩
  · simp [Instruction.Names, Instruction.address?] at hnames
  · exact ⟨pair.1, (List.of_mem_zip hpair).1, Operand.names_loading h hnames⟩
  · simp [Instruction.Names, Instruction.address?] at hnames

theorem map_seen_entering (slots : SlotTable) :
    (entering slots).map Instruction.seen = entering slots :=
  Instruction.map_seen_eq_self fun _ hm _ => not_names_entering hm

theorem map_seen_passing {arguments : List Operand}
    (h : ∀ operand ∈ arguments, ¬operand.NamesRegister) :
    (passing arguments).map Instruction.seen = passing arguments := by
  refine Instruction.map_seen_eq_self fun instruction hm register hnames => ?_
  obtain ⟨operand, hoperand, he⟩ := names_passing hm hnames
  exact h operand hoperand ⟨register, he⟩

end Frame

section Compiled

variable {source : Source} {program : Program} {listing : Listing} {function : Function}

-- Any part of the code of a function is read line by line.
theorem Compiled.mapM_ofText? (h : Compiled source program listing) (hm : function ∈ program.functions)
    {code : List Instruction} (hcode : code ⊆ (function.block program.symbols).code) :
    (Operand.linesOfCode code).mapM Instruction.ofText? = some (code.map Instruction.seen) := by
  refine Instruction.mapM_ofText? fun instruction hinstruction name hnames => ?_
  exact h.isWord (h.name_mem_symbols hm (hcode hinstruction) hnames)

theorem Compiled.begins (h : Compiled source program listing) (hm : function ∈ program.functions) :
    (function.block program.symbols).passage.Begins (Frame.entering function.slots)
      (Frame.entering function.slots) := by
  refine ⟨function.entering_prefix program.symbols, ?_⟩
  rw [h.mapM_ofText? hm, Frame.map_seen_entering]
  rw [Function.code_block]
  exact List.subset_append_left _ _

end Compiled

-- Caller and called function agree on every argument. Both are what a reader finds in the text of the
-- listing. Without the condition it would take a symbol with the name of a register for that register.
theorem arguments_reach_slots {source : Source} {text : String} (h : compile source = .ok text) :
    ∃ program listing, Compiled source program listing ∧ text = listing.render ∧
      ∀ caller ∈ program.functions, ∀ callee ∈ program.functions,
        ∃ site ∈ passages (linesOf text), ∃ entrance ∈ passages (linesOf text),
          site.name = caller.name ∧ entrance.name = callee.name ∧
          ∀ (before after : List Statement) (position : Position) (scope : String) (action : Action)
            (call : Call), caller.body = before ++ .action position scope action :: after →
            action.call? = some call → callee.parameters.length = call.arguments.length →
            ∃ written passing target collecting entering,
              (caller.frame program.symbols).actionCode (Statement.callTotal before) action =
                .ok written ∧
              site.Holds position written (passing ++ .call target :: collecting) ∧
              (∀ instruction ∈ passing, instruction.isPlain) ∧
              (callee.frame program.symbols).prologue = .ok entering ∧
              entrance.Begins entering entering ∧
              ((∀ operand ∈ call.arguments, ¬operand.NamesRegister) →
                call.ReachesSlots caller.slots callee.slots passing entering) := by
  obtain ⟨program, listing, hcompiled, rfl⟩ := compile_eq_ok_iff.mp h
  refine ⟨program, listing, hcompiled, rfl, fun caller hcaller callee hcallee => ?_⟩
  refine ⟨_, hcompiled.passage_mem hcaller, _, hcompiled.passage_mem hcallee, rfl, rfl, ?_⟩
  intro before after position scope action call hbody hcall hcount
  have hresolves := Function.resolves_of_mem (hcompiled.resolved caller hcaller) hbody
  have hread := hcompiled.mapM_ofText? hcaller (Function.acting_subset_code hbody)
  obtain ⟨hcalls, collecting, hacting⟩ := Action.call?_eq_some hcall hresolves
  have hseen : ((caller.frame program.symbols).acting (Statement.callTotal before) action).map
      Instruction.seen = (Frame.passing call.arguments).map Instruction.seen ++
        .call ((caller.frame program.symbols).target call.callee).seen ::
          collecting.map Instruction.seen := by
    rw [hacting, List.map_append, List.map_cons]
    rfl
  refine ⟨_, (Frame.passing call.arguments).map Instruction.seen, _, _, Frame.entering callee.slots,
    Frame.actionCode_eq hresolves, ⟨Function.lines_of_mem hbody, hseen ▸ hread⟩, ?_, Frame.prologue_eq,
    hcompiled.begins hcallee, ?_⟩
  · intro instruction hm
    obtain ⟨passed, hpassed, rfl⟩ := List.mem_map.mp hm
    rw [Instruction.isPlain_seen, Frame.isPlain_of_mem_passing hpassed]
  · intro hnames
    have hparameters : callee.slots.parameters.length = call.arguments.length := by
      rw [(hcompiled.resolved callee hcallee).parameters, hcount]
    rw [Frame.map_seen_passing hnames]
    exact hcalls.reachesSlots hparameters

def seventhLayout : Layout := ⟨fun _ => 4096#64, 8192#64⟩

-- The caller before its call, with a frame of four slots and nothing in it.
def seventhMachine : Machine where
  registers
    | .rsp => 65504#64
    | _ => 65536#64
  memory _ := 0

theorem arguments_reach_seventh : compile seventhSource = .ok seventhListing.render ∧
    ∃ site ∈ passages (linesOf seventhListing.render),
      ∃ entrance ∈ passages (linesOf seventhListing.render),
        site.name = seventhCaller.name ∧ entrance.name = seventhCallee.name ∧
        ∃ written passing target collecting entering,
          site.Holds ⟨61, 1, 62⟩ written (passing ++ .call target :: collecting) ∧
          entrance.Begins entering entering ∧
          HandsOver seventhLayout seventhCaller.slots seventhCall.arguments seventhMachine
            (seventhMachine.steps seventhLayout passing)
            (((seventhMachine.steps seventhLayout passing).push 77#64).steps seventhLayout
              entering) := by
  have hcompile : compile seventhSource = .ok seventhListing.render :=
    compile_eq_ok_iff.mpr ⟨_, _, compiled_seventh, rfl⟩
  have haccessed : seventhCall.arguments.flatMap (seventhMachine.accessed seventhLayout) = [0#64] := rfl
  obtain ⟨_, _, hcompiled, _, hall⟩ := arguments_reach_slots hcompile
  obtain ⟨rfl, rfl⟩ := hcompiled.unique compiled_seventh
  obtain ⟨site, hsite, entrance, hentrance, hcaller, hcallee, hcalls⟩ :=
    hall seventhCaller (.tail _ (.head _)) seventhCallee (.head _)
  obtain ⟨written, passing, target, collecting, entering, _, hholds, _, _, hbegins, hreaches⟩ :=
    hcalls [_, _] [_] _ _ _ _ rfl rfl rfl
  refine ⟨hcompile, site, hsite, entrance, hentrance, hcaller, hcallee, written, passing, target,
    collecting, entering, hholds, hbegins, ?_⟩
  refine hreaches (fun operand hm => ?_) seventhLayout seventhMachine 77#64 (by decide) (by decide)
    (fun operand hm address hmem => ?_)
  · rintro ⟨register, rfl | rfl⟩ <;> revert hm <;> simp [seventhCall]
  · have hzero := List.mem_flatMap.mpr ⟨operand, hm, hmem⟩
    rw [haccessed, List.mem_singleton] at hzero
    rw [hzero]
    decide +kernel

-- An argument with the name of a register.
def passedSource : Source where
  name := "passed.ray"
  text := "func f(a)\x7breturn(a)\x7dfunc main()\x7bf(rax)\x7dextern rax"

-- Each token with its column and its length.
def passedTokens : List (Located Token) :=
  [(1, 4, .keyword .func), (6, 1, .name "f"), (7, 1, .symbol .openParen), (8, 1, .name "a"),
    (9, 1, .symbol .closeParen), (10, 1, .symbol .openCurly), (11, 6, .keyword .ret),
    (17, 1, .symbol .openParen), (18, 1, .name "a"), (19, 1, .symbol .closeParen),
    (20, 1, .symbol .closeCurly), (21, 4, .keyword .func), (26, 4, .name "main"),
    (30, 1, .symbol .openParen), (31, 1, .symbol .closeParen), (32, 1, .symbol .openCurly),
    (33, 1, .name "f"), (34, 1, .symbol .openParen), (35, 3, .name "rax"),
    (38, 1, .symbol .closeParen), (39, 1, .symbol .closeCurly), (40, 6, .keyword .external),
    (47, 3, .name "rax")].map
    (fun (column, width, token) =>
      ⟨⟨⟨column - 1, 1, column⟩, ⟨column + width - 1, 1, column + width⟩⟩, token⟩) ++
    [endAt ⟨49, 1, 50⟩]

def passedCallee : Function where
  name := "f"
  parameters := ["a"]
  body := [.action ⟨10, 1, 11⟩ "f" (.ret (.variable 0))]
  slots := ⟨["a"], []⟩

def passedCall : Call := ⟨"f", [.external "rax"]⟩

def passedCaller : Function where
  name := "main"
  parameters := []
  body := [.action ⟨32, 1, 33⟩ "main" (.call passedCall)]
  slots := ⟨[], [.result 0]⟩

def passedProgram : Program where
  statements := [.ofFunction ⟨0, 1, 1⟩ passedCallee, .ofFunction ⟨20, 1, 21⟩ passedCaller,
    .externs ⟨39, 1, 40⟩ ["rax"]]
  data := []

theorem compiled_passedSource : Compiled passedSource passedProgram passedProgram.listing :=
  ⟨passedTokens, by decide +kernel, rfl, rfl⟩

-- The word at the place of the extern is 5, and rax points elsewhere.
def passedMachine : Machine where
  registers
    | .rsp => 65520#64
    | _ => 65536#64
  memory address := if address = 4096#64 then 5 else 0

-- The slot of the called function holds what rdi held before the call.
theorem unreached_passedCall : ¬passedCall.ReachesSlots passedCaller.slots passedCallee.slots
    [.load .rdi (.through .rax), .zero .rax] (Frame.entering passedCallee.slots) := by
  intro hreaches
  have hnothing : Frame.stackedBytes passedCall.arguments = 8 * Frame.padding passedCall.arguments := rfl
  have hhands := hreaches seventhLayout passedMachine 77#64 (by decide) (by decide)
    (fun _ _ _ _ _ _ => hnothing ▸ Int.lt_or_le _ _)
  have hreceived := hhands.received 0 (by decide)
  have hstack : ((passedMachine.steps seventhLayout [.load .rdi (.through .rax), .zero .rax]).push
      77#64).registers .rsp = spot 65504#64 8 := by decide
  have hentered := Machine.entered seventhLayout passedCallee.slots hstack (by decide)
  have hslot : 65504#64 - .ofNat 64 ((0 + 1) * SlotTable.slotSize) =
      spot 65504#64 (-(8 * (0 + 1) : Nat)) := by decide
  rw [Frame.slotPlace, Machine.address, hentered.pointer, hslot, hentered.parameters 0 (by decide)]
    at hreceived
  exact absurd hreceived (by decide +kernel)

-- The code that is read back hands over what the register points to.
theorem mistaken_passedCall :
    compile passedSource = .ok passedProgram.listing.render ∧
      Compiled passedSource passedProgram passedProgram.listing ∧
      passedCaller ∈ passedProgram.functions ∧ passedCallee ∈ passedProgram.functions ∧
      ∃ site ∈ passages (linesOf passedProgram.listing.render),
        ∃ entrance ∈ passages (linesOf passedProgram.listing.render),
          site.name = passedCaller.name ∧ entrance.name = passedCallee.name ∧
          ∃ written entering,
            (passedCaller.frame passedProgram.symbols).actionCode 0 (.call passedCall) = .ok written ∧
            site.Holds ⟨32, 1, 33⟩ written [.load .rdi (.through .rax), .zero .rax,
              .call (.symbol "f"), .store (.below 8) .rax] ∧
            entrance.Begins entering entering ∧
            ¬passedCall.ReachesSlots passedCaller.slots passedCallee.slots
              [.load .rdi (.through .rax), .zero .rax] entering := by
  have hcaller : passedCaller ∈ passedProgram.functions := .tail _ (.head _)
  have hcallee : passedCallee ∈ passedProgram.functions := .head _
  have hbody : passedCaller.body = [] ++ .action ⟨32, 1, 33⟩ "main" (.call passedCall) :: [] := rfl
  have hresolves := Function.resolves_of_mem (compiled_passedSource.resolved _ hcaller) hbody
  have hread := compiled_passedSource.mapM_ofText? hcaller (Function.acting_subset_code hbody)
  have hseen : ((passedCaller.frame passedProgram.symbols).acting (Statement.callTotal [])
      (.call passedCall)).map Instruction.seen = [.load .rdi (.through .rax), .zero .rax,
        .call (.symbol "f"), .store (.below 8) .rax] := by decide +kernel
  rw [hseen] at hread
  exact ⟨compile_eq_ok_iff.mpr ⟨_, _, compiled_passedSource, rfl⟩, compiled_passedSource, hcaller,
    hcallee, _, compiled_passedSource.passage_mem hcaller, _,
    compiled_passedSource.passage_mem hcallee, rfl, rfl, _, _, Frame.actionCode_eq hresolves,
    ⟨Function.lines_of_mem hbody, hread⟩, compiled_passedSource.begins hcallee, unreached_passedCall⟩

end RayCompiler
