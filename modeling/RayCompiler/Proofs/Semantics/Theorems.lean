import RayCompiler.Proofs.Operands
import RayCompiler.Proofs.Semantics.Actions

namespace RayCompiler

namespace Statement

-- The calls that the statements of a function make themselves.
def calls : List Statement → List Call
  | [] => []
  | .action _ _ effect :: more => effect.call?.toList ++ calls more
  | _ :: more => calls more

theorem callCount_action (position : Position) (scope : String) (action : Action) :
    (Statement.action position scope action).callCount = action.call?.toList.length := by
  cases action <;> rfl

theorem mem_calls {body : List Statement} {position : Position} {scope : String} {action : Action}
    (hm : .action position scope action ∈ body) {call : Call} (hcall : action.call? = some call) :
    call ∈ calls body := by
  induction body with
  | nil => cases hm
  | cons statement more ih =>
      rcases List.mem_cons.mp hm with rfl | hm
      · simp [calls, hcall]
      · have hmore := ih hm
        cases statement with
        | externs | function => exact hmore
        | action => exact List.mem_append_right _ hmore

-- Code that can stand after a body: it gives zero back, unless the body ends with a return.
def Closes (body : List Statement) (code : List Instruction) : Prop :=
  (∀ last, body.getLast? = some last → last.isReturn = false) →
    code = .zero .rax :: Frame.epilogue

theorem Closes.tail {statement : Statement} {more : List Statement} {code : List Instruction}
    (h : Closes (statement :: more) code) (hreturn : statement.isReturn = false) :
    Closes more code := by
  intro hlast
  apply h
  intro last hm
  cases more with
  | nil =>
      cases hm
      exact hreturn
  | cons => exact hlast last (by simpa using hm)

theorem closes_closing (function : Function) : Closes function.body function.closing := by
  intro hlast
  unfold Function.closing
  split
  · next last hm => simp [hlast last hm]
  · rfl

end Statement

namespace Activation

open RayCompiler.Frame RayCompiler.Statement

variable {activation : Activation} {reach : Nat} {world : World} {linkage : Linkage} {store : Store}
  {machine : Machine}

-- The induction is on the statements. The calls so far number both the result cells and the code.
theorem Tracks.agrees (hosts : activation.Hosts reach world) (body : List Statement)
    {closing : List Instruction} (h : activation.Tracks reach linkage store machine)
    (hresolves : activation.frame.ResolvesAll store.history.length body)
    (harities : world.arities.drop store.history.length =
      (calls body).map (·.arguments.length))
    (hroom : ∀ call ∈ calls body,
      activation.frame.slots.frameSize + stackedBytes call.arguments + 8 ≤ reach)
    (hcloses : Closes body closing)
    (hsafe : ∀ address ∈ (activation.run world.oracle body store).1.reads,
      activation.Safe (-(reach : Nat)) 8 address) :
    activation.Agrees reach linkage (activation.run world.oracle body store).1
      (activation.run world.oracle body store).2
      (world.run ((linesOf activation.frame store.history.length body).filterMap Line.code? ++ closing)
        store.history machine) := by
  induction body generalizing store machine with
  | nil =>
      rw [hcloses (by simp)]
      have hzero : activation.Tracks reach linkage store (machine.set .rax 0) :=
        h.set (by decide) (by decide) 0
      exact hzero.returned (by rintro _ ⟨⟩; exact Machine.set_same _ _ _) world []
  | cons statement more ih =>
      cases statement with
      | externs | function => exact ih h hresolves.2 harities hroom (hcloses.tail rfl) hsafe
      | action position scope action =>
          have hone := hresolves.1 position scope action rfl
          have hmore := hresolves.2
          have hhistory := activation.perform_history world.oracle store action
          have hreads := fun operand hm address hmem =>
            @mem_reads_perform activation store world.oracle action operand hm address hmem
          rw [callCount_action] at hmore
          rw [calls] at harities hroom
          rw [linesOf, callCount_action, List.filterMap_append, filterMap_lines, List.append_assoc, run]
          rw [run] at hsafe
          rcases hperform : activation.perform world.oracle store action with ⟨later, conclusion⟩
          rw [hperform] at hsafe hreads hhistory
          cases conclusion with
          | some conclusion =>
              refine h.concludes hosts hone ?_ hperform _
              exact fun operand hm address hmem => hsafe address (hreads operand hm address hmem)
          | none =>
              have hlater := activation.subset_reads_run world.oracle more later
              have hnumber : store.history.length + action.call?.toList.length =
                  later.history.length := by
                rw [hhistory]
                cases action.call? <;> simp
              have hreturn : (Statement.action position scope action).isReturn = false := by
                cases action with
                | ret value => cases hperform
                | _ => rfl
              have haffords : ∀ call, action.call? = some call →
                  activation.Affords reach world store.history.length call := by
                intro call hcall
                rw [hcall] at harities hroom
                refine ⟨?_, hroom call (by simp)⟩
                rw [← List.head?_drop, harities]
                rfl
              have hrest : world.arities.drop later.history.length =
                  (calls more).map (·.arguments.length) := by
                rw [← hnumber, ← List.drop_drop, harities, List.map_append, List.drop_left' (by simp)]
              obtain ⟨after, htracks, hrun⟩ := h.continues hosts hone haffords
                (fun operand hm address hmem =>
                  hsafe address (hlater (hreads operand hm address hmem))) hperform
              rw [hnumber] at hmore
              rw [hrun, hnumber]
              exact ih htracks hmore hrest (fun call hm => hroom call (List.mem_append_right _ hm))
                (hcloses.tail hreturn) hsafe

end Activation

-- What a function finds when its first instruction comes next.
def Machine.linkage (machine : Machine) : Linkage :=
  ⟨machine.registers .rbp, machine.memory.read (machine.registers .rsp)⟩

-- The cells of the parameters hold the arguments, the other ones what is in the memory.
def Activation.initial (activation : Activation) (machine : Machine) : Store where
  cells slot :=
    if slot < activation.frame.slots.parameters.length then machine.argument slot
    else machine.memory.read (activation.slotAddress slot)
  memory := machine.memory
  history := []
  reads := []

theorem Activation.tracks_initial {activation : Activation} {reach : Nat} {world : World}
    (hosts : activation.Hosts reach world) {machine : Machine}
    (hstack : machine.registers .rsp = spot activation.base 8) :
    activation.Tracks reach machine.linkage (activation.initial machine)
      (machine.steps activation.layout (Frame.entering activation.frame.slots)) := by
  have hslots := activation.frame.slots.length_le_frameSize
  have hparameters := activation.frame.slots.parameters_le_length
  have hframe := hosts.frame
  have hfits := hosts.fits
  have hentered := Machine.entered activation.layout activation.frame.slots hstack (by omega)
  refine ⟨hentered.pointer, hentered.stack, ⟨?_, hentered.memory.mono (by omega) (by omega)⟩,
    hentered.saved, ?_⟩
  · intro slot hslot
    unfold initial
    dsimp only
    by_cases hparameter : slot < activation.frame.slots.parameters.length
    · rw [if_pos hparameter, slotAddress_eq_spot]
      exact hentered.parameters slot hparameter
    · rw [if_neg hparameter, slotAddress_eq_spot]
      apply hentered.memory.read_eq <;> omega
  · rw [Machine.linkage, hstack]
    apply hentered.memory.read_eq <;> omega

namespace Function

-- The frame pointer of a function comes to lie just below the return address.
def activation (symbols : List String) (function : Function) (layout : Layout) (machine : Machine) :
    Activation :=
  ⟨layout, function.frame symbols, machine.registers .rsp - 8#64⟩

def arities (function : Function) : List Nat :=
  (Statement.calls function.body).map (·.arguments.length)

-- How many bytes below its frame pointer a function uses: its frame, and what the largest of its
-- calls pushes.
def reach (function : Function) : Nat :=
  function.slots.frameSize + (((Statement.calls function.body).map fun call =>
    Frame.stackedBytes call.arguments + 8).max?.getD 0)

theorem room_le_reach {function : Function} {call : Call}
    (h : call ∈ Statement.calls function.body) :
    function.slots.frameSize + Frame.stackedBytes call.arguments + 8 ≤ function.reach := by
  have hle : Frame.stackedBytes call.arguments + 8 ≤
      ((Statement.calls function.body).map fun call =>
        Frame.stackedBytes call.arguments + 8).max?.getD 0 :=
    List.le_max?_getD_of_mem (List.mem_map.mpr ⟨call, h, rfl⟩)
  unfold reach
  omega

end Function

namespace Frame

variable {frame : Frame} {number : Nat} {target : Target}

theorem call_notMem_of_plain {code : List Instruction} (h : ∀ instruction ∈ code, instruction.isPlain) :
    .call target ∉ code := by
  intro hm
  cases h _ hm

theorem target_of_mem_calling {call : Call} {output : Option Slot}
    (h : .call target ∈ frame.calling number call output) : target = frame.target call.callee := by
  rcases List.mem_append.mp h with h | h
  · exact absurd h (call_notMem_of_plain fun _ => isPlain_of_mem_passing)
  · rcases List.mem_cons.mp h with he | h
    · exact Instruction.call.inj he
    · exact absurd h (call_notMem_of_plain fun _ => isPlain_of_mem_collecting)

-- The code of an action calls nothing but what the action calls.
theorem exists_call_of_mem_acting {action : Action} (h : .call target ∈ frame.acting number action) :
    ∃ call, action.call? = some call ∧ target = frame.target call.callee := by
  have hloading := fun register operand =>
    @call_notMem_of_plain target (loading register operand) fun _ => isPlain_of_mem_loading
  cases action with
  | call call => exact ⟨call, rfl, target_of_mem_calling h⟩
  | callAssign name call => exact ⟨call, rfl, target_of_mem_calling h⟩
  | declare names =>
      obtain ⟨_, _, he⟩ := List.mem_map.mp h
      cases he
  | define | assign | ret => simp [acting, epilogue, hloading] at h
  | exit value => by_cases he : value = .absent <;> simp [acting, he, hloading] at h

end Frame

namespace Function

variable {function : Function} {symbols : List String}

theorem exists_call_of_mem_code {target : Target}
    (h : .call target ∈ (function.block symbols).code) :
    ∃ call ∈ Statement.calls function.body, target = (function.frame symbols).target call.callee := by
  simp only [Block.mem_code, block, List.mem_append, List.mem_map, Line.instruction.injEq,
    exists_eq_right] at h
  rcases h with (h | h) | h
  · exact absurd h (Frame.call_notMem_of_plain fun _ => Frame.isPlain_of_mem_entering)
  · obtain ⟨before, statement, after, hbody, hline⟩ := Statement.exists_statement_of_mem h
    cases statement with
    | externs | function => simp [Statement.lines] at hline
    | action position scope action =>
        have hstatement : .action position scope action ∈ function.body := by simp [hbody]
        obtain ⟨call, hcall, he⟩ :=
          Frame.exists_call_of_mem_acting (by simpa [Statement.lines] using hline)
        exact ⟨call, Statement.mem_calls hstatement hcall, he⟩
  · have hclosing := function.closing_subset h
    simp [Frame.epilogue] at hclosing

-- No symbol that the statements of a function name has the name of a register.
structure Unmistakable (function : Function) (symbols : List String) : Prop where
  operands : ∀ operand ∈ function.body.flatMap Statement.operands, ¬operand.NamesRegister
  callees : ∀ call ∈ Statement.calls function.body, call.callee ∈ symbols →
    ∀ register : Register, register.name ≠ call.callee

theorem Unmistakable.not_names (h : function.Unmistakable symbols)
    (haccepts : (function.frame symbols).AcceptsAll 0 function.body) {instruction : Instruction}
    (hm : instruction ∈ (function.block symbols).code) (register : Register) :
    ¬instruction.Names register.name := by
  rintro (rfl | haddress)
  · obtain ⟨call, hcall, he⟩ := exists_call_of_mem_code hm
    unfold Frame.target at he
    split at he
    · next hsymbol =>
        exact h.callees call hcall (List.contains_iff_mem.mp hsymbol) register (Target.symbol.inj he)
    · cases he
  · cases (function.admits_code haccepts instruction hm).reads haddress with
    | slot holds =>
        obtain ⟨_, _, he⟩ := holds
        cases he
    | external given => exact h.operands _ given ⟨register, .inl rfl⟩
    | symbolAddress given => exact h.operands _ given ⟨register, .inr rfl⟩

-- Reading the lines of such a function gives its code back.
theorem Unmistakable.map_seen (h : function.Unmistakable symbols)
    (haccepts : (function.frame symbols).AcceptsAll 0 function.body) :
    (function.block symbols).code.map Instruction.seen = (function.block symbols).code :=
  Instruction.map_seen_eq_self fun _ hm => h.not_names haccepts hm

end Function

-- What the code of a function and its statements have in common, whatever the functions that they
-- call answer and do to the memory outside the frame. The addresses that are read through must be
-- those of slots or lie outside what the function writes itself.
def Function.Realizes (function : Function) (symbols : List String) (code : List Instruction) : Prop :=
  ∀ (layout : Layout) (oracle : Oracle) (returnAddress : List CallEvent → Word) (machine : Machine),
    let activation := function.activation symbols layout machine
    let outcome := activation.run oracle function.body (activation.initial machine)
    function.reach ≤ 2 ^ 61 →
    (∀ history, (oracle history).Spares activation.base (-(function.slots.frameSize : Nat)) 16) →
    (∀ address ∈ outcome.1.reads, activation.Safe (-(function.reach : Nat)) 8 address) →
    activation.Agrees function.reach machine.linkage outcome.1 outcome.2
      (World.run ⟨layout, oracle, returnAddress, function.arities⟩ code [] machine)

theorem Function.Resolved.realizes {function : Function} {symbols : List String}
    (h : function.Resolved symbols) : function.Realizes symbols (function.block symbols).code := by
  intro layout oracle returnAddress machine activation outcome hfits hspares hsafe
  have hosts : activation.Hosts function.reach ⟨layout, oracle, returnAddress, function.arities⟩ :=
    ⟨rfl, Nat.le_add_right _ _, hfits, hspares⟩
  have hstack : machine.registers .rsp = spot activation.base 8 := by
    have hsum := add_ofNat_eq_spot (machine.registers .rsp - 8#64) 8
    rw [BitVec.sub_add_cancel] at hsum
    exact hsum
  rw [Function.code_block, World.run_plain _ _ _ _ fun _ hm => Frame.isPlain_of_mem_entering hm]
  exact (Activation.tracks_initial hosts hstack).agrees hosts function.body h.body rfl
    (fun call hm => Function.room_le_reach hm) (Statement.closes_closing function) hsafe

open Text

-- The code is what a reader finds in the text of the listing under the label of the function. Without
-- the condition it would take a symbol with the name of a register for that register.
theorem run_code_agrees {source : Source} {text : String} (h : compile source = .ok text) :
    ∃ program listing, Compiled source program listing ∧ text = listing.render ∧
      ∀ function ∈ program.functions, ∃ passage ∈ passages (linesOf text),
        passage.name = function.name ∧ ∃ code, code? passage.lines = some code ∧
          (function.Unmistakable program.symbols → function.Realizes program.symbols code) := by
  obtain ⟨program, listing, hcompiled, rfl⟩ := compile_eq_ok_iff.mp h
  refine ⟨program, listing, hcompiled, rfl, fun function hm => ?_⟩
  have hresolved := hcompiled.resolved function hm
  refine ⟨_, hcompiled.passage_mem hm, rfl, _, hcompiled.code?_passage hm, fun hnames => ?_⟩
  rw [hnames.map_seen hresolved.body.acceptsAll]
  exact hresolved.realizes

-- The called function gives its seventh argument back.
def seventhOracle : Oracle := fun history =>
  ⟨(history.getLast?.bind (·.arguments[6]?)).getD 0, fun _ => 0, fun _ => none⟩

def seventhStart : Machine := ⟨fun _ => 65536#64, fun _ => 0⟩

def seventhActivation : Activation :=
  seventhCaller.activation seventhProgram.symbols ⟨fun _ => 4096#64, 8192#64⟩ seventhStart

theorem unmistakable_seventhCaller : seventhCaller.Unmistakable seventhProgram.symbols := by
  refine ⟨fun operand hm => ?_, fun call hm _ register => ?_⟩
  · rintro ⟨register, rfl | rfl⟩ <;> revert hm <;> simp [seventhCaller, seventhCall, Statement.operands,
      Action.operands]
  · rw [List.mem_singleton.mp hm]
    cases register <;> decide

theorem run_code_seventh : compile seventhSource = .ok seventhListing.render ∧
    ∃ passage ∈ passages (linesOf seventhListing.render), passage.name = seventhCaller.name ∧
      ∃ code, code? passage.lines = some code ∧
        let run := World.run ⟨seventhActivation.layout, seventhOracle, fun _ => 77#64, [7]⟩ code []
          seventhStart
        run.ending = .returned 0 ∧ run.machine.registers .rax = 5 := by
  have hcompile : compile seventhSource = .ok seventhListing.render :=
    compile_eq_ok_iff.mpr ⟨_, _, compiled_seventh, rfl⟩
  let initial := seventhActivation.initial seventhStart
  have hconclusion : (seventhActivation.run seventhOracle seventhCaller.body initial).2 =
      .returned (some 5) := rfl
  have hreads : (seventhActivation.run seventhOracle seventhCaller.body initial).1.reads =
      [seventhActivation.slotAddress 0] := rfl
  obtain ⟨_, _, hcompiled, _, hall⟩ := run_code_agrees hcompile
  obtain ⟨rfl, rfl⟩ := hcompiled.unique compiled_seventh
  obtain ⟨passage, hpassage, hname, code, hcode, hrealizes⟩ :=
    hall seventhCaller (.tail _ (.head _))
  refine ⟨hcompile, passage, hpassage, hname, code, hcode, ?_⟩
  have hagrees := hrealizes unmistakable_seventhCaller seventhActivation.layout seventhOracle
    (fun _ => 77#64) seventhStart (by decide) (fun _ _ _ _ => rfl) (fun address hm => ?_)
  · exact ⟨hagrees.ending, hagrees.result 5 hconclusion⟩
  · have hslot : address ∈ [seventhActivation.slotAddress 0] := hreads ▸ hm
    exact .inl ⟨0, by decide, List.mem_singleton.mp hslot⟩

-- The word at the place of the extern is 5, and no register points to it.
def registerLayout : Layout := ⟨fun _ => 4096#64, 8192#64⟩

def registerStart : Machine :=
  ⟨fun _ => 65536#64, fun address => if address = 4096#64 then 5 else 0⟩

-- The code that is read back returns what the register points to.
theorem unrealized_registerMain :
    compile registerSource = .ok registerProgram.listing.render ∧
      Compiled registerSource registerProgram registerProgram.listing ∧
      registerMain ∈ registerProgram.functions ∧
      ∃ passage ∈ passages (linesOf registerProgram.listing.render),
        passage.name = registerMain.name ∧ ∃ code, code? passage.lines = some code ∧
          ¬registerMain.Realizes registerProgram.symbols code := by
  have hmain : registerMain ∈ registerProgram.functions := List.mem_singleton_self registerMain
  refine ⟨compile_eq_ok_iff.mpr ⟨_, _, compiled_registerSource, rfl⟩, compiled_registerSource, hmain,
    _, compiled_registerSource.passage_mem hmain, rfl, _, compiled_registerSource.code?_passage hmain,
    fun hrealizes => ?_⟩
  have hagrees := hrealizes registerLayout (fun _ => ⟨0, fun _ => 0, fun _ => none⟩) (fun _ => 77#64)
    registerStart (by decide) (fun _ _ _ _ => rfl) (fun address hm => ?_)
  · exact absurd (hagrees.result 5 rfl) (by decide +kernel)
  · have hextern : address ∈ [4096#64] := hm
    rw [List.mem_singleton.mp hextern]
    refine .inr ?_
    decide +kernel

end RayCompiler
