import RayCompiler.Proofs.Semantics.Theorems
import RayCompiler.Proofs.Stack.Pointers

namespace RayCompiler

-- The registers stand where the pointers say, counted from the stack pointer at the entry.
structure Pointers.Locate (pointers : Pointers) (entry : Word) (machine : Machine) : Prop where
  stack : machine.registers .rsp = spot entry pointers.stack
  frame : ∀ base, pointers.frame = some base → machine.registers .rbp = spot entry base

namespace Pointers.Locate

variable {first next : Pointers} {entry : Word} {machine : Machine}

theorem assign (h : first.Locate entry machine) {register : Register}
    (hassign : first.assign register = some next) (value : Word) :
    next.Locate entry (machine.set register value) := by
  cases register with
  | rsp => cases hassign
  | rbp =>
      cases hassign
      exact ⟨by rw [Machine.set_other _ _ (by decide), h.stack], by simp⟩
  | _ =>
      cases hassign
      refine ⟨by rw [Machine.set_other _ _ (by decide), h.stack], fun base hbase => ?_⟩
      rw [Machine.set_other _ _ (by decide), h.frame base hbase]

theorem move (h : first.Locate entry machine) (bytes : Int) {value : Word}
    (hvalue : value = spot entry (first.stack + bytes)) :
    (first.move bytes).Locate entry (machine.set .rsp value) := by
  refine ⟨by rw [Machine.set_same, hvalue, Pointers.move], fun base hbase => ?_⟩
  rw [Machine.set_other _ _ (by decide), h.frame base hbase]

theorem registers_eq (h : first.Locate entry machine) {other : Machine}
    (hregisters : other.registers = machine.registers) : first.Locate entry other :=
  ⟨by rw [hregisters, h.stack], fun base hbase => by rw [hregisters, h.frame base hbase]⟩

-- The two copies between the pointers, and any other one.
theorem copy (h : first.Locate entry machine) {target source : Register}
    (hmoves : first.after (.copy target source) = some next) :
    next.Locate entry (machine.set target (machine.registers source)) := by
  by_cases hframe : target = .rbp ∧ source = .rsp
  · obtain ⟨rfl, rfl⟩ := hframe
    cases hmoves
    refine ⟨by rw [Machine.set_other _ _ (by decide), h.stack], fun base hbase => ?_⟩
    cases hbase
    rw [Machine.set_same, h.stack]
  by_cases hstack : target = .rsp ∧ source = .rbp
  · obtain ⟨rfl, rfl⟩ := hstack
    obtain ⟨place, hplace, rfl⟩ := Option.map_eq_some_iff.mp hmoves
    refine ⟨by rw [Machine.set_same, h.frame place hplace], fun base hbase => ?_⟩
    rw [Machine.set_other _ _ (by decide), h.frame base hbase]
  · have hafter : first.after (.copy target source) = first.assign target := by
      rw [after]
      · exact fun ht hs => hframe ⟨ht, hs⟩
      · exact fun ht hs => hstack ⟨ht, hs⟩
    rw [hafter] at hmoves
    exact h.assign hmoves _

-- One instruction keeps the pointers where they should be.
theorem step (h : first.Locate entry machine) {instruction : Instruction}
    (hplain : instruction.isPlain) (hmoves : first.after instruction = some next) (layout : Layout) :
    next.Locate entry (machine.step layout instruction) := by
  have hup : ∀ bytes : Nat, machine.registers .rsp + .ofNat 64 bytes =
      spot entry (first.stack + bytes) := by
    intro bytes
    rw [h.stack, spot_add_ofNat]
  have hdown : ∀ bytes : Nat, machine.registers .rsp - .ofNat 64 bytes =
      spot entry (first.stack + -bytes) := by
    intro bytes
    rw [h.stack, spot_sub_ofNat, Int.sub_eq_add_neg]
  cases instruction with
  | push register =>
      cases hmoves
      exact (h.move (-8) (hdown 8)).registers_eq rfl
  | pop register => exact (h.move 8 (hup 8)).assign hmoves _
  | copy target source => exact h.copy hmoves
  | set register value => exact h.assign hmoves _
  | load register place => exact h.assign hmoves _
  | addressOf register place => exact h.assign hmoves _
  | zero register => exact h.assign hmoves _
  | store place register | clear place =>
      cases hmoves
      exact h.registers_eq rfl
  | reserve bytes =>
      cases hmoves
      exact h.move _ (hdown bytes)
  | release bytes =>
      cases hmoves
      exact h.move _ (hup bytes)
  | call | ret | syscall => cases hplain

-- So does a call, whatever the called function answers.
theorem resume (h : first.Locate entry machine) (returnAddress : Word) (reply : Reply) :
    first.Locate entry ((machine.push returnAddress).resume reply) := by
  have hpushed := Machine.push_stack returnAddress h.stack
  refine ⟨?_, fun base hbase => ?_⟩
  · change (machine.push returnAddress).registers .rsp + 8#64 = _
    rw [hpushed, spot_add_ofNat]
    congr 1
    omega
  · change (machine.push returnAddress).registers .rbp = _
    rw [Machine.push_other _ (by decide), h.frame base hbase]

end Pointers.Locate

-- The machine before each call of a run.
def World.callSites (world : World) : List Instruction → List CallEvent → Machine → List Machine
  | [], _, _ => []
  | .call target :: code, history, machine =>
    let entered := machine.push (world.returnAddress history)
    let arity := world.arities.getD history.length 0
    let event : CallEvent :=
      ⟨machine.targetOf world.layout target, (List.range arity).map entered.argument⟩
    machine :: world.callSites code (history ++ [event])
      (entered.resume (world.oracle (history ++ [event])))
  | .ret :: _, _, _ => []
  | .syscall :: _, _, _ => []
  | instruction :: code, history, machine =>
    world.callSites code history (machine.step world.layout instruction)

-- A run does not leave the code at its end, and each of its calls finds the stack pointer at a place
-- that is aligned if the function was called from an aligned one.
structure World.Behaves (world : World) (entry : Word) (code : List Instruction)
    (history : List CallEvent) (machine : Machine) : Prop where
  ends : (world.run code history machine).ending ≠ .unfinished
  aligned : ∀ site ∈ world.callSites code history machine,
    ∃ distance : Int, distance % 16 = 8 ∧ site.registers .rsp = spot entry distance

namespace World.Behaves

variable {world : World} {entry : Word} {code rest : List Instruction} {history : List CallEvent}
  {machine : Machine}

theorem cons_plain {instruction : Instruction} (hplain : instruction.isPlain)
    (h : world.Behaves entry rest history (machine.step world.layout instruction)) :
    world.Behaves entry (instruction :: rest) history machine := by
  cases instruction with
  | call | ret | syscall => cases hplain
  | _ => exact ⟨h.ends, h.aligned⟩

theorem append_plain (hplain : ∀ instruction ∈ code, instruction.isPlain)
    (h : world.Behaves entry rest history (machine.steps world.layout code)) :
    world.Behaves entry (code ++ rest) history machine := by
  induction code generalizing machine with
  | nil => exact h
  | cons instruction more ih =>
      have hmore := ih (fun other hm => hplain other (by simp [hm])) h
      exact hmore.cons_plain (hplain instruction (by simp))

theorem ret (rest : List Instruction) (history : List CallEvent) (machine : Machine) :
    world.Behaves entry (.ret :: rest) history machine := by
  refine ⟨?_, by simp [callSites]⟩
  rw [run]
  simp

theorem syscall (rest : List Instruction) (history : List CallEvent)
    (hnumber : machine.registers .rax = exitNumber) :
    world.Behaves entry (.syscall :: rest) history machine := by
  refine ⟨?_, by simp [callSites]⟩
  rw [run, if_pos hnumber]
  simp

-- What follows a call must behave whatever the called function answers.
theorem cons_call (target : Target) {distance : Int} (hdistance : distance % 16 = 8)
    (hstack : machine.registers .rsp = spot entry distance)
    (h : ∀ later returnAddress reply,
      world.Behaves entry rest later ((machine.push returnAddress).resume reply)) :
    world.Behaves entry (.call target :: rest) history machine := by
  refine ⟨(h _ _ _).ends, fun site hm => ?_⟩
  rcases List.mem_cons.mp hm with rfl | hm
  · exact ⟨distance, hdistance, hstack⟩
  · exact (h _ _ _).aligned site hm

-- The induction is on the walk. Every instruction is plain or a call, and keeps the pointers.
theorem append_walk {condition : Pointers → Instruction → Prop} {first last : Pointers}
    (hwalk : Walks condition first code last)
    (hcalls : ∀ pointers target, condition pointers (.call target) → pointers.stack % 16 = 8)
    (hpasses : ∀ instruction ∈ code, instruction.isPlain ∨ ∃ target, instruction = .call target)
    (hlocate : first.Locate entry machine)
    (hrest : ∀ history machine, last.Locate entry machine → world.Behaves entry rest history machine) :
    world.Behaves entry (code ++ rest) history machine := by
  induction hwalk generalizing history machine with
  | done => exact hrest history machine hlocate
  | @step first next last instruction code meets moves walk ih =>
      have hmore := fun history machine hnext => @ih history machine
        (fun other hm => hpasses other (by simp [hm])) hnext hrest
      rcases hpasses instruction (by simp) with hplain | ⟨target, rfl⟩
      · exact (hmore history _ (hlocate.step hplain moves world.layout)).cons_plain hplain
      · cases moves
        refine cons_call target (hcalls _ _ meets) hlocate.stack ?_
        exact fun later returnAddress reply => hmore later _ (hlocate.resume returnAddress reply)

end World.Behaves

namespace Frame

open Pointers

variable {world : World} {entry : Word} {machine : Machine} {frame : Frame} {number : Nat}

theorem behaves_epilogue (rest : List Instruction) (history : List CallEvent) (machine : Machine) :
    world.Behaves entry (epilogue ++ rest) history machine :=
  ((World.Behaves.ret rest history _).cons_plain rfl).cons_plain rfl

theorem isPlain_of_mem_seen {code : List Instruction}
    (h : ∀ instruction ∈ code, instruction.isPlain) :
    ∀ instruction ∈ code.map Instruction.seen, instruction.isPlain := by
  intro instruction hm
  obtain ⟨written, hwritten, rfl⟩ := List.mem_map.mp hm
  rw [Instruction.isPlain_seen, h written hwritten]

-- The number of the system call is set last, so the process ends there.
theorem behaves_exit (value : Operand) (rest : List Instruction) (history : List CallEvent)
    (machine : Machine) :
    world.Behaves entry ((frame.acting number (.exit value)).map Instruction.seen ++ rest) history
      machine := by
  have hplain : ∀ instruction ∈ (if value = .absent then [.zero .rdi] else loading .rdi value),
      instruction.isPlain := by
    intro instruction hm
    split at hm
    · rw [List.mem_singleton.mp hm]
      rfl
    · exact isPlain_of_mem_loading hm
  rw [acting, List.map_append, List.append_assoc]
  refine World.Behaves.append_plain (isPlain_of_mem_seen hplain) (World.Behaves.cons_plain rfl ?_)
  exact .syscall rest history (Machine.set_same _ _ _)

theorem behaves_ret (value : Operand) (rest : List Instruction) (history : List CallEvent)
    (machine : Machine) :
    world.Behaves entry ((frame.acting number (.ret value)).map Instruction.seen ++ rest) history
      machine := by
  rw [acting, List.map_append, List.append_assoc]
  exact .append_plain (isPlain_of_mem_seen fun _ => isPlain_of_mem_loading)
    (behaves_epilogue rest history _)

theorem passes_calling {call : Call} {output : Option Slot} :
    ∀ instruction ∈ frame.calling number call output,
      instruction.isPlain ∨ ∃ target, instruction = .call target := by
  intro instruction hm
  simp only [calling, List.mem_append, List.mem_cons] at hm
  rcases hm with hm | rfl | hm
  · exact .inl (isPlain_of_mem_passing hm)
  · exact .inr ⟨_, rfl⟩
  · exact .inl (isPlain_of_mem_collecting hm)

theorem passes_seen {code : List Instruction}
    (h : ∀ instruction ∈ code, instruction.isPlain ∨ ∃ target, instruction = .call target) :
    ∀ instruction ∈ code.map Instruction.seen,
      instruction.isPlain ∨ ∃ target, instruction = .call target := by
  intro instruction hm
  obtain ⟨written, hwritten, rfl⟩ := List.mem_map.mp hm
  rcases h written hwritten with hplain | ⟨target, rfl⟩
  · exact .inl (by rw [Instruction.isPlain_seen, hplain])
  · exact .inr ⟨target.seen, rfl⟩

-- An action that neither returns nor exits goes on to what follows it.
theorem passes_acting {action : Action} (hret : ∀ value, action ≠ .ret value)
    (hexit : ∀ value, action ≠ .exit value) :
    ∀ instruction ∈ frame.acting number action,
      instruction.isPlain ∨ ∃ target, instruction = .call target := by
  intro instruction hm
  cases action with
  | define name value | assign name value =>
      rcases List.mem_append.mp hm with hm | hm
      · exact .inl (isPlain_of_mem_loading hm)
      · rw [List.mem_singleton.mp hm]
        exact .inl rfl
  | declare names =>
      obtain ⟨name, _, rfl⟩ := List.mem_map.mp hm
      exact .inl rfl
  | call | callAssign => exact passes_calling instruction hm
  | ret value => exact absurd rfl (hret value)
  | exit value => exact absurd rfl (hexit value)

end Frame

namespace Statement

open Pointers RayCompiler.Frame

variable {world : World} {entry : Word} {machine : Machine}

-- The induction is on the statements. Each of them finds the pointers settled.
theorem behaves_linesOf (frame : Frame) (number : Nat) (body : List Statement)
    {closing : List Instruction} (hcloses : Closes body closing) (history : List CallEvent)
    (hlocate : (settled frame.slots.frameSize).Locate entry machine) :
    world.Behaves entry (((linesOf frame number body).filterMap Line.code? ++ closing).map
      Instruction.seen) history machine := by
  induction body generalizing number history machine with
  | nil =>
      rw [hcloses (by simp)]
      have hend := @behaves_epilogue world entry [] history
      rw [List.append_nil] at hend
      exact (hend _).cons_plain rfl
  | cons statement more ih =>
      rw [linesOf, List.filterMap_append, List.append_assoc, List.map_append]
      cases statement with
      | externs | function => exact ih _ (hcloses.tail rfl) history hlocate
      | action position scope action =>
          rw [filterMap_lines]
          have hwalk := Walks.acting frame frame.slots.frameSize_mod number action
          cases action with
          | ret value => exact behaves_ret value _ history machine
          | exit value => exact behaves_exit value _ history machine
          | _ =>
              refine .append_walk hwalk.orderly_seen (fun _ _ haligned => haligned)
                (passes_seen (passes_acting (by simp) (by simp))) hlocate ?_
              exact fun later after hafter => ih _ (hcloses.tail rfl) later hafter

end Statement

-- The run of a whole function, from its entry, as its lines are read.
theorem Function.behaves (function : Function) (symbols : List String) (world : World)
    (history : List CallEvent) (machine : Machine) :
    world.Behaves (machine.registers .rsp) ((function.block symbols).code.map Instruction.seen)
      history machine := by
  have hentry : Pointers.entry.Locate (machine.registers .rsp) machine :=
    ⟨(spot_zero _).symm, by simp [Pointers.entry]⟩
  rw [code_block, List.map_append]
  refine .append_walk (Walks.entering function.slots).plain_seen (by simp [Instruction.isPlain])
    (Frame.passes_seen fun _ hm => .inl (Frame.isPlain_of_mem_entering hm)) hentry ?_
  intro later after hafter
  exact Statement.behaves_linesOf (function.frame symbols) 0 function.body
    (Statement.closes_closing function) later hafter

-- Addresses wrap around at a multiple of the alignment.
theorem toNat_spot_mod {base : Word} {distance : Int} (hbase : base.toNat % 16 = 8)
    (hdistance : distance % 16 = 8) : (spot base distance).toNat % 16 = 0 := by
  rw [spot, BitVec.toNat_add, BitVec.toNat_ofInt]
  omega

end RayCompiler
