import RayCompiler.Proofs.Semantics.Simulation

namespace RayCompiler

def Conclusion.ending (address : Word) : Conclusion → Ending
  | .returned _ => .returned address
  | .exited status => .exited status

namespace Activation

open RayCompiler.Frame

-- What a run of the code of a function has in common with its statements: how it ends, the calls,
-- the cells and the memory around them. A function that returns restores what its caller relies on.
structure Agrees (activation : Activation) (reach : Nat) (linkage : Linkage) (store : Store)
    (conclusion : Conclusion) (run : Run) : Prop where
  ending : run.ending = conclusion.ending linkage.address
  history : run.history = store.history
  mirrors : activation.Mirrors (-(reach : Nat)) 8 store run.machine.memory
  result : ∀ word, conclusion = .returned (some word) → run.machine.registers .rax = word
  pointer : ∀ value, conclusion = .returned value → run.machine.registers .rbp = linkage.pointer
  stack : ∀ value, conclusion = .returned value →
    run.machine.registers .rsp = activation.base + 16#64

variable {activation : Activation} {reach : Nat} {world : World} {linkage : Linkage}
  {store later : Store} {machine : Machine}

theorem Tracks.returned (h : activation.Tracks reach linkage store machine) {value : Option Word}
    (hvalue : ∀ word, value = some word → machine.registers .rax = word) (world : World)
    (rest : List Instruction) :
    activation.Agrees reach linkage store (.returned value)
      (world.run (epilogue ++ rest) store.history machine) := by
  have hrun : world.run (epilogue ++ rest) store.history machine =
      world.run (.ret :: rest) store.history
        (machine.steps world.layout [.copy .rsp .rbp, .pop .rbp]) := rfl
  have hpopped : machine.steps world.layout [.copy .rsp .rbp, .pop .rbp] =
      ((machine.set .rsp activation.base).set .rsp (activation.base + 8#64)).set .rbp
        linkage.pointer := by
    simp only [Machine.steps_cons, Machine.steps_nil, Machine.step, h.base, Machine.set_same,
      Machine.set_memory, h.keeps.saved]
  have hback : machine.memory.read (activation.base + 8#64) = linkage.address := by
    rw [add_ofNat_eq_spot]
    exact h.keeps.back
  rw [hrun, hpopped, World.run]
  refine ⟨?_, rfl, h.keeps.mirrors, ?_, ?_, ?_⟩
  · simp [Conclusion.ending, hback]
  · rintro word ⟨⟩
    simpa using hvalue word rfl
  · intro _ _
    simp
  · intro _ _
    simp [BitVec.add_assoc]

theorem Tracks.exited (h : activation.Tracks reach linkage store machine) {status : Word}
    (hstatus : machine.registers .rdi = status) (world : World) (rest : List Instruction) :
    activation.Agrees reach linkage store (.exited status)
      (world.run ([.set .rax exitCall, .syscall] ++ rest) store.history machine) := by
  have hrun : world.run ([.set .rax exitCall, .syscall] ++ rest) store.history machine =
      world.run (.syscall :: rest) store.history (machine.set .rax World.exitNumber) := rfl
  rw [hrun, World.run]
  refine ⟨?_, rfl, h.keeps.mirrors, ?_, ?_, ?_⟩
  · simp [Conclusion.ending, hstatus]
  all_goals rintro _ ⟨⟩

theorem foldl_setCell (names : List String) (store : Store) (cell : String → Slot) :
    (names.foldl (fun later name => later.setCell (cell name) 0) store).reads = store.reads ∧
      (names.foldl (fun later name => later.setCell (cell name) 0) store).history =
        store.history := by
  induction names generalizing store with
  | nil => exact ⟨rfl, rfl⟩
  | cons name more ih => exact ih _

theorem collected_reads (number : Nat) (result : Word) (output : Option Slot) :
    (activation.collected number store result output).reads = store.reads := by
  unfold collected
  cases output <;> rfl

theorem collected_history (number : Nat) (result : Word) (output : Option Slot) :
    (activation.collected number store result output).history = store.history := by
  unfold collected
  cases output <;> rfl

theorem perform_reads (oracle : Oracle) (store : Store) (action : Action) :
    (activation.perform oracle store action).1.reads =
      store.reads ++ action.operands.flatMap (activation.accesses store) := by
  cases action with
  | declare names =>
      simpa [perform, Action.operands] using (foldl_setCell names store activation.frame.variableCell).1
  | call call | callAssign name call =>
      simp only [perform, Activation.call, collected_reads, answered, reading, Action.operands]
  | _ => rfl

theorem mem_reads_perform (oracle : Oracle) {action : Action} {operand : Operand}
    (hoperand : operand ∈ action.operands) {address : Word}
    (h : address ∈ activation.accesses store operand) :
    address ∈ (activation.perform oracle store action).1.reads := by
  rw [perform_reads]
  exact List.mem_append_right _ (List.mem_flatMap.mpr ⟨operand, hoperand, h⟩)

theorem perform_history (oracle : Oracle) (store : Store) (action : Action) :
    (activation.perform oracle store action).1.history =
      store.history ++ (action.call?.map (activation.event store)).toList := by
  cases action with
  | declare names =>
      simpa [perform, Action.call?] using (foldl_setCell names store activation.frame.variableCell).2
  | call call | callAssign name call =>
      simp only [perform, Activation.call, collected_history, answered]
      rfl
  | _ => simp [perform, reading, Action.call?]

theorem subset_reads_run (oracle : Oracle) (body : List Statement) (store : Store) :
    store.reads ⊆ (activation.run oracle body store).1.reads := by
  induction body generalizing store with
  | nil => exact List.Subset.refl _
  | cons statement more ih =>
      cases statement with
      | externs | function => exact ih store
      | action position scope action =>
          have hone : store.reads ⊆ (activation.perform oracle store action).1.reads := by
            rw [perform_reads]
            exact List.subset_append_left _ _
          unfold run
          split
          · next later hperform =>
              rw [hperform] at hone
              exact List.Subset.trans hone (ih later)
          · next later conclusion hperform =>
              rw [hperform] at hone
              exact hone

-- What an action with a call needs: the machine is told how many arguments the call has, and they
-- fit below the frame together with the return address.
structure Affords (activation : Activation) (reach : Nat) (world : World) (number : Nat)
    (call : Call) : Prop where
  arity : world.arities[number]? = some call.arguments.length
  room : activation.frame.slots.frameSize + stackedBytes call.arguments + 8 ≤ reach

-- An action that does not end the function: its code leads to a state that tracks the new store.
theorem Tracks.continues (hosts : activation.Hosts reach world)
    (h : activation.Tracks reach linkage store machine) {action : Action}
    (hresolves : activation.frame.Resolves store.history.length action)
    (hcall : ∀ call, action.call? = some call →
      activation.Affords reach world store.history.length call)
    (hsafe : ∀ operand ∈ action.operands, ∀ address ∈ activation.accesses store operand,
      activation.Safe (-(reach : Nat)) 8 address)
    (hperform : activation.perform world.oracle store action = (later, none)) :
    ∃ after, activation.Tracks reach linkage later after ∧
      ∀ rest, world.run (activation.frame.acting store.history.length action ++ rest) store.history
        machine = world.run rest later.history after := by
  have hhistory := activation.perform_history world.oracle store action
  rw [hperform] at hhistory
  cases action with
  | define name value | assign name value =>
      cases hperform
      refine ⟨_, h.steps_storing hosts (variableCell_lt hresolves.1) hresolves.2
        (hsafe value (by simp [Action.operands])), fun rest => ?_⟩
      rw [acting, world.run_plain, hosts.layout]
      · rfl
      · intro instruction hm
        rcases List.mem_append.mp hm with hm | hm
        · exact isPlain_of_mem_loading hm
        · rw [List.mem_singleton.mp hm]
          rfl
  | declare names =>
      cases hperform
      refine ⟨_, h.steps_clearing hosts names hresolves, fun rest => ?_⟩
      rw [hhistory, acting, world.run_plain, hosts.layout]
      · simp [Action.call?]
      · intro instruction hm
        obtain ⟨name, _, rfl⟩ := List.mem_map.mp hm
        rfl
  | call call =>
      cases hperform
      have hafford := hcall call rfl
      obtain ⟨after, htracks, hrun⟩ := @Tracks.called _ _ _ _ _ _ hosts h call hresolves hafford.arity
        hafford.room hsafe none (by simp)
      exact ⟨after, htracks, fun rest => by rw [hhistory]; exact hrun rest⟩
  | callAssign name call =>
      cases hperform
      have hafford := hcall call rfl
      obtain ⟨after, htracks, hrun⟩ := @Tracks.called _ _ _ _ _ _ hosts h call hresolves.2
        hafford.arity hafford.room hsafe (some (activation.frame.variableCell name))
        (by rintro _ ⟨⟩; exact variableCell_lt hresolves.1)
      exact ⟨after, htracks, fun rest => by rw [hhistory]; exact hrun rest⟩
  | ret value => cases hperform
  | exit value => cases hperform

-- An action that ends the function: the rest of the code does not matter.
theorem Tracks.concludes (hosts : activation.Hosts reach world)
    (h : activation.Tracks reach linkage store machine) {action : Action}
    (hresolves : activation.frame.Resolves store.history.length action)
    (hsafe : ∀ operand ∈ action.operands, ∀ address ∈ activation.accesses store operand,
      activation.Safe (-(reach : Nat)) 8 address)
    {conclusion : Conclusion}
    (hperform : activation.perform world.oracle store action = (later, some conclusion))
    (rest : List Instruction) :
    activation.Agrees reach linkage later conclusion
      (world.run (activation.frame.acting store.history.length action ++ rest) store.history
        machine) := by
  cases action with
  | ret value =>
      cases hperform
      have hreading := h.reading [value]
      by_cases habsent : value = .absent
      · subst habsent
        exact hreading.returned (by simp) world rest
      · have hload := h.keeps.mirrors.steps_loading h.base (hresolves.resolve_left habsent)
          (hsafe value (by simp [Action.operands])) .rax
        rw [acting, List.append_assoc, world.run_plain _ _ _ fun _ hm => isPlain_of_mem_loading hm,
          hosts.layout, hload, if_neg habsent]
        refine (hreading.set (by decide) (by decide) _).returned ?_ world rest
        rintro _ ⟨⟩
        exact Machine.set_same _ _ _
  | exit value =>
      cases hperform
      have hreading := h.reading [value]
      by_cases habsent : value = .absent
      · subst habsent
        exact (hreading.set (by decide) (by decide) 0).exited (Machine.set_same _ .rdi _) world rest
      · have hload := h.keeps.mirrors.steps_loading h.base (hresolves.resolve_left habsent)
          (hsafe value (by simp [Action.operands])) .rdi
        rw [acting, if_neg habsent, if_neg habsent, List.append_assoc,
          world.run_plain _ _ _ fun _ hm => isPlain_of_mem_loading hm, hosts.layout, hload]
        exact (hreading.set (by decide) (by decide) _).exited (Machine.set_same _ _ _) world rest
  | _ => cases hperform

end Activation

end RayCompiler
