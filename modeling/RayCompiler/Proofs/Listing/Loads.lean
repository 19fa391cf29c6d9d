import RayCompiler.Proofs.Listing.Addresses

namespace RayCompiler

open RayCompiler.Frame

-- The arguments of a call with the registers they are loaded into. Those without a register of their
-- own are pushed from rax.
def Call.loads (call : Call) : List (Operand × Register) :=
  (stacked call.arguments).reverse.map (·, .rax) ++ call.arguments.zip Register.arguments

def Action.loads : Action → List (Operand × Register)
  | .define _ value => [(value, .rax)]
  | .declare _ => []
  | .assign _ value => [(value, .rax)]
  | .call made => made.loads
  | .callAssign _ made => made.loads
  | .ret value => [(value, .rax)]
  | .exit value => [(value, .rdi)]

def Statement.loads : Statement → List (Operand × Register)
  | .action _ _ effect => effect.loads
  | .externs _ _ => []
  | .function _ _ _ _ _ => []

theorem Call.exists_loads {call : Call} {operand : Operand} (h : operand ∈ call.arguments) :
    ∃ register, (operand, register) ∈ call.loads := by
  rcases mem_stacked_or_zip h with hm | ⟨register, hm⟩
  · exact ⟨.rax, List.mem_append_left _ (List.mem_map_of_mem hm)⟩
  · exact ⟨register, List.mem_append_right _ hm⟩

theorem Call.mem_arguments_of_loads {call : Call} {pair : Operand × Register}
    (h : pair ∈ call.loads) : pair.1 ∈ call.arguments := by
  rcases List.mem_append.mp h with h | h
  · obtain ⟨operand, hm, rfl⟩ := List.mem_map.mp h
    exact List.mem_of_mem_drop (List.mem_reverse.mp hm)
  · exact (List.of_mem_zip h).1

theorem Action.exists_loads {action : Action} {operand : Operand} (h : operand ∈ action.operands) :
    ∃ register, (operand, register) ∈ action.loads := by
  cases action with
  | declare => simp [operands] at h
  | call call | callAssign _ call => exact Call.exists_loads h
  | define | assign | ret =>
      rw [List.mem_singleton.mp h]
      exact ⟨.rax, List.mem_singleton_self _⟩
  | exit =>
      rw [List.mem_singleton.mp h]
      exact ⟨.rdi, List.mem_singleton_self _⟩

theorem Action.mem_operands_of_loads {action : Action} {pair : Operand × Register}
    (h : pair ∈ action.loads) : pair.1 ∈ action.operands := by
  cases action with
  | declare => simp [loads] at h
  | call call | callAssign _ call => exact Call.mem_arguments_of_loads h
  | define | assign | ret | exit =>
      rw [List.mem_singleton.mp h]
      exact List.mem_singleton_self _

-- The code of a call loads each argument in one stretch.
theorem loading_infix_calling (frame : Frame) (number : Nat) {call : Call} (output : Option Slot)
    {pair : Operand × Register} (h : pair ∈ call.loads) :
    loading pair.2 pair.1 <:+: frame.calling number call output := by
  apply List.infix_append_of_infix_left
  apply List.infix_append_of_infix_left
  rcases List.mem_append.mp h with h | h
  · obtain ⟨operand, hm, rfl⟩ := List.mem_map.mp h
    apply List.infix_append_of_infix_left
    apply List.infix_append_of_infix_right
    have hpush : loading .rax operand <:+: loading .rax operand ++ [.push .rax] :=
      List.infix_append_of_infix_left (List.infix_refl _)
    exact hpush.trans (List.infix_of_mem_flatten (List.mem_map_of_mem hm))
  · apply List.infix_append_of_infix_right
    exact List.infix_of_mem_flatten (List.mem_map_of_mem h)

theorem loading_infix_acting (frame : Frame) (number : Nat) {action : Action}
    {pair : Operand × Register} (h : pair ∈ action.loads) :
    loading pair.2 pair.1 <:+: frame.acting number action := by
  cases action with
  | declare => simp [Action.loads] at h
  | call call => exact loading_infix_calling frame number none h
  | callAssign name call => exact loading_infix_calling frame number _ h
  | define | assign | ret =>
      rw [List.mem_singleton.mp h]
      exact List.infix_append_of_infix_left (List.infix_refl _)
  | exit value =>
      rw [List.mem_singleton.mp h]
      apply List.infix_append_of_infix_left
      by_cases habsent : value = .absent
      · rw [habsent]
        exact List.nil_infix
      · rw [if_neg habsent]

namespace Function

variable {function : Function} {operand : Operand} {register : Register}

def loads (function : Function) : List (Operand × Register) :=
  function.body.flatMap Statement.loads

theorem exists_loads (h : operand ∈ function.body.flatMap Statement.operands) :
    ∃ register, (operand, register) ∈ function.loads := by
  obtain ⟨statement, hm, hoperand⟩ := List.mem_flatMap.mp h
  cases statement with
  | externs | function => simp [Statement.operands] at hoperand
  | action position scope action =>
      obtain ⟨register, hloads⟩ := Action.exists_loads hoperand
      exact ⟨register, List.mem_flatMap.mpr ⟨_, hm, hloads⟩⟩

theorem mem_operands_of_loads (h : (operand, register) ∈ function.loads) :
    operand ∈ function.body.flatMap Statement.operands := by
  obtain ⟨statement, hm, hpair⟩ := List.mem_flatMap.mp h
  cases statement with
  | externs | function => simp [Statement.loads] at hpair
  | action position scope action =>
      exact List.mem_flatMap.mpr ⟨_, hm, Action.mem_operands_of_loads hpair⟩

-- The lines of an action stand in one stretch, under the remark on it.
theorem exists_lines_eq (symbols : List String) {before after : List Statement} {position : Position}
    {scope : String} {action : Action}
    (hbody : function.body = before ++ .action position scope action :: after) :
    ∃ front back, (function.block symbols).lines = front ++ .place position ::
      ((function.frame symbols).acting (Statement.callTotal before) action).map .instruction ++
        back := by
  have hlines := Statement.linesOf_append (function.frame symbols) 0 before
    (.action position scope action :: after)
  rw [← hbody, Nat.zero_add, Statement.linesOf, Statement.lines] at hlines
  refine ⟨(Frame.entering function.slots).map .instruction ++
    Statement.linesOf (function.frame symbols) 0 before,
    Statement.linesOf (function.frame symbols)
      (Statement.callTotal before + (Statement.action position scope action).callCount) after ++
        function.closing.map .instruction, ?_⟩
  rw [block, hlines]
  simp only [List.append_assoc, List.cons_append]

theorem acting_subset_code {symbols : List String} {before after : List Statement}
    {position : Position} {scope : String} {action : Action}
    (hbody : function.body = before ++ .action position scope action :: after) :
    (function.frame symbols).acting (Statement.callTotal before) action ⊆
      (function.block symbols).code := by
  obtain ⟨front, back, hlines⟩ := function.exists_lines_eq symbols hbody
  intro instruction hm
  rw [Block.mem_code, hlines]
  simp [hm]

theorem loading_infix_lines (symbols : List String) (h : (operand, register) ∈ function.loads) :
    (loading register operand).map .instruction <:+: (function.block symbols).lines := by
  obtain ⟨statement, hm, hpair⟩ := List.mem_flatMap.mp h
  cases statement with
  | externs | function => simp [Statement.loads] at hpair
  | action position scope action =>
      obtain ⟨before, after, hbody⟩ := List.append_of_mem hm
      obtain ⟨front, back, hlines⟩ := function.exists_lines_eq symbols hbody
      rw [hlines]
      apply List.infix_append_of_infix_left
      apply List.infix_append_of_infix_right
      exact List.infix_cons ((loading_infix_acting (function.frame symbols) _ hpair).map _)

end Function

end RayCompiler
