import RayCompiler.Proofs.Listing.Theorems
import RayCompiler.Proofs.Semantics.Basic
import RayCompiler.Proofs.Slot.History

namespace RayCompiler

-- A step reports errors: it fails with the first of them, and succeeds if there is none.
def Reports {α : Type} (step : Except AssembleError α) (errors : List AssembleError) : Prop :=
  match step with
  | .ok _ => errors = []
  | .error error => errors.head? = some error

section Reports

variable {α β : Type} {step : Except AssembleError α} {next : α → Except AssembleError β}
  {errors others : List AssembleError}

theorem Reports.ok_iff (h : Reports step errors) : (∃ value, step = .ok value) ↔ errors = [] := by
  cases step with
  | ok value => exact ⟨fun _ => h, fun _ => ⟨value, rfl⟩⟩
  | error error =>
      have hhead : errors.head? = some error := h
      constructor
      · rintro ⟨_, ⟨⟩⟩
      · rintro rfl
        cases hhead

theorem Reports.error_iff (h : Reports step errors) {error : AssembleError} :
    step = .error error ↔ errors.head? = some error := by
  cases step with
  | ok value =>
      have hnone : errors = [] := h
      simp [hnone]
  | error found =>
      have hhead : errors.head? = some found := h
      simp [hhead]

-- What a step reports comes before what the steps after it report.
theorem Reports.bind (h : Reports step errors)
    (hnext : ∀ value, step = .ok value → Reports (next value) others) :
    Reports (step >>= next) (errors ++ others) := by
  cases step with
  | ok value =>
      have hnone : errors = [] := h
      rw [hnone]
      exact hnext value rfl
  | error error =>
      have hhead : errors.head? = some error := h
      show (errors ++ others).head? = some error
      rw [List.head?_append, hhead]
      rfl

theorem Reports.pure_bind (h : Reports step errors) (result : α → β) :
    Reports (do return result (← step)) errors := by
  have hpure : ∀ value, step = .ok value → Reports (pure (result value)) [] := fun _ _ => rfl
  have hbind := h.bind hpure
  rwa [List.append_nil] at hbind

theorem reports_mapM {f : α → Except AssembleError β} {errorsOf : α → List AssembleError}
    {items : List α} (h : ∀ item ∈ items, Reports (f item) (errorsOf item)) :
    Reports (items.mapM f) (items.flatMap errorsOf) := by
  induction items with
  | nil => rfl
  | cons item more ih =>
      have hmore := ih fun other hm => h other (by simp [hm])
      rw [List.mapM_cons, List.flatMap_cons]
      exact (h item (by simp)).bind fun value _ => hmore.pure_bind _

end Reports

-- What the code of a statement cannot do without.
inductive Need where
  | variable (name : String)
  | slot (slot : Slot)
  | result (call : Nat)
  | callee (name : String)

def Operand.needs (operand : Operand) : List Need := operand.slot?.toList.map .slot

-- The order in which a call looks for what it needs: operands that go to the stack come from the last
-- one down, and then those that go to registers.
def Call.needs (number : Nat) (call : Call) : List Need :=
  .callee call.callee :: .result number ::
    ((call.arguments.drop 6).reverse ++ call.arguments.take 6).flatMap Operand.needs

def Action.needs (number : Nat) : Action → List Need
  | .define name value => .variable name :: value.needs
  | .declare names => names.map .variable
  | .assign name value => .variable name :: value.needs
  | .call made => made.needs number
  | .callAssign name made => .variable name :: made.needs number
  | .ret value => value.needs
  | .exit value => value.needs

-- A function inside another one needs nothing from it.
def Statement.needs (number : Nat) : Statement → List Need
  | .action _ _ effect => effect.needs number
  | .externs _ _ => []
  | .function _ _ _ _ _ => []

-- The needs of statements, the first call of which has the given number.
def Statement.needsFrom : Nat → List Statement → List Need
  | _, [] => []
  | number, statement :: more =>
    statement.needs number ++ needsFrom (number + statement.callCount) more

namespace Frame

variable {frame : Frame}

def Meets (frame : Frame) : Need → Prop
  | .variable name => (frame.slots.resolve? name).isSome
  | .slot slot => slot < frame.slots.length
  | .result call => call < frame.slots.calls
  | .callee name => name ∈ frame.symbols ∨ (frame.slots.resolve? name).isSome

instance (frame : Frame) : DecidablePred frame.Meets := fun need =>
  match need with
  | .variable _ => inferInstanceAs (Decidable (_ = true))
  | .slot _ => inferInstanceAs (Decidable (_ < _))
  | .result _ => inferInstanceAs (Decidable (_ < _))
  | .callee _ => inferInstanceAs (Decidable (_ ∨ _))

def complaint (frame : Frame) : Need → AssembleError
  | .variable name => .unknownSlot frame.function (.variable name)
  | .slot slot => .unknownSlot frame.function (.slot slot)
  | .result call => .unknownSlot frame.function (.result call)
  | .callee name => .unknownCallee frame.function name

-- The errors for those needs that the frame does not meet.
def complaints (frame : Frame) (needs : List Need) : List AssembleError :=
  (needs.filter fun need => ¬frame.Meets need).map frame.complaint

theorem complaints_append (first second : List Need) :
    frame.complaints (first ++ second) = frame.complaints first ++ frame.complaints second := by
  simp [complaints]

theorem complaints_flatMap {α : Type} (items : List α) (needs : α → List Need) :
    frame.complaints (items.flatMap needs) = items.flatMap fun item => frame.complaints (needs item) := by
  simp [complaints, List.filter_flatMap, List.map_flatMap]

theorem complaints_eq_nil_iff {needs : List Need} :
    frame.complaints needs = [] ↔ ∀ need ∈ needs, frame.Meets need := by
  simp [complaints]

-- A step that looks for one thing, and complains if it is not there.
theorem reports_need {α : Type} {step : Except AssembleError α} {need : Need}
    (hok : frame.Meets need → ∃ value, step = .ok value)
    (herror : ¬frame.Meets need → step = .error (frame.complaint need)) :
    Reports step (frame.complaints [need]) := by
  by_cases h : frame.Meets need
  · obtain ⟨value, rfl⟩ := hok h
    simp [Reports, complaints, h]
  · rw [herror h]
    simp [Reports, complaints, h]

theorem reports_slotAddress (slot : Slot) :
    Reports (frame.slotAddress slot) (frame.complaints [.slot slot]) := by
  refine reports_need (fun h => ⟨_, slotAddress_ok_iff.mpr ⟨h, rfl⟩⟩) fun h => if_neg ?_
  simpa [SlotTable.contains, Meets] using h

theorem reports_variableSlot (name : String) :
    Reports (frame.variableSlot name) (frame.complaints [.variable name]) := by
  refine reports_need (fun h => ⟨_, variableSlot_ok_iff.mpr ⟨h, rfl⟩⟩) fun h => ?_
  have hnone : frame.slots.resolve? name = none := by simpa [Meets] using h
  rw [variableSlot, hnone]
  rfl

theorem reports_resultSlot (hbuilt : frame.slots.Built) (number : Nat) :
    Reports (frame.resultSlot number) (frame.complaints [.result number]) := by
  have hiff : (frame.slots.resultOf? number).isSome ↔ number < frame.slots.calls :=
    SlotTable.slotOf?_isSome_iff.trans hbuilt.result_mem_iff
  refine reports_need (fun h => ⟨_, resultSlot_ok_iff.mpr ⟨hiff.mpr h, rfl⟩⟩) fun h => ?_
  have hnone : frame.slots.resultOf? number = none := by
    simpa [Meets, ← hiff] using h
  rw [resultSlot, hnone]
  rfl

theorem reports_callTarget (name : String) :
    Reports (frame.callTarget name) (frame.complaints [.callee name]) := by
  refine reports_need (fun h => ⟨_, callTarget_ok_iff.mpr ⟨h, rfl⟩⟩) fun h => ?_
  obtain ⟨hsymbol, hslot⟩ := not_or.mp h
  have hnone : frame.slots.resolve? name = none := by simpa using hslot
  rw [callTarget, if_neg (by simpa using hsymbol), hnone]
  rfl

theorem reports_load (register : Register) (operand : Operand) :
    Reports (frame.load register operand) (frame.complaints operand.needs) := by
  cases operand with
  | «variable» slot | address slot | pointee slot => exact (reports_slotAddress slot).pure_bind _
  | _ => rfl

-- Where the slot is found already, nothing can go wrong.
theorem reports_store {slot : Slot} (h : slot < frame.slots.length) (register : Register) :
    Reports (frame.store slot register) [] := by
  rw [store_ok_iff.mpr ⟨h, rfl⟩]
  rfl

theorem reports_clear (name : String) :
    Reports (frame.clear name) (frame.complaints [.variable name]) := by
  rw [← List.append_nil (frame.complaints _)]
  refine (reports_variableSlot name).bind fun slot hslot => ?_
  obtain ⟨hsome, rfl⟩ := variableSlot_ok_iff.mp hslot
  rw [slotAddress_ok_iff.mpr ⟨variableCell_lt hsome, rfl⟩]
  rfl

theorem map_fst_zip_take {α β : Type} (first : List α) (second : List β) :
    (first.zip second).map (·.1) = first.take second.length := by
  induction first generalizing second with
  | nil => simp
  | cons item more ih =>
      cases second with
      | nil => simp
      | cons other others => simp [ih]

theorem reports_callCode (hbuilt : frame.slots.Built) (number : Nat) (call : Call)
    {output : Option Slot} (houtput : ∀ slot ∈ output, slot < frame.slots.length) :
    Reports (frame.callCode number call output) (frame.complaints (call.needs number)) := by
  have hpushes : Reports ((call.arguments.drop 6).reverse.mapM fun argument => do
        return (← frame.load .rax argument) ++ [.push .rax])
      (frame.complaints ((call.arguments.drop 6).reverse.flatMap Operand.needs)) := by
    rw [complaints_flatMap]
    exact reports_mapM fun argument _ => (reports_load .rax argument).pure_bind _
  have hloads : Reports ((call.arguments.zip Register.arguments).mapM fun pair =>
        frame.load pair.2 pair.1)
      (frame.complaints ((call.arguments.take 6).flatMap Operand.needs)) := by
    have htake : call.arguments.take 6 = (call.arguments.zip Register.arguments).map (·.1) :=
      (map_fst_zip_take _ Register.arguments).symm
    rw [htake, List.flatMap_map, complaints_flatMap]
    exact reports_mapM fun pair _ => reports_load pair.2 pair.1
  have hneeds : frame.complaints (call.needs number) =
      frame.complaints [.callee call.callee] ++ (frame.complaints [.result number] ++
        (frame.complaints ((call.arguments.drop 6).reverse.flatMap Operand.needs) ++
          (frame.complaints ((call.arguments.take 6).flatMap Operand.needs) ++ ([] ++ [])))) := by
    rw [List.append_nil, List.append_nil, ← complaints_append, ← complaints_append,
      ← complaints_append, ← List.flatMap_append]
    rfl
  rw [hneeds, callCode]
  refine (reports_callTarget _).bind fun target _ => (reports_resultSlot hbuilt _).bind ?_
  intro result hresult
  obtain ⟨hsome, rfl⟩ := resultSlot_ok_iff.mp hresult
  refine hpushes.bind fun pushes _ => hloads.bind fun loads _ => ?_
  refine (reports_store (resultCell_lt hsome) .rax).bind fun kept _ => ?_
  cases output with
  | none => rfl
  | some slot => exact (reports_store (houtput slot rfl) .rax).pure_bind _

theorem reports_storing (name : String) (value : Operand) :
    Reports (do
      let slot ← frame.variableSlot name
      return (← frame.load .rax value) ++ (← frame.store slot .rax))
      (frame.complaints (.variable name :: value.needs)) := by
  have hneeds : frame.complaints (.variable name :: value.needs) =
      frame.complaints [.variable name] ++ (frame.complaints value.needs ++ []) := by
    rw [List.append_nil, ← complaints_append]
    rfl
  rw [hneeds]
  refine (reports_variableSlot name).bind fun slot hslot => ?_
  obtain ⟨hsome, rfl⟩ := variableSlot_ok_iff.mp hslot
  exact (reports_load .rax value).bind fun code _ =>
    (reports_store (variableCell_lt hsome) .rax).pure_bind _

theorem reports_actionCode (hbuilt : frame.slots.Built) (number : Nat) (action : Action) :
    Reports (frame.actionCode number action) (frame.complaints (action.needs number)) := by
  cases action with
  | define name value | assign name value => exact reports_storing name value
  | declare names =>
      have hclear := reports_mapM fun name (_ : name ∈ names) => @reports_clear frame name
      rw [← complaints_flatMap names fun name => [.variable name], ← List.map_eq_flatMap] at hclear
      exact hclear.pure_bind _
  | call made => exact @reports_callCode frame hbuilt number made none (by simp)
  | callAssign name made =>
      have hneeds : frame.complaints ((Action.callAssign name made).needs number) =
          frame.complaints [.variable name] ++ frame.complaints (made.needs number) := by
        rw [← complaints_append]
        rfl
      rw [hneeds]
      refine (reports_variableSlot name).bind fun slot hslot => ?_
      obtain ⟨hsome, rfl⟩ := variableSlot_ok_iff.mp hslot
      exact reports_callCode hbuilt number made (by simpa using variableCell_lt hsome)
  | ret value => exact (reports_load .rax value).pure_bind _
  | exit value =>
      cases value with
      | absent => rfl
      | _ => exact (reports_load .rdi _).pure_bind _

end Frame

open RayCompiler.Frame

section Statements

variable {frame : Frame}

theorem Statement.reports_assemble (hbuilt : frame.slots.Built) (number : Nat)
    (statement : Statement) :
    Reports (statement.assemble frame number) (frame.complaints (statement.needs number)) := by
  cases statement with
  | externs | function => rfl
  | action position scope action => exact (reports_actionCode hbuilt number action).pure_bind _

theorem Statement.reports_assembleAll (hbuilt : frame.slots.Built) (number : Nat)
    (body : List Statement) :
    Reports (assembleAll frame number body) (frame.complaints (needsFrom number body)) := by
  induction body generalizing number with
  | nil => rfl
  | cons statement more ih =>
      rw [needsFrom, complaints_append]
      exact (reports_assemble hbuilt number statement).bind fun _ _ => (ih _).pure_bind _

theorem Function.reports_assemble {function : Function} (hbuilt : function.slots.Built)
    (symbols : List String) :
    Reports (function.assemble symbols)
      ((function.frame symbols).complaints (Statement.needsFrom 0 function.body)) := by
  rw [assemble, ← frame, prologue_eq, ok_bind]
  exact (Statement.reports_assembleAll hbuilt 0 function.body).pure_bind _

end Statements

namespace Program

variable {program : Program}

-- The errors for names that stand among the ones before them.
def repeated : List String → List (Position × String) → List AssembleError
  | _, [] => []
  | seen, (position, name) :: more =>
    (if name ∈ seen then [.duplicateExtern name position] else []) ++ repeated (seen ++ [name]) more

-- Everything that is wrong with a program, in the order in which it is looked for.
def violations (program : Program) : List AssembleError :=
  repeated [] program.declared ++
    (if entryPoint ∈ program.introduced.functions then [] else [.missingEntryPoint]) ++
    program.functions.flatMap fun function =>
      (function.frame program.symbols).complaints (Statement.needsFrom 0 function.body)

theorem reports_foldlM_addDeclared (names : List (Position × String)) (seen : List String) :
    Reports (names.foldlM addDeclared seen) (repeated seen names) := by
  induction names generalizing seen with
  | nil => rfl
  | cons pair more ih =>
      obtain ⟨position, name⟩ := pair
      rw [List.foldlM_cons, repeated]
      by_cases hm : name ∈ seen
      · have hstep : addDeclared seen (position, name) = .error (.duplicateExtern name position) := by
          simp [addDeclared, addImport, hm]
        rw [hstep, if_pos hm]
        rfl
      · have hstep : addDeclared seen (position, name) = .ok (seen ++ [name]) := by
          simp [addDeclared, addImport, hm]
        rw [hstep, if_neg hm]
        exact ih _

theorem reports_imports : Reports program.imports (repeated [] program.declared) := by
  rw [imports_eq]
  exact reports_foldlM_addDeclared _ _

theorem reports_generate (hbuilt : ∀ function ∈ program.functions, function.slots.Built) :
    Reports program.generate program.violations := by
  refine Reports.pure_bind ?_ _
  rw [assemble, violations, List.append_assoc]
  refine reports_imports.bind fun imports himports => ?_
  obtain ⟨_, rfl⟩ := imports_ok_iff.mp himports
  have hblocks := reports_mapM fun function hm =>
    Function.reports_assemble (hbuilt function hm) program.symbols
  by_cases hentry : entryPoint ∈ program.introduced.functions
  · have hcontains : (program.functions.map (·.name)).contains entryPoint = true :=
      List.contains_iff_mem.mpr hentry
    simp only [hcontains, hentry, Bool.not_true, Bool.false_eq_true, if_false, if_true]
    exact hblocks.pure_bind _
  · have hcontains : (program.functions.map (·.name)).contains entryPoint = false := by
      simpa [introduced] using hentry
    simp only [hcontains, hentry, if_false]
    rfl

end Program

-- The names that an action gives a value to.
def Action.storedNames : Action → List String
  | .define name _ => [name]
  | .declare names => names
  | .assign name _ => [name]
  | .callAssign name _ => [name]
  | .call _ => []
  | .ret _ => []
  | .exit _ => []

namespace Statement

def storedNames : Statement → List String
  | .action _ _ effect => effect.storedNames
  | .externs _ _ => []
  | .function _ _ _ _ _ => []

def call? : Statement → Option Call
  | .action _ _ effect => effect.call?
  | .externs _ _ => none
  | .function _ _ _ _ _ => none

end Statement

-- What a function has to fulfil by itself, for its own statements only: its operands lie in its
-- table, and so do the names that get a value; there is a slot for each call, and every name that is
-- called is known to the program or in the table.
structure Function.Complete (known : KnownNames) (function : Function) : Prop where
  operands : ∀ operand ∈ function.body.flatMap Statement.operands, ∀ slot,
    operand.slot? = some slot → slot < function.slots.length
  stored : ∀ name ∈ function.body.flatMap Statement.storedNames,
    (function.slots.resolve? name).isSome
  calls : Statement.callTotal function.body ≤ function.slots.calls
  callees : ∀ call ∈ function.body.filterMap Statement.call?, call.callee ∈ known.externs ∨
    call.callee ∈ known.functions ∨ (function.slots.resolve? call.callee).isSome

structure Program.Complete (program : Program) : Prop where
  distinct : program.introduced.externs.Nodup
  entry : entryPoint ∈ program.introduced.functions
  functions : ∀ function ∈ program.functions, function.Complete program.introduced

namespace Frame

variable {frame : Frame}

theorem meets_operandNeeds_iff {operand : Operand} :
    (∀ need ∈ operand.needs, frame.Meets need) ↔ frame.Covers operand := by
  simp [Operand.needs, Covers, Meets]

theorem meets_callNeeds_iff {number : Nat} {call : Call} :
    (∀ need ∈ call.needs number, frame.Meets need) ↔
      frame.Meets (.callee call.callee) ∧ number < frame.slots.calls ∧
        ∀ operand ∈ call.arguments, frame.Covers operand := by
  have hmem : ∀ operand, operand ∈ (call.arguments.drop 6).reverse ++ call.arguments.take 6 ↔
      operand ∈ call.arguments := by
    intro operand
    rw [List.mem_append, List.mem_reverse, or_comm, ← List.mem_append, List.take_append_drop]
  simp only [Call.needs, List.forall_mem_cons, List.forall_mem_flatMap, hmem, meets_operandNeeds_iff]
  rfl

-- The numbers of so many calls from the given one on have slots.
def Numbers (frame : Frame) (number count : Nat) : Prop :=
  ∀ other, number ≤ other → other < number + count → other < frame.slots.calls

theorem numbers_zero (number : Nat) : frame.Numbers number 0 := by
  intro other hle hlt
  omega

theorem numbers_one {number : Nat} : frame.Numbers number 1 ↔ number < frame.slots.calls := by
  constructor
  · intro h
    exact h number (by omega) (by omega)
  · intro h other hle hlt
    omega

theorem numbers_add {number first second : Nat} :
    frame.Numbers number (first + second) ↔
      frame.Numbers number first ∧ frame.Numbers (number + first) second := by
  constructor
  · intro h
    exact ⟨fun other hle hlt => h other hle (by omega),
      fun other hle hlt => h other (by omega) (by omega)⟩
  · rintro ⟨hfirst, hsecond⟩ other hle hlt
    by_cases hother : other < number + first
    · exact hfirst other hle hother
    · exact hsecond other (by omega) (by omega)

theorem numbers_from_zero {count : Nat} : frame.Numbers 0 count ↔ count ≤ frame.slots.calls := by
  constructor
  · intro h
    by_contra hlt
    exact absurd (h frame.slots.calls (by omega) (by omega)) (by omega)
  · intro h other _ hlt
    omega

theorem meets_needs_iff {number : Nat} {statement : Statement} :
    (∀ need ∈ statement.needs number, frame.Meets need) ↔
      (∀ operand ∈ statement.operands, frame.Covers operand) ∧
        (∀ name ∈ statement.storedNames, frame.Meets (.variable name)) ∧
        frame.Numbers number statement.callCount ∧
        ∀ call ∈ statement.call?, frame.Meets (.callee call.callee) := by
  cases statement with
  | externs | function =>
      simp [Statement.needs, Statement.operands, Statement.storedNames, Statement.call?,
        Statement.callCount, numbers_zero]
  | action position scope action =>
      cases action <;>
        simp only [Statement.needs, Action.needs, Statement.operands, Action.operands,
          Statement.storedNames, Action.storedNames, Statement.call?, Action.call?,
          Statement.callCount, numbers_zero, numbers_one, meets_operandNeeds_iff,
          meets_callNeeds_iff, List.forall_mem_cons, List.forall_mem_map, Option.mem_some_iff,
          Option.not_mem_none, forall_eq', false_implies, implies_true, and_true] <;>
        tauto

-- The needs of all statements together: what each of them needs, and consecutive numbers for the
-- calls.
theorem meets_needsFrom_iff {number : Nat} {body : List Statement} :
    (∀ need ∈ Statement.needsFrom number body, frame.Meets need) ↔
      (∀ operand ∈ body.flatMap Statement.operands, frame.Covers operand) ∧
        (∀ name ∈ body.flatMap Statement.storedNames, frame.Meets (.variable name)) ∧
        frame.Numbers number (Statement.callTotal body) ∧
        ∀ call ∈ body.filterMap Statement.call?, frame.Meets (.callee call.callee) := by
  induction body generalizing number with
  | nil => simp [Statement.needsFrom, Statement.callTotal, numbers_zero]
  | cons statement more ih =>
      have hcalls : (∀ call ∈ (statement :: more).filterMap Statement.call?,
          frame.Meets (.callee call.callee)) ↔
          (∀ call ∈ statement.call?, frame.Meets (.callee call.callee)) ∧
            ∀ call ∈ more.filterMap Statement.call?, frame.Meets (.callee call.callee) := by
        cases hcall : statement.call? <;> simp [hcall]
      have htotal : Statement.callTotal (statement :: more) =
          statement.callCount + Statement.callTotal more := List.sum_cons
      rw [Statement.needsFrom, List.forall_mem_append, meets_needs_iff, ih, hcalls, htotal,
        numbers_add, List.flatMap_cons, List.flatMap_cons, List.forall_mem_append,
        List.forall_mem_append]
      tauto

end Frame

theorem Function.complete_iff {function : Function} {program : Program} :
    (∀ need ∈ Statement.needsFrom 0 function.body,
      (function.frame program.symbols).Meets need) ↔ function.Complete program.introduced := by
  have hcallee : ∀ name, (function.frame program.symbols).Meets (.callee name) ↔
      name ∈ program.introduced.externs ∨ name ∈ program.introduced.functions ∨
        (function.slots.resolve? name).isSome := by
    intro name
    rw [Frame.Meets, Function.frame, symbols_eq, List.mem_append, or_assoc]
  simp only [Frame.meets_needsFrom_iff, Frame.numbers_from_zero, hcallee]
  exact ⟨fun h => ⟨h.1, h.2.1, h.2.2.1, h.2.2.2⟩,
    fun h => ⟨h.operands, h.stored, h.calls, h.callees⟩⟩

theorem Program.violations_eq_nil_iff {program : Program} :
    program.violations = [] ↔ program.Complete := by
  have hrepeated : repeated [] program.declared = [] ↔ program.introduced.externs.Nodup := by
    rw [← reports_imports.ok_iff, ← declared_names]
    simp [imports_ok_iff]
  have hentry : (if entryPoint ∈ program.introduced.functions then [] else
      [AssembleError.missingEntryPoint]) = [] ↔ entryPoint ∈ program.introduced.functions := by
    split <;> simp [*]
  simp only [violations, List.append_eq_nil_iff, List.flatMap_eq_nil_iff,
    Frame.complaints_eq_nil_iff, Function.complete_iff, hrepeated, hentry]
  exact ⟨fun h => ⟨h.1.1, h.1.2, h.2⟩, fun h => ⟨⟨h.distinct, h.entry⟩, h.functions⟩⟩

-- A program has a listing exactly if it is complete, whether or not a parser could build it.
-- Otherwise the error is the first of its violations.
theorem generate_of_built {program : Program}
    (hbuilt : ∀ function ∈ program.functions, function.slots.Built) :
    ((∃ text, program.generate = .ok text) ↔ program.Complete) ∧
      ∀ error, program.generate = .error error ↔ program.violations.head? = some error := by
  have hreports := Program.reports_generate hbuilt
  exact ⟨hreports.ok_iff.trans Program.violations_eq_nil_iff, fun error => hreports.error_iff⟩

-- The entry point is complete. Inside it stands a function whose call has a target and a slot, but
-- three operands outside the table: the last two of eight, and the first one.
def misplacedProgram : Program where
  statements := [.function .start "main" [] [
    .function .start "inner" ["a"] [
      .action .start "inner" (.callAssign "a" ⟨"a", [.variable 7, .literal 1, .literal 2, .literal 3,
        .literal 4, .literal 5, .address 8, .pointee 9]⟩)] ⟨["a"], [.result 0]⟩] .empty]
  data := []

theorem generate_misplacedProgram : (∀ function ∈ misplacedProgram.functions, function.slots.Built) ∧
    misplacedProgram.generate = .error (.unknownSlot "inner" (.slot 9)) ∧
    ¬misplacedProgram.Complete := by
  have hbuilt : ∀ function ∈ misplacedProgram.functions, function.slots.Built := by
    have hmain : SlotTable.empty.Built := .parameters (rfl : SlotTable.ofParameters [] = _)
    have hinner : SlotTable.Built ⟨["a"], [.result 0]⟩ :=
      .reserved (.parameters (rfl : SlotTable.ofParameters ["a"] = _))
    simpa [misplacedProgram, Program.functions, Statement.functionsIn, Statement.functions] using
      ⟨hmain, hinner⟩
  have hgenerate := generate_of_built hbuilt
  have herror : misplacedProgram.generate = .error (.unknownSlot "inner" (.slot 9)) :=
    (hgenerate.2 _).mpr (by decide)
  refine ⟨hbuilt, herror, fun hcomplete => ?_⟩
  obtain ⟨text, htext⟩ := hgenerate.1.mpr hcomplete
  rw [herror] at htext
  cases htext

end RayCompiler
