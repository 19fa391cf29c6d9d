import RayCompiler.Proofs.Listing.Emission

namespace RayCompiler

-- The slot that an operand is about.
def Operand.slot? : Operand → Option Slot
  | .variable slot => some slot
  | .address slot => some slot
  | .pointee slot => some slot
  | _ => none

section Steps

variable {ε α β : Type} {first : Except ε α} {next : α → Except ε β}

theorem except_bind_eq_ok {result : β} :
    first >>= next = .ok result ↔ ∃ middle, first = .ok middle ∧ next middle = .ok result := by
  cases first with
  | error error => simp [bind, Except.bind]
  | ok value => simp [bind, Except.bind]

-- A step whose only result is known, and the condition on which it gives it.
theorem except_bind_eq_ok_of {condition : Prop} {value : α} {result : β}
    (h : ∀ found, first = .ok found ↔ condition ∧ found = value) :
    first >>= next = .ok result ↔ condition ∧ next value = .ok result := by
  rw [except_bind_eq_ok]
  constructor
  · rintro ⟨middle, hfirst, hnext⟩
    obtain ⟨hcondition, rfl⟩ := (h middle).mp hfirst
    exact ⟨hcondition, hnext⟩
  · rintro ⟨hcondition, hnext⟩
    exact ⟨value, (h value).mpr ⟨hcondition, rfl⟩, hnext⟩

theorem except_pure_eq_ok {value result : α} :
    (pure value : Except ε α) = .ok result ↔ result = value := by
  simp [pure, Except.pure, eq_comm]

theorem except_throw_ne_ok {error : ε} {result : α} : (throw error : Except ε α) ≠ .ok result :=
  nofun

end Steps

end RayCompiler

namespace RayCompiler.Frame

variable {frame : Frame}

-- The frame has the slot that an operand is about.
def Covers (frame : Frame) (operand : Operand) : Prop :=
  ∀ slot, operand.slot? = some slot → slot < frame.slots.length

-- What a call needs to have code: a target, arguments in the frame and a slot for its result.
structure Serves (frame : Frame) (number : Nat) (call : Call) : Prop where
  callable : call.callee ∈ frame.symbols ∨ (frame.slots.resolve? call.callee).isSome
  covers : ∀ argument ∈ call.arguments, frame.Covers argument
  result : (frame.slots.resultOf? number).isSome

-- What an action needs to have code. The symbols in its operands are not looked up.
def Accepts (frame : Frame) (number : Nat) : Action → Prop
  | .define name value => (frame.slots.resolve? name).isSome ∧ frame.Covers value
  | .declare names => ∀ name ∈ names, (frame.slots.resolve? name).isSome
  | .assign name value => (frame.slots.resolve? name).isSome ∧ frame.Covers value
  | .call call => frame.Serves number call
  | .callAssign name call => (frame.slots.resolve? name).isSome ∧ frame.Serves number call
  | .ret value => frame.Covers value
  | .exit value => frame.Covers value

def AcceptsAll (frame : Frame) : Nat → List Statement → Prop
  | _, [] => True
  | number, statement :: more =>
    (∀ position scope action, statement = .action position scope action →
      frame.Accepts number action) ∧ frame.AcceptsAll (number + statement.callCount) more

theorem Gives.covers {operand : Operand} (h : frame.Gives operand) : frame.Covers operand := by
  intro slot hs
  cases operand with
  | «variable» | address | pointee =>
      cases hs
      exact h
  | _ => cases hs

theorem covers_absent (frame : Frame) : frame.Covers .absent := by
  rintro _ ⟨⟩

theorem Calls.serves {number : Nat} {call : Call} (h : frame.Calls number call) :
    frame.Serves number call :=
  ⟨h.callable, fun argument hm => (h.gives argument hm).covers, h.result⟩

theorem Resolves.accepts {number : Nat} {action : Action} (h : frame.Resolves number action) :
    frame.Accepts number action := by
  cases action with
  | define | assign => exact ⟨h.1, h.2.covers⟩
  | declare => exact h
  | call => exact Calls.serves h
  | callAssign => exact ⟨h.1, h.2.serves⟩
  | ret | exit =>
      rcases h with rfl | h
      · exact frame.covers_absent
      · exact h.covers

theorem ResolvesAll.acceptsAll {number : Nat} {body : List Statement}
    (h : frame.ResolvesAll number body) : frame.AcceptsAll number body := by
  induction body generalizing number with
  | nil => trivial
  | cons statement more ih =>
      exact ⟨fun position scope action he => (h.1 position scope action he).accepts, ih h.2⟩

theorem slotAddress_ok_iff {slot : Slot} {address : Address} :
    frame.slotAddress slot = .ok address ↔ slot < frame.slots.length ∧ address = slotPlace slot := by
  by_cases h : slot < frame.slots.length <;>
    simp [slotAddress, SlotTable.contains, h, slotPlace, eq_comm]

theorem variableSlot_ok_iff {name : String} {slot : Slot} :
    frame.variableSlot name = .ok slot ↔
      (frame.slots.resolve? name).isSome ∧ slot = frame.variableCell name := by
  unfold variableSlot variableCell
  cases frame.slots.resolve? name <;> simp [eq_comm]

theorem resultSlot_ok_iff {number : Nat} {slot : Slot} :
    frame.resultSlot number = .ok slot ↔
      (frame.slots.resultOf? number).isSome ∧ slot = frame.resultCell number := by
  unfold resultSlot resultCell
  cases frame.slots.resultOf? number <;> simp [eq_comm]

theorem store_ok_iff {slot : Slot} {register : Register} {code : List Instruction} :
    frame.store slot register = .ok code ↔
      slot < frame.slots.length ∧ code = [.store (slotPlace slot) register] := by
  rw [store, except_bind_eq_ok_of fun _ => slotAddress_ok_iff, except_pure_eq_ok]

theorem load_ok_iff {operand : Operand} {register : Register} {code : List Instruction} :
    frame.load register operand = .ok code ↔
      frame.Covers operand ∧ code = loading register operand := by
  cases operand with
  | «variable» slot | address slot | pointee slot =>
      rw [load, except_bind_eq_ok_of fun _ => slotAddress_ok_iff, except_pure_eq_ok]
      simp [Covers, Operand.slot?, loading]
  | _ => simp [load, loading, Covers, Operand.slot?, eq_comm]

theorem ok_bind {α β : Type} {value : α} {next : α → Except AssembleError β} :
    (Except.ok value >>= next) = next value := rfl

-- A list of parts has code exactly if every part has.
theorem mapM_ok_iff {α β : Type} {f : α → Except AssembleError β} {condition : α → Prop} {g : α → β}
    {items : List α}
    (h : ∀ item ∈ items, ∀ value, f item = .ok value ↔ condition item ∧ value = g item)
    {values : List β} :
    items.mapM f = .ok values ↔ (∀ item ∈ items, condition item) ∧ values = items.map g := by
  induction items generalizing values with
  | nil => simp [except_pure_eq_ok]
  | cons item more ih =>
      have hmore := fun values => @ih (fun other hm => h other (by simp [hm])) values
      rw [List.mapM_cons, except_bind_eq_ok_of (h item (by simp)), except_bind_eq_ok_of hmore,
        except_pure_eq_ok, List.forall_mem_cons, List.map_cons, and_assoc]

theorem mapM_eq_ok {α β : Type} {f : α → Except AssembleError β} {g : α → β} {items : List α}
    (h : ∀ item ∈ items, f item = .ok (g item)) : items.mapM f = .ok (items.map g) := by
  have hitems := @mapM_ok_iff _ _ f (fun _ => True) g items
    (fun item hm value => by simp [h item hm, eq_comm]) (items.map g)
  exact hitems.mpr ⟨by simp, rfl⟩

theorem receive_eq {index : Nat} (h : index < frame.slots.length) :
    frame.receive index = .ok (receiving index) := by
  have hstore := fun register => (@store_ok_iff frame index register _).mpr ⟨h, rfl⟩
  unfold receive receiving
  cases Register.arguments[index]? with
  | some register => exact hstore register
  | none =>
      dsimp only
      rw [hstore]
      rfl

theorem prologue_eq : frame.prologue = .ok (entering frame.slots) := by
  have hcopies : (List.range frame.slots.parameters.length).mapM frame.receive =
      .ok ((List.range frame.slots.parameters.length).map receiving) := by
    refine mapM_eq_ok fun index hm => receive_eq ?_
    have hindex := List.mem_range.mp hm
    simp only [SlotTable.length, SlotTable.occupants, List.length_append, List.length_map]
    omega
  rw [prologue, hcopies]
  rfl

theorem callTarget_ok_iff {name : String} {target : Target} :
    frame.callTarget name = .ok target ↔
      (name ∈ frame.symbols ∨ (frame.slots.resolve? name).isSome) ∧ target = frame.target name := by
  unfold callTarget Frame.target
  by_cases hsymbol : name ∈ frame.symbols
  · simp only [List.contains_iff_mem, hsymbol, if_true, true_or, true_and, Except.ok.injEq]
    exact eq_comm
  · cases hs : frame.slots.resolve? name with
    | none => simp [hsymbol]
    | some slot =>
        have hslot := SlotTable.slotOf?_lt hs
        simp only [List.contains_iff_mem, hsymbol, if_false, variableCell, hs]
        rw [except_bind_eq_ok_of fun _ => slotAddress_ok_iff, except_pure_eq_ok]
        simp [hslot]

theorem loadThen_ok_iff {value : Operand} {register : Register} {last code : List Instruction} :
    (do return (← frame.load register value) ++ last) = .ok code ↔
      frame.Covers value ∧ code = loading register value ++ last := by
  rw [except_bind_eq_ok_of fun _ => load_ok_iff, except_pure_eq_ok]

-- Every argument is pushed or goes to a register.
theorem mem_stacked_or_zip {arguments : List Operand} {argument : Operand}
    (hm : argument ∈ arguments) : argument ∈ (stacked arguments).reverse ∨
      ∃ register, (argument, register) ∈ arguments.zip Register.arguments := by
  obtain ⟨index, hlt, rfl⟩ := List.getElem_of_mem hm
  by_cases hregister : index < Register.arguments.length
  · refine .inr ⟨Register.arguments[index], ?_⟩
    exact List.mem_iff_getElem.mpr ⟨index, by simp only [List.length_zip]; omega, by simp⟩
  · left
    rw [List.mem_reverse, stacked, List.mem_drop_iff_getElem]
    refine ⟨index - Register.arguments.length, by omega, ?_⟩
    simp only [Nat.add_sub_cancel' (Nat.le_of_not_lt hregister)]

theorem covers_arguments_iff {arguments : List Operand} :
    (∀ argument ∈ arguments, frame.Covers argument) ↔
      (∀ operand ∈ (stacked arguments).reverse, frame.Covers operand) ∧
        ∀ pair ∈ arguments.zip Register.arguments, frame.Covers pair.1 := by
  constructor
  · intro h
    refine ⟨fun operand hm => h operand ?_, fun pair hm => h pair.1 (List.of_mem_zip hm).1⟩
    exact List.mem_of_mem_drop (List.mem_reverse.mp hm)
  · rintro ⟨hstacked, hpairs⟩ argument hm
    rcases mem_stacked_or_zip hm with hm | ⟨register, hm⟩
    · exact hstacked argument hm
    · exact hpairs (argument, register) hm

-- The code of a call as the generator puts it together.
theorem calling_eq (frame : Frame) (number : Nat) (call : Call) (output : Option Slot) :
    frame.calling number call output =
      (if (stacked call.arguments).length % 2 = 0 then []
        else [.reserve ((stacked call.arguments).length % 2 * SlotTable.slotSize)]) ++
      ((stacked call.arguments).reverse.map fun operand =>
        loading .rax operand ++ [.push .rax]).flatten ++
      ((call.arguments.zip Register.arguments).map fun pair => loading pair.2 pair.1).flatten ++
      [.zero .rax, .call (frame.target call.callee)] ++
      (if (stacked call.arguments).length + (stacked call.arguments).length % 2 = 0 then []
        else [.release (((stacked call.arguments).length + (stacked call.arguments).length % 2) *
          SlotTable.slotSize)]) ++
      [.store (slotPlace (frame.resultCell number)) .rax] ++
      (match output with
        | some slot => [.store (slotPlace slot) .rax]
        | none => []) := by
  cases output <;>
    simp only [calling, passing, collecting, reserving_words, releasing_words, pushing, loadingAll,
      padding, List.flatMap_def, List.append_assoc, List.cons_append, List.nil_append]

theorem callCode_ok_iff {number : Nat} {call : Call} {output : Option Slot}
    {code : List Instruction} :
    frame.callCode number call output = .ok code ↔
      (frame.Serves number call ∧ ∀ slot, output = some slot → slot < frame.slots.length) ∧
        code = frame.calling number call output := by
  have hpushes := fun pushes => @mapM_ok_iff _ _ _ _ _ (stacked call.arguments).reverse
    (fun operand _ _ => @loadThen_ok_iff frame operand .rax [.push .rax] _) pushes
  have hloads := fun loads => @mapM_ok_iff _ _ (fun pair => frame.load pair.2 pair.1) _ _
    (call.arguments.zip Register.arguments) (fun _ _ _ => load_ok_iff) loads
  have hserves : frame.Serves number call ↔ _ :=
    ⟨fun h => And.intro h.callable (And.intro h.result (covers_arguments_iff.mp h.covers)),
      fun h => ⟨h.1, covers_arguments_iff.mpr h.2.2, h.2.1⟩⟩
  have hresult : (frame.slots.resultOf? number).isSome →
      frame.resultCell number < frame.slots.length := resultCell_lt
  rw [calling_eq, hserves, callCode, except_bind_eq_ok_of fun _ => callTarget_ok_iff,
    except_bind_eq_ok_of fun _ => resultSlot_ok_iff]
  dsimp only
  rw [← stacked, except_bind_eq_ok_of hpushes, except_bind_eq_ok_of hloads,
    except_bind_eq_ok_of fun _ => store_ok_iff]
  cases output with
  | none =>
      have hnone : ∀ given : List Instruction,
          (pure [] : Except AssembleError _) = .ok given ↔ True ∧ given = [] := by
        simp [except_pure_eq_ok]
      rw [except_bind_eq_ok_of hnone, except_pure_eq_ok]
      simp only [reduceCtorEq, false_implies, implies_true, and_true, true_and]
      tauto
  | some slot =>
      rw [except_bind_eq_ok_of fun _ => store_ok_iff, except_pure_eq_ok]
      simp only [Option.some.injEq, forall_eq']
      tauto

theorem clear_ok_iff {name : String} {code : List Instruction} :
    frame.clear name = .ok code ↔
      (frame.slots.resolve? name).isSome ∧
        code = [.clear (slotPlace (frame.variableCell name))] := by
  have hcell : (frame.slots.resolve? name).isSome →
      frame.variableCell name < frame.slots.length := variableCell_lt
  rw [clear, except_bind_eq_ok_of fun _ => variableSlot_ok_iff,
    except_bind_eq_ok_of fun _ => slotAddress_ok_iff, except_pure_eq_ok]
  tauto

theorem storing_ok_iff {name : String} {value : Operand} {code : List Instruction} :
    (do
      let slot ← frame.variableSlot name
      return (← frame.load .rax value) ++ (← frame.store slot .rax)) = .ok code ↔
      ((frame.slots.resolve? name).isSome ∧ frame.Covers value) ∧
        code = loading .rax value ++ [.store (slotPlace (frame.variableCell name)) .rax] := by
  have hcell : (frame.slots.resolve? name).isSome →
      frame.variableCell name < frame.slots.length := variableCell_lt
  rw [except_bind_eq_ok_of fun _ => variableSlot_ok_iff, except_bind_eq_ok_of fun _ => load_ok_iff,
    except_bind_eq_ok_of fun _ => store_ok_iff, except_pure_eq_ok]
  tauto

-- An action has code exactly if the frame accepts it.
theorem actionCode_ok_iff {number : Nat} {action : Action} {code : List Instruction} :
    frame.actionCode number action = .ok code ↔
      frame.Accepts number action ∧ code = frame.acting number action := by
  cases action with
  | define name value | assign name value => exact storing_ok_iff
  | declare names =>
      rw [actionCode, except_bind_eq_ok_of fun _ => mapM_ok_iff fun _ _ _ => clear_ok_iff,
        except_pure_eq_ok, ← List.flatMap_def, ← List.map_eq_flatMap]
      rfl
  | call call =>
      rw [actionCode, callCode_ok_iff]
      simp [Accepts, acting]
  | callAssign name call =>
      have hcell : (frame.slots.resolve? name).isSome →
          frame.variableCell name < frame.slots.length := variableCell_lt
      rw [actionCode, except_bind_eq_ok_of fun _ => variableSlot_ok_iff, callCode_ok_iff]
      simp only [Option.some.injEq, forall_eq', Accepts, acting]
      tauto
  | ret value => exact loadThen_ok_iff
  | exit value =>
      cases value with
      | absent => simp [actionCode, Accepts, frame.covers_absent, acting, eq_comm]
      | _ => exact loadThen_ok_iff

theorem actionCode_eq {number : Nat} {action : Action} (h : frame.Resolves number action) :
    frame.actionCode number action = .ok (frame.acting number action) :=
  actionCode_ok_iff.mpr ⟨h.accepts, rfl⟩

end RayCompiler.Frame

namespace RayCompiler

open RayCompiler.Frame

namespace Statement

theorem assemble_ok_iff {frame : Frame} {number : Nat} {statement : Statement} {found : List Line} :
    statement.assemble frame number = .ok found ↔
      (∀ position scope action, statement = .action position scope action →
        frame.Accepts number action) ∧ found = statement.lines frame number := by
  cases statement with
  | externs | function => simp [assemble, lines, eq_comm]
  | action position scope action =>
      rw [assemble, except_bind_eq_ok_of fun _ => actionCode_ok_iff, except_pure_eq_ok]
      simp [lines]

-- Statements have code exactly if the frame accepts each of them.
theorem assembleAll_ok_iff {frame : Frame} {number : Nat} {body : List Statement}
    {found : List Line} :
    assembleAll frame number body = .ok found ↔
      frame.AcceptsAll number body ∧ found = linesOf frame number body := by
  induction body generalizing number found with
  | nil => simp [assembleAll, AcceptsAll, linesOf, eq_comm]
  | cons statement more ih =>
      rw [assembleAll, except_bind_eq_ok_of fun _ => assemble_ok_iff,
        except_bind_eq_ok_of fun _ => ih, except_pure_eq_ok, AcceptsAll, linesOf, and_assoc]

end Statement

theorem Function.assemble_ok_iff {function : Function} {symbols : List String} {found : Block} :
    function.assemble symbols = .ok found ↔
      (function.frame symbols).AcceptsAll 0 function.body ∧ found = function.block symbols := by
  rw [assemble, ← frame, prologue_eq, ok_bind,
    except_bind_eq_ok_of fun _ => Statement.assembleAll_ok_iff, except_pure_eq_ok]
  rfl

end RayCompiler
