import RayCompiler.Proofs.Grammar.Nesting
import RayCompiler.Proofs.Listing.Domain
import RayCompiler.Proofs.Listing.Resolution

namespace RayCompiler

-- The slots that a statement adds to a table, where its call has the given number. Only the call of
-- a variable that has no slot yet adds one for the variable.
def Statement.addedSlots (table : SlotTable) (number : Nat) : Statement → List Occupant
  | .action _ _ (.define name _) => [.variable name]
  | .action _ _ (.declare names) => names.map .variable
  | .action _ _ (.call _) => [.result number]
  | .action _ _ (.callAssign name _) =>
    if .variable name ∈ table.occupants then [.result number] else [.variable name, .result number]
  | _ => []

namespace SlotTable

def add (table : SlotTable) (occupants : List Occupant) : SlotTable :=
  { table with locals := table.locals ++ occupants }

-- The table after statements, the first call of which has the given number.
def rebuildFrom (table : SlotTable) : Nat → List Statement → SlotTable
  | _, [] => table
  | number, statement :: more =>
    (table.add (statement.addedSlots table number)).rebuildFrom (number + statement.callCount) more

-- The table that the parameters and the statements of a function give.
def rebuild (parameters : List String) (body : List Statement) : SlotTable :=
  rebuildFrom ⟨parameters, []⟩ 0 body

@[simp] theorem add_nil (table : SlotTable) : table.add [] = table := by
  simp [add]

theorem add_result (table : SlotTable) : table.add [.result table.calls] = table.reserve.2 := rfl

theorem add_variable_result (table : SlotTable) (name : String) :
    table.add [.variable name, .result table.calls] = (table.withVariables [name]).reserve.2 := by
  rw [← add_result, calls_withVariables]
  simp [add, withVariables]

theorem rebuildFrom_cons_of_none {table : SlotTable} {number : Nat} {statement : Statement}
    (hslots : statement.addedSlots table number = []) (hcalls : statement.callCount = 0)
    (more : List Statement) :
    table.rebuildFrom number (statement :: more) = table.rebuildFrom number more := by
  rw [rebuildFrom, hslots, hcalls, add_nil, Nat.add_zero]

-- What resolving a name gives is the slot of that name.
theorem getElem?_of_resolve? {table : SlotTable} {name : String} {slot : Slot}
    (h : table.resolve? name = some slot) : table.occupants[slot]? = some (.variable name) := by
  obtain ⟨hlt, hfound, _⟩ := List.findIdx?_eq_some_iff_getElem.mp h
  rw [List.getElem?_eq_getElem hlt, eq_of_beq hfound]

end SlotTable

-- Everything that an action refers to is there before it: its slots belong to variables, and a name
-- that it assigns to or calls is a variable, unless the program introduces what is called.
structure Action.RefersTo (known : KnownNames) (table : SlotTable) (action : Action) : Prop where
  operands : ∀ operand ∈ action.operands, ∀ slot, operand.slot? = some slot →
    ∃ name, table.occupants[slot]? = some (.variable name)
  assigned : ∀ name value, action = .assign name value → .variable name ∈ table.occupants
  called : ∀ call, action.call? = some call → call.callee ∉ known.functions →
    call.callee ∉ known.externs → .variable call.callee ∈ table.occupants
  absent : .absent ∈ action.operands → action = .ret .absent ∨ action = .exit .absent

end RayCompiler

namespace RayCompiler.Grammar

open Statement

variable {known : KnownNames} {slots later : SlotTable} {here after : Cursor}

theorem ActionAt.later_eq {action : Action} (h : ActionAt known slots here action later after)
    (position : Position) (scope : String) :
    later = slots.add ((Statement.action position scope action).addedSlots slots slots.calls) := by
  have hnew : ∀ {name}, slots.resolve? name = none → .variable name ∉ slots.occupants :=
    SlotTable.resolve?_eq_none_iff.mp
  cases h with
  | ret | exit | assign => exact (slots.add_nil).symm
  | declare | define => rfl
  | defineCall right fresh =>
      rw [addedSlots, if_neg (hnew fresh), SlotTable.add_variable_result]
  | assignCall found right =>
      rw [addedSlots, if_pos (SlotTable.resolve?_isSome_iff.mp found), SlotTable.add_result]
  | call => rfl

-- The induction is on the statements as they are read. The calls so far number the results.
theorem StatementsAt.later_eq {place : Place} {body : List Statement}
    (h : StatementsAt known place slots here body later after) :
    later = slots.rebuildFrom slots.calls body := by
  induction h with
  | stop => rfl
  | skip _ _ ih => exact ih
  | externs _ _ _ ih | function _ _ _ _ _ _ _ ih =>
      rw [ih, SlotTable.rebuildFrom_cons_of_none rfl rfl]
  | action _ one _ ih =>
      rw [ih, SlotTable.rebuildFrom, ← one.later_eq, one.calls_eq]

theorem OperandAt.slot_eq {operand : Operand} (h : OperandAt known slots here operand after)
    {slot : Slot} (hs : operand.slot? = some slot) :
    ∃ name, slots.occupants[slot]? = some (.variable name) := by
  cases h with
  | «variable» found | pointee found | address found =>
      cases hs
      exact ⟨_, SlotTable.getElem?_of_resolve? found⟩
  | _ => cases hs

theorem OperandAt.ne_absent {operand : Operand} (h : OperandAt known slots here operand after) :
    operand ≠ .absent := by
  cases h <;> simp

theorem OptionalAt.slot_eq {operand : Operand} (h : OptionalAt known slots here operand after)
    {slot : Slot} (hs : operand.slot? = some slot) :
    ∃ name, slots.occupants[slot]? = some (.variable name) := by
  cases h with
  | absent => cases hs
  | given inside => exact inside.slot_eq hs

-- The operands of a call, none of which is left out.
theorem CallAt.operand {call : Call} (h : CallAt known slots here call after) :
    ∀ operand ∈ call.arguments, ∃ first last, OperandAt known slots first operand last := by
  cases h with
  | call _ inside => exact inside.forall_mem fun first _ last one => ⟨first, last, one⟩

theorem CallAt.callee_mem {call : Call} (h : CallAt known slots here call after)
    (hfunction : call.callee ∉ known.functions) (hexternal : call.callee ∉ known.externs) :
    .variable call.callee ∈ slots.occupants := by
  cases h with
  | call callable =>
      have hvariable := (callable.resolve_left hfunction).resolve_left hexternal
      exact SlotTable.resolve?_isSome_iff.mp hvariable

-- An action with one operand and no call. The operand may be left out only after a return or exit.
theorem refersTo_of_single {operand : Operand} {action : Action}
    (hoperands : action.operands = [operand]) (hcall : action.call? = none)
    (hslot : ∀ slot, operand.slot? = some slot →
      ∃ name, slots.occupants[slot]? = some (.variable name))
    (hassigned : ∀ name value, action = .assign name value → .variable name ∈ slots.occupants)
    (habsent : operand = .absent → action = .ret .absent ∨ action = .exit .absent) :
    action.RefersTo known slots := by
  refine ⟨?_, hassigned, by simp [hcall], ?_⟩
  · rw [hoperands]
    intro other hm slot hs
    rw [List.mem_singleton.mp hm] at hs
    exact hslot slot hs
  · rw [hoperands, List.mem_singleton]
    exact fun he => habsent he.symm

theorem refersTo_of_call {call : Call} {first last : Cursor} {action : Action}
    (h : CallAt known slots first call last) (hoperands : action.operands = call.arguments)
    (hcall : action.call? = some call) (hassigned : ∀ name value, action ≠ .assign name value) :
    action.RefersTo known slots := by
  refine ⟨?_, fun name value he => absurd he (hassigned name value), ?_, ?_⟩
  · rw [hoperands]
    intro operand hm slot hs
    obtain ⟨_, _, one⟩ := h.operand operand hm
    exact one.slot_eq hs
  · intro other he hfunction hexternal
    rw [hcall] at he
    cases he
    exact h.callee_mem hfunction hexternal
  · rw [hoperands]
    intro hm
    obtain ⟨_, _, one⟩ := h.operand _ hm
    exact absurd rfl one.ne_absent

theorem ActionAt.refersTo {action : Action} (h : ActionAt known slots here action later after) :
    action.RefersTo known slots := by
  cases h with
  | ret inside =>
      refine refersTo_of_single rfl rfl (fun _ => inside.slot_eq) (by simp) ?_
      rintro rfl
      exact .inl rfl
  | exit inside =>
      refine refersTo_of_single rfl rfl (fun _ => inside.slot_eq) (by simp) ?_
      rintro rfl
      exact .inr rfl
  | declare =>
      exact ⟨by simp [Action.operands], by simp, by simp [Action.call?], by simp [Action.operands]⟩
  | define right =>
      exact refersTo_of_single rfl rfl (fun _ => right.slot_eq) (by simp)
        fun he => absurd he right.ne_absent
  | assign found right =>
      refine refersTo_of_single rfl rfl (fun _ => right.slot_eq) ?_ fun he => absurd he right.ne_absent
      rintro _ _ ⟨⟩
      exact SlotTable.resolve?_isSome_iff.mp found
  | defineCall right => exact refersTo_of_call right rfl rfl (by simp)
  | assignCall _ right => exact refersTo_of_call right rfl rfl (by simp)
  | call statement => exact refersTo_of_call statement rfl rfl (by simp)

-- An action refers to what the statements before it leave in the table.
theorem StatementsAt.refersTo {place : Place} {body : List Statement}
    (h : StatementsAt known place slots here body later after) {before others : List Statement}
    {position : Position} {scope : String} {action : Action}
    (hbody : body = before ++ .action position scope action :: others) :
    action.RefersTo known (slots.rebuildFrom slots.calls before) := by
  induction h generalizing before with
  | stop => simp at hbody
  | skip _ _ ih => exact ih hbody
  | externs _ _ _ ih | function _ _ _ _ _ _ _ ih =>
      cases before with
      | nil => cases hbody
      | cons first before =>
          obtain ⟨rfl, htail⟩ := List.cons.inj hbody
          rw [SlotTable.rebuildFrom_cons_of_none rfl rfl]
          exact ih htail
  | action _ one _ ih =>
      cases before with
      | nil =>
          cases hbody
          exact one.refersTo
      | cons first before =>
          obtain ⟨rfl, htail⟩ := List.cons.inj hbody
          rw [SlotTable.rebuildFrom, ← one.later_eq, ← one.calls_eq]
          exact ih htail

end RayCompiler.Grammar

namespace RayCompiler

variable {tokens : List (Located Token)} {program : Program}

-- The slots of a function follow from its parameters and statements alone, and a statement refers
-- only to variables that the parameters and the statements before it have put there.
theorem slots_eq_rebuild (htokens : EndsOnce tokens) (h : parse tokens = .ok program)
    {function : Function} (hm : function ∈ program.functions) :
    function.slots = .rebuild function.parameters function.body ∧
      ∀ before position scope action others,
        function.body = before ++ .action position scope action :: others →
        action.RefersTo program.introduced (.rebuild function.parameters before) := by
  obtain ⟨_, derivation⟩ := (forms_of_parse htokens h).derivation
  obtain ⟨_, _, _, hat, _⟩ := derivation.derivation_of_mem hm
  refine ⟨hat.later_eq, ?_⟩
  intro before position scope action others hbody
  exact hat.refersTo hbody

-- A call through a parameter, a call that declares its variable, and a function in between:
-- func f(a) { var x = g(&a); func g(b) => return(*b) (end of line) x = a(x); return() }
def interleavedTokens : List (Located Token) :=
  [.keyword .func, .name "f", .symbol .openParen, .name "a", .symbol .closeParen, .symbol .openCurly,
    .keyword .var, .name "x", .symbol .assign, .name "g", .symbol .openParen, .symbol .ampersand,
    .name "a", .symbol .closeParen, .symbol .semicolon, .keyword .func, .name "g", .symbol .openParen,
    .name "b", .symbol .closeParen, .symbol .arrow, .keyword .ret, .symbol .openParen, .symbol .times,
    .name "b", .symbol .closeParen, .lineEnd, .name "x", .symbol .assign, .name "a",
    .symbol .openParen, .name "x", .symbol .closeParen, .symbol .semicolon, .keyword .ret,
    .symbol .openParen, .symbol .closeParen, .symbol .closeCurly,
    .endOfInput].map (⟨.point .start, ·⟩)

def interleavedInside : Function where
  name := "g"
  parameters := ["b"]
  body := [.action .start "g" (.ret (.pointee 0))]
  slots := ⟨["b"], []⟩

def interleavedFunction : Function where
  name := "f"
  parameters := ["a"]
  body := [.action .start "f" (.callAssign "x" ⟨"g", [.address 0]⟩),
    .ofFunction .start interleavedInside,
    .action .start "f" (.callAssign "x" ⟨"a", [.variable 1]⟩), .action .start "f" (.ret .absent)]
  slots := ⟨["a"], [.variable "x", .result 0, .result 1]⟩

def interleavedProgram : Program := ⟨[.ofFunction .start interleavedFunction], []⟩

theorem endsOnce_interleavedTokens : EndsOnce interleavedTokens :=
  ⟨interleavedTokens.dropLast, .point .start, rfl, by decide⟩

theorem slots_interleavedFunction : EndsOnce interleavedTokens ∧
    parse interleavedTokens = .ok interleavedProgram ∧
    interleavedFunction ∈ interleavedProgram.functions ∧
    interleavedFunction.slots = .rebuild ["a"] interleavedFunction.body ∧
    Action.RefersTo ⟨["f", "g"], []⟩ ⟨["a"], [.variable "x", .result 0]⟩
      (.callAssign "x" ⟨"a", [.variable 1]⟩) := by
  have hparse : parse interleavedTokens = .ok interleavedProgram := rfl
  have hm : interleavedFunction ∈ interleavedProgram.functions := .head _
  obtain ⟨hslots, hrefers⟩ := slots_eq_rebuild endsOnce_interleavedTokens hparse hm
  refine ⟨endsOnce_interleavedTokens, hparse, hm, hslots, ?_⟩
  exact hrefers (interleavedFunction.body.take 2) .start "f" _ _ rfl

end RayCompiler
