import RayCompiler.Proofs.Grammar.Theorems
import RayCompiler.Proofs.Listing.Emission

namespace RayCompiler

-- Every name that can be called or have its address taken has a symbol.
def KnownNames.In (known : KnownNames) (symbols : List String) : Prop :=
  ∀ name, name ∈ known.functions ∨ name ∈ known.externs → name ∈ symbols

-- What the code of a function relies on: its parameters come first in its slots, and every name in
-- its body has a meaning.
structure Function.Resolved (symbols : List String) (function : Function) : Prop where
  parameters : function.slots.parameters = function.parameters
  body : (function.frame symbols).ResolvesAll 0 function.body

end RayCompiler

namespace RayCompiler.Grammar

open Statement

variable {known : KnownNames} {slots : SlotTable} {frame : Frame}

theorem resolve?_isSome_of_extends {name : String} (h : (slots.resolve? name).isSome)
    (hslots : frame.slots.Extends slots) : (frame.slots.resolve? name).isSome := by
  obtain ⟨slot, hs⟩ := Option.isSome_iff_exists.mp h
  exact Option.isSome_iff_exists.mpr ⟨slot, hslots.slotOf?_eq hs⟩

theorem OperandAt.gives {here after : Cursor} {operand : Operand}
    (h : OperandAt known slots here operand after) (hslots : frame.slots.Extends slots)
    (hknown : known.In frame.symbols) : frame.Gives operand := by
  have hslot : ∀ {name slot}, slots.resolve? name = some slot → slot < frame.slots.length := by
    intro name slot hs
    exact Nat.lt_of_lt_of_le (SlotTable.slotOf?_lt hs) hslots.length_le
  cases h with
  | literal => trivial
  | string => trivial
  | «variable» found => exact hslot found
  | external _ imported => exact hknown _ (.inr imported)
  | function _ _ function => exact hknown _ (.inl function)
  | pointee found => exact hslot found
  | address found => exact hslot found
  | symbolAddress _ symbol => exact hknown _ symbol

theorem OptionalAt.gives {here after : Cursor} {operand : Operand}
    (h : OptionalAt known slots here operand after) (hslots : frame.slots.Extends slots)
    (hknown : known.In frame.symbols) : operand = .absent ∨ frame.Gives operand := by
  cases h with
  | absent => exact .inl rfl
  | given inside => exact .inr (inside.gives hslots hknown)

section Lists

variable {α : Type} {item : Cursor → α → Cursor → Prop} {property : α → Prop}

theorem ListAt.forall_mem (hitem : ∀ here value after, item here value after → property value)
    {here after : Cursor} {items : List α} (h : ListAt item here items after) :
    ∀ value ∈ items, property value := by
  induction h with
  | one head => simpa using hitem _ _ _ head
  | more head _ ih => simpa using ⟨hitem _ _ _ head, ih⟩

theorem EnclosedAt.forall_mem (hitem : ∀ here value after, item here value after → property value)
    {here after : Cursor} {items : List α} (h : EnclosedAt item here items after) :
    ∀ value ∈ items, property value := by
  cases h with
  | empty => simp
  | list inside => exact inside.forall_mem hitem

end Lists

-- The call takes the next slot for its result.
theorem CallAt.calls {here after : Cursor} {call : Call} (h : CallAt known slots here call after)
    {number : Nat} (hslots : frame.slots.Extends slots) (hknown : known.In frame.symbols)
    (hresult : .result number ∈ frame.slots.occupants) : frame.Calls number call := by
  cases h with
  | call callable inside =>
      refine ⟨?_, inside.forall_mem fun _ _ _ argument => argument.gives hslots hknown,
        SlotTable.slotOf?_isSome_iff.mpr hresult⟩
      rcases callable with hfunction | hexternal | hvariable
      · exact .inl (hknown _ (.inl hfunction))
      · exact .inl (hknown _ (.inr hexternal))
      · exact .inr (resolve?_isSome_of_extends hvariable hslots)

theorem ActionAt.extends {later : SlotTable} {here after : Cursor} {action : Action}
    (h : ActionAt known slots here action later after) : later.Extends slots := by
  cases h with
  | ret | exit | assign => exact .refl _
  | declare | define => exact SlotTable.extends_withVariables _ _
  | defineCall =>
      exact (SlotTable.extends_reserve _).trans (SlotTable.extends_withVariables _ _)
  | assignCall | call => exact SlotTable.extends_reserve _

theorem ActionAt.calls_eq {later : SlotTable} {here after : Cursor} {action : Action}
    (h : ActionAt known slots here action later after) (position : Position) (scope : String) :
    later.calls = slots.calls + (Statement.action position scope action).callCount := by
  cases h <;> simp [callCount]

-- An action uses the slots that its function has when it stands there. They stay where they are in
-- the finished frame, and so the number of a call is that of the slot reserved for it.
theorem ActionAt.resolves {later : SlotTable} {here after : Cursor} {action : Action}
    (h : ActionAt known slots here action later after) (hlater : frame.slots.Extends later)
    (hknown : known.In frame.symbols) : frame.Resolves slots.calls action := by
  have hslots := hlater.trans h.extends
  have hvariable : ∀ {name}, .variable name ∈ later.occupants →
      (frame.slots.resolve? name).isSome := by
    intro name hm
    exact resolve?_isSome_of_extends (SlotTable.resolve?_isSome_iff.mpr hm) hlater
  have hresult : ∀ {number}, .result number ∈ later.occupants →
      .result number ∈ frame.slots.occupants := fun hm => hlater.isPrefix_occupants.subset hm
  cases h with
  | ret inside => exact inside.gives hslots hknown
  | exit inside => exact inside.gives hslots hknown
  | declare list ends distinct fresh =>
      intro name hm
      exact hvariable (SlotTable.mem_occupants_withVariables.mpr (.inr hm))
  | define right ends fresh =>
      exact ⟨hvariable (SlotTable.mem_occupants_withVariables.mpr (.inr (by simp))),
        right.gives hslots hknown⟩
  | @defineCall _ _ call _ name _ _ _ right fresh =>
      refine ⟨hvariable ?_, right.calls hslots hknown (hresult ?_)⟩
      · refine (SlotTable.extends_reserve _).isPrefix_occupants.subset ?_
        exact SlotTable.mem_occupants_withVariables.mpr (.inr (by simp))
      · rw [← SlotTable.calls_withVariables slots [name]]
        exact SlotTable.result_mem_reserve _
  | assign found right =>
      exact ⟨resolve?_isSome_of_extends found hslots, right.gives hslots hknown⟩
  | assignCall found right =>
      exact ⟨resolve?_isSome_of_extends found hslots,
        right.calls hslots hknown (hresult (SlotTable.result_mem_reserve _))⟩
  | call statement =>
      exact statement.calls hslots hknown (hresult (SlotTable.result_mem_reserve _))

theorem StatementsAt.extends {place : Place} {later : SlotTable} {here after : Cursor}
    {body : List Statement} (h : StatementsAt known place slots here body later after) :
    later.Extends slots := by
  induction h with
  | stop => exact .refl _
  | skip _ _ ih => exact ih
  | externs _ _ _ ih => exact ih
  | function _ _ _ _ _ _ _ ih => exact ih
  | action _ one _ ih => exact ih.trans one.extends

theorem StatementsAt.resolves {place : Place} {later : SlotTable} {here after : Cursor}
    {body : List Statement} (h : StatementsAt known place slots here body later after)
    (hlater : frame.slots.Extends later) (hknown : known.In frame.symbols) :
    frame.ResolvesAll slots.calls body := by
  induction h with
  | stop => trivial
  | skip _ _ ih => exact ih hlater
  | externs _ _ _ ih => exact ⟨by simp, ih hlater⟩
  | function _ _ _ _ _ _ _ ih => exact ⟨by simp, ih hlater⟩
  | action _ one more ih =>
      refine ⟨?_, ?_⟩
      · rintro _ _ _ ⟨⟩
        exact one.resolves (hlater.trans more.extends) hknown
      · exact one.calls_eq _ _ ▸ ih hlater

theorem StatementsAt.functions_resolved {place : Place} {later : SlotTable} {here after : Cursor}
    {body : List Statement} (h : StatementsAt known place slots here body later after)
    {symbols : List String} (hknown : known.In symbols) :
    ∀ function ∈ functionsIn body, function.Resolved symbols := by
  induction h with
  | stop => simp [functionsIn]
  | skip _ _ ih => exact ih
  | externs _ _ _ ih => simpa [functionsIn, Statement.functions] using ih
  | action _ _ _ ih => simpa [functionsIn, Statement.functions] using ih
  | function _ _ _ _ statements _ ih ih' =>
      intro function hm
      simp only [functionsIn, Statement.functions, List.cons_append, List.mem_cons,
        List.mem_append] at hm
      rcases hm with rfl | hm | hm
      · exact ⟨statements.extends.1, statements.resolves (.refl _) hknown⟩
      · exact ih function hm
      · exact ih' function hm

end RayCompiler.Grammar

namespace RayCompiler

-- The functions of a program are resolved with the symbols of the program itself.
theorem Forms.resolved {tokens : List (Located Token)} {program : Program}
    (h : Forms tokens program) {symbols : List String} (hknown : program.introduced.In symbols) :
    ∀ function ∈ program.functions, function.Resolved symbols := by
  obtain ⟨_, derivation⟩ := h.derivation
  exact derivation.functions_resolved hknown

end RayCompiler
