import RayCompiler.Proofs.Listing.Domain
import RayCompiler.Proofs.Semantics.Basic

namespace RayCompiler

-- The place in memory that an instruction names.
def Instruction.address? : Instruction → Option Address
  | .load _ address => some address
  | .store address _ => some address
  | .clear address => some address
  | .addressOf _ address => some address
  | .call (.stored address) => some address
  | _ => none

-- An instruction calls a symbol, reads it or takes its address.
def Instruction.Names (instruction : Instruction) (name : String) : Prop :=
  instruction = .call (.symbol name) ∨ instruction.address? = some (.symbol name)

namespace Frame

variable {frame : Frame} {operands : List Operand} {instruction : Instruction}

-- The places of the slots of a frame.
def Holds (frame : Frame) (address : Address) : Prop :=
  ∃ slot < frame.slots.length, address = slotPlace slot

-- The addresses that a function reads or takes, given its operands. Above the frame there are only
-- arguments.
inductive Reads (frame : Frame) (operands : List Operand) : Address → Prop where
  | slot {address : Address} (holds : frame.Holds address) : frame.Reads operands address
  | argument (bytes : Nat) : frame.Reads operands (.above bytes)
  | pointee (register : Register) : frame.Reads operands (.through register)
  | external {name : String} (given : .external name ∈ operands) :
      frame.Reads operands (.symbol name)
  | symbolAddress {name : String} (given : .symbolAddress name ∈ operands) :
      frame.Reads operands (.symbol name)
  | data {offset : Nat} (given : .data offset ∈ operands) : frame.Reads operands (.data offset)

-- What an instruction of a function may name. Only slots are written to, and a call goes to a symbol
-- or through a slot.
def Admits (frame : Frame) (operands : List Operand) : Instruction → Prop
  | .load _ address => frame.Reads operands address
  | .addressOf _ address => frame.Reads operands address
  | .store address _ => frame.Holds address
  | .clear address => frame.Holds address
  | .call (.stored address) => frame.Holds address
  | .call (.symbol name) => name ∈ frame.symbols
  | .call (.through _) => False
  | _ => True

theorem Admits.reads {address : Address} (h : frame.Admits operands instruction)
    (ha : instruction.address? = some address) : frame.Reads operands address := by
  cases instruction with
  | load | addressOf =>
      cases ha
      exact h
  | store | clear =>
      cases ha
      exact .slot h
  | call target =>
      cases target with
      | symbol | through => cases ha
      | stored =>
          cases ha
          exact .slot h
  | _ => cases ha

theorem Admits.mono {others : List Operand} (hsubset : operands ⊆ others)
    (h : frame.Admits operands instruction) : frame.Admits others instruction := by
  have hreads : ∀ {address}, frame.Reads operands address → frame.Reads others address := by
    intro address hread
    cases hread with
    | slot holds => exact .slot holds
    | argument => exact .argument _
    | pointee => exact .pointee _
    | external given => exact .external (hsubset given)
    | symbolAddress given => exact .symbolAddress (hsubset given)
    | data given => exact .data (hsubset given)
  cases instruction with
  | load | addressOf => exact hreads h
  | call target => cases target <;> exact h
  | _ => exact h

theorem admits_loading {operand : Operand} (hm : operand ∈ operands) (h : frame.Covers operand)
    (register : Register) : ∀ instruction ∈ loading register operand,
      frame.Admits operands instruction := by
  have hslot : ∀ {slot}, operand.slot? = some slot → frame.Reads operands (slotPlace slot) :=
    fun hs => .slot ⟨_, h _ hs, rfl⟩
  cases operand with
  | literal => simp [loading, Admits]
  | «variable» slot => simpa [loading, Admits] using hslot rfl
  | address slot => simpa [loading, Admits] using hslot rfl
  | pointee slot => simpa [loading, Admits] using And.intro (hslot rfl) (Reads.pointee register)
  | external name => simpa [loading, Admits] using Reads.external hm
  | symbolAddress name => simpa [loading, Admits] using Reads.symbolAddress hm
  | data offset => simpa [loading, Admits] using Reads.data hm
  | absent => simp [loading]

theorem holds_variableCell {name : String} (h : (frame.slots.resolve? name).isSome) :
    frame.Holds (slotPlace (frame.variableCell name)) :=
  ⟨_, variableCell_lt h, rfl⟩

theorem admits_moving (distance : Int) : ∀ instruction ∈ moving distance,
    frame.Admits operands instruction := by
  rcases moving_forms distance with ⟨_, he⟩ | ⟨_, _, he⟩ | ⟨_, _, he⟩ <;> simp [he, Admits]

theorem admits_passing {arguments : List Operand} (h : ∀ argument ∈ arguments, frame.Covers argument) :
    ∀ instruction ∈ passing arguments, frame.Admits arguments instruction := by
  intro instruction hm
  simp only [passing, pushing, loadingAll, List.mem_append, List.mem_flatMap, List.mem_singleton]
    at hm
  rcases hm with ((hm | ⟨operand, hoperand, hm | rfl⟩) | ⟨pair, hpair, hm⟩) | rfl
  · exact admits_moving _ instruction (reserving_eq_moving _ ▸ hm)
  · have hargument : operand ∈ arguments := List.mem_of_mem_drop (List.mem_reverse.mp hoperand)
    exact admits_loading hargument (h operand hargument) _ instruction hm
  · trivial
  · have hargument : pair.1 ∈ arguments := (List.of_mem_zip hpair).1
    exact admits_loading hargument (h pair.1 hargument) _ instruction hm
  · trivial

theorem admits_target {name : String}
    (h : name ∈ frame.symbols ∨ (frame.slots.resolve? name).isSome) :
    frame.Admits operands (.call (frame.target name)) := by
  unfold target
  split
  · next hsymbol => exact List.contains_iff_mem.mp hsymbol
  · next hsymbol =>
      have hnot : name ∉ frame.symbols := fun hm => hsymbol (List.contains_iff_mem.mpr hm)
      exact holds_variableCell (h.resolve_left hnot)

theorem admits_calling {number : Nat} {call : Call} (h : frame.Serves number call)
    {output : Option Slot} (houtput : ∀ slot, output = some slot → slot < frame.slots.length) :
    ∀ instruction ∈ frame.calling number call output,
      frame.Admits call.arguments instruction := by
  intro instruction hm
  simp only [calling, collecting, List.mem_append, List.mem_cons, List.not_mem_nil, or_false] at hm
  rcases hm with hm | rfl | (hm | rfl) | hm
  · exact admits_passing h.covers instruction hm
  · exact admits_target h.callable
  · exact admits_moving _ instruction (releasing_eq_moving _ ▸ hm)
  · exact ⟨_, resultCell_lt h.result, rfl⟩
  · cases output with
    | none => simp at hm
    | some slot =>
        rw [List.mem_singleton.mp hm]
        exact ⟨slot, houtput slot rfl, rfl⟩

theorem admits_epilogue : ∀ instruction ∈ epilogue, frame.Admits operands instruction := by
  simp [epilogue, Admits]

theorem admits_entering : ∀ instruction ∈ entering frame.slots,
    frame.Admits operands instruction := by
  intro instruction hm
  have hparameters := frame.slots.parameters_le_length
  simp only [entering, List.mem_append, List.mem_flatMap, List.mem_range] at hm
  rcases hm with (hm | hm) | ⟨index, hindex, hm⟩
  · simp only [List.mem_cons, List.not_mem_nil, or_false] at hm
    rcases hm with rfl | rfl <;> trivial
  · exact admits_moving _ instruction (reserving_eq_moving _ ▸ hm)
  · have hholds : frame.Holds (slotPlace index) := ⟨index, by omega, rfl⟩
    unfold receiving at hm
    split at hm
    · rw [List.mem_singleton.mp hm]
      exact hholds
    · simp only [List.mem_cons, List.not_mem_nil, or_false] at hm
      rcases hm with rfl | rfl
      · exact .argument _
      · exact hholds

-- The code of an action, one case for each kind.
theorem admits_acting {number : Nat} {action : Action} (h : frame.Accepts number action) :
    ∀ instruction ∈ frame.acting number action, frame.Admits action.operands instruction := by
  intro instruction hm
  cases action with
  | define name value | assign name value =>
      rcases List.mem_append.mp hm with hm | hm
      · exact admits_loading (by simp [Action.operands]) h.2 _ instruction hm
      · rw [List.mem_singleton.mp hm]
        exact holds_variableCell h.1
  | declare names =>
      obtain ⟨name, hname, rfl⟩ := List.mem_map.mp hm
      exact holds_variableCell (h name hname)
  | call call => exact admits_calling h (by simp) instruction hm
  | callAssign name call =>
      refine admits_calling h.2 ?_ instruction hm
      rintro _ ⟨⟩
      exact variableCell_lt h.1
  | ret value =>
      rcases List.mem_append.mp hm with hm | hm
      · exact admits_loading (by simp [Action.operands]) h _ instruction hm
      · exact admits_epilogue instruction hm
  | exit value =>
      rcases List.mem_append.mp hm with hm | hm
      · split at hm
        · rw [List.mem_singleton.mp hm]
          trivial
        · exact admits_loading (by simp [Action.operands]) h _ instruction hm
      · simp only [List.mem_cons, List.not_mem_nil, or_false] at hm
        rcases hm with rfl | rfl <;> trivial

end Frame

namespace Statement

theorem acceptsAll_append {frame : Frame} {number : Nat} {first second : List Statement}
    (h : frame.AcceptsAll number (first ++ second)) :
    frame.AcceptsAll (number + callTotal first) second := by
  induction first generalizing number with
  | nil => exact h
  | cons statement more ih =>
      have hmore := ih h.2
      simpa only [callTotal, List.map_cons, List.sum_cons, ← Nat.add_assoc] using hmore

theorem filterMap_lines (frame : Frame) (number : Nat) (position : Position) (scope : String)
    (action : Action) :
    ((Statement.action position scope action).lines frame number).filterMap Line.code? =
      frame.acting number action := by
  rw [lines, List.filterMap_cons_none rfl, Line.filterMap_code?]

-- Every line of statements belongs to one of them.
theorem exists_statement_of_mem {frame : Frame} {number : Nat} {body : List Statement} {line : Line}
    (h : line ∈ linesOf frame number body) :
    ∃ before statement after, body = before ++ statement :: after ∧
      line ∈ statement.lines frame (number + callTotal before) := by
  induction body generalizing number with
  | nil => simp [linesOf] at h
  | cons statement more ih =>
      rcases List.mem_append.mp h with h | h
      · exact ⟨[], statement, more, rfl, h⟩
      · obtain ⟨before, other, after, rfl, hm⟩ := ih h
        refine ⟨statement :: before, other, after, rfl, ?_⟩
        rwa [Nat.add_assoc] at hm

theorem admits_linesOf {frame : Frame} {number : Nat} {body : List Statement}
    (h : frame.AcceptsAll number body) {instruction : Instruction}
    (hm : .instruction instruction ∈ linesOf frame number body) :
    frame.Admits (body.flatMap Statement.operands) instruction := by
  obtain ⟨before, statement, after, rfl, hline⟩ := exists_statement_of_mem hm
  have hone := (acceptsAll_append h).1
  cases statement with
  | externs | function => simp [lines] at hline
  | action position scope action =>
      have hacting : instruction ∈ frame.acting (number + callTotal before) action := by
        simpa [lines] using hline
      refine (Frame.admits_acting (hone position scope action rfl) instruction hacting).mono ?_
      intro operand hoperand
      exact List.mem_flatMap.mpr ⟨.action position scope action, by simp, hoperand⟩

end Statement

theorem Block.mem_code {block : Block} {instruction : Instruction} :
    instruction ∈ block.code ↔ .instruction instruction ∈ block.lines := by
  rw [code, List.mem_filterMap]
  constructor
  · rintro ⟨line, hline, hcode⟩
    cases line with
    | instruction code =>
        cases hcode
        exact hline
    | _ => cases hcode
  · exact fun hm => ⟨_, hm, rfl⟩

namespace Function

variable {function : Function} {symbols : List String}

theorem code_block (function : Function) (symbols : List String) :
    (function.block symbols).code = Frame.entering function.slots ++
      ((Statement.linesOf (function.frame symbols) 0 function.body).filterMap Line.code? ++
        function.closing) := by
  simp only [Block.code, block, List.filterMap_append, Line.filterMap_code?, List.append_assoc]

theorem closing_subset (function : Function) :
    function.closing ⊆ .zero .rax :: Frame.epilogue := by
  unfold closing
  split
  · split <;> simp
  · simp

-- Everything that the code of a function names belongs to its frame or to its operands.
theorem admits_code (h : (function.frame symbols).AcceptsAll 0 function.body) :
    ∀ instruction ∈ (function.block symbols).code,
      (function.frame symbols).Admits (function.body.flatMap Statement.operands) instruction := by
  intro instruction hm
  simp only [Block.mem_code, block, List.mem_append, List.mem_map, Line.instruction.injEq,
    exists_eq_right] at hm
  rcases hm with (hm | hm) | hm
  · exact Frame.admits_entering instruction hm
  · exact Statement.admits_linesOf h hm
  · rcases List.mem_cons.mp (function.closing_subset hm) with rfl | hm
    · trivial
    · exact Frame.admits_epilogue instruction hm

end Function

end RayCompiler
