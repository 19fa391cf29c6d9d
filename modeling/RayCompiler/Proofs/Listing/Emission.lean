import RayCompiler.Listing.Assemble
import RayCompiler.Proofs.Slot.Growth
import Mathlib.Algebra.GroupWithZero.Nat

namespace RayCompiler.Frame

variable {frame : Frame}

-- The operands that can be loaded: every slot and every symbol in them exists.
def Gives (frame : Frame) : Operand → Prop
  | .literal _ => True
  | .variable slot => slot < frame.slots.length
  | .address slot => slot < frame.slots.length
  | .pointee slot => slot < frame.slots.length
  | .external name => name ∈ frame.symbols
  | .symbolAddress name => name ∈ frame.symbols
  | .data _ => True
  | .absent => False

-- The call with this number has a target, arguments that can be loaded and a slot for its result.
structure Calls (frame : Frame) (number : Nat) (call : Call) : Prop where
  callable : call.callee ∈ frame.symbols ∨ (frame.slots.resolve? call.callee).isSome
  gives : ∀ argument ∈ call.arguments, frame.Gives argument
  result : (frame.slots.resultOf? number).isSome

-- Every name of an action has a meaning in the frame. Only a return or an exit goes without operand.
def Resolves (frame : Frame) (number : Nat) : Action → Prop
  | .define name value => (frame.slots.resolve? name).isSome ∧ frame.Gives value
  | .declare names => ∀ name ∈ names, (frame.slots.resolve? name).isSome
  | .assign name value => (frame.slots.resolve? name).isSome ∧ frame.Gives value
  | .call call => frame.Calls number call
  | .callAssign name call => (frame.slots.resolve? name).isSome ∧ frame.Calls number call
  | .ret value => value = .absent ∨ frame.Gives value
  | .exit value => value = .absent ∨ frame.Gives value

def ResolvesAll (frame : Frame) : Nat → List Statement → Prop
  | _, [] => True
  | number, statement :: more =>
    (∀ position scope action, statement = .action position scope action →
      frame.Resolves number action) ∧ frame.ResolvesAll (number + statement.callCount) more

def slotPlace (slot : Slot) : Address := .below ((slot + 1) * SlotTable.slotSize)

-- The slots of a variable and of a call result, where they have one.
def variableCell (frame : Frame) (name : String) : Slot :=
  (frame.slots.resolve? name).getD frame.slots.length

def resultCell (frame : Frame) (number : Nat) : Slot :=
  (frame.slots.resultOf? number).getD frame.slots.length

def loading (register : Register) : Operand → List Instruction
  | .literal value => [.set register value]
  | .variable slot => [.load register (slotPlace slot)]
  | .address slot => [.addressOf register (slotPlace slot)]
  | .pointee slot => [.load register (slotPlace slot), .load register (.through register)]
  | .external name => [.load register (.symbol name)]
  | .symbolAddress name => [.addressOf register (.symbol name)]
  | .data offset => [.addressOf register (.data offset)]
  | .absent => []

def receiving (index : Nat) : List Instruction :=
  match Register.arguments[index]? with
  | some register => [.store (slotPlace index) register]
  | none => [.load .rax (.above (stackParameter index)), .store (slotPlace index) .rax]

def reserving (bytes : Nat) : List Instruction :=
  if bytes = 0 then [] else [.reserve bytes]

def entering (slots : SlotTable) : List Instruction :=
  [.push .rbp, .copy .rbp .rsp] ++ reserving slots.frameSize ++
    (List.range slots.parameters.length).flatMap receiving

def pushing (operands : List Operand) : List Instruction :=
  operands.flatMap fun operand => loading .rax operand ++ [.push .rax]

def loadingAll (pairs : List (Operand × Register)) : List Instruction :=
  pairs.flatMap fun pair => loading pair.2 pair.1

@[simp] theorem pushing_nil : pushing [] = [] := rfl

@[simp] theorem pushing_cons (operand : Operand) (more : List Operand) :
    pushing (operand :: more) = loading .rax operand ++ .push .rax :: pushing more := by
  simp [pushing]

@[simp] theorem loadingAll_nil : loadingAll [] = [] := rfl

@[simp] theorem loadingAll_cons (pair : Operand × Register) (more : List (Operand × Register)) :
    loadingAll (pair :: more) = loading pair.2 pair.1 ++ loadingAll more := rfl

-- The arguments of a call that have no register, and the words that keep the stack aligned with them.
def stacked (arguments : List Operand) : List Operand := arguments.drop Register.arguments.length

def padding (arguments : List Operand) : Nat := (stacked arguments).length % 2

def releasing (bytes : Nat) : List Instruction :=
  if bytes = 0 then [] else [.release bytes]

-- Code that moves the stack pointer by a distance, downwards if it is negative.
def moving (distance : Int) : List Instruction :=
  if distance < 0 then reserving distance.natAbs else releasing distance.natAbs

theorem reserving_eq_moving (bytes : Nat) : reserving bytes = moving (-(bytes : Nat)) := by
  unfold moving
  split
  · rw [Int.natAbs_neg, Int.natAbs_natCast]
  · have hzero : bytes = 0 := by omega
    rw [hzero]
    rfl

theorem releasing_eq_moving (bytes : Nat) : releasing bytes = moving bytes := by
  rw [moving, if_neg (by omega), Int.natAbs_natCast]

-- There is no code for the distance zero.
theorem moving_forms (distance : Int) :
    distance = 0 ∧ moving distance = [] ∨
      (∃ bytes : Nat, distance = -bytes ∧ moving distance = [.reserve bytes]) ∨
        ∃ bytes : Nat, distance = bytes ∧ moving distance = [.release bytes] := by
  by_cases hzero : distance = 0
  · exact .inl ⟨hzero, by rw [hzero]; rfl⟩
  have hbytes : distance.natAbs ≠ 0 := by omega
  by_cases hdown : distance < 0
  · refine .inr (.inl ⟨distance.natAbs, by omega, ?_⟩)
    rw [moving, if_pos hdown, reserving, if_neg hbytes]
  · refine .inr (.inr ⟨distance.natAbs, by omega, ?_⟩)
    rw [moving, if_neg hdown, releasing, if_neg hbytes]

theorem reserving_words (words : Nat) : reserving (words * SlotTable.slotSize) =
    if words = 0 then [] else [.reserve (words * SlotTable.slotSize)] := by
  have hzero : words * SlotTable.slotSize = 0 ↔ words = 0 := by
    rw [SlotTable.slotSize]
    omega
  simp only [reserving, hzero]

theorem releasing_words (words : Nat) : releasing (words * SlotTable.slotSize) =
    if words = 0 then [] else [.release (words * SlotTable.slotSize)] := by
  have hzero : words * SlotTable.slotSize = 0 ↔ words = 0 := by
    rw [SlotTable.slotSize]
    omega
  simp only [releasing, hzero]

-- The code of a call up to the call itself.
def passing (arguments : List Operand) : List Instruction :=
  reserving (padding arguments * SlotTable.slotSize) ++ pushing (stacked arguments).reverse ++
    loadingAll (arguments.zip Register.arguments) ++ [.zero .rax]

def target (frame : Frame) (name : String) : Target :=
  if frame.symbols.contains name then .symbol name else .stored (slotPlace (frame.variableCell name))

-- The code of a call after the call itself.
def collecting (frame : Frame) (number : Nat) (arguments : List Operand) (output : Option Slot) :
    List Instruction :=
  releasing (((stacked arguments).length + padding arguments) * SlotTable.slotSize) ++
    [.store (slotPlace (frame.resultCell number)) .rax] ++
    (match output with
      | some slot => [.store (slotPlace slot) .rax]
      | none => [])

def calling (frame : Frame) (number : Nat) (call : Call) (output : Option Slot) :
    List Instruction :=
  passing call.arguments ++ .call (frame.target call.callee) ::
    frame.collecting number call.arguments output

def acting (frame : Frame) (number : Nat) : Action → List Instruction
  | .define name value => loading .rax value ++ [.store (slotPlace (frame.variableCell name)) .rax]
  | .declare names => names.map fun name => .clear (slotPlace (frame.variableCell name))
  | .assign name value => loading .rax value ++ [.store (slotPlace (frame.variableCell name)) .rax]
  | .call call => frame.calling number call none
  | .callAssign name call => frame.calling number call (some (frame.variableCell name))
  | .ret value => loading .rax value ++ epilogue
  | .exit value =>
    (if value = .absent then [.zero .rdi] else loading .rdi value) ++ [.set .rax exitCall, .syscall]

theorem variableCell_lt {name : String} (h : (frame.slots.resolve? name).isSome) :
    frame.variableCell name < frame.slots.length := by
  obtain ⟨slot, hs⟩ := Option.isSome_iff_exists.mp h
  rw [variableCell, hs]
  exact SlotTable.slotOf?_lt hs

theorem resultCell_lt {number : Nat} (h : (frame.slots.resultOf? number).isSome) :
    frame.resultCell number < frame.slots.length := by
  obtain ⟨slot, hs⟩ := Option.isSome_iff_exists.mp h
  rw [resultCell, hs]
  exact SlotTable.slotOf?_lt hs

end RayCompiler.Frame

namespace RayCompiler

open RayCompiler.Frame

namespace Statement

def lines (frame : Frame) (number : Nat) : Statement → List Line
  | .externs position names => [.place position, .externs names]
  | .function position name _ _ _ => [.place position, .function name]
  | .action position _ effect => .place position :: (frame.acting number effect).map .instruction

def linesOf (frame : Frame) : Nat → List Statement → List Line
  | _, [] => []
  | number, statement :: more =>
    statement.lines frame number ++ linesOf frame (number + statement.callCount) more

-- The number of calls that statements make themselves.
def callTotal (body : List Statement) : Nat := (body.map (·.callCount)).sum

theorem linesOf_append (frame : Frame) (number : Nat) (first second : List Statement) :
    linesOf frame number (first ++ second) =
      linesOf frame number first ++ linesOf frame (number + callTotal first) second := by
  induction first generalizing number with
  | nil => rfl
  | cons statement more ih =>
      simp only [List.cons_append, linesOf, ih, callTotal, List.map_cons, List.sum_cons,
        List.append_assoc, Nat.add_assoc]

theorem resolvesAll_append {frame : Frame} {number : Nat} {first second : List Statement}
    (h : frame.ResolvesAll number (first ++ second)) :
    frame.ResolvesAll (number + callTotal first) second := by
  induction first generalizing number with
  | nil => exact h
  | cons statement more ih =>
      have hmore := ih h.2
      simpa only [callTotal, List.map_cons, List.sum_cons, ← Nat.add_assoc] using hmore

end Statement

-- The frame of a function in a program where the given names have symbols.
def Function.frame (symbols : List String) (function : Function) : Frame :=
  ⟨function.name, function.slots, symbols⟩

-- The code of a function whose names all have a meaning.
def Function.block (symbols : List String) (function : Function) : Block :=
  ⟨function.name, (entering function.slots).map .instruction ++
    Statement.linesOf (function.frame symbols) 0 function.body ++
    function.closing.map .instruction⟩

end RayCompiler
