import RayCompiler.Proofs.Listing.Emission
import RayCompiler.Proofs.Machine.Basic

namespace RayCompiler

-- The call that an action makes.
def Action.call? : Action → Option Call
  | .call made => some made
  | .callAssign _ made => some made
  | _ => none

-- The operands that an action takes values from.
def Action.operands : Action → List Operand
  | .define _ value => [value]
  | .declare _ => []
  | .assign _ value => [value]
  | .call made => made.arguments
  | .callAssign _ made => made.arguments
  | .ret value => [value]
  | .exit value => [value]

-- The operands that a statement takes values from itself.
def Statement.operands : Statement → List Operand
  | .action _ _ effect => effect.operands
  | .externs _ _ => []
  | .function _ _ _ _ _ => []

-- A function that has been called: what its names mean and where its frame begins.
structure Activation where
  layout : Layout
  frame : Frame
  base : Word

-- What the statements of a function change: one cell for each slot, the memory around them, the
-- calls so far and the addresses that were read through.
structure Store where
  cells : Slot → Word
  memory : Memory
  history : List CallEvent
  reads : List Word

-- How the statements of a function end. A return without operand gives back nothing in particular.
inductive Conclusion where
  | returned (value : Option Word)
  | exited (status : Word)
deriving DecidableEq

def Store.setCell (store : Store) (slot : Slot) (value : Word) : Store :=
  { store with cells := fun other => if other = slot then value else store.cells other }

@[simp] theorem Store.setCell_history (store : Store) (slot : Slot) (value : Word) :
    (store.setCell slot value).history = store.history := rfl

namespace Activation

variable (activation : Activation)

def slotAddress (slot : Slot) : Word :=
  activation.base - .ofNat 64 ((slot + 1) * SlotTable.slotSize)

-- The value at an address: that of a cell if the address is the cell's own.
def peek (store : Store) (address : Word) : Word :=
  match (List.range activation.frame.slots.length).find? (activation.slotAddress · = address) with
  | some slot => store.cells slot
  | none => store.memory.read address

def value (store : Store) : Operand → Word
  | .literal value => value.toBitVec
  | .variable slot => store.cells slot
  | .address slot => activation.slotAddress slot
  | .pointee slot => activation.peek store (store.cells slot)
  | .external name => activation.peek store (activation.layout.symbol name)
  | .symbolAddress name => activation.layout.symbol name
  | .data offset => activation.layout.data + .ofNat 64 offset
  | .absent => 0

-- The addresses whose contents an operand takes.
def accesses (store : Store) : Operand → List Word
  | .pointee slot => [store.cells slot]
  | .external name => [activation.layout.symbol name]
  | _ => []

def reading (store : Store) (operands : List Operand) : Store :=
  { store with reads := store.reads ++ operands.flatMap (activation.accesses store) }

def callee (store : Store) (name : String) : Word :=
  if activation.frame.symbols.contains name then activation.layout.symbol name
  else store.cells (activation.frame.variableCell name)

-- The called function gets the values of all operands, taken before the call.
def event (store : Store) (call : Call) : CallEvent :=
  ⟨activation.callee store call.callee, call.arguments.map (activation.value store)⟩

-- The store when the called function has answered.
def answered (oracle : Oracle) (store : Store) (call : Call) : Store :=
  { activation.reading store call.arguments with
    memory := (oracle (store.history ++ [activation.event store call])).patch store.memory
    history := store.history ++ [activation.event store call] }

-- The result of a call goes to the cell of the call and, for an assignment, to that of the variable
-- too.
def collected (number : Nat) (store : Store) (result : Word) (output : Option Slot) : Store :=
  let kept := store.setCell (activation.frame.resultCell number) result
  match output with
  | some slot => kept.setCell slot result
  | none => kept

def call (oracle : Oracle) (store : Store) (call : Call) (output : Option Slot) : Store :=
  activation.collected store.history.length (activation.answered oracle store call)
    (oracle (store.history ++ [activation.event store call])).result output

-- The store after an action, and the conclusion if the action ends the function.
def perform (oracle : Oracle) (store : Store) : Action → Store × Option Conclusion
  | .define name value =>
    ((activation.reading store [value]).setCell (activation.frame.variableCell name)
      (activation.value store value), none)
  | .declare names =>
    (names.foldl (fun later name => later.setCell (activation.frame.variableCell name) 0) store, none)
  | .assign name value =>
    ((activation.reading store [value]).setCell (activation.frame.variableCell name)
      (activation.value store value), none)
  | .call call => (activation.call oracle store call none, none)
  | .callAssign name call =>
    (activation.call oracle store call (some (activation.frame.variableCell name)), none)
  | .ret value =>
    (activation.reading store [value],
      some (.returned (if value = .absent then none else some (activation.value store value))))
  | .exit value =>
    (activation.reading store [value],
      some (.exited (if value = .absent then 0 else activation.value store value)))

-- The statements in order up to the first return or exit. A function without one gives back zero.
def run (oracle : Oracle) : List Statement → Store → Store × Conclusion
  | [], store => (store, .returned (some 0))
  | .action _ _ action :: more, store =>
    match activation.perform oracle store action with
    | (later, none) => run oracle more later
    | (later, some conclusion) => (later, conclusion)
  | .externs _ _ :: more, store => run oracle more store
  | .function _ _ _ _ _ :: more, store => run oracle more store

end Activation

end RayCompiler
