import RayCompiler.Listing.AssembleError
import RayCompiler.Listing.Instruction
import RayCompiler.Program.Basic

namespace RayCompiler

-- What the code of a function depends on: its name, its slots, and the names that have a symbol.
structure Frame where
  function : String
  slots : SlotTable
  symbols : List String

namespace Frame

-- Slots lie one below another, the first one just under the frame pointer. The bytes fit into a word
-- of 32 bits for the first 2 ^ 29 - 1 slots.
def slotAddress (frame : Frame) (slot : Slot) : Except AssembleError Address :=
  if frame.slots.contains slot then .ok (.below ((slot + 1) * SlotTable.slotSize))
  else .error (.unknownSlot frame.function (.slot slot))

def variableSlot (frame : Frame) (name : String) : Except AssembleError Slot :=
  match frame.slots.resolve? name with
  | some slot => .ok slot
  | none => .error (.unknownSlot frame.function (.variable name))

def resultSlot (frame : Frame) (call : Nat) : Except AssembleError Slot :=
  match frame.slots.resultOf? call with
  | some slot => .ok slot
  | none => .error (.unknownSlot frame.function (.result call))

-- A symbol is called directly, even if a variable has the same name.
def callTarget (frame : Frame) (name : String) : Except AssembleError Target :=
  if frame.symbols.contains name then .ok (.symbol name)
  else match frame.slots.resolve? name with
    | some slot => return .stored (← frame.slotAddress slot)
    | none => .error (.unknownCallee frame.function name)

-- Puts an operand into a register. An absent operand leaves the register as it is.
def load (frame : Frame) (register : Register) : Operand → Except AssembleError (List Instruction)
  | .literal value => .ok [.set register value]
  | .variable slot => return [.load register (← frame.slotAddress slot)]
  | .address slot => return [.addressOf register (← frame.slotAddress slot)]
  | .pointee slot =>
    return [.load register (← frame.slotAddress slot), .load register (.through register)]
  | .external name => .ok [.load register (.symbol name)]
  | .symbolAddress name => .ok [.addressOf register (.symbol name)]
  | .data offset => .ok [.addressOf register (.data offset)]
  | .absent => .ok []

def store (frame : Frame) (slot : Slot) (register : Register) :
    Except AssembleError (List Instruction) :=
  return [.store (← frame.slotAddress slot) register]

def clear (frame : Frame) (name : String) : Except AssembleError (List Instruction) := do
  let slot ← frame.variableSlot name
  return [.clear (← frame.slotAddress slot)]

-- The bytes above the frame pointer where a parameter past the last register lies. The saved frame
-- pointer and the return address come before the first one.
def stackParameter (index : Nat) : Nat :=
  2 * SlotTable.slotSize + (index - Register.arguments.length) * SlotTable.slotSize

-- Copies a parameter to its slot from where the caller left it.
def receive (frame : Frame) (index : Nat) : Except AssembleError (List Instruction) :=
  match Register.arguments[index]? with
  | some register => frame.store index register
  | none => return .load .rax (.above (stackParameter index)) :: (← frame.store index .rax)

def prologue (frame : Frame) : Except AssembleError (List Instruction) := do
  let size := frame.slots.frameSize
  let copies ← (List.range frame.slots.parameters.length).mapM frame.receive
  return [.push .rbp, .copy .rbp .rsp] ++ (if size = 0 then [] else [.reserve size]) ++ copies.flatten

def epilogue : List Instruction := [.copy .rsp .rbp, .pop .rbp, .ret]

-- The code of a call whose result goes to the slot of the call with this number and, if given, to
-- another slot. Arguments without a register are pushed from the last one down, after a gap that
-- keeps the stack aligned if their number is odd. The bytes to take back fit into a signed word of
-- 32 bits if fewer than 2 ^ 28 arguments are pushed, and that many are not meant.
def callCode (frame : Frame) (number : Nat) (call : Call) (output : Option Slot) :
    Except AssembleError (List Instruction) := do
  let target ← frame.callTarget call.callee
  let result ← frame.resultSlot number
  let stacked := call.arguments.drop Register.arguments.length
  let padding := stacked.length % 2
  let reclaimed := stacked.length + padding
  let pushes ← stacked.reverse.mapM fun argument =>
    return (← frame.load .rax argument) ++ [.push .rax]
  let loads ← (call.arguments.zip Register.arguments).mapM fun (argument, register) =>
    frame.load register argument
  let kept ← frame.store result .rax
  let given ← match output with
    | some slot => frame.store slot .rax
    | none => pure []
  return (if padding = 0 then [] else [.reserve (padding * SlotTable.slotSize)]) ++
    pushes.flatten ++ loads.flatten ++ [.zero .rax, .call target] ++
    (if reclaimed = 0 then [] else [.release (reclaimed * SlotTable.slotSize)]) ++ kept ++ given

-- The number of the system call that ends the process.
def exitCall : Int64 := 60

-- The code of an action. Its number counts the calls of the function before it.
def actionCode (frame : Frame) (number : Nat) : Action → Except AssembleError (List Instruction)
  | .define name value => do
    let slot ← frame.variableSlot name
    return (← frame.load .rax value) ++ (← frame.store slot .rax)
  | .declare names => return (← names.mapM frame.clear).flatten
  | .assign name value => do
    let slot ← frame.variableSlot name
    return (← frame.load .rax value) ++ (← frame.store slot .rax)
  | .call call => frame.callCode number call none
  | .callAssign name call => do
    let slot ← frame.variableSlot name
    frame.callCode number call (some slot)
  | .ret value => return (← frame.load .rax value) ++ epilogue
  | .exit .absent => .ok [.zero .rdi, .set .rax exitCall, .syscall]
  | .exit value => return (← frame.load .rdi value) ++ [.set .rax exitCall, .syscall]

end Frame

end RayCompiler
