import RayCompiler.Program.Basic
import RayCompiler.Program.Parser.Basic

namespace RayCompiler.Parse

-- A name used for its value: a variable comes before an extern, and an extern before a function.
def valueOf? (known : KnownNames) (slots : SlotTable) (name : String) : Option Operand :=
  match slots.resolve? name with
  | some slot => some (.variable slot)
  | none =>
    if known.externs.contains name then some (.external name)
    else if known.functions.contains name then some (.symbolAddress name)
    else none

-- A name used as a pointer has to be a variable.
def pointeeOf? (slots : SlotTable) (name : String) : Option Operand :=
  (slots.resolve? name).map .pointee

def addressOf? (known : KnownNames) (slots : SlotTable) (name : String) : Option Operand :=
  match slots.resolve? name with
  | some slot => some (.address slot)
  | none => if known.contains name then some (.symbolAddress name) else none

def resolved (name : Located String) : Option Operand → Parse Operand
  | some operand => return operand
  | none => failAt name.span (.unresolved name.value)

-- The offset of what comes behind the data, in a word of 32 bits. It is cut off where the data do not
-- fit into so many.
def dataOffset (data : List UInt8) : Nat := data.length % UInt32.size

-- Adds a string and a zero byte to the data, and gives the offset of the string.
def intern (contents : String) : Parse Nat := do
  let offset := dataOffset (← get).data
  modify fun state => { state with data := state.data ++ contents.toUTF8.data.toList ++ [0] }
  return offset

def operand (slots : SlotTable) : Parse Operand := do
  let known := (← read).known
  let token ← advance
  match token.value with
  | .number value => return .literal value
  | .string contents => return .data (← intern contents)
  | .name name => resolved ⟨token.span, name⟩ (valueOf? known slots name)
  | .symbol .times =>
    let name ← identifier
    resolved name (pointeeOf? slots name.value)
  | .symbol .ampersand =>
    let name ← identifier
    resolved name (addressOf? known slots name.value)
  | found => failAt token.span (.expectedOperand found)

-- Operands in parentheses, no more than the limit, after which the statement ends.
def arguments (slots : SlotTable) (limit : Option Nat) (construct : Construct) :
    Parse (List Operand) := do
  let operands ← parenthesized (operand slots)
  if let some limit := limit then
    if limit < operands.length then
      fail (.tooManyArguments construct limit)
  endOfStatement construct
  return operands

-- The operand of a construct that takes one or none.
def singleArgument (slots : SlotTable) (construct : Construct) : Parse Operand := do
  return (← arguments slots (some 1) construct).headD .absent

-- A call by name. The name may also be a variable that holds an address.
def call (slots : SlotTable) : Parse Call := do
  let name ← identifier
  let known := (← read).known
  if known.contains name.value || (slots.resolve? name.value).isSome then
    return ⟨name.value, ← arguments slots none .call⟩
  else
    failAt name.span (.undefinedFunction name.value)

end RayCompiler.Parse
