import RayCompiler.Program.Parser.Operand

namespace RayCompiler.Parse

-- The right side of an assignment.
inductive Value where
  | operand (operand : Operand)
  | call (call : Call)

def value (slots : SlotTable) : Parse Value := do
  match ← peek, ← peekSecond with
  | .name _, .symbol .openParen => return .call (← call slots)
  | _, _ => return .operand (← operand slots)

-- The result of a call has a slot of its own besides the variable it is given to.
def define (slots : SlotTable) (name : String) : Value → Action × SlotTable
  | .operand operand => (.define name operand, slots)
  | .call call => (.callAssign name call, slots.reserve.2)

def assign (slots : SlotTable) (name : String) : Value → Action × SlotTable
  | .operand operand => (.assign name operand, slots)
  | .call call => (.callAssign name call, slots.reserve.2)

def declare (slots : SlotTable) (name : Located String) : Parse SlotTable :=
  match slots.declare? name.value with
  | some (_, slots) => return slots
  | none => failAt name.span (.redefinition name.value)

-- A variable declaration. Several variables may be declared at once, but only one that stands
-- alone may have a value, and the value cannot refer to it.
def declaration (slots : SlotTable) : Parse (Action × SlotTable) := do
  expect (.keyword .var)
  let names ← commaList identifier
  if (← peek) = .symbol .assign then
    match names with
    | [name] =>
      expect (.symbol .assign)
      let value ← value slots
      endOfStatement .variableDeclaration
      let slots ← declare slots name
      return define slots name.value value
    | _ => fail .multipleInitialization
  else
    endOfStatement .variableDeclaration
    let slots ← names.foldlM declare slots
    return (.declare (names.map (·.value)), slots)

def assignment (slots : SlotTable) : Parse (Action × SlotTable) := do
  let name ← identifier
  if (slots.resolve? name.value).isSome then
    expect (.symbol .assign)
    let value ← value slots
    endOfStatement .assignment
    return assign slots name.value value
  else
    failAt name.span (.unresolved name.value)

def action (slots : SlotTable) : Parse (Action × SlotTable) := do
  match ← peek with
  | .keyword .ret =>
    let _ ← advance
    return (.ret (← singleArgument slots .ret), slots)
  | .keyword .exit =>
    let _ ← advance
    return (.exit (← singleArgument slots .exit), slots)
  | .keyword .var => declaration slots
  | .name _ =>
    if (← peekSecond) = .symbol .assign then
      assignment slots
    else
      return (.call (← call slots), slots.reserve.2)
  | found => fail (.expectedStatement found)

end RayCompiler.Parse
