import RayCompiler.Program.Parser.Action

namespace RayCompiler.Parse

def externList : Parse (List String) := do
  expect (.keyword .external)
  let names ← commaList identifier
  endOfStatement .externDeclaration
  return names.map (·.value)

-- A statement of the named function. Functions inside it are read by `nested` and leave its slots
-- as they are.
def statement (nested : Parse Function) (scope : String) (slots : SlotTable) :
    Parse (Statement × SlotTable) := do
  let position := (← current).span.start
  match ← peek with
  | .keyword .external => return (.externs position (← externList), slots)
  | .keyword .func => return (.ofFunction position (← nested), slots)
  | _ =>
    let (action, slots) ← action slots
    return (.action position scope action, slots)

-- Statements up to a closing brace.
def blockBody (nested : Parse Function) (scope : String) :
    Nat → SlotTable → Parse (List Statement × SlotTable)
  | 0, _ => fail .unending
  | rounds + 1, slots => do
    skipTrivia
    match ← peek with
    | .symbol .closeCurly =>
      let _ ← advance
      return ([], slots)
    | .endOfInput => fail (.unexpected (.token (.symbol .closeCurly)) .endOfInput)
    | _ =>
      let (first, slots) ← statement nested scope slots
      let (others, slots) ← blockBody nested scope rounds slots
      return (first :: others, slots)

-- Statements up to the end of the line or a comment, which is left to read.
def arrowBody (nested : Parse Function) (scope : String) :
    Nat → SlotTable → Parse (List Statement × SlotTable)
  | 0, _ => fail .unending
  | rounds + 1, slots => do
    match ← peek with
    | .lineEnd => return ([], slots)
    | .comment => return ([], slots)
    | .openComment _ => return ([], slots)
    | .endOfInput => return ([], slots)
    | .symbol .semicolon =>
      let _ ← advance
      arrowBody nested scope rounds slots
    | _ =>
      let (first, slots) ← statement nested scope slots
      let (others, slots) ← arrowBody nested scope rounds slots
      return (first :: others, slots)

def functionBody (nested : Parse Function) (scope : String) (slots : SlotTable) :
    Parse (List Statement × SlotTable) := do
  match ← peek with
  | .symbol .openCurly =>
    expect (.symbol .openCurly)
    blockBody nested scope ((← remaining) + 1) slots
  | .symbol .arrow =>
    expect (.symbol .arrow)
    arrowBody nested scope ((← remaining) + 1) slots
  | found => fail (.unexpected .functionBody found)

-- Notes that a function is defined. This happens after its body is read, so a function inside it
-- is noted before it.
def register (name : Located String) : Parse Unit := do
  if (← read).known.externs.contains name.value then
    failAt name.span (.externClash name.value)
  else if (← get).defined.contains name.value then
    failAt name.span (.duplicateFunction name.value)
  else
    modify fun state => { state with defined := name.value :: state.defined }

def functionWith (nested : Parse Function) : Parse Function := do
  expect (.keyword .func)
  let name ← identifier
  let parameters := (← parenthesized identifier).map (·.value)
  match SlotTable.ofParameters parameters with
  | .error repeated => fail (.redefinition repeated)
  | .ok slots =>
    let (body, slots) ← functionBody nested name.value slots
    register name
    return ⟨name.value, parameters, body, slots⟩

-- A function with at most so many levels of functions, its own included.
def function : Nat → Parse Function
  | 0 => fail .unending
  | depth + 1 => functionWith (function depth)

end RayCompiler.Parse
