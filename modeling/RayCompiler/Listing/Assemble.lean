import RayCompiler.Listing.Basic
import RayCompiler.Listing.Frame

namespace RayCompiler

namespace Statement

-- The number of calls a statement makes itself.
def callCount : Statement → Nat
  | .action _ _ (.call _) => 1
  | .action _ _ (.callAssign _ _) => 1
  | _ => 0

def isReturn : Statement → Bool
  | .action _ _ (.ret _) => true
  | _ => false

-- The lines of a statement. A declaration inside a function leaves only a remark: imports belong to
-- the whole listing and each function has a block of its own.
def assemble (frame : Frame) (number : Nat) (statement : Statement) :
    Except AssembleError (List Line) :=
  match statement with
  | .externs position names => .ok [.place position, .externs names]
  | .function position name _ _ _ => .ok [.place position, .function name]
  | .action position _ effect =>
    return .place position :: (← frame.actionCode number effect).map .instruction

def assembleAll (frame : Frame) : Nat → List Statement → Except AssembleError (List Line)
  | _, [] => .ok []
  | number, statement :: more => do
    let lines ← statement.assemble frame number
    let others ← assembleAll frame (number + statement.callCount) more
    return lines ++ others

end Statement

-- A function whose body does not end with a return gives zero back.
def Function.closing (function : Function) : List Instruction :=
  match function.body.getLast? with
  | some last => if last.isReturn then [] else .zero .rax :: Frame.epilogue
  | none => .zero .rax :: Frame.epilogue

def Function.assemble (symbols : List String) (function : Function) :
    Except AssembleError Block := do
  let frame : Frame := ⟨function.name, function.slots, symbols⟩
  let prologue ← frame.prologue
  let body ← Statement.assembleAll frame 0 function.body
  return ⟨function.name,
    prologue.map .instruction ++ body ++ function.closing.map .instruction⟩

namespace Program

def entryPoint : String := "main"

def addImport (position : Position) (imports : List String) (name : String) :
    Except AssembleError (List String) :=
  if imports.contains name then .error (.duplicateExtern name position) else .ok (imports ++ [name])

-- The names of all extern declarations in order. A name may be declared only once.
def imports (program : Program) : Except AssembleError (List String) :=
  program.externs.foldlM
    (fun imports (position, names) => names.foldlM (addImport position) imports) []

def assemble (program : Program) : Except AssembleError Listing := do
  let imports ← program.imports
  let names := program.functions.map (·.name)
  if !names.contains entryPoint then
    throw .missingEntryPoint
  let blocks ← program.functions.mapM (·.assemble (imports ++ names))
  return ⟨imports, blocks, program.data⟩

def generate (program : Program) : Except AssembleError String :=
  return (← program.assemble).render

-- Writes the listing where there is room for so many bytes. Gives the bytes written, and the error
-- if they are not the whole listing. Without a listing nothing is written.
def emit (program : Program) (room : Nat) : ByteArray × Option AssembleError :=
  match program.generate with
  | .error error => (.empty, some error)
  | .ok listing =>
    let bytes := listing.toUTF8
    (bytes.extract 0 room, if room < bytes.size then some .writeFailed else none)

end Program

end RayCompiler
