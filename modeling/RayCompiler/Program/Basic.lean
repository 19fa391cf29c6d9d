import RayCompiler.Slot.Table
import RayCompiler.Source.Position

namespace RayCompiler

-- A value that a statement uses. Every name in it is resolved.
inductive Operand where
  | literal (value : Int64)
  | variable (slot : Slot)
  | address (slot : Slot)
  | pointee (slot : Slot)
  | external (name : String)
  | symbolAddress (name : String)
  | data (offset : Nat)
  | absent
deriving DecidableEq

structure Call where
  callee : String
  arguments : List Operand
deriving DecidableEq

-- What a statement does when it runs.
inductive Action where
  | define (name : String) (value : Operand)
  | declare (names : List String)
  | assign (name : String) (value : Operand)
  | call (call : Call)
  | callAssign (name : String) (call : Call)
  | ret (value : Operand)
  | exit (value : Operand)
deriving DecidableEq

-- A statement and the place where it begins. Declarations may stand inside functions; an action
-- carries the name of the function it belongs to.
inductive Statement where
  | externs (position : Position) (names : List String)
  | function (position : Position) (name : String) (parameters : List String)
      (body : List Statement) (slots : SlotTable)
  | action (position : Position) (scope : String) (action : Action)

structure Function where
  name : String
  parameters : List String
  body : List Statement
  slots : SlotTable

namespace Statement

def ofFunction (position : Position) (function : Function) : Statement :=
  .function position function.name function.parameters function.body function.slots

def position : Statement → Position
  | .externs position _ => position
  | .function position _ _ _ _ => position
  | .action position _ _ => position

mutual

-- The functions that a statement defines, each one before those inside it.
def functions : Statement → List Function
  | .function _ name parameters body slots => ⟨name, parameters, body, slots⟩ :: functionsIn body
  | .externs _ _ => []
  | .action _ _ _ => []

def functionsIn : List Statement → List Function
  | [] => []
  | statement :: more => statement.functions ++ functionsIn more

end

mutual

-- The extern declarations of a statement with their places, in the order of the text.
def declarations : Statement → List (Position × List String)
  | .externs position names => [(position, names)]
  | .function _ _ _ body _ => declarationsIn body
  | .action _ _ _ => []

def declarationsIn : List Statement → List (Position × List String)
  | [] => []
  | statement :: more => statement.declarations ++ declarationsIn more

end

end Statement

-- A whole program: its top-level statements and the bytes of its string literals.
structure Program where
  statements : List Statement
  data : List UInt8

namespace Program

def empty : Program := ⟨[], []⟩

def functions (program : Program) : List Function := Statement.functionsIn program.statements

def externs (program : Program) : List (Position × List String) :=
  Statement.declarationsIn program.statements

end Program

end RayCompiler
