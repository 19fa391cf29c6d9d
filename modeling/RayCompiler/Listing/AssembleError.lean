import RayCompiler.Diagnostic.ErrorClass
import RayCompiler.Source.Position

namespace RayCompiler

-- What a function needs a slot for.
inductive Wanted where
  | variable (name : String)
  | slot (index : Nat)
  | result (call : Nat)
deriving DecidableEq

def Wanted.describe : Wanted → String
  | .variable name => name
  | .slot index => "#" ++ toString index
  | .result call => "<call #" ++ toString call ++ ">"

-- Why a program has no listing, or why its listing was not written in full.
inductive AssembleError where
  | writeFailed
  | duplicateExtern (name : String) (position : Position)
  | missingEntryPoint
  | unknownSlot (function : String) (wanted : Wanted)
  | unknownCallee (function : String) (name : String)
deriving DecidableEq

namespace AssembleError

def message : AssembleError → String
  | .writeFailed => "I/O error"
  | .duplicateExtern name _ => "Extern `" ++ name ++ "` was already declared"
  | .missingEntryPoint => "Entry point not found, define a function named `main`"
  | .unknownSlot function wanted =>
    "`" ++ wanted.describe ++ "` has no stack slot in function `" ++ function ++ "`"
  | .unknownCallee function name =>
    "Call target `" ++ name ++ "` in function `" ++ function ++ "` is not defined"

-- What lies behind an error, where that is another error.
def cause? : AssembleError → Option String
  | .writeFailed => some "failed to write whole buffer"
  | .duplicateExtern _ _ => none
  | .missingEntryPoint => none
  | .unknownSlot _ _ => none
  | .unknownCallee _ _ => none

def errorClass : AssembleError → ErrorClass
  | .writeFailed => .internal
  | .duplicateExtern _ _ => .definition
  | .missingEntryPoint => .missingEntryPoint
  | .unknownSlot _ _ => .internal
  | .unknownCallee _ _ => .internal

-- The place in the source that an error is about, if there is one.
def position? : AssembleError → Option Position
  | .duplicateExtern _ position => some position
  | .writeFailed => none
  | .missingEntryPoint => none
  | .unknownSlot _ _ => none
  | .unknownCallee _ _ => none

end AssembleError

end RayCompiler
