import RayCompiler.Token.Basic

namespace RayCompiler

-- The names that functions and extern declarations introduce anywhere in a program. They are
-- gathered first, so that a name may be used before it is introduced.
structure KnownNames where
  functions : List String
  externs : List String
deriving DecidableEq

namespace KnownNames

def functionNames : List Token → List String
  | [] => []
  | .keyword .func :: .name name :: rest => name :: functionNames rest
  | _ :: rest => functionNames rest

-- The names of the comma list at the front of the tokens.
def listedNames : List Token → List String
  | .name name :: .symbol .comma :: rest => name :: listedNames rest
  | .name name :: _ => [name]
  | _ => []

def externNames : List Token → List String
  | [] => []
  | .keyword .external :: rest => listedNames rest ++ externNames rest
  | _ :: rest => externNames rest

def ofTokens (tokens : List Token) : KnownNames := ⟨functionNames tokens, externNames tokens⟩

-- Whether a name can be called or have its address taken.
def contains (known : KnownNames) (name : String) : Bool :=
  known.functions.contains name || known.externs.contains name

end KnownNames

end RayCompiler
