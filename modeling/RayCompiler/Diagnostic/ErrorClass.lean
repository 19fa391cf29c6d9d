namespace RayCompiler

inductive ErrorClass where
  | lexical
  | syntactic
  | definition
  | name
  | variableDefinition
  | missingEntryPoint
  | internal
deriving DecidableEq

def ErrorClass.title : ErrorClass → String
  | .lexical => "Lexical error"
  | .syntactic => "Syntax error"
  | .definition => "Definition error"
  | .name => "Name error"
  | .variableDefinition => "Variable definition error"
  | .missingEntryPoint => "Missing entry point"
  | .internal => "Internal compiler error"

end RayCompiler
