import RayCompiler.Diagnostic.ErrorClass
import RayCompiler.Token.Basic

namespace RayCompiler

-- The constructs after which a statement has to end.
inductive Construct where
  | externDeclaration
  | variableDeclaration
  | assignment
  | call
  | ret
  | exit
deriving DecidableEq

def Construct.describe : Construct → String
  | .externDeclaration => "extern declaration"
  | .variableDeclaration => "variable declaration"
  | .assignment => "assignment"
  | .call => "function call"
  | .ret => "return"
  | .exit => "exit"

-- What had to stand where another token was found.
inductive Expected where
  | token (token : Token)
  | identifier
  | functionBody
deriving DecidableEq

def Expected.describe : Expected → String
  | .token wanted => wanted.describe
  | .identifier => "identifier"
  | .functionBody => "`\x7b` or `=>`"

-- Why tokens do not form a program. The last cause is for token lists without an end of input
-- whose last token could be skipped for ever.
inductive ParseError where
  | unexpected (expected : Expected) (found : Token)
  | missingTerminator (construct : Construct) (found : Token)
  | expectedItem (found : Token)
  | expectedStatement (found : Token)
  | expectedOperand (found : Token)
  | multipleInitialization
  | duplicateFunction (name : String)
  | externClash (name : String)
  | undefinedFunction (name : String)
  | tooManyArguments (construct : Construct) (limit : Nat)
  | unresolved (name : String)
  | redefinition (name : String)
  | unending
deriving DecidableEq

namespace ParseError

def message : ParseError → String
  | .unexpected expected found =>
    "Expected " ++ expected.describe ++ ", found " ++ found.describe ++ " instead"
  | .missingTerminator construct found =>
    "Expected a line break, comment or `;` after " ++ construct.describe ++ ", found " ++
      found.describe ++ " instead"
  | .expectedItem found =>
    "Expected `extern` or `func` at top level, found " ++ found.describe ++ " instead"
  | .expectedStatement found =>
    "Expected any of `extern`, `func`, `return`, `exit`, `var`, a call or an assignment, found " ++
      found.describe ++ " instead"
  | .expectedOperand found =>
    "Expected a literal or an identifier, found " ++ found.describe ++ " instead"
  | .multipleInitialization => "Only one variable may be initialized per `var` declaration"
  | .duplicateFunction name => "Function `" ++ name ++ "` is defined more than once"
  | .externClash name => "Function `" ++ name ++ "` clashes with an extern of the same name"
  | .undefinedFunction name => "Function `" ++ name ++ "` is not defined"
  | .tooManyArguments construct limit =>
    "Too many arguments for `" ++ construct.describe ++ "`, at most " ++ toString limit ++ " allowed"
  | .unresolved name => "`" ++ name ++ "` is not a parameter, local variable or extern"
  | .redefinition name => "`" ++ name ++ "` is already defined in this function"
  | .unending => "The token list has no end"

def errorClass : ParseError → ErrorClass
  | .unexpected _ _ => .syntactic
  | .missingTerminator _ _ => .syntactic
  | .expectedItem _ => .syntactic
  | .expectedStatement _ => .syntactic
  | .expectedOperand _ => .syntactic
  | .multipleInitialization => .syntactic
  | .duplicateFunction _ => .definition
  | .externClash _ => .definition
  | .undefinedFunction _ => .definition
  | .tooManyArguments _ _ => .definition
  | .unresolved _ => .name
  | .redefinition _ => .variableDefinition
  | .unending => .syntactic

end ParseError

end RayCompiler
