import RayCompiler.Diagnostic.Basic
import RayCompiler.Listing.Assemble
import RayCompiler.Program.Parser
import RayCompiler.Token.Lexer

namespace RayCompiler

-- The first error of a compilation, by the step that found it.
inductive CompileError where
  | lexical (error : Located LexError)
  | parsing (error : Located ParseError)
  | assembly (error : AssembleError)
deriving DecidableEq

namespace CompileError

def errorClass : CompileError → ErrorClass
  | .lexical _ => .lexical
  | .parsing error => error.value.errorClass
  | .assembly error => error.errorClass

def message : CompileError → String
  | .lexical error => error.value.message
  | .parsing error => error.value.message
  | .assembly error => error.message

-- Where an error lies. An error about the whole program lies at the end of the source.
def span (source : Source) : CompileError → Span
  | .lexical error => error.span
  | .parsing error => error.span
  | .assembly error => .point (error.position?.getD source.stop)

def diagnostic (source : Source) (error : CompileError) : Diagnostic :=
  ⟨error.errorClass.title, error.message, error.span source⟩

-- The report as text.
def report (source : Source) (error : CompileError) : String :=
  (error.diagnostic source).render source

end CompileError

-- The error on one line. An error about the whole program has no place in front.
def CompileError.summary (source : Source) (error : CompileError) : String :=
  match error with
  | .lexical found => found.span.label source.name found.value.message
  | .parsing found => found.span.label source.name found.value.message
  | .assembly found => found.message

def compile (source : Source) : Except CompileError String := do
  let tokens ← (tokenize source).mapError .lexical
  let program ← (parse tokens).mapError .parsing
  program.generate.mapError .assembly

end RayCompiler
