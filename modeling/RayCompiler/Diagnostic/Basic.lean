import RayCompiler.Source.Basic

namespace RayCompiler

-- A report of one error: what kind it is, what it says, and where it lies.
structure Diagnostic where
  kind : String
  message : String
  span : Span
deriving DecidableEq

namespace Diagnostic

def spaces (count : Nat) : String := String.ofList (List.replicate count ' ')

-- The number of columns to mark. Only the first line of a span is shown, so a span that goes on to
-- another line is marked by its first column.
def markLength (span : Span) : Nat :=
  if span.stop.line = span.start.line ∧ span.start.column < span.stop.column then
    span.stop.column - span.start.column
  else 1

def marks (span : Span) : String :=
  spaces (span.start.column - 1) ++ String.ofList (List.replicate (markLength span) '^')

-- A text pushed to the right edge of a column.
def alignRight (width : Nat) (text : String) : String := spaces (width - text.length) ++ text

-- The report with the line of the source that it points at. The margin is as wide as the number of
-- the line where the span ends.
def render (diagnostic : Diagnostic) (source : Source) : String :=
  let line := diagnostic.span.start.line
  let width := (toString diagnostic.span.stop.line).length
  let margin := spaces width ++ " |"
  diagnostic.kind ++ ": " ++ diagnostic.message ++ "\n" ++
    " --> " ++ diagnostic.span.render source.name ++ "\n" ++
    margin ++ "\n" ++
    alignRight width (toString line) ++ " | " ++ source.line line ++ "\n" ++
    margin ++ " " ++ marks diagnostic.span ++ "\n" ++
    "\nBuild failed with 1 error\n"

end Diagnostic

end RayCompiler
