import RayCompiler.Source.Span
import RayCompiler.Text.Lines

namespace RayCompiler

-- A program text and the name it goes by in reports.
structure Source where
  name : String
  text : String
deriving DecidableEq

namespace Source

-- The place after the last character.
def stop (source : Source) : Position := Position.start.past source.text.toList

-- The text of a line. Lines are numbered from 1, and 0 stands for the first one too.
def line (source : Source) (number : Nat) : String :=
  String.ofList (Text.lineAt (Text.lines source.text.toList) (number - 1))

end Source

end RayCompiler
