import RayCompiler.Source.Position

namespace RayCompiler

-- A stretch of a text, from its first place to the place after it.
structure Span where
  start : Position
  stop : Position
deriving DecidableEq

-- The span of a single place. It covers one column and no byte.
def Span.point (position : Position) : Span := ⟨position, position.advance 0⟩

-- A value together with the text it came from.
structure Located (α : Type) where
  span : Span
  value : α
deriving DecidableEq

-- The place as shown to a reader: the name of the text, then line and column.
def Span.render (span : Span) (name : String) : String :=
  s!"{name}:{span.start.render}"

-- A message with the place it is about in front of it.
def Span.label (span : Span) (name message : String) : String :=
  span.render name ++ ": " ++ message

end RayCompiler
