namespace RayCompiler

-- A place in a text: the bytes before it, and its line and column. Lines and columns start at 1;
-- columns count characters, not bytes. Both are meant to be below 2 ^ 32, where words of 32 bits
-- count the same.
structure Position where
  offset : Nat
  line : Nat
  column : Nat
deriving DecidableEq

namespace Position

def start : Position := ⟨0, 1, 1⟩

-- The place after one character of the given width in bytes, on the same line.
def advance (position : Position) (width : Nat) : Position :=
  ⟨position.offset + width, position.line, position.column + 1⟩

-- The place after a line feed.
def newline (position : Position) : Position :=
  ⟨position.offset + 1, position.line + 1, 1⟩

def step (position : Position) (c : Char) : Position :=
  if c = '\n' then position.newline else position.advance c.utf8Size

-- The place after a whole text.
def past (position : Position) (text : List Char) : Position :=
  text.foldl step position

@[simp] theorem past_nil (position : Position) : position.past [] = position := rfl

@[simp] theorem past_cons (position : Position) (c : Char) (text : List Char) :
    position.past (c :: text) = (position.step c).past text := rfl

@[simp] theorem past_append (position : Position) (first second : List Char) :
    position.past (first ++ second) = (position.past first).past second :=
  List.foldl_append

def render (position : Position) : String :=
  s!"{position.line}:{position.column}"

end Position

end RayCompiler
