import RayCompiler.Text.Split

namespace RayCompiler.Text

def lines (text : List Char) : List (List Char) := split '\n' text

theorem lines_ne_nil (text : List Char) : lines text ≠ [] := split_ne_nil _ _

theorem intercalate_lines (text : List Char) : ['\n'].intercalate (lines text) = text :=
  intercalate_split _ _

theorem lines_append_cons {line : List Char} (h : '\n' ∉ line) (rest : List Char) :
    lines (line ++ '\n' :: rest) = line :: lines rest :=
  split_append_cons h rest

-- A carriage return at the end of a line belongs to its terminator.
def dropReturn (line : List Char) : List Char :=
  if line.getLast? = some '\r' then line.dropLast else line

-- The line with the given number, counted from 0, without its terminator. A last line has no
-- terminator, so it keeps a carriage return at its end. A line past the last one is empty.
def lineAt : List (List Char) → Nat → List Char
  | [], _ => []
  | [last], 0 => last
  | line :: _ :: _, 0 => dropReturn line
  | _ :: rest, number + 1 => lineAt rest number

end RayCompiler.Text
