import RayCompiler.Text.Quoted

namespace RayCompiler.Dump

-- Four spaces in front of every line of a text.
def indentFrom : Bool → List Char → List Char
  | _, [] => []
  | atStart, c :: rest =>
    (if atStart then [' ', ' ', ' ', ' '] else []) ++ c :: indentFrom (c == '\n') rest

def indent (text : String) : String := String.ofList (indentFrom true text.toList)

-- Parts on lines of their own between two marks, with a comma after each one.
def enclosed (opening closing : String) (parts : List String) : String :=
  opening ++ "\n" ++ String.join (parts.map fun part => indent (part ++ ",\n")) ++ closing

-- A value with named parts.
def record (name : String) (fields : List (String × String)) : String :=
  enclosed (name ++ " \x7b") "\x7d" (fields.map fun (field, value) => field ++ ": " ++ value)

-- A value with parts in a fixed order.
def tuple (name : String) (parts : List String) : String := enclosed (name ++ "(") ")" parts

def list (parts : List String) : String :=
  if parts.isEmpty then "[]" else enclosed "[" "]" parts

def identifier (name : String) : String := tuple "Identifier" [Text.quoteText name]

def identifiers (names : List String) : String := list (names.map identifier)

end RayCompiler.Dump
