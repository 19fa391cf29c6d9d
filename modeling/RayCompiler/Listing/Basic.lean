import RayCompiler.Listing.Instruction
import RayCompiler.Source.Position

namespace RayCompiler

-- A line of a function: an instruction, or a remark on the statement that the lines after it come
-- from.
inductive Line where
  | instruction (instruction : Instruction)
  | place (position : Position)
  | externs (names : List String)
  | function (name : String)
deriving DecidableEq

-- The code of one function.
structure Block where
  name : String
  lines : List Line
deriving DecidableEq

-- A whole listing: imported symbols, functions, and the bytes of the string literals.
structure Listing where
  imports : List String
  blocks : List Block
  data : List UInt8
deriving DecidableEq

-- A mnemonic filled up to the column where operands begin.
def padMnemonic (mnemonic : String) : String :=
  mnemonic ++ String.ofList (List.replicate (8 - mnemonic.length) ' ')

def Instruction.render (instruction : Instruction) : String :=
  match instruction.operands? with
  | some operands => padMnemonic instruction.mnemonic ++ operands
  | none => instruction.mnemonic

def Line.render : Line → String
  | .instruction code => "\t" ++ code.render ++ "\n"
  | .place position => "\t; " ++ position.render ++ "\n"
  | .externs names => "\t; extern " ++ ", ".intercalate names ++ "\n"
  | .function name => "\t; func " ++ name ++ "\n"

def Block.render (block : Block) : String :=
  "\n; --- " ++ block.name ++ " ---\npublic " ++ block.name ++ "\n" ++ block.name ++ ":\n" ++
    String.join (block.lines.map (·.render))

namespace Listing

def rowLength : Nat := 16

-- The data in rows, each full except perhaps the last one.
def rows (data : List UInt8) : List (List UInt8) :=
  match data with
  | [] => []
  | byte :: rest => (byte :: rest).take rowLength :: rows ((byte :: rest).drop rowLength)
termination_by data.length
decreasing_by
  simp only [List.length_drop, List.length_cons, rowLength]
  omega

def renderRow (row : List UInt8) : String :=
  "\t" ++ padMnemonic "db" ++ ", ".intercalate (row.map (toString ·.toNat)) ++ "\n"

def renderImports (imports : List String) : String :=
  if imports.isEmpty then "" else "\n" ++ String.join (imports.map fun name => "extrn " ++ name ++ "\n")

def renderData (data : List UInt8) : String :=
  if data.isEmpty then ""
  else
    "\nsection '.data' writeable\n\n" ++ dataLabel ++ ":\n" ++ String.join ((rows data).map renderRow)

def render (listing : Listing) : String :=
  "format ELF64\n" ++ renderImports listing.imports ++ "\nsection '.text' executable\n" ++
    String.join (listing.blocks.map (·.render)) ++ renderData listing.data

end Listing

end RayCompiler
