import RayCompiler.Dump.Layout
import RayCompiler.Program.Basic

namespace RayCompiler.Dump

def position (position : Position) : String :=
  record "Position" [("offset", toString position.offset), ("line", toString position.line),
    ("column", toString position.column)]

def slot (slot : Slot) : String := tuple "Slot" [toString slot]

def operand : Operand → String
  | .literal value => tuple "Literal" [toString value.toInt]
  | .variable index => tuple "AutoVar" [slot index]
  | .address index => tuple "RefAutoVar" [slot index]
  | .pointee index => tuple "Deref" [slot index]
  | .external name => tuple "External" [identifier name]
  | .symbolAddress name => tuple "RefExternal" [identifier name]
  | .data offset => tuple "DataOffset" [toString offset]
  | .absent => "Bogus"

def call (scope : String) (call : Call) : String :=
  record "Call" [("name", identifier call.callee), ("scope", identifier scope),
    ("args", list (call.arguments.map operand))]

def action (scope : String) : Action → String
  | .define name value =>
    record "VariableDef" [("scope", identifier scope), ("name", identifier name),
      ("arg", operand value)]
  | .declare names =>
    record "MultiVariableDef" [("scope", identifier scope), ("names", identifiers names)]
  | .assign name value =>
    record "VariableAssign" [("scope", identifier scope), ("name", identifier name),
      ("arg", operand value)]
  | .call made => tuple "FunctionCall" [call scope made]
  | .callAssign name made =>
    record "FunctionCallAssign" [("scope", identifier scope), ("var", identifier name),
      ("call", call scope made)]
  | .ret value => record "Return" [("scope", identifier scope), ("arg", operand value)]
  | .exit value => record "Exit" [("scope", identifier scope), ("arg", operand value)]

def occupant : Occupant → String
  | .variable name => tuple "Named" [identifier name]
  | .result number => tuple "CallResult" [toString number]

def slotTable (table : SlotTable) : String :=
  record "SlotTable" [("parameters", toString table.parameters.length),
    ("calls", toString table.calls), ("slots", list (table.occupants.map occupant))]

mutual

def statement : Statement → String
  | .externs place names =>
    record "Statement" [("position", position place),
      ("node", record "Extern" [("names", identifiers names)])]
  | .function place name parameters body slots =>
    record "Statement" [("position", position place),
      ("node", tuple "Function" [record "Function" [("name", identifier name),
        ("params", identifiers parameters), ("body", list (statements body)),
        ("slots", slotTable slots)]])]
  | .action place scope effect =>
    record "Statement" [("position", position place), ("node", action scope effect)]

def statements : List Statement → List String
  | [] => []
  | first :: more => statement first :: statements more

end

def program (program : Program) : String :=
  record "Ast" [("nodes", list (statements program.statements)),
    ("data", list (program.data.map (toString ·.toNat)))]

end RayCompiler.Dump
