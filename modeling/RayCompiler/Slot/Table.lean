namespace RayCompiler

-- The index of a slot in the frame of its function.
abbrev Slot := Nat

-- What a slot holds: a parameter or local variable, or the result of the call with this number.
inductive Occupant where
  | variable (name : String)
  | result (call : Nat)
deriving DecidableEq

-- The slots of a function in frame order: its parameters, then its variables and call results as
-- they appear. The table grows only at its end, so a slot keeps its index.
structure SlotTable where
  parameters : List String
  locals : List Occupant
deriving DecidableEq

namespace SlotTable

def empty : SlotTable := ⟨[], []⟩

def occupants (table : SlotTable) : List Occupant :=
  table.parameters.map .variable ++ table.locals

def length (table : SlotTable) : Nat := table.occupants.length

-- The number of calls whose result has a slot.
def calls (table : SlotTable) : Nat :=
  table.locals.countP fun
    | .result _ => true
    | .variable _ => false

def slotOf? (table : SlotTable) (occupant : Occupant) : Option Slot :=
  table.occupants.findIdx? (· == occupant)

def resolve? (table : SlotTable) (name : String) : Option Slot :=
  table.slotOf? (.variable name)

def resultOf? (table : SlotTable) (call : Nat) : Option Slot :=
  table.slotOf? (.result call)

def contains (table : SlotTable) (slot : Slot) : Bool := slot < table.length

def push (table : SlotTable) (occupant : Occupant) : Slot × SlotTable :=
  (table.length, { table with locals := table.locals ++ [occupant] })

-- Adds a variable, unless its name has a slot already.
def declare? (table : SlotTable) (name : String) : Option (Slot × SlotTable) :=
  if (table.resolve? name).isSome then none else some (table.push (.variable name))

-- Adds the slot for the result of the next call.
def reserve (table : SlotTable) : Slot × SlotTable := table.push (.result table.calls)

def addParameter (table : SlotTable) (name : String) : Except String SlotTable :=
  if (table.resolve? name).isSome then .error name
  else .ok { table with parameters := table.parameters ++ [name] }

-- The table of a function before its body. Fails with the first name that repeats an earlier one.
def ofParameters (names : List String) : Except String SlotTable :=
  names.foldlM addParameter empty

def slotSize : Nat := 8

def frameAlignment : Nat := 16

-- The bytes of the frame: the least multiple of the alignment that holds every slot. With fewer than
-- 2 ^ 29 - 2 slots no step of it exceeds a word of 32 bits.
def frameSize (table : SlotTable) : Nat :=
  (table.length * slotSize + frameAlignment - 1) / frameAlignment * frameAlignment

end SlotTable

end RayCompiler
