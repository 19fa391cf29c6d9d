import RayCompiler.Proofs.Listing.Reading

namespace RayCompiler

open Text

-- The slot whose place is so many bytes below the frame pointer.
def Slot.ofPlace (bytes : Nat) : Slot := bytes / SlotTable.slotSize - 1

theorem Slot.ofPlace_mul (slot : Slot) : Slot.ofPlace ((slot + 1) * SlotTable.slotSize) = slot := by
  rw [ofPlace, Nat.mul_div_cancel _ (by decide)]
  rfl

namespace Operand

-- The operand that code puts into a register, if it is the code of one. A single access through a
-- register is not.
def ofCode? : List Instruction → Option (Operand × Register)
  | [.set register value] => some (.literal value, register)
  | [.load register (.below bytes)] => some (.variable (Slot.ofPlace bytes), register)
  | [.addressOf register (.below bytes)] => some (.address (Slot.ofPlace bytes), register)
  | [.load register (.below bytes), .load second (.through base)] =>
    if second = register ∧ base = register then some (.pointee (Slot.ofPlace bytes), register) else none
  | [.load register (.symbol name)] => some (.external name, register)
  | [.addressOf register (.symbol name)] => some (.symbolAddress name, register)
  | [.addressOf register (.data offset)] => some (.data offset, register)
  | _ => none

-- The lines of code in a listing.
def linesOfCode (code : List Instruction) : List String :=
  code.map fun instruction => (Line.instruction instruction).text

def ofText? (lines : List String) : Option (Operand × Register) :=
  (lines.mapM Instruction.ofText?).bind ofCode?

-- The operand is a symbol, and its name is that of a register.
def NamesRegister (operand : Operand) : Prop :=
  ∃ register : Register, operand = .external register.name ∨ operand = .symbolAddress register.name

theorem namesRegister_external {name : String} :
    (external name).NamesRegister ↔ ∃ register : Register, register.name = name := by
  simp [NamesRegister, eq_comm]

theorem namesRegister_symbolAddress {name : String} :
    (symbolAddress name).NamesRegister ↔ ∃ register : Register, register.name = name := by
  simp [NamesRegister, eq_comm]

-- The names in the code that loads an operand are those of the operand.
theorem names_loading {operand : Operand} {register : Register} {instruction : Instruction}
    (h : instruction ∈ Frame.loading register operand) {name : String}
    (hnames : instruction.Names name) :
    operand = .external name ∨ operand = .symbolAddress name := by
  cases operand with
  | absent => cases h
  | external other | symbolAddress other =>
      cases List.mem_singleton.mp h
      simpa [Instruction.Names, Instruction.address?] using hnames
  | pointee slot =>
      simp only [Frame.loading, List.mem_cons, List.not_mem_nil, or_false] at h
      rcases h with rfl | rfl <;>
        simp [Instruction.Names, Instruction.address?, Frame.slotPlace] at hnames
  | literal | «variable» | address | data =>
      cases List.mem_singleton.mp h
      simp [Instruction.Names, Instruction.address?, Frame.slotPlace] at hnames

-- The lines that load an operand tell which operand it is, unless it is a symbol with the name of a
-- register.
theorem ofText?_loading {operand : Operand} (hpresent : operand ≠ .absent)
    (hword : ∀ name, operand = .external name ∨ operand = .symbolAddress name → IsWord name)
    (register : Register) :
    ofText? (linesOfCode (Frame.loading register operand)) = some (operand, register) ↔
      ¬operand.NamesRegister := by
  have hslot := Slot.ofPlace_mul
  have hwords : ∀ instruction ∈ Frame.loading register operand,
      ∀ name, instruction.Names name → IsWord name :=
    fun _ hm name hnames => hword name (names_loading hm hnames)
  have hread := Instruction.mapM_ofText? hwords
  rw [ofText?, linesOfCode, hread, Option.bind_some]
  cases operand with
  | literal value => simp [Frame.loading, Instruction.seen, ofCode?, NamesRegister]
  | «variable» slot | address slot | pointee slot =>
      simp [Frame.loading, Frame.slotPlace, Instruction.seen, Address.seen, ofCode?, NamesRegister,
        hslot]
  | data offset => simp [Frame.loading, Instruction.seen, Address.seen, ofCode?, NamesRegister]
  | external name =>
      rw [namesRegister_external, not_exists, ← Register.ofName?_eq_none_iff]
      cases he : Register.ofName? name <;>
        simp [Frame.loading, Instruction.seen, Address.seen, he, ofCode?]
  | symbolAddress name =>
      rw [namesRegister_symbolAddress, not_exists, ← Register.ofName?_eq_none_iff]
      cases he : Register.ofName? name <;>
        simp [Frame.loading, Instruction.seen, Address.seen, he, ofCode?]
  | absent => exact absurd rfl hpresent

end Operand

end RayCompiler
