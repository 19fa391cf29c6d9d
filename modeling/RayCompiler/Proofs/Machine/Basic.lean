import RayCompiler.Listing.Basic
import RayCompiler.Proofs.Machine.Memory

namespace RayCompiler

-- Where the symbols and the string literals of a program lie.
structure Layout where
  symbol : String → Word
  data : Word

structure Machine where
  registers : Register → Word
  memory : Memory

namespace Machine

variable {machine : Machine}

def set (machine : Machine) (register : Register) (value : Word) : Machine :=
  ⟨fun other => if other = register then value else machine.registers other, machine.memory⟩

def put (machine : Machine) (address value : Word) : Machine :=
  ⟨machine.registers, machine.memory.write address value⟩

@[simp] theorem set_memory (machine : Machine) (register : Register) (value : Word) :
    (machine.set register value).memory = machine.memory := rfl

@[simp] theorem put_registers (machine : Machine) (address value : Word) :
    (machine.put address value).registers = machine.registers := rfl

@[simp] theorem put_memory (machine : Machine) (address value : Word) :
    (machine.put address value).memory = machine.memory.write address value := rfl

@[simp] theorem set_same (machine : Machine) (register : Register) (value : Word) :
    (machine.set register value).registers register = value := by
  simp [set]

@[simp] theorem set_other (machine : Machine) (value : Word) {register other : Register}
    (h : other ≠ register) :
    (machine.set register value).registers other = machine.registers other := by
  simp [set, h]

theorem set_set (machine : Machine) (register : Register) (first second : Word) :
    (machine.set register first).set register second = machine.set register second := by
  unfold set
  congr 1
  funext other
  by_cases h : other = register <;> simp [h]

def address (layout : Layout) (machine : Machine) : Address → Word
  | .below bytes => machine.registers .rbp - .ofNat 64 bytes
  | .above bytes => machine.registers .rbp + .ofNat 64 bytes
  | .through register => machine.registers register
  | .symbol name => layout.symbol name
  | .data offset => layout.data + .ofNat 64 offset

def push (machine : Machine) (value : Word) : Machine :=
  (machine.set .rsp (machine.registers .rsp - 8#64)).put (machine.registers .rsp - 8#64) value

theorem push_stack (value : Word) {base : Word} {top : Int}
    (h : machine.registers .rsp = spot base top) :
    (machine.push value).registers .rsp = spot base (top - 8) := by
  rw [push, put_registers, set_same, h]
  exact spot_sub_ofNat base top 8

theorem push_memory (value : Word) {base : Word} {top : Int}
    (h : machine.registers .rsp = spot base top) :
    (machine.push value).memory = machine.memory.write (spot base (top - 8)) value := by
  rw [push, put_memory, set_memory, h]
  exact congrArg (machine.memory.write · value) (spot_sub_ofNat base top 8)

theorem sameOutside_push (value : Word) {base : Word} {top : Int}
    (h : machine.registers .rsp = spot base top) (hlow : -2 ^ 62 ≤ top - 8) (hhigh : top ≤ 2 ^ 62) :
    Memory.SameOutside base (top - 8) top (machine.push value).memory machine.memory := by
  have hwrite := @Memory.sameOutside_write base machine.memory value (top - 8) hlow (by omega)
  rw [← push_memory value h] at hwrite
  exact hwrite.mono (Int.le_refl _) (by omega)

@[simp] theorem push_other (value : Word) {register : Register} (h : register ≠ .rsp) :
    (machine.push value).registers register = machine.registers register := by
  simp [push, h]

-- What an instruction does. Those that call or leave are for a run to take.
def step (layout : Layout) (machine : Machine) : Instruction → Machine
  | .push register => machine.push (machine.registers register)
  | .pop register =>
    (machine.set .rsp (machine.registers .rsp + 8#64)).set register
      (machine.memory.read (machine.registers .rsp))
  | .copy target source => machine.set target (machine.registers source)
  | .set register value => machine.set register value.toBitVec
  | .load register place => machine.set register (machine.memory.read (machine.address layout place))
  | .store place register => machine.put (machine.address layout place) (machine.registers register)
  | .clear place => machine.put (machine.address layout place) 0
  | .addressOf register place => machine.set register (machine.address layout place)
  | .zero register => machine.set register 0
  | .reserve bytes => machine.set .rsp (machine.registers .rsp - .ofNat 64 bytes)
  | .release bytes => machine.set .rsp (machine.registers .rsp + .ofNat 64 bytes)
  | .call _ => machine
  | .ret => machine
  | .syscall => machine

def steps (layout : Layout) (machine : Machine) (code : List Instruction) : Machine :=
  code.foldl (step layout) machine

@[simp] theorem steps_nil (layout : Layout) (machine : Machine) : machine.steps layout [] = machine :=
  rfl

@[simp] theorem steps_cons (layout : Layout) (machine : Machine) (instruction : Instruction)
    (code : List Instruction) :
    machine.steps layout (instruction :: code) = (machine.step layout instruction).steps layout code :=
  rfl

theorem steps_append (layout : Layout) (machine : Machine) (first second : List Instruction) :
    machine.steps layout (first ++ second) = (machine.steps layout first).steps layout second :=
  List.foldl_append

-- No argument is passed in a register that the code needs for itself.
theorem argument_register_ne {index : Nat} {register other : Register}
    (h : Register.arguments[index]? = some register) (hother : other ∉ Register.arguments) :
    register ≠ other := by
  intro he
  rw [he] at h
  exact hother (List.mem_of_getElem? h)

-- The arguments of a function when its first instruction comes next: six in registers, the others
-- above the return address.
def argument (machine : Machine) (index : Nat) : Word :=
  match Register.arguments[index]? with
  | some register => machine.registers register
  | none => machine.memory.read (machine.registers .rsp +
      .ofNat 64 (8 + 8 * (index - Register.arguments.length)))

theorem argument_of_register {index : Nat} {register : Register}
    (h : Register.arguments[index]? = some register) :
    machine.argument index = machine.registers register := by
  rw [argument, h]

theorem argument_of_stack {index : Nat} (h : 6 ≤ index) :
    machine.argument index = machine.memory.read (machine.registers .rsp +
      .ofNat 64 (8 + 8 * (index - 6))) := by
  have hnone : Register.arguments[index]? = none := List.getElem?_eq_none h
  rw [argument, hnone]
  rfl

-- The return address goes below the arguments on the stack.
theorem argument_push_of_stack (returnAddress : Word) {base : Word} {top : Int}
    (hstack : machine.registers .rsp = spot base top) {index : Nat} (h : 6 ≤ index)
    (hlow : -2 ^ 62 ≤ top - 8) (hhigh : top + (8 * (index - 6) : Nat) ≤ 2 ^ 62) :
    (machine.push returnAddress).argument index =
      machine.memory.read (spot base (top + (8 * (index - 6) : Nat))) := by
  have hplace : top - 8 + (8 + 8 * (index - 6) : Nat) = top + (8 * (index - 6) : Nat) := by omega
  have hpushed := sameOutside_push returnAddress hstack hlow (by omega)
  rw [argument_of_stack h, push_stack _ hstack, spot_add_ofNat, hplace]
  apply hpushed.read_eq <;> omega

def targetOf (layout : Layout) (machine : Machine) : Target → Word
  | .symbol name => layout.symbol name
  | .through register => machine.registers register
  | .stored place => machine.memory.read (machine.address layout place)

end Machine

-- A call as the called function sees it.
structure CallEvent where
  target : Word
  arguments : List Word

-- What a called function leaves behind: its result, other registers, and the bytes that it changes.
structure Reply where
  result : Word
  scratch : Register → Word
  bytes : Word → Option (BitVec 8)

def Reply.patch (reply : Reply) (memory : Memory) : Memory :=
  fun address => (reply.bytes address).getD (memory address)

-- A called function answers all that it and the functions called before it were given.
abbrev Oracle := List CallEvent → Reply

-- The function returns: its return address is taken off the stack, and the frame pointer is back.
def Machine.resume (machine : Machine) (reply : Reply) : Machine where
  registers
    | .rax => reply.result
    | .rbp => machine.registers .rbp
    | .rsp => machine.registers .rsp + 8#64
    | register => reply.scratch register
  memory := reply.patch machine.memory

inductive Ending where
  | returned (address : Word)
  | exited (status : Word)
  | unfinished

structure Run where
  ending : Ending
  history : List CallEvent
  machine : Machine

-- What the code of a function meets: the places of the symbols, the answers to its calls, the
-- return addresses that its calls push and the number of arguments that each of them has.
structure World where
  layout : Layout
  oracle : Oracle
  returnAddress : List CallEvent → Word
  arities : List Nat

namespace World

-- The number of the system call that ends the process.
def exitNumber : Word := 60

def run (world : World) : List Instruction → List CallEvent → Machine → Run
  | [], history, machine => ⟨.unfinished, history, machine⟩
  | .call target :: code, history, machine =>
    let entered := machine.push (world.returnAddress history)
    let arity := world.arities.getD history.length 0
    let event : CallEvent :=
      ⟨machine.targetOf world.layout target, (List.range arity).map entered.argument⟩
    world.run code (history ++ [event]) (entered.resume (world.oracle (history ++ [event])))
  | .ret :: _, history, machine =>
    ⟨.returned (machine.memory.read (machine.registers .rsp)), history,
      machine.set .rsp (machine.registers .rsp + 8#64)⟩
  | .syscall :: _, history, machine =>
    ⟨if machine.registers .rax = exitNumber then .exited (machine.registers .rdi) else .unfinished,
      history, machine⟩
  | instruction :: code, history, machine =>
    world.run code history (machine.step world.layout instruction)

end World

-- Instructions after which the next one comes.
def Instruction.isPlain : Instruction → Bool
  | .call _ => false
  | .ret => false
  | .syscall => false
  | _ => true

theorem World.run_plain (world : World) {code : List Instruction} (rest : List Instruction)
    (history : List CallEvent) (machine : Machine) (h : ∀ instruction ∈ code, instruction.isPlain) :
    world.run (code ++ rest) history machine =
      world.run rest history (machine.steps world.layout code) := by
  induction code generalizing machine with
  | nil => rfl
  | cons instruction more ih =>
      have hmore := ih (machine.step world.layout instruction) fun other hm => h other (by simp [hm])
      have hfirst := h instruction (by simp)
      cases instruction with
      | call | ret | syscall => cases hfirst
      | _ => exact hmore

def Line.code? : Line → Option Instruction
  | .instruction code => some code
  | _ => none

-- The instructions of a block without its remarks.
def Block.code (block : Block) : List Instruction := block.lines.filterMap Line.code?

@[simp] theorem Line.filterMap_code? (code : List Instruction) :
    (code.map Line.instruction).filterMap Line.code? = code := by
  rw [List.filterMap_map]
  exact List.filterMap_some

end RayCompiler
