import RayCompiler.Text.Basic

namespace RayCompiler

inductive Register where
  | rax
  | rcx
  | rdx
  | rsi
  | rdi
  | r8
  | r9
  | rbp
  | rsp
deriving DecidableEq

namespace Register

def name : Register → String
  | rax => "rax"
  | rcx => "rcx"
  | rdx => "rdx"
  | rsi => "rsi"
  | rdi => "rdi"
  | r8 => "r8"
  | r9 => "r9"
  | rbp => "rbp"
  | rsp => "rsp"

-- The name of the low half of a register.
def lowName : Register → String
  | rax => "eax"
  | rcx => "ecx"
  | rdx => "edx"
  | rsi => "esi"
  | rdi => "edi"
  | r8 => "r8d"
  | r9 => "r9d"
  | rbp => "ebp"
  | rsp => "esp"

-- The registers that take the first arguments of a call, in order.
def arguments : List Register := [rdi, rsi, rdx, rcx, r8, r9]

end Register

-- The label of the bytes of the string literals.
def dataLabel : String := "__data"

-- A place in memory: below or above the frame pointer, where a register points, at a symbol, or at
-- an offset into the data.
inductive Address where
  | below (bytes : Nat)
  | above (bytes : Nat)
  | through (register : Register)
  | symbol (name : String)
  | data (offset : Nat)
deriving DecidableEq

def Address.render : Address → String
  | .below bytes => "[rbp-0x" ++ Text.hex bytes ++ "]"
  | .above bytes => "[rbp+0x" ++ Text.hex bytes ++ "]"
  | .through register => "[" ++ register.name ++ "]"
  | .symbol name => "[" ++ name ++ "]"
  | .data offset => "[" ++ dataLabel ++ "+" ++ toString offset ++ "]"

-- Where a call goes: to a symbol, to the address in a register, or to the one kept in memory.
inductive Target where
  | symbol (name : String)
  | through (register : Register)
  | stored (address : Address)
deriving DecidableEq

def Target.render : Target → String
  | .symbol name => name
  | .through register => register.name
  | .stored address => "qword " ++ address.render

inductive Instruction where
  | push (register : Register)
  | pop (register : Register)
  | copy (target source : Register)
  | set (register : Register) (value : Int64)
  | load (register : Register) (address : Address)
  | store (address : Address) (register : Register)
  | clear (address : Address)
  | addressOf (register : Register) (address : Address)
  | zero (register : Register)
  -- What the stack pointer moves by is below 2 ^ 32 around a frame and below 2 ^ 31 around a call.
  | reserve (bytes : Nat)
  | release (bytes : Nat)
  | call (target : Target)
  | ret
  | syscall
deriving DecidableEq

namespace Instruction

def mnemonic : Instruction → String
  | .push _ => "push"
  | .pop _ => "pop"
  | .copy _ _ => "mov"
  | .set _ _ => "mov"
  | .load _ _ => "mov"
  | .store _ _ => "mov"
  | .clear _ => "mov"
  | .addressOf _ _ => "lea"
  | .zero _ => "xor"
  | .reserve _ => "sub"
  | .release _ => "add"
  | .call _ => "call"
  | .ret => "ret"
  | .syscall => "syscall"

def operands? : Instruction → Option String
  | .push register => some register.name
  | .pop register => some register.name
  | .copy target source => some (target.name ++ ", " ++ source.name)
  | .set register value => some (register.name ++ ", " ++ toString value.toInt)
  | .load register address => some (register.name ++ ", " ++ address.render)
  | .store address register => some (address.render ++ ", " ++ register.name)
  | .clear address => some ("qword " ++ address.render ++ ", 0")
  | .addressOf register address => some (register.name ++ ", " ++ address.render)
  | .zero register => some (register.lowName ++ ", " ++ register.lowName)
  | .reserve bytes => some ("rsp, 0x" ++ Text.hex bytes)
  | .release bytes => some ("rsp, 0x" ++ Text.hex bytes)
  | .call target => some target.render
  | .ret => none
  | .syscall => none

end Instruction

end RayCompiler
