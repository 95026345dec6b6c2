import LispMachine.Code.Opcode
import LispMachine.Position

set_option autoImplicit false

namespace LispMachine

structure Instruction where
  opcode : Opcode
  position : Option Position
  deriving DecidableEq

structure Chunk where
  name : String
  arity : UInt8
  maxLocals : UInt16
  maxStack : UInt16
  code : Array Instruction
  deriving DecidableEq

namespace Chunk

def new (name : String) (arity : UInt8) : Chunk :=
  { name, arity, maxLocals := arity.toUInt16, maxStack := 0, code := #[] }

def emit (chunk : Chunk) (instruction : Instruction) : Chunk :=
  { chunk with code := chunk.code.push instruction }

end Chunk

def retargetAt? (code : Array Instruction) (index : Nat) (target : UInt32) :
    Option (Array Instruction) := do
  let instruction ← code[index]?
  let opcode ← instruction.opcode.retarget? target
  return code.set! index { instruction with opcode }

namespace Chunk

def retarget? (chunk : Chunk) (index : Nat) (target : UInt32) : Option Chunk :=
  (retargetAt? chunk.code index target).map fun code => { chunk with code }

end Chunk

end LispMachine
