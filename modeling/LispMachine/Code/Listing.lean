import LispMachine.Code.CompiledUnit

set_option autoImplicit false

namespace LispMachine

def Instruction.listing (index : Nat) (instruction : Instruction) : String :=
  let number := Text.zeroPadded 4 index
  match instruction.position with
  | some position =>
      let opcode := Text.blankPadded 28 instruction.opcode.listing
      s!"  {number}  {opcode} ; {position.text}\n"
  | none => s!"  {number}  {instruction.opcode.listing}\n"

def numbered {α : Type} (line : Nat → α → String) (items : Array α) : String :=
  (items.foldl (fun (out, i) item => (out ++ line i item, i + 1)) ("", 0)).1

def Chunk.listing (chunk : Chunk) : String :=
  s!"method {chunk.name}/{chunk.arity} (locals={chunk.maxLocals}, stack={chunk.maxStack})\n" ++
    numbered Instruction.listing chunk.code

def ConstantPool.listing (pool : ConstantPool) : String :=
  if pool.isEmpty then ""
  else "constants:\n" ++ numbered (fun i d => s!"  #{i} = {d.listing}\n") pool.entries

def CompiledUnit.listing (unit : CompiledUnit) : String :=
  s!"unit {unit.name}\n" ++ unit.constants.listing ++
    numbered (fun i chunk => s!"@{i} " ++ chunk.listing) unit.methods ++
    "entry " ++ unit.entry.listing

end LispMachine
