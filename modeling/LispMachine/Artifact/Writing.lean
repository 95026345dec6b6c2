import LispMachine.Artifact.Word
import LispMachine.Code.CompiledUnit

set_option autoImplicit false

namespace LispMachine

namespace Artifact

-- "HRKU", the mark every artifact starts with.
def magic : List UInt8 := [0x48, 0x52, 0x4b, 0x55]

def version : UInt8 := 1

def textBytes (s : String) : List UInt8 :=
  let bytes := s.toUTF8.data.toList
  littleEndian 4 bytes.length ++ bytes

def sequenceBytes {α : Type} (write : α → List UInt8) (items : Array α) : List UInt8 :=
  littleEndian 4 items.size ++ items.toList.flatMap write

end Artifact

open Artifact

namespace Datum

def bytes : Datum → List UInt8
  | .long n => 0 :: littleEndian 8 n.toUInt64.toNat
  | .double d => 1 :: littleEndian 8 d.bits.toNat
  | .str s => 2 :: textBytes s

end Datum

namespace Opcode

def bytes : Opcode → List UInt8
  | .pushNil => [0]
  | .pushTrue => [1]
  | .pushFalse => [2]
  | .pushShort n => 3 :: littleEndian 2 n.toUInt16.toNat
  | .loadConst index => 4 :: littleEndian 2 index.toNat
  | .loadLocal slot => 5 :: littleEndian 2 slot.toNat
  | .storeLocal slot => 6 :: littleEndian 2 slot.toNat
  | .loadGlobal index => 7 :: littleEndian 2 index.toNat
  | .storeGlobal index => 8 :: littleEndian 2 index.toNat
  | .loadFunction index => 9 :: littleEndian 2 index.toNat
  | .dup => [10]
  | .pop => [11]
  | .jump target => 12 :: littleEndian 4 target.toNat
  | .jumpIfFalse target => 13 :: littleEndian 4 target.toNat
  | .ret => [14]
  | .invoke index argc => 15 :: littleEndian 2 index.toNat ++ [argc]
  | .callBuiltin builtin argc => [16, builtin.tag, argc]

end Opcode

namespace Instruction

-- Four bytes hold the offset, so it wraps at `2 ^ 32`.
def positionBytes : Option Position → List UInt8
  | none => [0]
  | some p =>
      1 :: littleEndian 4 p.line.toNat ++ littleEndian 4 p.column.toNat ++ littleEndian 4 p.offset

def bytes (i : Instruction) : List UInt8 := i.opcode.bytes ++ positionBytes i.position

end Instruction

namespace Chunk

def bytes (chunk : Chunk) : List UInt8 :=
  textBytes chunk.name ++ chunk.arity :: littleEndian 2 chunk.maxLocals.toNat ++
    littleEndian 2 chunk.maxStack.toNat ++ sequenceBytes Instruction.bytes chunk.code

end Chunk

namespace CompiledUnit

def bytes (unit : CompiledUnit) : List UInt8 :=
  magic ++ version :: textBytes unit.name ++ sequenceBytes Datum.bytes unit.constants.entries ++
    sequenceBytes Chunk.bytes unit.methods ++ unit.entry.bytes

end CompiledUnit

end LispMachine
