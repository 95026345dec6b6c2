import LispMachine.Artifact.Cursor
import LispMachine.Artifact.Writing

set_option autoImplicit false

namespace LispMachine

open Artifact

namespace Datum

def read : Reader Datum := do
  let start ← Reader.offset
  let tag ← Reader.byte
  match tag with
  | 0 => return .long (← Reader.word64).toInt64
  | 1 => return .double ⟨← Reader.word64⟩
  | 2 => return .str (← Reader.text)
  | tag => Reader.fail (.unknownTag .constant tag start)

end Datum

namespace Builtin

def read : Reader Builtin := do
  let start ← Reader.offset
  let tag ← Reader.byte
  match ofTag? tag with
  | some builtin => return builtin
  | none => Reader.fail (.unknownTag .builtin tag start)

end Builtin

namespace Opcode

def read : Reader Opcode := do
  let start ← Reader.offset
  let tag ← Reader.byte
  match tag with
  | 0 => return .pushNil
  | 1 => return .pushTrue
  | 2 => return .pushFalse
  | 3 => return .pushShort (← Reader.word16).toInt16
  | 4 => return .loadConst (← Reader.word16)
  | 5 => return .loadLocal (← Reader.word16)
  | 6 => return .storeLocal (← Reader.word16)
  | 7 => return .loadGlobal (← Reader.word16)
  | 8 => return .storeGlobal (← Reader.word16)
  | 9 => return .loadFunction (← Reader.word16)
  | 10 => return .dup
  | 11 => return .pop
  | 12 => return .jump (← Reader.word32)
  | 13 => return .jumpIfFalse (← Reader.word32)
  | 14 => return .ret
  | 15 =>
      let index ← Reader.word16
      let argc ← Reader.byte
      return .invoke index argc
  | 16 =>
      let builtin ← Builtin.read
      let argc ← Reader.byte
      return .callBuiltin builtin argc
  | tag => Reader.fail (.unknownTag .opcode tag start)

end Opcode

namespace Instruction

def readPosition : Reader (Option Position) := do
  let start ← Reader.offset
  let flag ← Reader.byte
  match flag with
  | 0 => return none
  | 1 =>
      let line ← Reader.word32
      let column ← Reader.word32
      let offset ← Reader.word32
      return some ⟨line, column, offset.toNat⟩
  | flag => Reader.fail (.unknownTag .positionFlag flag start)

def read : Reader Instruction := do
  let opcode ← Opcode.read
  let position ← readPosition
  return { opcode, position }

end Instruction

namespace Chunk

/-- Refuses a count of instructions that cannot fit in what is left, two bytes being the least an
instruction takes. -/
def readCode : Reader (Array Instruction) := do
  let count ← Reader.word 4
  fun c =>
    if c.remaining / 2 < count then .error (.unexpectedEnd c.size)
    else Reader.items Instruction.read count c

def read : Reader Chunk := do
  let name ← Reader.text
  let arity ← Reader.byte
  let maxLocals ← Reader.word16
  let maxStack ← Reader.word16
  let code ← readCode
  return { name, arity, maxLocals, maxStack, code }

end Chunk

namespace CompiledUnit

def readMagic : Reader Unit := fun c =>
  match Reader.take magic.length c with
  | .ok (bytes, c) => if bytes = magic then .ok ((), c) else .error .badMagic
  | .error _ => .error .badMagic

def readVersion : Reader Unit := do
  let found ← Reader.byte
  if found = version then return () else Reader.fail (.unsupportedVersion found)

def readEnd : Reader Unit := fun c =>
  if c.remaining = 0 then .ok ((), c) else .error (.trailingBytes c.remaining)

def read : Reader CompiledUnit := do
  readMagic
  readVersion
  let name ← Reader.text
  let constants ← Reader.items Datum.read (← Reader.word 4)
  let methods ← Reader.items Chunk.read (← Reader.word 4)
  let entry ← Chunk.read
  readEnd
  return { name, constants := .ofEntries constants, methods, entry }

def ofBytes (bytes : List UInt8) : Except DecodeError CompiledUnit :=
  (read (Cursor.ofBytes bytes)).map Prod.fst

end CompiledUnit

end LispMachine
