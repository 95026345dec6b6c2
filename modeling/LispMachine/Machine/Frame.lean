import LispMachine.Code.CompiledUnit
import LispMachine.Machine.Fault
import LispMachine.Value

set_option autoImplicit false

namespace LispMachine

/-- One activation of a method: the next instruction, the operand stack with its top first, and the
local slots. -/
structure Frame where
  chunk : Chunk
  pointer : Nat
  stack : List Value
  locals : Array Value

namespace Frame

def enter (chunk : Chunk) (args : List Value) : Frame :=
  { chunk
    pointer := 0
    stack := []
    locals := args.toArray ++ Array.replicate (chunk.maxLocals.toNat - args.length) .nil }

def fetch (f : Frame) : Option (Instruction × Frame) :=
  match f.chunk.code[f.pointer]? with
  | some instruction => some (instruction, { f with pointer := f.pointer + 1 })
  | none => none

-- The end of the code is a target too; it is the next fetch that fails there.
def jump (f : Frame) (target : UInt32) : Except Fault Frame :=
  if target.toNat ≤ f.chunk.code.size then .ok { f with pointer := target.toNat }
  else .error (.corrupt (.jumpOutside target f.chunk.name))

def push (f : Frame) (v : Value) : Frame := { f with stack := v :: f.stack }

def pop (f : Frame) : Except Fault (Value × Frame) :=
  match f.stack with
  | v :: stack => .ok (v, { f with stack })
  | [] => .error (.corrupt (.stackUnderflow f.chunk.name))

def peek (f : Frame) : Except Fault Value :=
  match f.stack with
  | v :: _ => .ok v
  | [] => .error (.corrupt (.stackUnderflow f.chunk.name))

def popArgs (f : Frame) (count : UInt8) : Except Fault (List Value × Frame) :=
  let args := f.stack.take count.toNat
  if args.length = count.toNat then
    .ok (args.reverse, { f with stack := f.stack.drop count.toNat })
  else .error (.corrupt (.stackUnderflow f.chunk.name))

def slot (f : Frame) (index : UInt16) : Except Fault Value :=
  match f.locals[index.toNat]? with
  | some v => .ok v
  | none => .error (.corrupt (.slotOutside index f.chunk.name))

def setSlot (f : Frame) (index : UInt16) (v : Value) : Except Fault Frame :=
  match f with
  | ⟨chunk, pointer, stack, locals⟩ =>
      if index.toNat < locals.size then
        .ok ⟨chunk, pointer, stack, locals.set! index.toNat v⟩
      else .error (.corrupt (.slotOutside index chunk.name))

end Frame

end LispMachine
