import LispMachine.Code.Chunk
import LispMachine.Code.Pool

set_option autoImplicit false

namespace LispMachine

structure CompiledUnit where
  name : String
  constants : ConstantPool
  methods : Array Chunk
  entry : Chunk

namespace CompiledUnit

def method? (unit : CompiledUnit) (index : UInt16) : Option Chunk := unit.methods[index.toNat]?

def find? (unit : CompiledUnit) (name : String) : Option Chunk :=
  unit.methods.find? (·.name = name)

def same (a b : CompiledUnit) : Bool :=
  a.name = b.name && a.constants.same b.constants && a.methods = b.methods && a.entry = b.entry

end CompiledUnit

end LispMachine
