import Std.Data.HashMap
import LispMachine.Datum

set_option autoImplicit false

namespace LispMachine

structure ConstantPool where
  entries : Array Datum
  index : Std.HashMap Datum UInt16

namespace ConstantPool

def empty : ConstantPool := ⟨#[], ∅⟩

def limit : Nat := UInt16.size

def size (pool : ConstantPool) : Nat := pool.entries.size

def isEmpty (pool : ConstantPool) : Bool := pool.size = 0

def get? (pool : ConstantPool) (i : UInt16) : Option Datum := pool.entries[i.toNat]?

def str? (pool : ConstantPool) (i : UInt16) : Option String :=
  match pool.get? i with
  | some (.str s) => some s
  | _ => none

def add (pool : ConstantPool) (d : Datum) : Option UInt16 × ConstantPool :=
  match pool with
  | ⟨entries, index⟩ =>
      match index[d]? with
      | some i => (some i, ⟨entries, index⟩)
      | none =>
          if entries.size < limit then
            let i := UInt16.ofNat entries.size
            (some i, ⟨entries.push d, index.insert d i⟩)
          else (none, ⟨entries, index⟩)

-- Append a constant without looking for it; a constant found earlier keeps its index.
def append (pool : ConstantPool) (d : Datum) : ConstantPool :=
  match pool with
  | ⟨entries, index⟩ =>
      let i := UInt16.ofNat entries.size
      ⟨entries.push d, index.insertIfNew d i⟩

def ofEntries (entries : Array Datum) : ConstantPool := entries.foldl append empty

def same (a b : ConstantPool) : Bool := a.entries.isEqv b.entries Datum.same

end ConstantPool

end LispMachine
