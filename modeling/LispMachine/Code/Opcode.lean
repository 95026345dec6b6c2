import LispMachine.Code.Builtin
import LispMachine.Text.Padding

set_option autoImplicit false

namespace LispMachine

/-- Instructions of the stack machine. Jump targets are instruction indices of the same method. -/
inductive Opcode
  | pushNil
  | pushTrue
  | pushFalse
  | pushShort (n : Int16)
  | loadConst (index : UInt16)
  | loadLocal (slot : UInt16)
  | storeLocal (slot : UInt16)
  | loadGlobal (index : UInt16)
  | storeGlobal (index : UInt16)
  | loadFunction (index : UInt16)
  | dup
  | pop
  | jump (target : UInt32)
  | jumpIfFalse (target : UInt32)
  | ret
  | invoke (index : UInt16) (argc : UInt8)
  | callBuiltin (builtin : Builtin) (argc : UInt8)
  deriving DecidableEq

namespace Opcode

def stackEffect : Opcode → Nat × Nat
  | .pushNil | .pushTrue | .pushFalse | .pushShort _ => (0, 1)
  | .loadConst _ | .loadLocal _ | .loadGlobal _ | .loadFunction _ => (0, 1)
  | .storeLocal _ | .storeGlobal _ | .pop => (1, 0)
  | .dup => (1, 2)
  | .jump _ => (0, 0)
  | .jumpIfFalse _ => (1, 0)
  | .ret => (1, 0)
  | .invoke _ argc | .callBuiltin _ argc => (argc.toNat, 1)

def jumpTarget? : Opcode → Option UInt32
  | .jump target | .jumpIfFalse target => some target
  | _ => none

def isTerminator : Opcode → Bool
  | .ret | .jump _ | .jumpIfFalse _ => true
  | _ => false

def retarget? (target : UInt32) : Opcode → Option Opcode
  | .jump _ => some (.jump target)
  | .jumpIfFalse _ => some (.jumpIfFalse target)
  | _ => none

def localSlot? : Opcode → Option UInt16
  | .loadLocal slot | .storeLocal slot => some slot
  | _ => none

def listing : Opcode → String
  | .pushNil => "PushNil"
  | .pushTrue => "PushTrue"
  | .pushFalse => "PushFalse"
  | .pushShort n => s!"PushShort {n.toInt}"
  | .loadConst index => s!"LoadConst #{index}"
  | .loadLocal slot => s!"LoadLocal {slot}"
  | .storeLocal slot => s!"StoreLocal {slot}"
  | .loadGlobal index => s!"LoadGlobal #{index}"
  | .storeGlobal index => s!"StoreGlobal #{index}"
  | .loadFunction index => s!"LoadFunction @{index}"
  | .dup => "Dup"
  | .pop => "Pop"
  | .jump target => s!"Jump {Text.zeroPadded 4 target.toNat}"
  | .jumpIfFalse target => s!"JumpIfFalse {Text.zeroPadded 4 target.toNat}"
  | .ret => "Return"
  | .invoke index argc => s!"Invoke @{index} ({argc})"
  | .callBuiltin builtin argc => s!"CallBuiltin {builtin.name} ({argc})"

end Opcode

end LispMachine
