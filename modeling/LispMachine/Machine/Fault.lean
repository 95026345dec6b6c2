import LispMachine.Artifact.Cursor
import LispMachine.Code.Builtin
import LispMachine.Position

set_option autoImplicit false

namespace LispMachine

inductive TypeFault
  | cannotApply (builtin : Builtin) (left right : String)
  | cannotOrder (builtin : Builtin)
  deriving DecidableEq

def TypeFault.message : TypeFault → String
  | .cannotApply builtin left right => s!"cannot apply '{builtin.name}' to {left} and {right}"
  | .cannotOrder builtin => s!"cannot order NaN with '{builtin.name}'"

inductive Corruption
  | endWithoutReturn (method : String)
  | jumpOutside (target : UInt32) (method : String)
  | stackUnderflow (method : String)
  | slotOutside (slot : UInt16) (method : String)
  | constantOutOfRange (index : UInt16)
  | notAGlobalName (index : UInt16)
  | methodOutOfRange (index : UInt16)
  | wrongArity (method : String) (arity argc : UInt8)
  | builtinArity (builtin : Builtin) (argc : Nat)
  | noPureForm (builtin : Builtin)
  deriving DecidableEq

def Corruption.message : Corruption → String
  | .endWithoutReturn method => s!"'{method}' ended without Return"
  | .jumpOutside target method => s!"jump target {target} outside '{method}'"
  | .stackUnderflow method => s!"operand stack underflow in '{method}'"
  | .slotOutside slot method => s!"local slot {slot} outside '{method}'"
  | .constantOutOfRange index => s!"constant #{index} out of range"
  | .notAGlobalName index => s!"constant #{index} is not a global name"
  | .methodOutOfRange index => s!"method @{index} out of range"
  | .wrongArity method arity argc => s!"'{method}' takes {arity} arguments, invoked with {argc}"
  | .builtinArity builtin argc => s!"'{builtin.name}' called with {argc} arguments"
  | .noPureForm builtin => s!"'{builtin.name}' has no pure form"

inductive Fault
  | load (error : Artifact.DecodeError)
  | mismatch (fault : TypeFault) (position : Option Position)
  | divisionByZero (position : Option Position)
  | undefinedGlobal (name : String)
  | stackOverflow (limit : Nat)
  | corrupt (corruption : Corruption)
  | output (text : String)
  deriving DecidableEq

namespace Fault

def atPosition (p : Option Position) : Fault → Fault
  | .mismatch fault q => .mismatch fault (q.or p)
  | .divisionByZero q => .divisionByZero (q.or p)
  | fault => fault

def position? : Fault → Option Position
  | .mismatch _ p | .divisionByZero p => p
  | _ => none

def placeText : Option Position → String
  | some p => s!" at {p.text}"
  | none => ""

def message : Fault → String
  | .load error => s!"failed to load artifact: {error.message}"
  | .mismatch fault p => s!"type error{placeText p}: {fault.message}"
  | .divisionByZero p => s!"division by zero{placeText p}"
  | .undefinedGlobal name => s!"undefined global '{name}'"
  | .stackOverflow limit => s!"stack overflow: call depth exceeded {limit}"
  | .corrupt corruption => s!"corrupt bytecode: {corruption.message}"
  | .output text => s!"output error: {text}"

end Fault

end LispMachine
