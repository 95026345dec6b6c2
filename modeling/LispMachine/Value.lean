import LispMachine.Datum

set_option autoImplicit false

namespace LispMachine

inductive Value
  | nil
  | bool (b : Bool)
  | long (n : Int64)
  | double (d : Double)
  | str (s : String)
  | function (name : String)
  deriving DecidableEq

namespace Value

instance : Inhabited Value := ⟨.nil⟩

def ofDatum : Datum → Value
  | .long n => .long n
  | .double d => .double d
  | .str s => .str s

def isTruthy : Value → Bool
  | .nil | .bool false => false
  | _ => true

def isNil : Value → Bool
  | .nil => true
  | _ => false

def typeName : Value → String
  | .nil => "nil"
  | .bool _ => "bool"
  | .long _ => "long"
  | .double _ => "double"
  | .str _ => "string"
  | .function _ => "function"

def asDouble? : Value → Option Double
  | .long n => some (.ofLong n)
  | .double d => some d
  | _ => none

def same : Value → Value → Bool
  | .nil, .nil => true
  | .bool a, .bool b => a = b
  | .long a, .long b => a = b
  | .double a, .double b => a.same b
  | .str a, .str b => a = b
  | .function a, .function b => a = b
  | _, _ => false

def text : Value → String
  | .nil => "nil"
  | .bool true => "true"
  | .bool false => "false"
  | .long n => toString n.toInt
  | .double d => d.text
  | .str s => s
  | .function name => s!"#<fn {name}>"

def repr : Value → String
  | .str s => Text.quoted s
  | v => v.text

end Value

end LispMachine
