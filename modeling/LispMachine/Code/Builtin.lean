set_option autoImplicit false

namespace LispMachine

inductive Builtin
  | add | sub | mul | div
  | lt | le | gt | ge | eq | ne
  | and | or | not
  | println
  deriving DecidableEq

namespace Builtin

def all : List Builtin :=
  [.add, .sub, .mul, .div, .lt, .le, .gt, .ge, .eq, .ne, .and, .or, .not, .println]

def name : Builtin → String
  | .add => "+"
  | .sub => "-"
  | .mul => "*"
  | .div => "/"
  | .lt => "<"
  | .le => "<="
  | .gt => ">"
  | .ge => ">="
  | .eq => "="
  | .ne => "!="
  | .and => "and"
  | .or => "or"
  | .not => "not"
  | .println => "println"

def arity : Builtin → Nat
  | .not | .println => 1
  | _ => 2

def tag : Builtin → UInt8
  | .add => 0
  | .sub => 1
  | .mul => 2
  | .div => 3
  | .lt => 4
  | .le => 5
  | .gt => 6
  | .ge => 7
  | .eq => 8
  | .ne => 9
  | .and => 10
  | .or => 11
  | .not => 12
  | .println => 13

def ofName? (name : String) : Option Builtin := all.find? (·.name = name)

def ofTag? (tag : UInt8) : Option Builtin := all[tag.toNat]?

@[simp] theorem ofName?_name (b : Builtin) : ofName? b.name = some b := by cases b <;> rfl

@[simp] theorem ofTag?_tag (b : Builtin) : ofTag? b.tag = some b := by cases b <;> rfl

theorem eq_of_ofName? {name : String} {b : Builtin} (h : ofName? name = some b) : b.name = name := by
  simpa using List.find?_some h

end Builtin

end LispMachine
