import LispMachine.Machine.Fault
import LispMachine.Value

set_option autoImplicit false

namespace LispMachine

namespace Value

def arithmetic (builtin : Builtin) (longs : Int64 → Int64 → Int64)
    (doubles : Double → Double → Double) (a b : Value) : Except Fault Value :=
  match a, b with
  | .long x, .long y => .ok (.long (longs x y))
  | a, b =>
      match a.asDouble?, b.asDouble? with
      | some x, some y => .ok (.double (doubles x y))
      | _, _ => .error (.mismatch (.cannotApply builtin a.typeName b.typeName) none)

def add (a b : Value) : Except Fault Value :=
  match a, b with
  | .str _, _ | _, .str _ => .ok (.str (a.text ++ b.text))
  | a, b => arithmetic .add (· + ·) Double.add a b

def divide (a b : Value) : Except Fault Value :=
  match a, b with
  | .long _, .long 0 => .error (.divisionByZero none)
  | a, b => arithmetic .div (· / ·) Double.div a b

-- The order of two doubles, neither of which is NaN.
def orderDoubles (x y : Double) : Option Ordering :=
  if x.less y then some .lt
  else if y.less x then some .gt
  else if x.same y then some .eq
  else none

def order (builtin : Builtin) (a b : Value) : Except Fault Ordering :=
  match a, b with
  | .long x, .long y => .ok (if x < y then .lt else if x = y then .eq else .gt)
  | a, b =>
      match a.asDouble?, b.asDouble? with
      | some x, some y =>
          match orderDoubles x y with
          | some o => .ok o
          | none => .error (.mismatch (.cannotOrder builtin) none)
      | _, _ => .error (.mismatch (.cannotApply builtin a.typeName b.typeName) none)

def equals : Value → Value → Bool
  | .long x, .double y | .double y, .long x => (Double.ofLong x).same y
  | a, b => a.same b

end Value

namespace Builtin

def ordered (builtin : Builtin) (accept : Ordering → Bool) (a b : Value) : Except Fault Value :=
  (Value.order builtin a b).map fun o => .bool (accept o)

def apply (builtin : Builtin) (args : List Value) : Except Fault Value :=
  match builtin, args with
  | .not, [a] => .ok (.bool !a.isTruthy)
  | .println, [_] => .error (.corrupt (.noPureForm .println))
  | .add, [a, b] => Value.add a b
  | .sub, [a, b] => Value.arithmetic .sub (· - ·) Double.sub a b
  | .mul, [a, b] => Value.arithmetic .mul (· * ·) Double.mul a b
  | .div, [a, b] => Value.divide a b
  | .lt, [a, b] => ordered .lt (· = .lt) a b
  | .le, [a, b] => ordered .le (· ≠ .gt) a b
  | .gt, [a, b] => ordered .gt (· = .gt) a b
  | .ge, [a, b] => ordered .ge (· ≠ .lt) a b
  | .eq, [a, b] => .ok (.bool (a.equals b))
  | .ne, [a, b] => .ok (.bool !(a.equals b))
  | .and, [a, b] => .ok (.bool (a.isTruthy && b.isTruthy))
  | .or, [a, b] => .ok (.bool (a.isTruthy || b.isTruthy))
  | builtin, args => .error (.corrupt (.builtinArity builtin args.length))

end Builtin

end LispMachine
