import LispMachine.Machine.Operation
import LispMachine.Proofs.Except

set_option autoImplicit false

namespace LispMachine

-- What builtins refuse operands with: they know no positions.
def Fault.Refusal : Fault → Prop
  | .mismatch _ p | .divisionByZero p => p = none
  | _ => False

namespace Value

theorem arithmetic_refuses (builtin : Builtin) (longs : Int64 → Int64 → Int64)
    (doubles : Double → Double → Double) (a b : Value) :
    FailsWith Fault.Refusal (arithmetic builtin longs doubles a b) := by
  unfold arithmetic
  split
  · exact .ok _
  · split
    · exact .ok _
    · exact .error rfl

theorem add_refuses (a b : Value) : FailsWith Fault.Refusal (add a b) := by
  unfold add
  split
  · exact .ok _
  · exact .ok _
  · exact arithmetic_refuses _ _ _ _ _

theorem divide_refuses (a b : Value) : FailsWith Fault.Refusal (divide a b) := by
  unfold divide
  split
  · exact .error rfl
  · exact arithmetic_refuses _ _ _ _ _

theorem order_refuses (builtin : Builtin) (a b : Value) : FailsWith Fault.Refusal (order builtin a b) := by
  unfold order
  split
  · exact .ok _
  · split
    · split
      · exact .ok _
      · exact .error rfl
    · exact .error rfl

end Value

theorem Builtin.apply_refuses {builtin : Builtin} {args : List Value} (quiet : builtin ≠ .println)
    (arity : builtin.arity = args.length) : FailsWith Fault.Refusal (builtin.apply args) := by
  cases builtin with
  | println => exact absurd rfl quiet
  | not =>
      match args, arity with
      | [a], _ => exact .ok _
  | add =>
      match args, arity with
      | [a, b], _ => exact Value.add_refuses a b
  | sub | mul =>
      match args, arity with
      | [a, b], _ => exact Value.arithmetic_refuses _ _ _ a b
  | div =>
      match args, arity with
      | [a, b], _ => exact Value.divide_refuses a b
  | lt | le | gt | ge =>
      match args, arity with
      | [a, b], _ => exact (Value.order_refuses _ a b).map _
  | eq | ne | and | or =>
      match args, arity with
      | [a, b], _ => exact .ok _

end LispMachine
