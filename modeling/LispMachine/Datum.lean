import LispMachine.Double.Text
import LispMachine.Text.Quoted

set_option autoImplicit false

namespace LispMachine

/-- What a literal token spells and a constant pool stores. Equality of data tells doubles apart by
their bits. -/
inductive Datum
  | long (n : Int64)
  | double (d : Double)
  | str (s : String)
  deriving DecidableEq, Hashable

namespace Datum

/-- Agreement of data with doubles compared as numbers. -/
def same : Datum → Datum → Bool
  | .long a, .long b => a = b
  | .double a, .double b => a.same b
  | .str a, .str b => a = b
  | _, _ => false

def listing : Datum → String
  | .long n => s!"long {n.toInt}"
  | .double d => s!"double {d.listing}"
  | .str s => s!"string {Text.quoted s}"

end Datum

end LispMachine
