set_option autoImplicit false

namespace LispMachine.Text

abbrev Ranges := Array (Nat × Nat)

namespace Ranges

def search (ranges : Ranges) (c lo hi : Nat) : Bool :=
  if lo < hi then
    let mid := (lo + hi) / 2
    match ranges[mid]? with
    | none => false
    | some (first, last) =>
        if c < first then search ranges c lo mid
        else if last < c then search ranges c (mid + 1) hi
        else true
  else false
termination_by hi - lo

def has (ranges : Ranges) (c : Nat) : Bool := ranges.search c 0 ranges.size

end Ranges

end LispMachine.Text
