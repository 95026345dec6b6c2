import LispMachine.Double

set_option autoImplicit false

namespace LispMachine.Double

/-- The reals that round to a double: between `low` and `high` around `mid`, all in units of
`2 ^ unit`, the ends included when the significand is even. -/
structure Interval where
  low : Nat
  mid : Nat
  high : Nat
  unit : Int
  closed : Bool

-- Below a power of two the neighbours lie twice as dense.
def interval (d : Double) : Interval :=
  { low := if d.fraction = 0 && 1 < d.exponentField then 4 * d.significand - 1
      else 4 * d.significand - 2
    mid := 4 * d.significand
    high := 4 * d.significand + 2
    unit := d.exponent - 2
    closed := d.significand % 2 = 0 }

namespace Interval

def pointAfter (i : Interval) : Int :=
  let scaled := i.mid * Nat.pow 2 i.unit.toNat * Nat.pow 10 400 / Nat.pow 2 (-i.unit).toNat
  (Nat.toDigits 10 scaled).length - 400

-- The multiple of `10 ^ e` inside the interval that is nearest to the middle; of two equally near
-- ones the greater. Only the two multiples around the middle can be it.
def onGrid (i : Interval) (e : Int) : Option Nat :=
  let binary := Nat.pow 2 i.unit.toNat * Nat.pow 10 (-e).toNat
  let decimal := Nat.pow 10 e.toNat * Nat.pow 2 (-i.unit).toNat
  let inside (c : Nat) : Bool :=
    if i.closed then i.low * binary ≤ c * decimal && c * decimal ≤ i.high * binary
    else i.low * binary < c * decimal && c * decimal < i.high * binary
  let below := i.mid * binary / decimal
  let nearerBelow := i.mid * binary - below * decimal < (below + 1) * decimal - i.mid * binary
  if inside below && (nearerBelow || !inside (below + 1)) then some below
  else if inside (below + 1) then some (below + 1)
  else none

end Interval

structure Decimal where
  digits : List Char
  point : Int

namespace Decimal

def stripZeros (digits : List Char) : List Char :=
  (digits.reverse.dropWhile (· = '0')).reverse

def ofScaled (c : Nat) (e : Int) : Decimal :=
  let digits := Nat.toDigits 10 c
  { digits := stripZeros digits, point := digits.length + e }

end Decimal

-- The fewest digits that read back as the given positive finite double; seventeen always do.
def shortest (d : Double) : Decimal :=
  let i := d.interval
  let point := i.pointAfter
  let attempt (n : Nat) : Option Decimal :=
    let e := point - (n + 1)
    (i.onGrid e).map (Decimal.ofScaled · e)
  ((List.range 17).findSome? attempt).getD ⟨[], 0⟩

end LispMachine.Double
