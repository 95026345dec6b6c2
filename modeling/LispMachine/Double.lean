set_option autoImplicit false

namespace LispMachine

/-- A binary64 number, held as its bit pattern so that every NaN keeps its payload. -/
structure Double where
  bits : UInt64
  deriving DecidableEq, Hashable

namespace Double

def toFloat (d : Double) : Float := Float.ofBits d.bits

def ofFloat (x : Float) : Double := ⟨x.toBits⟩

def ofLong (n : Int64) : Double := ofFloat n.toFloat

def add (a b : Double) : Double := ofFloat (a.toFloat + b.toFloat)

def sub (a b : Double) : Double := ofFloat (a.toFloat - b.toFloat)

def mul (a b : Double) : Double := ofFloat (a.toFloat * b.toFloat)

def div (a b : Double) : Double := ofFloat (a.toFloat / b.toFloat)

def less (a b : Double) : Bool := a.toFloat < b.toFloat

-- Numeric equality: the two zeros agree and a NaN equals nothing.
def same (a b : Double) : Bool := a.toFloat == b.toFloat

-- The weight of the bit that the significand of a normal number leaves out, `2 ^ 52`.
def hiddenBit : Nat := 4503599627370496

def isNegative (d : Double) : Bool := 2048 * hiddenBit ≤ d.bits.toNat

def exponentField (d : Double) : Nat := d.bits.toNat / hiddenBit % 2048

def fraction (d : Double) : Nat := d.bits.toNat % hiddenBit

def isFinite (d : Double) : Bool := d.exponentField < 2047

def isNaN (d : Double) : Bool := d.exponentField = 2047 && d.fraction ≠ 0

def significand (d : Double) : Nat :=
  if d.exponentField = 0 then d.fraction else hiddenBit + d.fraction

def exponent (d : Double) : Int := (max d.exponentField 1 : Nat) - 1075

def isIntegral (d : Double) : Bool :=
  d.isFinite && d.significand % Nat.pow 2 (-d.exponent).toNat = 0

def whole (d : Double) : Nat :=
  d.significand * Nat.pow 2 d.exponent.toNat / Nat.pow 2 (-d.exponent).toNat

end Double

end LispMachine
