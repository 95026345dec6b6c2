import LispMachine.Double

set_option autoImplicit false

namespace LispMachine.Double

def roundHalfEven (num den : Nat) : Nat :=
  let q := num / den
  let r := num % den
  if 2 * r < den || (2 * r = den && q % 2 = 0) then q else q + 1

def binaryScale (num den : Nat) : Int :=
  let guess : Int := (num.log2 : Int) - den.log2
  if num * Nat.pow 2 (-guess).toNat < den * Nat.pow 2 guess.toNat then guess - 1 else guess

-- The double nearest to `num / den`, a tie going to the even significand; past the largest finite
-- double it is infinite. The exponent field and the significand overlap in their lowest and highest
-- bit, so a significand that rounds up to twice the hidden bit carries into the exponent by itself.
def ofRatio (negative : Bool) (num den : Nat) : Double :=
  let sign := if negative then 2048 * hiddenBit else 0
  if num = 0 then ⟨UInt64.ofNat sign⟩
  else
    let unit := max (binaryScale num den - 52) (-1074)
    let significand :=
      roundHalfEven (num * Nat.pow 2 (-unit).toNat) (den * Nat.pow 2 unit.toNat)
    let magnitude := (unit + 1074).toNat * hiddenBit + significand
    ⟨UInt64.ofNat (sign + min magnitude (2047 * hiddenBit))⟩

def ofDecimal (negative : Bool) (digits places : Nat) : Double :=
  ofRatio negative digits (Nat.pow 10 places)

end LispMachine.Double
