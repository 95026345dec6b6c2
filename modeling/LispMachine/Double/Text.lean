import LispMachine.Double.Shortest

set_option autoImplicit false

namespace LispMachine.Double

def Decimal.positional (d : Decimal) : List Char :=
  if d.point ≤ 0 then
    '0' :: '.' :: (List.replicate (-d.point).toNat '0' ++ d.digits)
  else if d.digits.length ≤ d.point.toNat then
    d.digits ++ List.replicate (d.point.toNat - d.digits.length) '0' ++ ['.', '0']
  else d.digits.take d.point.toNat ++ '.' :: d.digits.drop d.point.toNat

def Decimal.scientific (d : Decimal) : List Char :=
  let mantissa := match d.digits with
    | [] => []
    | [c] => [c]
    | c :: rest => c :: '.' :: rest
  mantissa ++ 'e' :: (toString (d.point - 1)).toList

def signed (d : Double) (magnitude : String) : String :=
  if d.isNegative then "-" ++ magnitude else magnitude

def special (d : Double) : String :=
  if d.isNaN then "NaN" else d.signed "inf"

/-- Whole numbers exactly and with one place, all others in the fewest digits that read back; never
an exponent. -/
def text (d : Double) : String :=
  if !d.isFinite then d.special
  else if d.isIntegral then d.signed (toString d.whole ++ ".0")
  else d.signed (String.ofList d.shortest.positional)

def listing (d : Double) : String :=
  if !d.isFinite then d.special
  else if d.significand = 0 then d.signed "0.0"
  else
    let decimal := d.shortest
    let digits :=
      if -4 < decimal.point && decimal.point ≤ 16 then decimal.positional else decimal.scientific
    d.signed (String.ofList digits)

end LispMachine.Double
