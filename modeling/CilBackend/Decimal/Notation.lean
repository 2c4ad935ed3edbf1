import CilBackend.Decimal.Shortest

/-!
# Decimal notation of floating-point numbers

Positional notation for the middle range of exponents, scientific notation outside it.
-/

namespace CilBackend.Decimal

/-- Numbers whose scientific exponent lies from `leastPositional` to `greatestPositional` are
written positionally. -/
structure NumberStyle where
  leastPositional : Int
  greatestPositional : Int
  notANumber : String
  infinity : String

/-- Positional from `0.0001` up to below `10 ^ 16`, always with a digit after the point. -/
def operandStyle : NumberStyle :=
  ⟨-4, 15, "NaN", "inf"⟩

def zeros (n : Nat) : List Char :=
  List.replicate n '0'

/-- Writes `d.ddd * 10 ^ exponent` with a point and at least one digit after it. -/
def positional (digits : List Char) (exponent : Int) : List Char :=
  if exponent < 0 then
    ['0', '.'] ++ zeros ((-exponent).toNat - 1) ++ digits
  else
    let whole := exponent.toNat + 1
    let fraction := digits.drop whole
    digits.take whole ++ zeros (whole - digits.length) ++ ['.'] ++
      (if fraction.isEmpty then ['0'] else fraction)

/-- Writes `d.ddd * 10 ^ exponent` with the exponent after `e`; a single digit has no point. -/
def scientific (digits : List Char) (exponent : Int) : List Char :=
  match digits with
  | [] => []
  | [d] => [d, 'e'] ++ (toString exponent).toList
  | d :: rest => [d, '.'] ++ rest ++ ['e'] ++ (toString exponent).toList

def dropTrailingZeros (digits : List Char) : List Char :=
  (digits.reverse.dropWhile (· == '0')).reverse

def Numeral.text (style : NumberStyle) (d : Numeral) : String :=
  let all := Nat.toDigits 10 d.digits
  let exponent : Int := d.scale + (all.length - 1 : Nat)
  let digits := dropTrailingZeros all
  if style.leastPositional ≤ exponent && exponent ≤ style.greatestPositional then
    String.ofList (positional digits exponent)
  else
    String.ofList (scientific digits exponent)

def sign (negative : Bool) : String :=
  if negative then "-" else ""

def BinaryValue.text (style : NumberStyle) : BinaryValue → String
  | notANumber => style.notANumber
  | infinity negative => sign negative ++ style.infinity
  | zero negative => sign negative ++ "0.0"
  | finite negative magnitude => sign negative ++ magnitude.shortest.text style

end CilBackend.Decimal
