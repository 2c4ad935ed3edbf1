/-!
# Binary floating-point encodings

A bit pattern of a binary interchange format is an infinity, not a number, or a sign with a
finite magnitude `significand * 2 ^ exponent`.
-/

namespace CilBackend.Decimal

/-- Widths of the two fields below the sign bit. -/
structure BinaryFormat where
  fractionBits : Nat
  exponentBits : Nat

def binary32 : BinaryFormat :=
  ⟨23, 8⟩

def binary64 : BinaryFormat :=
  ⟨52, 11⟩

/-- A positive magnitude. `lowestInBinade` holds where the next smaller number is only half as
far away as the next larger one. -/
structure Magnitude where
  significand : Nat
  exponent : Int
  lowestInBinade : Bool

inductive BinaryValue where
  | notANumber
  | infinity (negative : Bool)
  | zero (negative : Bool)
  | finite (negative : Bool) (magnitude : Magnitude)

/-- Reads the sign, exponent and fraction fields of a bit pattern. -/
def BinaryFormat.decode (f : BinaryFormat) (bits : Nat) : BinaryValue :=
  let hidden := Nat.pow 2 f.fractionBits
  let exponents := Nat.pow 2 f.exponentBits
  let fraction := bits % hidden
  let biased := bits / hidden % exponents
  let negative := bits / hidden / exponents % 2 == 1
  let leastExponent : Int := 2 - (exponents / 2 : Nat) - f.fractionBits
  if biased == exponents - 1 then
    if fraction == 0 then .infinity negative else .notANumber
  else if biased == 0 then
    if fraction == 0 then .zero negative
    else .finite negative ⟨fraction, leastExponent, false⟩
  else
    .finite negative
      ⟨hidden + fraction, leastExponent + (biased - 1 : Nat), fraction == 0 && biased > 1⟩

def BinaryFormat.isNaN (f : BinaryFormat) (bits : Nat) : Bool :=
  match f.decode bits with
  | .notANumber => true
  | _ => false

end CilBackend.Decimal
