/-!
# Hexadecimal numerals

Lower-case hexadecimal digits of a natural number, without leading zeros or padded on the left
to a least width.
-/

namespace CilBackend.Text

/-- The digits of a number, most significant first; zero has one digit. -/
def hexDigits (n : Nat) : List Char :=
  Nat.toDigits 16 n

/-- At least `width` digits: shorter numerals are filled with zeros, longer ones are kept whole. -/
def hexPadded (width n : Nat) : String :=
  let digits := hexDigits n
  String.ofList (List.replicate (width - digits.length) '0' ++ digits)

end CilBackend.Text
