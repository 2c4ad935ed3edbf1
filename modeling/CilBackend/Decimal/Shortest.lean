import CilBackend.Decimal.Binary

/-!
# Shortest decimals

The decimal with the fewest digits that still reads back as a given binary magnitude. All
arithmetic is exact: over the unit `10 ^ scale` the magnitude and the two ends of the interval
of reals that round to it are natural numbers.
-/

namespace CilBackend.Decimal

/-- The number `digits * 10 ^ scale`. -/
structure Numeral where
  digits : Nat
  scale : Int

/-- A magnitude and the ends of its rounding interval in the common unit `10 ^ scale`. -/
structure RoundingInterval where
  low : Nat
  value : Nat
  high : Nat
  closed : Bool
  scale : Int

/-- Quarters of the last binary place are whole multiples of the unit. The ends belong to the
interval when the significand is even. -/
def Magnitude.interval (m : Magnitude) : RoundingInterval :=
  let place := m.exponent - 2
  let unit := if place < 0 then Nat.pow 5 (-place).toNat else Nat.pow 2 place.toNat
  let below := if m.lowestInBinade then 1 else 2
  { low := (4 * m.significand - below) * unit
    value := 4 * m.significand * unit
    high := (4 * m.significand + 2) * unit
    closed := m.significand % 2 == 0
    scale := min place 0 }

def RoundingInterval.contains (i : RoundingInterval) (n : Nat) : Bool :=
  if i.closed then i.low ≤ n && n ≤ i.high else i.low < n && n < i.high

/-- The multiple of `grid` nearest to the value among its two neighbours on that grid that lie in
the interval. An exact tie goes to the upper one. -/
def RoundingInterval.nearestOn? (i : RoundingInterval) (grid : Nat) : Option Nat :=
  let lower := i.value / grid * grid
  let upper := lower + grid
  match i.contains lower, i.contains upper with
  | true, true => some (if upper - i.value ≤ i.value - lower then upper else lower)
  | true, false => some lower
  | false, true => some upper
  | false, false => none

def digitCount (n : Nat) : Nat :=
  (Nat.toDigits 10 n).length

/-- Tries one digit, two digits and so on; the value itself is reached last. -/
def RoundingInterval.shortest (i : RoundingInterval) : Numeral :=
  let count := digitCount i.value
  let found := (List.range count).findSome? fun k => i.nearestOn? (Nat.pow 10 (count - 1 - k))
  ⟨found.getD i.value, i.scale⟩

def Magnitude.shortest (m : Magnitude) : Numeral :=
  m.interval.shortest

end CilBackend.Decimal
