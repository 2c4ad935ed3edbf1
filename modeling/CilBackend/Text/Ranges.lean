/-!
# Ranges of characters

Sets of characters, written as ranges of code points with both ends included.
-/

namespace CilBackend.Text

def inRanges (ranges : List (Nat × Nat)) (c : Char) : Bool :=
  ranges.any fun (first, last) => first ≤ c.toNat && c.toNat ≤ last

end CilBackend.Text
