/-!
# Branch labels

A label names a place in the code before the place has an offset. Labels are numbers of 32 bits.
-/

namespace CilBackend

structure Label where
  index : UInt32
deriving DecidableEq

def Label.text (l : Label) : String :=
  "L" ++ toString l.index

end CilBackend
