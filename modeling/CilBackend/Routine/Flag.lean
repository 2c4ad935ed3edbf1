/-!
# Processor flags

The eight flags that an expression may update, sets of them, and the bit positions at which a
particular machine keeps them.
-/

namespace CilBackend

inductive Flag where
  | overflow
  | carry
  | zero
  | sign
  | unsigned
  | behaviour1
  | behaviour2
  | behaviour3
deriving DecidableEq

namespace Flag

def all : List Flag :=
  [overflow, carry, zero, sign, unsigned, behaviour1, behaviour2, behaviour3]

def name : Flag → String
  | overflow => "OVERFLOW"
  | carry => "CARRY"
  | zero => "ZERO"
  | sign => "SIGN"
  | unsigned => "UNSIGNED"
  | behaviour1 => "BEHAV1"
  | behaviour2 => "BEHAV2"
  | behaviour3 => "BEHAV3"

/-- The member of a flag set that stands for the flag. -/
def bit : Flag → UInt8
  | overflow => 1
  | carry => 2
  | zero => 4
  | sign => 8
  | unsigned => 16
  | behaviour1 => 32
  | behaviour2 => 64
  | behaviour3 => 128

end Flag

structure FlagSet where
  bits : UInt8
deriving DecidableEq

namespace FlagSet

def contains (s : FlagSet) (f : Flag) : Bool :=
  s.bits &&& f.bit != 0

def union (s t : FlagSet) : FlagSet :=
  ⟨s.bits ||| t.bits⟩

def members (s : FlagSet) : List Flag :=
  Flag.all.filter s.contains

def text (s : FlagSet) : String :=
  if s.bits = 0 then "NONE" else " | ".intercalate (s.members.map Flag.name)

end FlagSet

/-- Where a machine keeps each flag in its flag byte. Positions count modulo eight. -/
structure FlagLayout where
  overflow : UInt8
  carry : UInt8
  zero : UInt8
  sign : UInt8
  unsigned : UInt8
  behaviour1 : UInt8
  behaviour2 : UInt8
  behaviour3 : UInt8
deriving DecidableEq

namespace FlagLayout

def standard : FlagLayout :=
  ⟨0, 1, 2, 3, 4, 5, 6, 7⟩

def position (l : FlagLayout) : Flag → UInt8
  | .overflow => l.overflow
  | .carry => l.carry
  | .zero => l.zero
  | .sign => l.sign
  | .unsigned => l.unsigned
  | .behaviour1 => l.behaviour1
  | .behaviour2 => l.behaviour2
  | .behaviour3 => l.behaviour3

/-- The bits of all members, each at its position. -/
def mask (l : FlagLayout) (s : FlagSet) : UInt8 :=
  s.members.foldl (fun mask f => mask ||| 1 <<< l.position f) 0

end FlagLayout

end CilBackend
