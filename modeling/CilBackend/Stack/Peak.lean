import CilBackend.Code.Instruction

/-!
# Stack peak

The greatest stack depth of code with forward branches, found in one pass: a branch carries its
depth to the places bound to its labels further down.
-/

namespace CilBackend

/-- What is known in front of an instruction: the depth at which control comes from the
instruction above, if it does, the depths that branches carry to labels, and the peak so far. -/
structure StackFlow where
  falling : Option Nat
  carried : List (Label × Nat)
  peak : Nat
deriving DecidableEq

namespace StackFlow

def start : StackFlow :=
  ⟨some 0, [], 0⟩

/-- The depths that branches from above carry to a bound label. -/
def arriving (s : StackFlow) (label : Option Label) : List Nat :=
  s.carried.filterMap fun (l, depth) => if label = some l then some depth else none

/-- The greatest depth at which control comes in, and zero where it does not come in at all. -/
def depthAt (s : StackFlow) (i : Instruction) : Nat :=
  (s.falling.toList ++ s.arriving i.label).max?.getD 0

/-- Popping more values than there are leaves none. A `leave` empties the stack on its way. -/
def step (returnsValue : Bool) (s : StackFlow) (i : Instruction) : StackFlow :=
  let effect := i.stackEffect returnsValue
  let depth := s.depthAt i - effect.pops + effect.pushes
  let atTarget := if i.opcode = .leave then 0 else depth
  { falling := if i.opcode.endsFlow then none else some depth
    carried := s.carried ++ i.operand.labels.map fun l => (l, atTarget)
    peak := max s.peak depth }

end StackFlow

/-- Depths are numbers of 32 bits and stay at the greatest one. -/
def depthLimit : Nat := 4294967295

def stackPeak (returnsValue : Bool) (code : List Instruction) : Nat :=
  min (code.foldl (StackFlow.step returnsValue) .start).peak depthLimit

end CilBackend
