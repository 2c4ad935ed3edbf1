import CilBackend.Code.Instruction

/-!
# Block headers

Every block starts with a header that is bound to a label of its own, so that branches can name
blocks that have no code yet. The labels of all headers are consecutive.
-/

namespace CilBackend

structure Headers where
  first : UInt32
  count : Nat
  fits : first.toNat + count < UInt32.size
deriving DecidableEq

namespace Headers

/-- Takes one label for each block from the supply. -/
def allocate (count : Nat) (supply : LabelSupply) : Option (Headers × LabelSupply) :=
  if fits : supply.next.toNat + count < UInt32.size then
    some (⟨supply.next, count, fits⟩, ⟨supply.next + .ofNat count⟩)
  else none

def label? (h : Headers) (block : BlockId) : Option Label :=
  if block < h.count then some ⟨h.first + .ofNat block⟩ else none

def labels (h : Headers) : List Label :=
  (List.range h.count).filterMap h.label?

end Headers

/-- The instruction that a header label is bound to. -/
def Instruction.header (label : Label) : Instruction :=
  { opcode := .nop, label := some label }

end CilBackend
