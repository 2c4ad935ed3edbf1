import CilBackend.Code.Instruction
import CilBackend.Fault.Violation

/-!
# Operand checks

An instruction's operand has the shape that its opcode asks for and names blocks of the graph
only.
-/

namespace CilBackend

/-- Checks the shape first, then the branch targets from left to right. -/
def Instruction.checkOperand (blockCount : Nat) (i : Instruction) : Except Violation Unit :=
  if i.opcode.operandKind.accepts i.operand then
    match i.operand.blocks.find? fun target => blockCount ≤ target with
    | some target => .error (.unknownBranchTarget i.opcode target)
    | none => .ok ()
  else
    .error (.operandKind i.opcode i.opcode.operandKind i.operand.found)

end CilBackend
