import CilBackend.Body.Handler
import CilBackend.Body.LocalTable
import CilBackend.Code.Instruction

/-!
# Method bodies

Locals, placed instructions, handler table and the greatest stack depth of one method. Several
routines may be compiled into one body, each behind those before it.
-/

namespace CilBackend

structure MethodBody where
  locals : LocalTable := .empty
  instructions : List Instruction := []
  handlers : List Handler := []
  maxStack : Nat := 0

namespace MethodBody

/-- The offset behind the last instruction, if it exists. -/
def codeSize? (b : MethodBody) : Option UInt32 :=
  match b.instructions.getLast? with
  | some i => addChecked i.offset i.size
  | none => some 0

/-- The offset of the first instruction that a label is bound to. -/
def labelOffset? (b : MethodBody) (l : Label) : Option UInt32 :=
  (b.instructions.find? fun i => i.label == some l).map Instruction.offset

/-- Appends an instruction as it stands. -/
def append (b : MethodBody) (i : Instruction) : MethodBody :=
  { b with instructions := b.instructions ++ [i] }

/-- Appends an instruction at the end of the code. -/
def appendPlaced (b : MethodBody) (i : Instruction) : Option MethodBody := do
  let offset ← b.codeSize?
  return b.append { i with offset }

end MethodBody

end CilBackend
