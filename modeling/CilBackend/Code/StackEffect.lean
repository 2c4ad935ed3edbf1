import CilBackend.Code.Opcode

/-!
# Stack effects

How many values an instruction takes from the evaluation stack and how many it leaves there.
-/

namespace CilBackend

structure StackEffect where
  pops : Nat
  pushes : Nat
deriving DecidableEq

/-- Change of the stack depth. -/
def StackEffect.net (e : StackEffect) : Int :=
  e.pushes - e.pops

namespace Opcode

/-- The effect of an opcode with its operand in a method that returns a value or not. Calls take
their counts from the signature of the method they name. Opcodes that empty the stack count only
what they consume themselves. -/
def stackEffect (op : Opcode) (operand : Operand) (returnsValue : Bool) : StackEffect :=
  match op with
  | .nop | .br | .leave | .endfinally | .rethrow => ⟨0, 0⟩
  | .ldnull | .ldcI4S | .ldcI4 | .ldcI8 | .ldcR4 | .ldcR8 | .ldstr | .ldarg | .ldloc | .ldloca
  | .ldtoken | .ldsfld => ⟨0, 1⟩
  | .starg | .stloc | .pop | .brfalse | .brtrue | .switch | .endfilter | .throw
  | .stsfld => ⟨1, 0⟩
  | .neg | .not | .convI1 | .convI2 | .convI4 | .convI8 | .convU1 | .convU2 | .convU4 | .convU8
  | .convI | .convU | .convR4 | .convR8 | .convRUn | .box | .unboxAny | .castclass | .isinst
  | .newarr | .ldlen | .ldfld => ⟨1, 1⟩
  | .dup => ⟨1, 2⟩
  | .beq | .bge | .bgeUn | .bgt | .bgtUn | .ble | .bleUn | .blt | .bltUn | .bneUn
  | .stfld => ⟨2, 0⟩
  | .add | .addOvf | .addOvfUn | .sub | .subOvf | .subOvfUn | .mul | .mulOvf | .mulOvfUn | .div
  | .divUn | .rem | .remUn | .and | .or | .xor | .shl | .shr | .shrUn | .ceq | .cgt | .cgtUn
  | .clt | .cltUn => ⟨2, 1⟩
  | .ret => ⟨if returnsValue then 1 else 0, 0⟩
  | .call | .callvirt =>
    match operand with
    | .method m =>
      ⟨m.signature.params.length + (if m.signature.hasThis then 1 else 0),
        if m.signature.returnsValue then 1 else 0⟩
    | _ => ⟨0, 0⟩
  | .newobj =>
    match operand with
    | .method m => ⟨m.signature.params.length, 1⟩
    | _ => ⟨0, 1⟩

end Opcode

end CilBackend
