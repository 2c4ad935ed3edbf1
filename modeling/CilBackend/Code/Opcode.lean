import CilBackend.Code.Operand

/-!
# Opcodes

The instructions of the target machine, each with its encoding, mnemonic and operand kind.
Branches exist only in their long form, so that sizes do not depend on distances.
-/

namespace CilBackend

inductive Opcode where
  | nop
  | ldnull
  | ldcI4S
  | ldcI4
  | ldcI8
  | ldcR4
  | ldcR8
  | ldstr
  | ldarg
  | starg
  | ldloc
  | ldloca
  | stloc
  | dup
  | pop
  | add
  | addOvf
  | addOvfUn
  | sub
  | subOvf
  | subOvfUn
  | mul
  | mulOvf
  | mulOvfUn
  | div
  | divUn
  | rem
  | remUn
  | and
  | or
  | xor
  | shl
  | shr
  | shrUn
  | neg
  | not
  | convI1
  | convI2
  | convI4
  | convI8
  | convU1
  | convU2
  | convU4
  | convU8
  | convI
  | convU
  | convR4
  | convR8
  | convRUn
  | ceq
  | cgt
  | cgtUn
  | clt
  | cltUn
  | br
  | brfalse
  | brtrue
  | beq
  | bge
  | bgeUn
  | bgt
  | bgtUn
  | ble
  | bleUn
  | blt
  | bltUn
  | bneUn
  | switch
  | ret
  | leave
  | endfinally
  | endfilter
  | throw
  | rethrow
  | call
  | callvirt
  | newobj
  | box
  | unboxAny
  | castclass
  | isinst
  | newarr
  | ldlen
  | ldtoken
  | ldfld
  | stfld
  | ldsfld
  | stsfld
deriving DecidableEq

namespace Opcode

/-- The encoded value. Opcodes of two bytes have `0xFE` as their first. -/
def value : Opcode → Nat
  | nop => 0x00
  | ldnull => 0x14
  | ldcI4S => 0x1F
  | ldcI4 => 0x20
  | ldcI8 => 0x21
  | ldcR4 => 0x22
  | ldcR8 => 0x23
  | ldstr => 0x72
  | ldarg => 0xFE09
  | starg => 0xFE0B
  | ldloc => 0xFE0C
  | ldloca => 0xFE0D
  | stloc => 0xFE0E
  | dup => 0x25
  | pop => 0x26
  | add => 0x58
  | addOvf => 0xD6
  | addOvfUn => 0xD7
  | sub => 0x59
  | subOvf => 0xDA
  | subOvfUn => 0xDB
  | mul => 0x5A
  | mulOvf => 0xD8
  | mulOvfUn => 0xD9
  | div => 0x5B
  | divUn => 0x5C
  | rem => 0x5D
  | remUn => 0x5E
  | and => 0x5F
  | or => 0x60
  | xor => 0x61
  | shl => 0x62
  | shr => 0x63
  | shrUn => 0x64
  | neg => 0x65
  | not => 0x66
  | convI1 => 0x67
  | convI2 => 0x68
  | convI4 => 0x69
  | convI8 => 0x6A
  | convU1 => 0xD2
  | convU2 => 0xD1
  | convU4 => 0x6D
  | convU8 => 0x6E
  | convI => 0xD3
  | convU => 0xE0
  | convR4 => 0x6B
  | convR8 => 0x6C
  | convRUn => 0x76
  | ceq => 0xFE01
  | cgt => 0xFE02
  | cgtUn => 0xFE03
  | clt => 0xFE04
  | cltUn => 0xFE05
  | br => 0x38
  | brfalse => 0x39
  | brtrue => 0x3A
  | beq => 0x3B
  | bge => 0x3C
  | bgeUn => 0x41
  | bgt => 0x3D
  | bgtUn => 0x42
  | ble => 0x3E
  | bleUn => 0x43
  | blt => 0x3F
  | bltUn => 0x44
  | bneUn => 0x40
  | switch => 0x45
  | ret => 0x2A
  | leave => 0xDD
  | endfinally => 0xDC
  | endfilter => 0xFE11
  | throw => 0x7A
  | rethrow => 0xFE1A
  | call => 0x28
  | callvirt => 0x6F
  | newobj => 0x73
  | box => 0x8C
  | unboxAny => 0xA5
  | castclass => 0x74
  | isinst => 0x75
  | newarr => 0x8D
  | ldlen => 0x8E
  | ldtoken => 0xD0
  | ldfld => 0x7B
  | stfld => 0x7D
  | ldsfld => 0x7E
  | stsfld => 0x80

/-- Size of the encoded opcode in bytes, without its operand. -/
def size (op : Opcode) : Nat :=
  if op.value > 0xFF then 2 else 1

def mnemonic : Opcode → String
  | nop => "nop"
  | ldnull => "ldnull"
  | ldcI4S => "ldc.i4.s"
  | ldcI4 => "ldc.i4"
  | ldcI8 => "ldc.i8"
  | ldcR4 => "ldc.r4"
  | ldcR8 => "ldc.r8"
  | ldstr => "ldstr"
  | ldarg => "ldarg"
  | starg => "starg"
  | ldloc => "ldloc"
  | ldloca => "ldloca"
  | stloc => "stloc"
  | dup => "dup"
  | pop => "pop"
  | add => "add"
  | addOvf => "add.ovf"
  | addOvfUn => "add.ovf.un"
  | sub => "sub"
  | subOvf => "sub.ovf"
  | subOvfUn => "sub.ovf.un"
  | mul => "mul"
  | mulOvf => "mul.ovf"
  | mulOvfUn => "mul.ovf.un"
  | div => "div"
  | divUn => "div.un"
  | rem => "rem"
  | remUn => "rem.un"
  | and => "and"
  | or => "or"
  | xor => "xor"
  | shl => "shl"
  | shr => "shr"
  | shrUn => "shr.un"
  | neg => "neg"
  | not => "not"
  | convI1 => "conv.i1"
  | convI2 => "conv.i2"
  | convI4 => "conv.i4"
  | convI8 => "conv.i8"
  | convU1 => "conv.u1"
  | convU2 => "conv.u2"
  | convU4 => "conv.u4"
  | convU8 => "conv.u8"
  | convI => "conv.i"
  | convU => "conv.u"
  | convR4 => "conv.r4"
  | convR8 => "conv.r8"
  | convRUn => "conv.r.un"
  | ceq => "ceq"
  | cgt => "cgt"
  | cgtUn => "cgt.un"
  | clt => "clt"
  | cltUn => "clt.un"
  | br => "br"
  | brfalse => "brfalse"
  | brtrue => "brtrue"
  | beq => "beq"
  | bge => "bge"
  | bgeUn => "bge.un"
  | bgt => "bgt"
  | bgtUn => "bgt.un"
  | ble => "ble"
  | bleUn => "ble.un"
  | blt => "blt"
  | bltUn => "blt.un"
  | bneUn => "bne.un"
  | switch => "switch"
  | ret => "ret"
  | leave => "leave"
  | endfinally => "endfinally"
  | endfilter => "endfilter"
  | throw => "throw"
  | rethrow => "rethrow"
  | call => "call"
  | callvirt => "callvirt"
  | newobj => "newobj"
  | box => "box"
  | unboxAny => "unbox.any"
  | castclass => "castclass"
  | isinst => "isinst"
  | newarr => "newarr"
  | ldlen => "ldlen"
  | ldtoken => "ldtoken"
  | ldfld => "ldfld"
  | stfld => "stfld"
  | ldsfld => "ldsfld"
  | stsfld => "stsfld"

/-- Every opcode once. -/
def all : List Opcode :=
  [nop, ldnull, ldcI4S, ldcI4, ldcI8, ldcR4, ldcR8, ldstr, ldarg, starg, ldloc, ldloca, stloc,
   dup, pop, add, addOvf, addOvfUn, sub, subOvf, subOvfUn, mul, mulOvf, mulOvfUn, div, divUn,
   rem, remUn, and, or, xor, shl, shr, shrUn, neg, not, convI1, convI2, convI4, convI8, convU1,
   convU2, convU4, convU8, convI, convU, convR4, convR8, convRUn, ceq, cgt, cgtUn, clt, cltUn,
   br, brfalse, brtrue, beq, bge, bgeUn, bgt, bgtUn, ble, bleUn, blt, bltUn, bneUn, switch, ret,
   leave, endfinally, endfilter, throw, rethrow, call, callvirt, newobj, box, unboxAny,
   castclass, isinst, newarr, ldlen, ldtoken, ldfld, stfld, ldsfld, stsfld]

def ofMnemonic? (text : String) : Option Opcode :=
  all.find? fun op => op.mnemonic == text

def operandKind : Opcode → OperandKind
  | ldcI4S => .int8
  | ldcI4 => .int32
  | ldcI8 => .int64
  | ldcR4 => .float32
  | ldcR8 => .float64
  | ldstr => .string
  | ldarg => .argument
  | starg => .argument
  | ldloc => .var
  | ldloca => .var
  | stloc => .var
  | br => .branchTarget
  | brfalse => .branchTarget
  | brtrue => .branchTarget
  | beq => .branchTarget
  | bge => .branchTarget
  | bgeUn => .branchTarget
  | bgt => .branchTarget
  | bgtUn => .branchTarget
  | ble => .branchTarget
  | bleUn => .branchTarget
  | blt => .branchTarget
  | bltUn => .branchTarget
  | bneUn => .branchTarget
  | switch => .jumpTable
  | leave => .branchTarget
  | call => .method
  | callvirt => .method
  | newobj => .method
  | box => .type
  | unboxAny => .type
  | castclass => .type
  | isinst => .type
  | newarr => .type
  | ldtoken => .token
  | ldfld => .field
  | stfld => .field
  | ldsfld => .field
  | stsfld => .field
  | _ => .none

/-- Whether the operand sends control elsewhere. -/
def isBranch (op : Opcode) : Bool :=
  match op.operandKind with
  | .branchTarget => true
  | .jumpTable => true
  | _ => false

/-- Whether control never goes on to the next instruction. -/
def endsFlow : Opcode → Bool
  | br => true
  | leave => true
  | ret => true
  | throw => true
  | rethrow => true
  | endfinally => true
  | endfilter => true
  | _ => false

end Opcode

end CilBackend
