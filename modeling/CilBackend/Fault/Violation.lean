import CilBackend.Code.Opcode

/-!
# Violations

The rules that a routine can break, each with what is needed to say where, and the wording of
the message.
-/

namespace CilBackend

/-- A part of an exception frame, known by the name that messages give it. -/
structure Region where
  name : String
deriving DecidableEq

def Region.tryBody : Region :=
  ⟨"try"⟩

def Region.handlerBody : Region :=
  ⟨"handler"⟩

inductive Violation where
  | operandKind (opcode : Opcode) (expected : OperandKind) (found : String)
  | unknownBranchTarget (opcode : Opcode) (target : BlockId)
  | stackUnderflow (opcode : Opcode) (position : Nat) (depth : Int) (pops : Nat)
  | stackImbalance (expected actual : Int)
  | flagArity (count : Nat)
  | undeclaredVariable (id : VarId)
  | duplicateVariable (id : VarId)
  | tooManyLocals
  | unknownBlock (block : BlockId)
  | unreachableBlock (block : BlockId)
  | fallThroughSuccessors (block : BlockId) (count : Nat)
  | unsupportedFrameKind (kind : Nat)
  | emptyRegion (frame : Nat) (region : Region)
  | handlerSuccessors (block : BlockId) (count : Nat)
  | tryEndPastMethodEnd (block : BlockId)
  | regionOrder (frame tryStart tryEnd handlerStart handlerEnd : Nat)
  | blockOutsideRegion (frame : Nat) (region : Region) (block : BlockId)
deriving DecidableEq

namespace Violation

def inBackticks (op : Opcode) : String :=
  "`" ++ op.mnemonic ++ "`"

/-- Offsets in messages have at least four digits. -/
def offsetInMessage (offset : Nat) : String :=
  "0x" ++ Text.hexPadded 4 offset

def message : Violation → String
  | operandKind opcode expected found =>
    inBackticks opcode ++ " expects " ++ expected.text ++ ", found " ++ found
  | unknownBranchTarget opcode target =>
    inBackticks opcode ++ " targets block " ++ toString target ++
      ", which is not part of the graph"
  | stackUnderflow opcode position depth pops =>
    "stack underflow at " ++ inBackticks opcode ++ " (template instruction " ++
      toString position ++ "): depth " ++ toString depth ++ ", pops " ++ toString pops
  | stackImbalance expected actual =>
    "expression leaves " ++ toString actual ++ " value(s) on the stack, but declares " ++
      toString expected
  | flagArity count =>
    "flag-affecting expression has " ++ toString count ++
      " argument(s), only 1 or 2 are supported"
  | undeclaredVariable id => "variable " ++ id.text ++ " is not declared"
  | duplicateVariable id => "variable " ++ id.text ++ " is declared more than once"
  | tooManyLocals => "more than 65535 local variables"
  | unknownBlock block => "node " ++ toString block ++ " is not part of the graph"
  | unreachableBlock block =>
    "node " ++ toString block ++ " is unreachable from the entry node"
  | fallThroughSuccessors block count =>
    "block " ++ toString block ++ " falls through into " ++ toString count ++
      " different blocks"
  | unsupportedFrameKind kind => "unrecognized virtualized frame kind " ++ toString kind
  | emptyRegion frame region =>
    region.name ++ " region of exception frame " ++ toString frame ++ " is empty"
  | handlerSuccessors block count =>
    "last handler block " ++ toString block ++ " has " ++ toString count ++
      " successor(s), exactly one is required"
  | tryEndPastMethodEnd block =>
    "no instruction follows the try body ending at block " ++ toString block
  | regionOrder frame tryStart tryEnd handlerStart handlerEnd =>
    "exception frame " ++ toString frame ++ " is out of order: try " ++
      offsetInMessage tryStart ++ " to " ++ offsetInMessage tryEnd ++ ", handler " ++
      offsetInMessage handlerStart ++ " to " ++ offsetInMessage handlerEnd
  | blockOutsideRegion frame region block =>
    region.name ++ " block " ++ toString block ++ " of exception frame " ++ toString frame ++
      " is laid out outside its region"

end Violation

end CilBackend
