import CilBackend.Compile.ExprCode
import CilBackend.Routine
import CilBackend.Stack.Peak

/-!
# Placement

Lowers the blocks of a routine in a given order and puts their code one behind the other. A block
whose fall-through successor does not come next ends with a jump to it.
-/

namespace CilBackend

/-- The code of a block: its header, the code of its statements and the jump to its fall-through
successor, if it needs one. -/
structure BlockCode where
  header : Label
  statements : List (List Instruction)
  jump : Option Instruction

namespace BlockCode

def instructions (c : BlockCode) : List Instruction :=
  Instruction.header c.header :: c.statements.flatten ++ c.jump.toList

/-- The greatest stack depth of its statements. -/
def peak (returnsValue : Bool) (c : BlockCode) : Nat :=
  c.statements.foldl (fun peak code => max peak (stackPeak returnsValue code)) 0

end BlockCode

/-- A block with its position among the blocks, the offsets at which its code starts and behind
which it ends, and the code between them. -/
structure PlacedBlock where
  block : BlockId
  position : Nat
  start : UInt32
  stop : UInt32
  code : BlockCode
  stop_eq : stop.toNat = start.toNat + codeSize code.instructions

namespace PlacedBlock

/-- Puts the code of a block at an offset, if all its offsets exist. -/
def emit (block : BlockId) (position : Nat) (start : UInt32) (code : BlockCode) :
    Option PlacedBlock :=
  match h : offsetBehind start code.instructions with
  | some stop => some { block, position, start, stop, code, stop_eq := offsetBehind_eq_some.mp h }
  | none => none

def instructions (p : PlacedBlock) : List Instruction :=
  placeFrom p.start p.code.instructions

def header (p : PlacedBlock) : Anchor :=
  ⟨p.code.header, p.start⟩

end PlacedBlock

/-- The blocks of a routine in the order of their code. -/
abbrev Placement := List PlacedBlock

namespace Placement

def instructions (p : Placement) : List Instruction :=
  p.flatMap PlacedBlock.instructions

def peak (returnsValue : Bool) (p : Placement) : Nat :=
  p.foldl (fun peak b => max peak (b.code.peak returnsValue)) 0

def get? (p : Placement) (block : BlockId) : Option PlacedBlock :=
  p.find? fun b => b.block = block

/-- The block that follows `block`. -/
def after? (p : Placement) (block : BlockId) : Option PlacedBlock := do
  let b ← p.get? block
  p[b.position + 1]?

end Placement

variable {σ : Type}

/-- The jump at the end of a block that falls through to another block than the one that follows.
Leaving a region of an exception frame takes a `leave`. -/
def Scope.fallThroughJump (scope : Scope σ) (r : Routine) (block : BlockId)
    (next : Option BlockId) : Except Failure (Option Instruction) :=
  match r.graph.fallThroughs block with
  | [] => .ok none
  | [target] =>
    if next = some target then .ok none
    else do
      let label ← scope.header target
      let opcode := if r.frames.any fun f => f.isLeftBy block target then .leave else .br
      return some { opcode, operand := .label label }
  | targets =>
    .error (.rejected (.of .graph (r.blockText scope.services.describe block)
      (.fallThroughSuccessors block targets.length)))

/-- The code of a block that is followed by the block `next`, if any is. -/
def Scope.blockCode (scope : Scope σ) (r : Routine) (block : BlockId) (next : Option BlockId) :
    CodeM σ BlockCode := do
  let header ← CodeM.ofExcept (scope.header block)
  match r.graph.blocks[block]? with
  | none => throw (.outOfRange block)
  | some statements =>
    let statements ← scope.statementCodes statements
    let jump ← CodeM.ofExcept (scope.fallThroughJump r block next)
    return { header, statements, jump }

/-- Lowers the blocks in order, the first one at a position and at an offset that are given. -/
def Scope.place (scope : Scope σ) (r : Routine) :
    List BlockId → (position : Nat) → (start : UInt32) → CodeM σ Placement
  | [], _, _ => pure []
  | block :: rest, position, start => do
    let code ← scope.blockCode r block rest.head?
    match PlacedBlock.emit block position start code with
    | none => throw .overflow
    | some placed =>
      let following ← scope.place r rest (position + 1) placed.stop
      return placed :: following

end CilBackend
