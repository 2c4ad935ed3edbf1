import CilBackend.Fault.Violation

/-!
# Diagnostics

A diagnostic joins the broken rule with the part of the routine that breaks it and with an
explanation for those who recovered the routine.
-/

namespace CilBackend

/-- The parts of a routine that a diagnostic can be about. -/
inductive Area where
  | operand
  | stack
  | flagExpression
  | variableUse
  | graph
  | frame
deriving DecidableEq

def Area.explanation : Area → String
  | operand =>
    "Instruction operand does not match the operand kind of its opcode. " ++
      "This could indicate an error in the recovery of the instruction expression."
  | stack =>
    "Instruction template does not fit the values on the stack. " ++
      "This could indicate an error in the argument count recovered by the data-flow analysis."
  | flagExpression =>
    "Flag-affecting expression has an unsupported shape. " ++
      "This could indicate an error in the recovery of flag data sources."
  | variableUse =>
    "Invalid variable declaration or reference. " ++
      "This could indicate an error in the variable recovery of the data-flow analysis."
  | graph =>
    "Malformed control-flow graph. " ++
      "This could indicate an error in the control-flow graph construction."
  | frame =>
    "Unsupported or malformed exception handler. " ++
      "This could indicate an error in the recovery of the exception handler sub-graphs."

/-- `node` is the text of the offending part of the routine. -/
structure Diagnostic where
  explanation : String
  node : String
  cause : Option Violation
deriving DecidableEq

namespace Diagnostic

def of (area : Area) (node : String) (cause : Violation) : Diagnostic :=
  ⟨area.explanation, node, some cause⟩

def text (d : Diagnostic) : String :=
  d.explanation ++ "\n  at: " ++ d.node

/-- The cause, or the explanation when there is no cause. -/
def headline (d : Diagnostic) : String :=
  match d.cause with
  | some cause => cause.message
  | none => d.explanation

end Diagnostic

/-- Why a routine was not compiled: it broke a rule, a table was read at a number that is not one of
its entries, or a label, an offset or a stack depth does not fit its width. -/
inductive Failure where
  | rejected (diagnostic : Diagnostic)
  | outOfRange (index : Nat)
  | overflow
deriving DecidableEq

end CilBackend
