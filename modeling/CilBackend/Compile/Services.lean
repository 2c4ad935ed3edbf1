import CilBackend.Metadata.Member
import CilBackend.Routine.Expr

/-!
# Services

What compilation leaves to its caller: importing methods into the target module, expanding
flag-affecting expressions, the flag layout of the machine and the texts of nodes in diagnostics.
Importing and expanding may keep a state of their own.
-/

namespace CilBackend

/-- A flag-affecting expression of one or two lowered arguments. -/
inductive FlagRequest where
  | unary (argument template : List Instruction) (mask : UInt8) (hasResult : Bool)
  | binary (left right template : List Instruction) (mask : UInt8) (inverted hasResult : Bool)
deriving DecidableEq

structure Services (σ : Type) where
  importMethod : Method → σ → Method × σ
  expandFlags : FlagRequest → σ → List Instruction × σ
  flagMask : FlagSet → UInt8
  describe : SyntaxNode → String

inductive ServiceCall where
  | importMethod (method : Method)
  | expandFlags (request : FlagRequest)
deriving DecidableEq

end CilBackend
