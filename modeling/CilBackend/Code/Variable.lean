import CilBackend.Metadata.Signature

/-!
# Variables of a routine
-/

namespace CilBackend

@[ext]
structure VarId where
  index : Nat
deriving DecidableEq

def VarId.text (v : VarId) : String :=
  "V_" ++ toString v.index

structure Variable where
  id : VarId
  name : String
  signature : Signature
deriving DecidableEq

/-- A variable that is named after its number. -/
def Variable.unnamed (id : VarId) (signature : Signature) : Variable :=
  ⟨id, id.text, signature⟩

end CilBackend
