import CilBackend.Metadata.Signature

/-!
# Methods, fields and metadata tokens

References to members of types, as call, field and token operands carry them, and the three
helper methods that generated code calls to convert a value.
-/

namespace CilBackend

structure MethodSignature where
  hasThis : Bool
  params : List Signature
  result : Signature
deriving DecidableEq

def MethodSignature.returnsValue (s : MethodSignature) : Bool :=
  !s.result.isVoid

structure Method where
  owner : TypeName
  name : String
  signature : MethodSignature
deriving DecidableEq

def Method.text (m : Method) : String :=
  (if m.signature.hasThis then "instance " else "") ++ m.signature.result.text ++ " " ++
    m.owner.fullName ++ "::" ++ m.name ++
    "(" ++ ", ".intercalate (m.signature.params.map Signature.text) ++ ")"

structure Field where
  owner : TypeName
  name : String
  signature : Signature
deriving DecidableEq

def Field.text (f : Field) : String :=
  f.signature.text ++ " " ++ f.owner.fullName ++ "::" ++ f.name

/-- What a metadata token stands for. -/
inductive Token where
  | type (name : TypeName)
  | method (method : Method)
  | field (field : Field)
deriving DecidableEq

def Token.text : Token → String
  | type name => name.fullName
  | method m => "method " ++ m.text
  | field f => "field " ++ f.text

/-- The methods that generated code needs beside those of the routine itself. -/
inductive HelperMethod where
  | objectGetType
  | typeGetTypeFromHandle
  | convertToVmValue
deriving DecidableEq

namespace HelperMethod

def systemType : TypeName :=
  .ofClass "System" "Type"

/-- The reference handed to the importer when a helper is first needed. -/
def reference : HelperMethod → Method
  | objectGetType =>
    ⟨.ofClass "System" "Object", "GetType", true, [], .classType systemType⟩
  | typeGetTypeFromHandle =>
    ⟨systemType, "GetTypeFromHandle", false,
      [.valueType (.ofValueType "System" "RuntimeTypeHandle")], .classType systemType⟩
  | convertToVmValue =>
    ⟨.ofClass "VM.Runtime" "VMHelper", "ConvertToVmValue", false,
      [.object, .classType systemType], .object⟩

end HelperMethod

end CilBackend
