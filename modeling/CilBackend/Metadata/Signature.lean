/-!
# Type names and type signatures

A type name points at a type of some module; a signature is the static type of a value, local,
parameter or result.
-/

namespace CilBackend

structure TypeName where
  space : String
  name : String
  isValueType : Bool
deriving DecidableEq

namespace TypeName

def ofClass (space name : String) : TypeName :=
  ⟨space, name, false⟩

def ofValueType (space name : String) : TypeName :=
  ⟨space, name, true⟩

/-- The dotted name; a type outside every namespace is written by its name alone. -/
def fullName (t : TypeName) : String :=
  if t.space.isEmpty then t.name else t.space ++ "." ++ t.name

end TypeName

inductive Signature where
  | void
  | bool
  | char
  | int8
  | uint8
  | int16
  | uint16
  | int32
  | uint32
  | int64
  | uint64
  | float32
  | float64
  | string
  | nativeInt
  | nativeUInt
  | object
  | classType (name : TypeName)
  | valueType (name : TypeName)
  | array (element : Signature)
deriving DecidableEq

namespace Signature

def isVoid : Signature → Bool
  | void => true
  | _ => false

def isObject : Signature → Bool
  | object => true
  | _ => false

/-- The named type behind a signature. `void` and arrays have none. -/
def typeName? : Signature → Option TypeName
  | void => none
  | bool => some (.ofValueType "System" "Boolean")
  | char => some (.ofValueType "System" "Char")
  | int8 => some (.ofValueType "System" "SByte")
  | uint8 => some (.ofValueType "System" "Byte")
  | int16 => some (.ofValueType "System" "Int16")
  | uint16 => some (.ofValueType "System" "UInt16")
  | int32 => some (.ofValueType "System" "Int32")
  | uint32 => some (.ofValueType "System" "UInt32")
  | int64 => some (.ofValueType "System" "Int64")
  | uint64 => some (.ofValueType "System" "UInt64")
  | float32 => some (.ofValueType "System" "Single")
  | float64 => some (.ofValueType "System" "Double")
  | string => some (.ofClass "System" "String")
  | nativeInt => some (.ofValueType "System" "IntPtr")
  | nativeUInt => some (.ofValueType "System" "UIntPtr")
  | object => some (.ofClass "System" "Object")
  | classType name => some name
  | valueType name => some name
  | array _ => none

def text : Signature → String
  | void => "void"
  | bool => "bool"
  | char => "char"
  | int8 => "int8"
  | uint8 => "uint8"
  | int16 => "int16"
  | uint16 => "uint16"
  | int32 => "int32"
  | uint32 => "uint32"
  | int64 => "int64"
  | uint64 => "uint64"
  | float32 => "float32"
  | float64 => "float64"
  | string => "string"
  | nativeInt => "native int"
  | nativeUInt => "native uint"
  | object => "object"
  | classType name => "class " ++ name.fullName
  | valueType name => "valuetype " ++ name.fullName
  | array element => element.text ++ "[]"

end Signature

end CilBackend
