import CilBackend.Code.Label
import CilBackend.Code.Variable
import CilBackend.Decimal.Notation
import CilBackend.Metadata.Member
import CilBackend.Text.Quoted

/-!
# Instruction operands

Before lowering, a branch names a block of the routine's graph and a local is named by its
variable. Lowering replaces them by labels and slots; all other operands stay as they are.
-/

namespace CilBackend

/-- Blocks are numbered from zero in the order in which the routine lists them. -/
abbrev BlockId := Nat

/-- Floating-point constants are held by their bit patterns. -/
inductive Operand where
  | none
  | int8 (value : Int8)
  | int32 (value : Int32)
  | int64 (value : Int64)
  | float32 (bits : UInt32)
  | float64 (bits : UInt64)
  | string (value : String)
  | block (target : BlockId)
  | blockTable (targets : List BlockId)
  | label (target : Label)
  | labelTable (targets : List Label)
  | method (method : Method)
  | field (field : Field)
  | type (name : TypeName)
  | token (token : Token)
  | var (id : VarId)
  | slot (index : Nat)
  | argument (index : Nat)
deriving DecidableEq

namespace Operand

/-- The labels that an operand can send control to. -/
def labels : Operand → List Label
  | label target => [target]
  | labelTable targets => targets
  | _ => []

/-- The blocks that an operand can send control to. -/
def blocks : Operand → List BlockId
  | block target => [target]
  | blockTable targets => targets
  | _ => []

/-- Name of the operand's shape in messages. -/
def shape : Operand → String
  | none => "none"
  | int8 _ => "int8"
  | int32 _ => "int32"
  | int64 _ => "int64"
  | float32 _ => "float32"
  | float64 _ => "float64"
  | string _ => "string"
  | block _ => "block reference"
  | blockTable _ => "block jump table"
  | label _ => "label"
  | labelTable _ => "label jump table"
  | method _ => "method reference"
  | field _ => "field reference"
  | type _ => "type reference"
  | token _ => "metadata token"
  | var _ => "local variable"
  | slot _ => "local slot"
  | argument _ => "argument index"

/-- Encoded size in bytes. A jump table starts with its length, of which 32 bits are kept. -/
def size : Operand → Nat
  | none => 0
  | int8 _ => 1
  | var _ => 2
  | slot _ => 2
  | argument _ => 2
  | int32 _ => 4
  | float32 _ => 4
  | string _ => 4
  | block _ => 4
  | label _ => 4
  | method _ => 4
  | field _ => 4
  | type _ => 4
  | token _ => 4
  | int64 _ => 8
  | float64 _ => 8
  | blockTable targets => 4 + 4 * (targets.length % UInt32.size)
  | labelTable targets => 4 + 4 * (targets.length % UInt32.size)

def blockText (target : BlockId) : String :=
  "block_" ++ toString target

def tableText (entries : List String) : String :=
  "(" ++ ", ".intercalate entries ++ ")"

def text : Operand → String
  | none => ""
  | int8 value => toString value.toInt
  | int32 value => toString value.toInt
  | int64 value => toString value.toInt
  | float32 bits => (Decimal.binary32.decode bits.toNat).text Decimal.operandStyle
  | float64 bits => (Decimal.binary64.decode bits.toNat).text Decimal.operandStyle
  | string value => Text.quoted value
  | block target => blockText target
  | blockTable targets => tableText (targets.map blockText)
  | label target => target.text
  | labelTable targets => tableText (targets.map Label.text)
  | method m => m.text
  | field f => f.text
  | type name => name.fullName
  | token t => t.text
  | var id => id.text
  | slot index => "V_" ++ toString index
  | argument index => "A_" ++ toString index

/-- The text after the opcode; without an operand there is none. -/
def text? : Operand → Option String
  | none => Option.none
  | operand => some operand.text

/-- What a message says was found in an operand's place. -/
def found (operand : Operand) : String :=
  match operand.text? with
  | Option.none => operand.shape
  | some text => operand.shape ++ " `" ++ text ++ "`"

end Operand

/-- The shape of operand that an opcode asks for. -/
inductive OperandKind where
  | none
  | int8
  | int32
  | int64
  | float32
  | float64
  | string
  | branchTarget
  | jumpTable
  | method
  | field
  | type
  | token
  | var
  | argument
deriving DecidableEq

namespace OperandKind

/-- Branches take a block before lowering and a label after it, locals a variable or a slot. -/
def accepts : OperandKind → Operand → Bool
  | none, .none => true
  | int8, .int8 _ => true
  | int32, .int32 _ => true
  | int64, .int64 _ => true
  | float32, .float32 _ => true
  | float64, .float64 _ => true
  | string, .string _ => true
  | branchTarget, .block _ => true
  | branchTarget, .label _ => true
  | jumpTable, .blockTable _ => true
  | jumpTable, .labelTable _ => true
  | method, .method _ => true
  | field, .field _ => true
  | type, .type _ => true
  | token, .token _ => true
  | var, .var _ => true
  | var, .slot _ => true
  | argument, .argument _ => true
  | _, _ => false

def text : OperandKind → String
  | none => "no operand"
  | int8 => "int8 immediate"
  | int32 => "int32 immediate"
  | int64 => "int64 immediate"
  | float32 => "float32 immediate"
  | float64 => "float64 immediate"
  | string => "string literal"
  | branchTarget => "branch target"
  | jumpTable => "jump table"
  | method => "method reference"
  | field => "field reference"
  | type => "type reference"
  | token => "metadata token"
  | var => "local variable"
  | argument => "argument index"

end OperandKind

end CilBackend
