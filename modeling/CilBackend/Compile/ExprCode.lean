import CilBackend.Body.LocalTable
import CilBackend.Code.OperandCheck
import CilBackend.Compile.Headers
import CilBackend.Compile.Services
import CilBackend.Fault.Diagnostic
import CilBackend.Stack.Gauge

/-!
# Code of expressions and statements

Lowering turns expressions into instructions. Arguments come first, from left to right, and then
the template that works on them, so that the code of an expression leaves exactly its value on the
stack.
-/

namespace CilBackend

/-- What lowering reads: the services, the tables of the routine and the checks to make. -/
structure Scope (σ : Type) where
  services : Services σ
  headers : Headers
  locals : LocalTable
  checkNet : Bool
  returnsValue : Bool

/-- What lowering changes: the labels still unused and the state of the services. -/
structure CodeState (σ : Type) where
  supply : LabelSupply
  services : σ

/-- Lowering keeps its state when it fails. -/
abbrev CodeM (σ : Type) := EStateM Failure (CodeState σ)

variable {σ : Type}

namespace CodeM

/-- Takes the next unused label. -/
def freshLabel : CodeM σ Label
  | s =>
    match s.supply.fresh with
    | some (label, supply) => .ok label { s with supply }
    | none => .error .overflow s

/-- Goes on with the result of a check that changes nothing. -/
def ofExcept {α : Type} : Except Failure α → CodeM σ α
  | .ok a => pure a
  | .error f => throw f

end CodeM

namespace Scope

/-- The failure of a node that breaks a rule. -/
def reject (scope : Scope σ) (area : Area) (node : SyntaxNode) (cause : Violation) : Failure :=
  .rejected (.of area (scope.services.describe node) cause)

def importHelper (scope : Scope σ) (helper : HelperMethod) : CodeM σ Method
  | s =>
    let (method, services) := scope.services.importMethod helper.reference s.services
    .ok method { s with services }

def expandFlags (scope : Scope σ) (request : FlagRequest) : CodeM σ (List Instruction)
  | s =>
    let (code, services) := scope.services.expandFlags request s.services
    .ok code { s with services }

def slot (scope : Scope σ) (node : SyntaxNode) (id : VarId) : Except Failure Nat :=
  match scope.locals.slot? id with
  | some slot => .ok slot
  | none => .error (scope.reject .variableUse node (.undeclaredVariable id))

def header (scope : Scope σ) (block : BlockId) : Except Failure Label :=
  match scope.headers.label? block with
  | some label => .ok label
  | none => .error (.outOfRange block)

/-- Replaces blocks by their header labels and variables by their slots. -/
def resolveOperand (scope : Scope σ) (node : SyntaxNode) : Operand → Except Failure Operand
  | .block target => do
    let label ← scope.header target
    return .label label
  | .blockTable targets => do
    let labels ← targets.mapM scope.header
    return .labelTable labels
  | .var id => do
    let slot ← scope.slot node id
    return .slot slot
  | operand => .ok operand

/-- Checks the operand of a template instruction and resolves it; the rest of the instruction stays
as it is. -/
def resolve (scope : Scope σ) (node : SyntaxNode) (i : Instruction) : Except Failure Instruction :=
  match i.checkOperand scope.headers.count with
  | .error cause => .error (scope.reject .operand node cause)
  | .ok () => do
    let operand ← scope.resolveOperand node i.operand
    return { i with operand }

def resolveTemplate (scope : Scope σ) (node : SyntaxNode) (template : List Instruction) :
    Except Failure (List Instruction) :=
  template.mapM (scope.resolve node)

/-- A template works on the values of the arguments and, if the scope asks for it, leaves what the
expression declares. -/
def checkTemplate (scope : Scope σ) (node : SyntaxNode) (initial expected : Int)
    (template : List Instruction) : Except Failure Unit :=
  match changeChecked 0 initial with
  | none => .error .overflow
  | some depth =>
    match StackGauge.run scope.returnsValue template (.startingAt depth) with
    | .error (.violation cause) _ => .error (scope.reject .stack node cause)
    | .error .overflow _ => .error .overflow
    | .ok () gauge =>
      if scope.checkNet then
        match gauge.checkFinal expected with
        | .error cause => .error (scope.reject .stack node cause)
        | .ok () => .ok ()
      else .ok ()

/-- Converts an object by the type it has at run time; a null stays as it is. -/
def objectConversion (nonNull done : Label) (getType convert : Method) : List Instruction :=
  [{ opcode := .dup },
   { opcode := .brtrue, operand := .label nonNull },
   { opcode := .pop },
   { opcode := .ldnull },
   { opcode := .br, operand := .label done },
   { opcode := .dup, label := some nonNull },
   { opcode := .callvirt, operand := .method getType },
   { opcode := .call, operand := .method convert },
   { opcode := .nop, label := some done }]

/-- Converts a value by a type that is known beforehand. -/
def typedConversion (type : TypeName) (fromHandle convert : Method) : List Instruction :=
  [{ opcode := .ldtoken, operand := .token (.type type) },
   { opcode := .call, operand := .method fromHandle },
   { opcode := .call, operand := .method convert }]

/-- The code behind an unboxed value. -/
def conversion (scope : Scope σ) (node : SyntaxNode) (target : Signature) :
    CodeM σ (List Instruction) := do
  let convert ← scope.importHelper .convertToVmValue
  if target.isObject then
    let nonNull ← CodeM.freshLabel
    let done ← CodeM.freshLabel
    let getType ← scope.importHelper .objectGetType
    return objectConversion nonNull done getType convert
  else
    match target.typeName? with
    | none =>
      throw (scope.reject .operand node (.operandKind .ldtoken Opcode.ldtoken.operandKind
        ("type signature `" ++ target.text ++ "`")))
    | some type =>
      let fromHandle ← scope.importHelper .typeGetTypeFromHandle
      return typedConversion type fromHandle convert

mutual

/-- The code of an expression. A flag-affecting expression resolves its template before its
arguments are lowered and is then left to the services; any other lowers its arguments first. -/
def exprCode (scope : Scope σ) : Expr → CodeM σ (List Instruction)
  | .var id type => do
    let slot ← CodeM.ofExcept (scope.slot (.expression (.var id type)) id)
    return [{ opcode := .ldloc, operand := .slot slot }]
  | .unbox value target type => do
    let code ← scope.exprCode value
    let conversion ← scope.conversion (.expression (.unbox value target type)) target
    return code ++ conversion
  | .instruction template arguments none type => do
    let expr := Expr.instruction template arguments none type
    let codes ← scope.exprCodes arguments
    let template ← CodeM.ofExcept (scope.resolveTemplate (.expression expr) template)
    CodeM.ofExcept (scope.checkTemplate (.expression expr)
      (Expr.netEffects arguments) expr.netEffect template)
    return codes.flatten ++ template
  | .instruction template [argument] (some update) type => do
    let node := SyntaxNode.expression (.instruction template [argument] (some update) type)
    let template ← CodeM.ofExcept (scope.resolveTemplate node template)
    let argument ← scope.exprCode argument
    scope.expandFlags
      (.unary argument template (scope.services.flagMask update.flags) (!type.isVoid))
  | .instruction template [left, right] (some update) type => do
    let node := SyntaxNode.expression (.instruction template [left, right] (some update) type)
    let template ← CodeM.ofExcept (scope.resolveTemplate node template)
    let left ← scope.exprCode left
    let right ← scope.exprCode right
    scope.expandFlags (.binary left right template (scope.services.flagMask update.flags)
      update.inverted (!type.isVoid))
  | .instruction template arguments (some update) type => do
    let node := SyntaxNode.expression (.instruction template arguments (some update) type)
    let _ ← CodeM.ofExcept (scope.resolveTemplate node template)
    throw (scope.reject .flagExpression node (.flagArity arguments.length))

/-- The code of each expression of a list, from left to right. -/
def exprCodes (scope : Scope σ) : List Expr → CodeM σ (List (List Instruction))
  | [] => pure []
  | e :: rest => do
    let code ← scope.exprCode e
    let codes ← scope.exprCodes rest
    return code :: codes

end

/-- The target of an assignment is looked up before its value is lowered. -/
def statementCode (scope : Scope σ) : Statement → CodeM σ (List Instruction)
  | .expression value => scope.exprCode value
  | .assignment target value => do
    let slot ← CodeM.ofExcept (scope.slot (.statement (.assignment target value)) target)
    let code ← scope.exprCode value
    return code ++ [{ opcode := .stloc, operand := .slot slot }]

/-- The code of each statement of a block, in order. -/
def statementCodes (scope : Scope σ) : Block → CodeM σ (List (List Instruction))
  | [] => pure []
  | s :: rest => do
    let code ← scope.statementCode s
    let codes ← scope.statementCodes rest
    return code :: codes

end Scope

end CilBackend
