import CilBackend.Code.Instruction
import CilBackend.Routine.Flag

/-!
# Expressions, statements and blocks

The body of a recovered routine. An instruction expression evaluates its arguments and runs a
template of instructions on them; it may also update processor flags.
-/

namespace CilBackend

/-- The flags that an expression updates, and whether they are inverted. -/
structure FlagUpdate where
  flags : FlagSet
  inverted : Bool
deriving DecidableEq

/-- Every expression declares the type of its value; the type `void` stands for no value. -/
inductive Expr where
  | instruction (template : List Instruction) (arguments : List Expr)
      (flags : Option FlagUpdate) (type : Signature)
  | unbox (value : Expr) (target : Signature) (type : Signature)
  | var (id : VarId) (type : Signature)

/-- What cannot be put together to a routine. -/
inductive RoutineError where
  | flagsWithoutInstruction
  | edgeOutsideGraph
deriving DecidableEq

def RoutineError.message : RoutineError → String
  | flagsWithoutInstruction => "flag update on a non-instruction expression"
  | edgeOutsideGraph => "Graph::add_edge: node indices out of bounds"

namespace Expr

def type : Expr → Signature
  | instruction _ _ _ type => type
  | unbox _ _ type => type
  | var _ type => type

/-- Only an instruction can update flags. -/
def withFlags (update : FlagUpdate) : Expr → Except RoutineError Expr
  | instruction template arguments _ type =>
    .ok (instruction template arguments (some update) type)
  | _ => .error .flagsWithoutInstruction

/-- How many values the expression leaves on the stack. -/
def netEffect (e : Expr) : Int :=
  if e.type.isVoid then 0 else 1

/-- How many values the expressions of a list leave on the stack together. -/
def netEffects : List Expr → Int
  | [] => 0
  | e :: rest => e.netEffect + netEffects rest

end Expr

inductive Statement where
  | expression (value : Expr)
  | assignment (target : VarId) (value : Expr)

abbrev Block := List Statement

/-- A part of a routine that a diagnostic can show. -/
inductive SyntaxNode where
  | block (block : Block)
  | statement (statement : Statement)
  | expression (expression : Expr)

end CilBackend
