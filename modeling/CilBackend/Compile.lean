import CilBackend.Body.MethodBody
import CilBackend.Compile.HandlerTable
import CilBackend.Layout.Order

/-!
# Compiling a routine

Appends the code of a routine to a method body. The phases are: declare the variables, order the
blocks, lower and place them, rebuild the handler table. What a phase has finished stays in the
body when a later one fails, and the code is appended only when all blocks are placed.
-/

namespace CilBackend

structure Options where
  tryEnd : TryEnd := .handlerStart
  checkNet : Bool := true

/-- The body under construction and the state of the services. -/
structure Workspace (σ : Type) where
  body : MethodBody
  services : σ

def RegisterError.violation (id : VarId) : RegisterError → Violation
  | duplicate => .duplicateVariable id
  | tooManyLocals => .tooManyLocals

def LocalTable.declare (v : Variable) : EStateM Failure LocalTable Unit
  | t =>
    match LocalTable.register v t with
    | .ok _ t => .ok () t
    | .error e t => .error (.rejected (.of .variableUse v.id.text (e.violation v.id))) t

/-- Declares the variables in order, up to the first one that is refused. -/
def LocalTable.declareAll : List Variable → EStateM Failure LocalTable Unit
  | [] => pure ()
  | v :: rest => do
    LocalTable.declare v
    LocalTable.declareAll rest

variable {σ : Type}

/-- Orders, lowers and places the blocks of a routine behind the code of a body in which its
variables are declared. -/
def placeRoutine (services : Services σ) (options : Options) (r : Routine) (body : MethodBody) :
    EStateM Failure σ Placement
  | s =>
    match (LabelSupply.continuing body.instructions).bind (Headers.allocate r.graph.size) with
    | none => .error .overflow s
    | some (headers, supply) =>
      match r.graph.order r.entry with
      | .error e =>
        .error (.rejected (.of .graph (r.blockText services.describe e.block) e.violation)) s
      | .ok order =>
        let scope : Scope σ :=
          { services, headers, locals := body.locals, checkNet := options.checkNet,
            returnsValue := r.returnsValue }
        match body.codeSize? with
        | none => .error .overflow s
        | some start =>
          match scope.place r order 0 start ⟨supply, s⟩ with
          | .ok placement s => .ok placement s.services
          | .error f s => .error f s.services

/-- Compiles a routine into the body of the workspace. -/
def compile (services : Services σ) (options : Options) (r : Routine) :
    EStateM Failure (Workspace σ) Unit
  | w =>
    match LocalTable.declareAll r.declarations w.body.locals with
    | .error f locals => .error f { w with body := { w.body with locals } }
    | .ok () locals =>
      let body := { w.body with locals }
      match placeRoutine services options r body w.services with
      | .error f s => .error f ⟨body, s⟩
      | .ok placement s =>
        let body := { body with instructions := body.instructions ++ placement.instructions }
        match FrameScope.handlers ⟨r, placement, services.describe, options.tryEnd⟩ with
        | .error d => .error (.rejected d) ⟨body, s⟩
        | .ok handlers =>
          .ok () ⟨{ body with
            handlers := body.handlers ++ handlers
            maxStack := max body.maxStack (placement.peak r.returnsValue) }, s⟩

end CilBackend
