import CilBackend.Proofs.LoweringSimulation
import CilBackend.Proofs.Resolution

/-!
# Calls of the services

Compilation goes over a routine once: over its blocks in their order, over the statements of a
block, and over expressions with the arguments first and from left to right. The services are called
on this walk and nowhere else, and the code that is emitted holds their answers where they belong.
-/

namespace CilBackend

variable {σ : Type}

/-- A call of the services with the answer to it. -/
inductive ServiceEvent where
  | imported (helper : HelperMethod) (answer : Method)
  | expanded (request : FlagRequest) (answer : List Instruction)

def ServiceEvent.call : ServiceEvent → ServiceCall
  | imported helper _ => .importMethod helper.reference
  | expanded request _ => .expandFlags request

/-- In state `s` the services give the answer of the event and go on to state `t`. -/
def Services.Gives (services : Services σ) (s : σ) : ServiceEvent → (t : σ) → Prop
  | .imported helper answer, t => services.importMethod helper.reference s = (answer, t)
  | .expanded request answer, t => services.expandFlags request s = (answer, t)

/-- From state `s` on the services give the answers of the events, one after the other, and are
then in state `s'`. -/
def Services.Answers (services : Services σ) : (s : σ) → List ServiceEvent → (s' : σ) → Prop
  | s, [], s' => s = s'
  | s, event :: rest, s' => ∃ t, services.Gives s event t ∧ services.Answers t rest s'

lemma Services.Answers.append {services : Services σ} {s t u : σ} {a b : List ServiceEvent}
    (ha : services.Answers s a t) (hb : services.Answers t b u) :
    services.Answers s (a ++ b) u := by
  induction a generalizing s with
  | nil =>
    cases ha
    exact hb
  | cons event rest ih =>
    obtain ⟨v, hgives, hrest⟩ := ha
    exact ⟨v, hgives, ih hrest⟩

/-- The expressions that an expression evaluates before it works itself, from left to right. -/
def Expr.operands : Expr → List Expr
  | instruction _ arguments _ _ => arguments
  | unbox value _ _ => [value]
  | var _ _ => []

/-- What the walk looks up in a scope. -/
structure WalkTables where
  slot? : VarId → Option Nat
  Resolves : (o o' : Operand) → Prop
  mask : FlagSet → UInt8

def Scope.tables (scope : Scope σ) : WalkTables :=
  ⟨scope.locals.slot?, scope.Resolves, scope.services.flagMask⟩

/-- Goes over a list from left to right. What `Visit` says of a member speaks of the labels that are
unused before it, its events, what is made of it and the labels that are unused behind it. -/
inductive InOrder {α β : Type}
    (Visit : α → LabelSupply → List ServiceEvent → β → LabelSupply → Prop) :
    List α → LabelSupply → List ServiceEvent → List β → LabelSupply → Prop where
  | nil {n : LabelSupply} : InOrder Visit [] n [] [] n
  | cons {a : α} {rest : List α} {b : β} {made : List β} {n m p : LabelSupply}
      {events following : List ServiceEvent} (hfirst : Visit a n events b m)
      (hrest : InOrder Visit rest m following made p) :
      InOrder Visit (a :: rest) n (events ++ following) (b :: made) p

namespace WalkTables

/-- The template with every operand resolved. -/
def ResolvesTemplate (tables : WalkTables) (template resolved : List Instruction) : Prop :=
  List.Forall₂ (fun i j => ∃ operand, tables.Resolves i.operand operand ∧ j = { i with operand })
    template resolved

/-- What an expression does itself, behind its operands. Their codes are given; it makes its own
calls and puts its code together. A flag-affecting expression has the answer to its call as its
code. -/
inductive Contributes (tables : WalkTables) :
    Expr → List (List Instruction) → LabelSupply → List ServiceEvent → List Instruction →
      LabelSupply → Prop where
  | var {id : VarId} {type : Signature} {slot : Nat} {n : LabelSupply}
      (hslot : tables.slot? id = some slot) :
      Contributes tables (.var id type) [] n [] [{ opcode := .ldloc, operand := .slot slot }] n
  | object {value : Expr} {target type : Signature} {code : List Instruction} {n m p : LabelSupply}
      {nonNull done : Label} {convert getType : Method} (hobject : target.isObject = true)
      (hnonNull : n.fresh = some (nonNull, m)) (hdone : m.fresh = some (done, p)) :
      Contributes tables (.unbox value target type) [code] n
        [.imported .convertToVmValue convert, .imported .objectGetType getType]
        (code ++ Scope.objectConversion nonNull done getType convert) p
  | typed {value : Expr} {target type : Signature} {name : TypeName} {code : List Instruction}
      {n : LabelSupply} {convert fromHandle : Method} (hobject : target.isObject = false)
      (hname : target.typeName? = some name) :
      Contributes tables (.unbox value target type) [code] n
        [.imported .convertToVmValue convert, .imported .typeGetTypeFromHandle fromHandle]
        (code ++ Scope.typedConversion name fromHandle convert) n
  | plain {template resolved : List Instruction} {arguments : List Expr} {type : Signature}
      {codes : List (List Instruction)} {n : LabelSupply}
      (hresolved : tables.ResolvesTemplate template resolved) :
      Contributes tables (.instruction template arguments none type) codes n []
        (codes.flatten ++ resolved) n
  | unary {template resolved : List Instruction} {argument : Expr} {update : FlagUpdate}
      {type : Signature} {code answer : List Instruction} {n : LabelSupply}
      (hresolved : tables.ResolvesTemplate template resolved) :
      Contributes tables (.instruction template [argument] (some update) type) [code] n
        [.expanded (.unary code resolved (tables.mask update.flags) (!type.isVoid)) answer] answer n
  | binary {template resolved : List Instruction} {left right : Expr} {update : FlagUpdate}
      {type : Signature} {code code' answer : List Instruction} {n : LabelSupply}
      (hresolved : tables.ResolvesTemplate template resolved) :
      Contributes tables (.instruction template [left, right] (some update) type) [code, code'] n
        [.expanded (.binary code code' resolved (tables.mask update.flags) update.inverted
          (!type.isVoid)) answer] answer n

/-- The walk over an expression: its operands in order, then what it does itself. -/
inductive Walks (tables : WalkTables) :
    Expr → LabelSupply → List ServiceEvent → List Instruction → LabelSupply → Prop where
  | node {e : Expr} {n m p : LabelSupply} {before own : List ServiceEvent}
      {codes : List (List Instruction)} {code : List Instruction}
      (hoperands : InOrder (Walks tables) e.operands n before codes m)
      (hown : tables.Contributes e codes m own code p) : Walks tables e n (before ++ own) code p

end WalkTables

/-! ## Lowering walks -/

namespace Scope

variable {scope : Scope σ}

/-- A run from `s` to `s'` makes the calls that `Visit` allows, and no others. -/
def Follows (scope : Scope σ) (Visit : LabelSupply → List ServiceEvent → LabelSupply → Prop)
    (s s' : CodeState σ) : Prop :=
  ∃ events, Visit s.supply events s'.supply ∧
    scope.services.Answers s.services events s'.services

lemma Follows.cons {α β : Type}
    {Visit : α → LabelSupply → List ServiceEvent → β → LabelSupply → Prop} {a : α} {rest : List α}
    {b : β} {made : List β} {s t u : CodeState σ}
    (hfirst : scope.Follows (fun n events m => Visit a n events b m) s t)
    (hrest : scope.Follows (fun n events m => InOrder Visit rest n events made m) t u) :
    scope.Follows (fun n events m => InOrder Visit (a :: rest) n events (b :: made) m) s u := by
  obtain ⟨events, hvisit, hanswers⟩ := hfirst
  obtain ⟨following, horder, hfollowing⟩ := hrest
  exact ⟨events ++ following, InOrder.cons hvisit horder, hanswers.append hfollowing⟩

/-- The operands of an expression and then the expression itself. -/
lemma Follows.node {e : Expr} {codes : List (List Instruction)} {code : List Instruction}
    {s t u : CodeState σ}
    (hoperands : scope.Follows
      (fun n events m => InOrder scope.tables.Walks e.operands n events codes m) s t)
    (hown : scope.Follows
      (fun n events m => scope.tables.Contributes e codes n events code m) t u) :
    scope.Follows (fun n events m => scope.tables.Walks e n events code m) s u := by
  obtain ⟨before, horder, hbefore⟩ := hoperands
  obtain ⟨own, hcontributes, hanswers⟩ := hown
  exact ⟨before ++ own, WalkTables.Walks.node horder hcontributes, hbefore.append hanswers⟩

variable {r : Routine}

end Scope

/-! ## Recorded calls -/

variable {services : Services σ} {options : Options} {r : Routine}

end CilBackend
