import CilBackend.Proofs.Machine

/-!
# Meaning of expressions

What an expression does to the state of a stack machine, by recursion on the expression, and the
proof that its code does exactly that wherever it stands in a body.
-/

namespace CilBackend

variable {σ : Type}

/-- Whether an operand names places in the code. -/
def Operand.isTarget : Operand → Bool
  | block _ => true
  | blockTable _ => true
  | label _ => true
  | labelTable _ => true
  | _ => false

namespace Machine

/-- The effects of instructions that control passes through, in order. -/
def effects (M : Machine) : List Instruction → M.Action
  | [] => some
  | i :: rest => M.effect i.opcode i.operand >=> M.effects rest

/-- Converts the value on top of the stack by a type that is known beforehand. -/
def convertTyped (M : Machine) (type : TypeName) (fromHandle convert : Method) : M.Action :=
  M.effects [
    { opcode := .ldtoken, operand := .token (.type type) },
    { opcode := .call, operand := .method fromHandle },
    { opcode := .call, operand := .method convert }]

/-- Converts the value on top of the stack by the type it has; a null is replaced by null. -/
def convertObject (M : Machine) (getType convert : Method) : M.Action
  | st =>
    match st.stack with
    | [] => none
    | v :: rest =>
      if M.isNull v then some { st with stack := M.null :: rest }
      else
        M.effects [
          { opcode := .dup },
          { opcode := .callvirt, operand := .method getType },
          { opcode := .call, operand := .method convert }] st

end Machine

namespace Scope

/-- The slot of a variable stands for the variable. -/
def locate (scope : Scope σ) : Operand → Operand
  | .var id =>
    match scope.locals.slot? id with
    | some slot => .slot slot
    | none => .var id
  | operand => operand

def located (scope : Scope σ) (i : Instruction) : Instruction :=
  { i with operand := scope.locate i.operand }

end Scope

namespace Expr

mutual

/-- What an expression that updates no flags does to the state, and the state of the services
after the methods that it needs are imported. -/
def meaning (M : Machine) (scope : Scope σ) : Expr → σ → M.Action × σ
  | .var id _, s =>
    match scope.locals.slot? id with
    | some slot => (M.effect .ldloc (.slot slot), s)
    | none => (fun _ => none, s)
  | .instruction template arguments _ _, s =>
    let (evaluate, t) := meanings M scope arguments s
    (evaluate >=> M.effects (template.map scope.located), t)
  | .unbox value target _, s =>
    let (evaluate, t) := meaning M scope value s
    let (convert, t) := scope.services.importMethod HelperMethod.convertToVmValue.reference t
    if target.isObject then
      let (getType, t) := scope.services.importMethod HelperMethod.objectGetType.reference t
      (evaluate >=> M.convertObject getType convert, t)
    else
      match target.typeName? with
      | some type =>
        let (fromHandle, t) :=
          scope.services.importMethod HelperMethod.typeGetTypeFromHandle.reference t
        (evaluate >=> M.convertTyped type fromHandle convert, t)
      | none => (fun _ => none, t)

/-- What the expressions of a list do, from left to right. -/
def meanings (M : Machine) (scope : Scope σ) : List Expr → σ → M.Action × σ
  | [], s => (some, s)
  | e :: rest, s =>
    let (evaluate, t) := meaning M scope e s
    let (evaluateRest, t) := meanings M scope rest t
    (evaluate >=> evaluateRest, t)

end

end Expr

namespace Machine

variable {M : Machine} {body : List Instruction} {k : Nat}

/-- Code without branches does the effects of its instructions. -/
lemma performs_effects {code : List Instruction} (h : CodeAt body k code)
    (hpass : ∀ i ∈ code, i.opcode.isBranch = false ∧ i.opcode.endsFlow = false) :
    M.Performs body k (k + code.length) (M.effects code) := by
  induction code generalizing k with
  | nil => exact Performs.nil k
  | cons i rest ih =>
    rw [List.forall_mem_cons] at hpass
    have hhead : M.Performs body k (k + 1) (M.effect i.opcode i.operand) :=
      Performs.passes h List.getElem?_cons_zero hpass.1.1 hpass.1.2
    have hrest : CodeAt body (k + 1) rest := @CodeAt.right body [i] rest k h
    have hlength : k + (i :: rest).length = k + 1 + rest.length := by
      rw [List.length_cons]
      omega
    rw [hlength]
    exact hhead.andThen (ih hrest hpass.2)

/-- Wherever the code stands in a body that binds each of its labels once, it does what the action
does. -/
def Implements (M : Machine) (code : List Instruction) (action : M.Action) : Prop :=
  ∀ body k, CodeAt body k code → (∀ l ∈ boundLabels code, (boundLabels body).count l = 1) →
    M.Performs body k (k + code.length) action

lemma Implements.append {a b : List Instruction} {f g : M.Action} (ha : M.Implements a f)
    (hb : M.Implements b g) : M.Implements (a ++ b) (f >=> g) := by
  intro body k hat honce
  rw [boundLabels_append] at honce
  have hfirst := ha body k hat.left (fun l hl => honce l (List.mem_append_left _ hl))
  have hsecond := hb body (k + a.length) hat.right
    (fun l hl => honce l (List.mem_append_right _ hl))
  rw [List.length_append, ← Nat.add_assoc]
  exact hfirst.andThen hsecond

section ObjectConversion

variable {nonNull done : Label} {getType convert : Method}

/-- The test leaves the value where it is and jumps if it is not null. -/
lemma objectConversion_test
    (h : CodeAt body k (Scope.objectConversion nonNull done getType convert))
    (hnonNull : (boundLabels body).count nonNull = 1) (locals : M.Locals) (v : M.Value)
    (rest : List M.Value) :
    M.Reaches body k (k + 9) ⟨k, locals, v :: rest⟩
      ⟨if M.isNull v then k + 2 else k + 5, locals, v :: rest⟩ := by
  have hdup : M.step body ⟨k, locals, v :: rest⟩ = some ⟨k + 1, locals, v :: v :: rest⟩ :=
    step_of_codeAt h (List.getElem?_cons_zero) _
  have htarget : position? body nonNull = some (k + 5) := h.position?_eq rfl rfl hnonNull
  have htest : M.step body ⟨k + 1, locals, v :: v :: rest⟩ =
      some ⟨if M.isNull v then k + 2 else k + 5, locals, v :: rest⟩ := by
    have hstep := step_of_codeAt h (j := 1) rfl (⟨locals, v :: v :: rest⟩ : M.State)
    rw [hstep]
    cases hnull : M.isNull v with
    | true => simp [perform, continueAt, hnull]
    | false => simp [perform, continueAt, hnull, htarget]
  have hfirst : M.Reaches body k (k + 9) _ _ := Reaches.of_step (Nat.le_refl k) (by simp) hdup
  have hsecond : M.Reaches body k (k + 9) _ _ := Reaches.of_step (by simp) (by simp) htest
  exact hfirst.trans hsecond

lemma objectConversion_null
    (h : CodeAt body k (Scope.objectConversion nonNull done getType convert))
    (hdone : (boundLabels body).count done = 1) (locals : M.Locals) (v : M.Value)
    (rest : List M.Value) :
    M.Reaches body k (k + 9) ⟨k + 2, locals, v :: rest⟩ ⟨k + 9, locals, M.null :: rest⟩ := by
  have hpop : M.step body ⟨k + 2, locals, v :: rest⟩ = some ⟨k + 3, locals, rest⟩ :=
    step_of_codeAt h (j := 2) rfl _
  have hload : M.step body ⟨k + 3, locals, rest⟩ = some ⟨k + 4, locals, M.null :: rest⟩ :=
    step_of_codeAt h (j := 3) rfl _
  have htarget : position? body done = some (k + 8) := h.position?_eq rfl rfl hdone
  have hjump : M.step body ⟨k + 4, locals, M.null :: rest⟩ =
      some ⟨k + 8, locals, M.null :: rest⟩ := by
    have hstep := step_of_codeAt h (j := 4) rfl (⟨locals, M.null :: rest⟩ : M.State)
    rw [hstep]
    simp [perform, continueAt, htarget]
  have hend : M.step body ⟨k + 8, locals, M.null :: rest⟩ =
      some ⟨k + 9, locals, M.null :: rest⟩ :=
    step_of_codeAt h (j := 8) rfl _
  have h2 : M.Reaches body k (k + 9) _ _ := Reaches.of_step (by simp) (by simp) hpop
  have h3 : M.Reaches body k (k + 9) _ _ := Reaches.of_step (by simp) (by simp) hload
  have h4 : M.Reaches body k (k + 9) _ _ := Reaches.of_step (by simp) (by simp) hjump
  have h8 : M.Reaches body k (k + 9) _ _ := Reaches.of_step (by simp) (by simp) hend
  exact ((h2.trans h3).trans h4).trans h8

lemma objectConversion_object
    (h : CodeAt body k (Scope.objectConversion nonNull done getType convert)) :
    M.Performs body (k + 5) (k + 9)
      (M.effects [
        { opcode := .dup },
        { opcode := .callvirt, operand := .method getType },
        { opcode := .call, operand := .method convert }]) := by
  have hat := @CodeAt.right body ((Scope.objectConversion nonNull done getType convert).take 5)
    ((Scope.objectConversion nonNull done getType convert).drop 5) k h
  exact (performs_effects (M := M) hat (by simp [Scope.objectConversion, Opcode.isBranch,
    Opcode.operandKind, Opcode.endsFlow]) :)

lemma performs_convertObject
    (h : CodeAt body k (Scope.objectConversion nonNull done getType convert))
    (hnonNull : (boundLabels body).count nonNull = 1)
    (hdone : (boundLabels body).count done = 1) :
    M.Performs body k (k + 9) (M.convertObject getType convert) := by
  have hobject := objectConversion_object (M := M) h
  refine ⟨Nat.le_add_right k 9, ?_, ?_⟩
  · rintro ⟨locals, stack⟩ st' haction
    cases stack with
    | nil => cases haction
    | cons v rest =>
      have htest := objectConversion_test h hnonNull locals v rest
      cases hnull : M.isNull v with
      | true =>
        simp only [convertObject, hnull, if_true, Option.some.injEq] at haction
        subst haction
        rw [hnull] at htest
        exact htest.trans (objectConversion_null h hdone locals v rest)
      | false =>
        simp only [convertObject, hnull] at haction
        rw [hnull] at htest
        have hrun := hobject.arrives _ _ haction
        exact htest.trans (hrun.mono (Nat.le_add_right k 5) (Nat.le_refl _))
  · rintro ⟨locals, stack⟩ haction
    cases stack with
    | nil =>
      refine ⟨_, Relation.ReflTransGen.refl, ⟨Nat.le_refl k, Nat.lt_add_of_pos_right (by simp)⟩, ?_⟩
      exact step_of_codeAt h List.getElem?_cons_zero _
    | cons v rest =>
      have htest := objectConversion_test h hnonNull locals v rest
      cases hnull : M.isNull v with
      | true =>
        simp only [convertObject, hnull, if_true] at haction
        cases haction
      | false =>
        simp only [convertObject, hnull] at haction
        rw [hnull] at htest
        obtain ⟨c, hrun, hinside, hstop⟩ := hobject.stops _ haction
        refine ⟨c, htest.trans (hrun.mono (Nat.le_add_right k 5) (Nat.le_refl _)), ?_, hstop⟩
        omega

end ObjectConversion

end Machine

/-! ## Expressions -/

lemma Operand.not_isBranch_of_accepts {op : Opcode} {o : Operand}
    (haccepts : op.operandKind.accepts o = true) (htarget : o.isTarget = false) :
    op.isBranch = false := by
  unfold Opcode.isBranch
  cases hkind : op.operandKind with
  | branchTarget =>
    rw [hkind] at haccepts
    cases o <;> simp_all [OperandKind.accepts, Operand.isTarget]
  | jumpTable =>
    rw [hkind] at haccepts
    cases o <;> simp_all [OperandKind.accepts, Operand.isTarget]
  | _ => rfl

namespace Scope

variable {scope : Scope σ} {node : SyntaxNode}

lemma resolveOperand_eq_locate {o o' : Operand} (h : scope.resolveOperand node o = .ok o')
    (htarget : o.isTarget = false) : o' = scope.locate o := by
  cases o with
  | var id =>
    obtain ⟨slot, hslot, heq⟩ := except_bind_eq_ok.mp h
    cases heq
    simp only [Scope.locate, slot_eq_ok.mp hslot]
  | block _ => cases htarget
  | blockTable _ => cases htarget
  | _ =>
    cases h
    rfl

lemma resolve_eq_located {i j : Instruction} (h : scope.resolve node i = .ok j)
    (htarget : i.operand.isTarget = false) :
    j = scope.located i ∧ i.opcode.isBranch = false := by
  obtain ⟨hcheck, operand, hoperand, rfl⟩ := resolve_eq_ok.mp h
  obtain ⟨haccepts, -⟩ := Instruction.checkOperand_eq_ok.mp hcheck
  rw [resolveOperand_eq_locate hoperand htarget]
  exact ⟨rfl, Operand.not_isBranch_of_accepts haccepts htarget⟩

lemma resolveTemplate_eq_located {template resolved : List Instruction}
    (h : scope.resolveTemplate node template = .ok resolved)
    (htemplate : ∀ i ∈ template, i.operand.isTarget = false ∧ i.opcode.endsFlow = false) :
    resolved = template.map scope.located ∧
      ∀ j ∈ resolved, j.opcode.isBranch = false ∧ j.opcode.endsFlow = false := by
  have hall := (except_mapM_eq_ok _ _ _).mp h
  clear h
  induction hall with
  | nil => simp
  | cons hhead _ ih =>
    rw [List.forall_mem_cons] at htemplate
    obtain ⟨rfl, hbranch⟩ := resolve_eq_located hhead htemplate.1.1
    obtain ⟨rfl, hpass⟩ := ih htemplate.2
    rw [List.map_cons, List.forall_mem_cons]
    exact ⟨rfl, ⟨hbranch, htemplate.1.2⟩, hpass⟩

lemma implements_objectCode (M : Machine) (t : CodeState σ) :
    M.Implements (scope.objectCode t) (M.convertObject
      (scope.imported .objectGetType (scope.afterImport .convertToVmValue t.services))
      (scope.imported .convertToVmValue t.services)) := by
  intro body k hat honce
  apply Machine.performs_convertObject hat
  · apply honce
    simp [Scope.objectCode, Scope.objectConversion, boundLabels]
  · apply honce
    simp [Scope.objectCode, Scope.objectConversion, boundLabels]

end Scope

/-- An expression without flags whose template control only passes through. -/
def Expr.Passes (e : Expr) : Prop :=
  e.flags = none ∧ ∀ i ∈ e.template, i.operand.isTarget = false ∧ i.opcode.endsFlow = false

lemma Scope.exprCode_meaning (scope : Scope σ) (M : Machine) :
    (∀ e s code s', scope.exprCode e s = .ok code s' → (∀ x ∈ e.parts, x.Passes) →
      ∃ action, e.meaning M scope s.services = (action, s'.services) ∧
        M.Implements code action) ∧
    ∀ es s codes s', scope.exprCodes es s = .ok codes s' → (∀ x ∈ Expr.partsOfAll es, x.Passes) →
      ∃ action, Expr.meanings M scope es s.services = (action, s'.services) ∧
        M.Implements codes.flatten action := by
  apply scope.exprCode_induction
    (fun e s code s' => (∀ x ∈ e.parts, x.Passes) →
      ∃ action, e.meaning M scope s.services = (action, s'.services) ∧
        M.Implements code action)
    (fun es s code s' => (∀ x ∈ Expr.partsOfAll es, x.Passes) →
      ∃ action, Expr.meanings M scope es s.services = (action, s'.services) ∧
        M.Implements code action)
  case var =>
    intro id type slot s hslot _
    refine ⟨M.effect .ldloc (.slot slot), ?_, ?_⟩
    · simp only [Expr.meaning, hslot]
    · intro body k hat _
      exact Machine.Performs.passes hat List.getElem?_cons_zero rfl rfl
  case object =>
    intro value target type s code t ih hobject _ hparts
    obtain ⟨action, hmeaning, himplements⟩ := ih (fun x hx => hparts x (List.mem_cons_of_mem _ hx))
    refine ⟨_, ?_, himplements.append (implements_objectCode M t)⟩
    simp only [Expr.meaning, hmeaning, hobject, if_true]
    rfl
  case typed =>
    intro value target type s code t name ih hobject hname hparts
    obtain ⟨action, hmeaning, himplements⟩ := ih (fun x hx => hparts x (List.mem_cons_of_mem _ hx))
    have hconversion :
        M.Implements (scope.typedCode name t) (M.effects (scope.typedCode name t)) := by
      intro body k hat _
      apply Machine.performs_effects hat
      simp [Scope.typedCode, Scope.typedConversion, Opcode.isBranch, Opcode.operandKind,
        Opcode.endsFlow]
    refine ⟨_, ?_, himplements.append hconversion⟩
    simp only [Expr.meaning, hmeaning, hobject, hname]
    rfl
  case plain =>
    intro template arguments type node s code t resolved ih hresolved _ hparts
    obtain ⟨action, hmeaning, himplements⟩ := ih (fun x hx => hparts x (List.mem_cons_of_mem _ hx))
    have hself := hparts _ (Expr.self_mem_parts _)
    obtain ⟨rfl, hpass⟩ := resolveTemplate_eq_located hresolved hself.2
    refine ⟨action >=> M.effects (template.map scope.located), ?_, ?_⟩
    · simp only [Expr.meaning, hmeaning]
    · exact himplements.append fun body k hat _ => Machine.performs_effects hat hpass
  case unary =>
    intro template argument update type node s code t resolved _ _ result services _ hparts
    exact absurd (hparts _ (Expr.self_mem_parts _)).1 (Option.some_ne_none update)
  case binary =>
    intro template left right update type node s code t code' u resolved _ _ _ result services _
      hparts
    exact absurd (hparts _ (Expr.self_mem_parts _)).1 (Option.some_ne_none update)
  case nil =>
    intro s _
    exact ⟨some, rfl, fun body k _ _ => Machine.Performs.nil k⟩
  case cons =>
    intro e rest s code t codes u ihe ihrest hparts
    rw [Expr.partsOfAll_cons] at hparts
    obtain ⟨first, hfirst, himplements⟩ := ihe (fun x hx => hparts x (List.mem_append_left _ hx))
    obtain ⟨others, hothers, hrest⟩ := ihrest (fun x hx => hparts x (List.mem_append_right _ hx))
    refine ⟨first >=> others, ?_, himplements.append hrest⟩
    simp only [Expr.meanings, hfirst, hothers]

/-- Wherever the code of an expression stands in a body that binds each of its labels once, running
it does exactly what the expression means. -/
theorem exprCode_performs_meaning {scope : Scope σ} {e : Expr} {s s' : CodeState σ}
    {code : List Instruction} (h : scope.exprCode e s = .ok code s')
    (hflags : ∀ x ∈ e.parts, x.flags = none)
    (htemplates : ∀ x ∈ e.parts, ∀ i ∈ x.template,
      i.operand.isTarget = false ∧ i.opcode.endsFlow = false)
    (M : Machine) {body : List Instruction} {k : Nat} (hat : CodeAt body k code)
    (honce : ∀ l ∈ boundLabels code, (boundLabels body).count l = 1) :
    (e.meaning M scope s.services).2 = s'.services ∧
      M.Performs body k (k + code.length) (e.meaning M scope s.services).1 := by
  have hpasses : ∀ x ∈ e.parts, x.Passes := fun x hx => ⟨hflags x hx, htemplates x hx⟩
  obtain ⟨action, hmeaning, himplements⟩ := (scope.exprCode_meaning M).1 e s code s' h hpasses
  rw [hmeaning]
  exact ⟨rfl, himplements body k hat honce⟩

/-- A machine whose values are numbers or null. A type stands for a number as well. -/
def adder : Machine where
  Value := Option Nat
  Locals := List (Option Nat)
  null := none
  isNull := Option.isNone
  isNull_null := rfl
  execute := fun op operand st =>
    match op, operand, st.stack with
    | .ldloc, .slot n, stack => some { st with stack := st.locals.getD n none :: stack }
    | .callvirt, _, v :: rest => some { st with stack := v.map (10 * ·) :: rest }
    | .call, _, u :: v :: rest => some { st with stack := some (u.getD 0 + v.getD 0) :: rest }
    | .add, _, u :: v :: rest => some { st with stack := some (u.getD 0 + v.getD 0) :: rest }
    | _, _, _ => none
  transfer := fun _ _ _ => none

/-- Two variables that hold objects. -/
def twoObjects : Scope Unit where
  services := plainServices
  headers := ⟨0, 0, by decide⟩
  locals :=
    match LocalTable.declareAll [.unnamed ⟨0⟩ .object, .unnamed ⟨1⟩ .object] .empty with
    | .ok _ table => table
    | .error _ table => table
  checkNet := true
  returnsValue := false

/-- The sum of two variables, each of them unboxed. -/
def unboxedSum : Expr :=
  .instruction [{ opcode := .add }]
    [.unbox (.var ⟨0⟩ .object) .object .object, .unbox (.var ⟨1⟩ .object) .object .object] none
    .object

/-- The first variable is null and the second one holds 5, so that both ways through the code of an
unboxing are taken. -/
theorem unboxedSum_performs_meaning : ∃ code s',
    twoObjects.exprCode unboxedSum ⟨⟨0⟩, ()⟩ = .ok code s' ∧ code.length = 21 ∧
      adder.Reaches ([{ opcode := .nop }] ++ code ++ [{ opcode := .ret }]) 1 22
        ⟨1, [none, some 5], [some 3]⟩ ⟨22, [none, some 5], [some 55, some 3]⟩ := by
  obtain ⟨code, s', hcode, hlength, honce⟩ : ∃ code s',
      twoObjects.exprCode unboxedSum ⟨⟨0⟩, ()⟩ = .ok code s' ∧ code.length = 21 ∧
        ∀ l ∈ boundLabels code, (boundLabels
          ([{ opcode := .nop }] ++ code ++ [{ opcode := .ret }])).count l = 1 :=
    ⟨_, _, rfl, rfl, by decide⟩
  have himplements := exprCode_performs_meaning hcode (by decide) (by decide) adder
    (CodeAt.of_append [{ opcode := .nop }] code [{ opcode := .ret }]) honce
  have hrun := himplements.2.arrives ⟨[none, some 5], [some 3]⟩
    ⟨[none, some 5], [some 55, some 3]⟩ rfl
  rw [hlength] at hrun
  exact ⟨code, s', hcode, hlength, hrun⟩

end CilBackend
