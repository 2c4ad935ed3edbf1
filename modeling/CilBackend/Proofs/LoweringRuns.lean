import CilBackend.Compile
import Mathlib.Data.List.Forall2
import Mathlib.Tactic.Common

/-!
# Successful runs of lowering

What a successful run of each lowering function has done, said once for all later proofs. The
main result is an induction principle over the successful runs on an expression: it has one case
for each way in which an expression gets its code.
-/

namespace CilBackend

variable {σ : Type}

lemma run_bind_eq_ok {ε τ α β : Type} {x : EStateM ε τ α} {f : α → EStateM ε τ β} {s s' : τ}
    {b : β} : (x >>= f) s = .ok b s' ↔ ∃ a t, x s = .ok a t ∧ f a t = .ok b s' := by
  change EStateM.bind x f s = _ ↔ _
  unfold EStateM.bind
  cases x s with
  | ok a t => simp
  | error e t => simp

lemma run_bind_eq_error {ε τ α β : Type} {x : EStateM ε τ α} {f : α → EStateM ε τ β} {s s' : τ}
    {e : ε} : (x >>= f) s = .error e s' ↔
      x s = .error e s' ∨ ∃ a t, x s = .ok a t ∧ f a t = .error e s' := by
  change EStateM.bind x f s = _ ↔ _
  unfold EStateM.bind
  cases x s with
  | ok a t => simp
  | error e t => simp

lemma run_pure_eq_ok {ε τ α : Type} {a b : α} {s s' : τ} :
    (pure a : EStateM ε τ α) s = .ok b s' ↔ a = b ∧ s = s' := by
  change EStateM.Result.ok a s = _ ↔ _
  simp

lemma except_bind_eq_ok {ε α β : Type} {x : Except ε α} {f : α → Except ε β} {b : β} :
    (x >>= f) = .ok b ↔ ∃ a, x = .ok a ∧ f a = .ok b := by
  cases x with
  | ok a => simp [bind, Except.bind]
  | error e => simp [bind, Except.bind]

lemma forall₂_mem_left {α β : Type} {R : α → β → Prop} {xs : List α} {ys : List β}
    (h : List.Forall₂ R xs ys) {x : α} (hx : x ∈ xs) : ∃ y ∈ ys, R x y := by
  induction h with
  | nil => cases hx
  | cons hhead _ ih =>
    rcases List.mem_cons.mp hx with rfl | hmem
    · exact ⟨_, List.mem_cons_self, hhead⟩
    · obtain ⟨y, hy, hxy⟩ := ih hmem
      exact ⟨y, List.mem_cons_of_mem _ hy, hxy⟩

lemma forall₂_mem_right {α β : Type} {R : α → β → Prop} {xs : List α} {ys : List β}
    (h : List.Forall₂ R xs ys) {y : β} (hy : y ∈ ys) : ∃ x ∈ xs, R x y :=
  forall₂_mem_left (R := flip R) h.flip hy

lemma except_mapM_eq_ok {ε α β : Type} (f : α → Except ε β) (xs : List α) (ys : List β) :
    xs.mapM f = .ok ys ↔ List.Forall₂ (fun x y => f x = .ok y) xs ys := by
  induction xs generalizing ys with
  | nil =>
    cases ys with
    | nil => simp [pure, Except.pure]
    | cons y ys => simp [pure, Except.pure]
  | cons x xs ih =>
    rw [List.mapM_cons, except_bind_eq_ok]
    constructor
    · rintro ⟨y, hy, hrest⟩
      obtain ⟨rest, hxs, heq⟩ := except_bind_eq_ok.mp hrest
      cases heq
      exact List.Forall₂.cons hy ((ih rest).mp hxs)
    · intro h
      cases h with
      | cons hy hrest =>
        exact ⟨_, hy, except_bind_eq_ok.mpr ⟨_, (ih _).mpr hrest, rfl⟩⟩

lemma except_mapM_getElem? {ε α β : Type} {f : α → Except ε β} {xs : List α} {ys : List β}
    (h : xs.mapM f = .ok ys) {k : Nat} {y : β} (hy : ys[k]? = some y) :
    ∃ x, xs[k]? = some x ∧ f x = .ok y := by
  have hall := (except_mapM_eq_ok f xs ys).mp h
  clear h
  induction hall generalizing k with
  | nil => simp at hy
  | cons hhead _ ih =>
    cases k with
    | zero =>
      rw [List.getElem?_cons_zero, Option.some.injEq] at hy
      exact ⟨_, List.getElem?_cons_zero, hy ▸ hhead⟩
    | succ k =>
      rw [List.getElem?_cons_succ] at hy ⊢
      exact ih hy

lemma except_mapM_mem {ε α β : Type} {f : α → Except ε β} {xs : List α} {ys : List β}
    (h : xs.mapM f = .ok ys) {y : β} (hy : y ∈ ys) : ∃ x ∈ xs, f x = .ok y := by
  obtain ⟨k, hk⟩ := List.mem_iff_getElem?.mp hy
  obtain ⟨x, hx, hfx⟩ := except_mapM_getElem? h hk
  exact ⟨x, List.mem_of_getElem? hx, hfx⟩

lemma exists_mapM_iff {ε α β : Type} {f : α → Except ε β} {xs : List α} :
    (∃ ys, xs.mapM f = .ok ys) ↔ ∀ x ∈ xs, ∃ y, f x = .ok y := by
  simp only [except_mapM_eq_ok]
  induction xs with
  | nil => simp
  | cons x rest ih =>
    rw [List.forall_mem_cons, ← ih]
    constructor
    · rintro ⟨_, hall⟩
      cases hall with
      | cons hy hrest => exact ⟨⟨_, hy⟩, _, hrest⟩
    · rintro ⟨⟨y, hy⟩, ys, hrest⟩
      exact ⟨y :: ys, List.Forall₂.cons hy hrest⟩

lemma ofExcept_eq_ok {α : Type} {x : Except Failure α} {a : α} {s s' : CodeState σ} :
    CodeM.ofExcept x s = .ok a s' ↔ x = .ok a ∧ s = s' := by
  cases x with
  | ok b => simp [CodeM.ofExcept, run_pure_eq_ok]
  | error f =>
    change EStateM.Result.error f s = _ ↔ _
    simp

/-- Services that import every method as it is. -/
def plainServices : Services Unit where
  importMethod := fun m s => (m, s)
  expandFlags := fun _ s => ([], s)
  flagMask := fun _ => 0
  describe := fun _ => ""

/-! ## Parts of expressions -/

namespace Expr

/-- The flags that the expression itself updates. -/
def flags : Expr → Option FlagUpdate
  | instruction _ _ flags _ => flags
  | unbox _ _ _ => none
  | var _ _ => none

/-- The template that the expression itself runs. -/
def template : Expr → List Instruction
  | instruction template _ _ _ => template
  | unbox _ _ _ => []
  | var _ _ => []

mutual

/-- The expressions inside an expression. -/
def inner : Expr → List Expr
  | instruction _ arguments _ _ => partsOfAll arguments
  | unbox value _ _ => value :: inner value
  | var _ _ => []

/-- The expressions of a list and those inside them. -/
def partsOfAll : List Expr → List Expr
  | [] => []
  | e :: rest => (e :: inner e) ++ partsOfAll rest

end

/-- The expression itself and the expressions inside it. -/
def parts (e : Expr) : List Expr :=
  e :: e.inner

lemma self_mem_parts (e : Expr) : e ∈ e.parts :=
  List.mem_cons_self

lemma partsOfAll_cons (e : Expr) (rest : List Expr) :
    partsOfAll (e :: rest) = e.parts ++ partsOfAll rest := by
  rw [partsOfAll, parts]

end Expr

/-- The expression that a statement evaluates. -/
def Statement.value : Statement → Expr
  | expression value => value
  | assignment _ value => value

/-- All expressions in a block. -/
def Block.parts (b : Block) : List Expr :=
  b.flatMap fun s => s.value.parts

/-- All expressions in a routine. -/
def Routine.parts (r : Routine) : List Expr :=
  r.graph.blocks.flatMap Block.parts

lemma Routine.mem_parts_of_block {r : Routine} {n : BlockId} {b : Block} {e : Expr}
    (hb : r.graph.blocks[n]? = some b) (he : e ∈ Block.parts b) : e ∈ r.parts :=
  List.mem_flatMap.mpr ⟨b, List.mem_of_getElem? hb, he⟩

/-! ## Templates -/

/-- An operand passes its check when it has the shape that the opcode asks for and names only blocks
that are there. -/
lemma Instruction.checkOperand_eq_ok {i : Instruction} {count : Nat} :
    i.checkOperand count = .ok () ↔
      i.opcode.operandKind.accepts i.operand = true ∧ ∀ m ∈ i.operand.blocks, m < count := by
  unfold Instruction.checkOperand
  by_cases haccepts : i.opcode.operandKind.accepts i.operand = true
  · rw [if_pos haccepts]
    cases hfind : i.operand.blocks.find? fun target => count ≤ target with
    | some target =>
      have hmem := List.mem_of_find?_eq_some hfind
      have hlarge : count ≤ target := by simpa using List.find?_some hfind
      constructor
      · intro herror
        cases herror
      · rintro ⟨-, hsmall⟩
        exact absurd (hsmall target hmem) (Nat.not_lt.mpr hlarge)
    | none =>
      refine ⟨fun _ => ⟨haccepts, ?_⟩, fun _ => rfl⟩
      intro m hm
      simpa using List.find?_eq_none.mp hfind m hm
  · rw [if_neg haccepts]
    constructor
    · intro herror
      cases herror
    · rintro ⟨haccepts', -⟩
      exact absurd haccepts' haccepts

namespace Scope

variable {scope : Scope σ} {node : SyntaxNode}

lemma slot_eq_ok {id : VarId} {slot : Nat} :
    scope.slot node id = .ok slot ↔ scope.locals.slot? id = some slot := by
  unfold Scope.slot
  cases scope.locals.slot? id with
  | none => simp
  | some found => simp

lemma header_eq_ok {block : BlockId} {label : Label} :
    scope.header block = .ok label ↔ scope.headers.label? block = some label := by
  unfold Scope.header
  cases scope.headers.label? block with
  | none => simp
  | some found => simp

lemma resolve_eq_ok {i j : Instruction} :
    scope.resolve node i = .ok j ↔ i.checkOperand scope.headers.count = .ok () ∧
      ∃ operand, scope.resolveOperand node i.operand = .ok operand ∧ j = { i with operand } := by
  unfold Scope.resolve
  cases hcheck : i.checkOperand scope.headers.count with
  | error cause => simp
  | ok u =>
    simp only [except_bind_eq_ok, true_and]
    constructor
    · rintro ⟨operand, hoperand, heq⟩
      cases heq
      exact ⟨operand, hoperand, rfl⟩
    · rintro ⟨operand, hoperand, rfl⟩
      exact ⟨operand, hoperand, rfl⟩

/-- A resolved operand sends control to the labels it had before and to the headers of the blocks
that it named. -/
lemma resolveOperand_labels {o o' : Operand} (h : scope.resolveOperand node o = .ok o') {l : Label}
    (hl : l ∈ o'.labels) :
    l ∈ o.labels ∨ ∃ m ∈ o.blocks, scope.headers.label? m = some l := by
  cases o with
  | block target =>
    obtain ⟨label, hlabel, heq⟩ := except_bind_eq_ok.mp h
    cases heq
    rw [Operand.labels, List.mem_singleton] at hl
    subst hl
    exact Or.inr ⟨target, List.mem_singleton.mpr rfl, header_eq_ok.mp hlabel⟩
  | blockTable targets =>
    obtain ⟨labels, hlabels, heq⟩ := except_bind_eq_ok.mp h
    cases heq
    obtain ⟨m, hm, hml⟩ := except_mapM_mem hlabels hl
    exact Or.inr ⟨m, hm, header_eq_ok.mp hml⟩
  | var id =>
    obtain ⟨slot, hslot, heq⟩ := except_bind_eq_ok.mp h
    cases heq
    simp [Operand.labels] at hl
  | _ =>
    cases h
    exact Or.inl hl

/-! ## Expressions -/

/-- The method that the importer hands back for a helper. -/
def imported (scope : Scope σ) (helper : HelperMethod) (state : σ) : Method :=
  (scope.services.importMethod helper.reference state).1

/-- The state of the services after a helper was imported. -/
def afterImport (scope : Scope σ) (helper : HelperMethod) (state : σ) : σ :=
  (scope.services.importMethod helper.reference state).2

/-- The code behind a value that is unboxed to an object in state `t`. -/
def objectCode (scope : Scope σ) (t : CodeState σ) : List Instruction :=
  objectConversion ⟨t.supply.next⟩ ⟨t.supply.next + 1⟩
    (scope.imported .objectGetType (scope.afterImport .convertToVmValue t.services))
    (scope.imported .convertToVmValue t.services)

/-- The state after unboxing a value to an object. -/
def afterObject (scope : Scope σ) (t : CodeState σ) : CodeState σ :=
  ⟨⟨t.supply.next + 2⟩,
    scope.afterImport .objectGetType (scope.afterImport .convertToVmValue t.services)⟩

/-- The code behind a value that is unboxed to a named type in state `t`. -/
def typedCode (scope : Scope σ) (type : TypeName) (t : CodeState σ) : List Instruction :=
  typedConversion type
    (scope.imported .typeGetTypeFromHandle (scope.afterImport .convertToVmValue t.services))
    (scope.imported .convertToVmValue t.services)

/-- The state after unboxing a value to a named type. -/
def afterTyped (scope : Scope σ) (t : CodeState σ) : CodeState σ :=
  ⟨t.supply,
    scope.afterImport .typeGetTypeFromHandle (scope.afterImport .convertToVmValue t.services)⟩

lemma freshLabel_eq (next : UInt32) (state : σ) :
    CodeM.freshLabel ⟨⟨next⟩, state⟩ =
      if next.toNat + 1 < UInt32.size then .ok ⟨next⟩ ⟨⟨next + 1⟩, state⟩
      else .error .overflow ⟨⟨next⟩, state⟩ := by
  by_cases hfits : next.toNat + 1 < UInt32.size
  · rw [if_pos hfits]
    simp only [CodeM.freshLabel, LabelSupply.fresh, addChecked_of_lt hfits]
    rfl
  · rw [if_neg hfits]
    simp only [CodeM.freshLabel, LabelSupply.fresh,
      addChecked_eq_none.mpr (Nat.not_lt.mp hfits)]
    rfl

lemma freshLabel_eq_ok {next : UInt32} {state : σ} {t : CodeState σ} {l : Label} :
    CodeM.freshLabel ⟨⟨next⟩, state⟩ = .ok l t ↔
      next.toNat + 1 < UInt32.size ∧ l = ⟨next⟩ ∧ t = ⟨⟨next + 1⟩, state⟩ := by
  rw [freshLabel_eq]
  by_cases hfits : next.toNat + 1 < UInt32.size
  · simp [hfits, eq_comm]
  · simp [hfits]

lemma toNat_add_one {next : UInt32} (h : next.toNat + 1 < UInt32.size) :
    (next + 1).toNat = next.toNat + 1 :=
  toNat_add_ofNat h

/-- An object is converted when there are labels for the two places inside the conversion. -/
lemma conversion_eq_ok {target : Signature} {t t' : CodeState σ} {code : List Instruction} :
    scope.conversion node target t = .ok code t' ↔
      (target.isObject = true ∧ t.supply.next.toNat + 2 < UInt32.size ∧
        code = scope.objectCode t ∧ t' = scope.afterObject t) ∨
      (target.isObject = false ∧ ∃ type, target.typeName? = some type ∧
        code = scope.typedCode type t ∧ t' = scope.afterTyped t) := by
  obtain ⟨⟨next⟩, state⟩ := t
  unfold Scope.conversion
  rw [run_bind_eq_ok]
  have himport : scope.importHelper .convertToVmValue ⟨⟨next⟩, state⟩ =
      .ok (scope.imported .convertToVmValue state)
        ⟨⟨next⟩, scope.afterImport .convertToVmValue state⟩ := rfl
  rw [himport]
  simp only [EStateM.Result.ok.injEq]
  cases hobject : target.isObject with
  | true =>
    have htwo : next + 1 + 1 = next + 2 := UInt32.add_assoc next 1 1
    constructor
    · rintro ⟨convert, u, ⟨rfl, rfl⟩, h⟩
      rw [if_pos rfl] at h
      obtain ⟨nonNull, u, hfirst, h⟩ := run_bind_eq_ok.mp h
      obtain ⟨hone, rfl, rfl⟩ := freshLabel_eq_ok.mp hfirst
      obtain ⟨done, v, hsecond, h⟩ := run_bind_eq_ok.mp h
      obtain ⟨hfits, rfl, rfl⟩ := freshLabel_eq_ok.mp hsecond
      rw [toNat_add_one hone] at hfits
      rw [htwo] at h
      cases h
      exact Or.inl ⟨rfl, hfits, rfl, rfl⟩
    · rintro (⟨-, hfits, rfl, rfl⟩ | ⟨hfalse, -⟩)
      · have hone : next.toNat + 1 < UInt32.size := Nat.lt_of_succ_lt hfits
        have hsecond : (next + 1).toNat + 1 < UInt32.size := (toNat_add_one hone).symm ▸ hfits
        refine ⟨_, _, ⟨rfl, rfl⟩, ?_⟩
        rw [if_pos rfl, run_bind_eq_ok]
        refine ⟨_, _, freshLabel_eq_ok.mpr ⟨hone, rfl, rfl⟩, run_bind_eq_ok.mpr ?_⟩
        refine ⟨_, _, freshLabel_eq_ok.mpr ⟨hsecond, rfl, rfl⟩, ?_⟩
        rw [htwo]
        rfl
      · cases hfalse
  | false =>
    cases htype : target.typeName? with
    | none =>
      constructor
      · rintro ⟨convert, u, ⟨rfl, rfl⟩, h⟩
        cases h
      · rintro (⟨hfalse, -⟩ | ⟨-, type, hnone, -⟩)
        · cases hfalse
        · cases hnone
    | some type =>
      constructor
      · rintro ⟨convert, u, ⟨rfl, rfl⟩, h⟩
        cases h
        exact Or.inr ⟨rfl, type, rfl, rfl, rfl⟩
      · rintro (⟨hfalse, -⟩ | ⟨-, type, hsome, rfl, rfl⟩)
        · cases hfalse
        · cases hsome
          exact ⟨_, _, ⟨rfl, rfl⟩, rfl⟩

/-- Induction over the successful runs on expressions and on lists of expressions. `P` speaks of
an expression, the state before, its code and the state after; `Q` does so of a list and the
joined code of its members. -/
theorem exprCode_induction (scope : Scope σ)
    (P : Expr → CodeState σ → List Instruction → CodeState σ → Prop)
    (Q : List Expr → CodeState σ → List Instruction → CodeState σ → Prop)
    (var : ∀ id type slot s, scope.locals.slot? id = some slot →
      P (.var id type) s [{ opcode := .ldloc, operand := .slot slot }] s)
    (object : ∀ value target type s code t, P value s code t → target.isObject = true →
      t.supply.next.toNat + 2 < UInt32.size →
      P (.unbox value target type) s (code ++ scope.objectCode t) (scope.afterObject t))
    (typed : ∀ value target type s code t name, P value s code t → target.isObject = false →
      target.typeName? = some name →
      P (.unbox value target type) s (code ++ scope.typedCode name t) (scope.afterTyped t))
    (plain : ∀ template arguments type node s code t resolved, Q arguments s code t →
      scope.resolveTemplate node template = .ok resolved →
      scope.checkTemplate node (Expr.netEffects arguments)
        (Expr.instruction template arguments none type).netEffect resolved = .ok () →
      P (.instruction template arguments none type) s (code ++ resolved) t)
    (unary : ∀ template argument update type node s code t resolved, P argument s code t →
      scope.resolveTemplate node template = .ok resolved →
      ∀ result services, scope.services.expandFlags (.unary code resolved
        (scope.services.flagMask update.flags) (!type.isVoid)) t.services = (result, services) →
      P (.instruction template [argument] (some update) type) s result ⟨t.supply, services⟩)
    (binary : ∀ template left right update type node s code t code' u resolved, P left s code t →
      P right t code' u → scope.resolveTemplate node template = .ok resolved →
      ∀ result services, scope.services.expandFlags (.binary code code' resolved
        (scope.services.flagMask update.flags) update.inverted (!type.isVoid)) u.services =
          (result, services) →
      P (.instruction template [left, right] (some update) type) s result ⟨u.supply, services⟩)
    (nil : ∀ s, Q [] s [] s)
    (cons : ∀ e rest s code t codes u, P e s code t → Q rest t codes u →
      Q (e :: rest) s (code ++ codes) u) :
    (∀ e s code s', scope.exprCode e s = .ok code s' → P e s code s') ∧
      ∀ es s codes s', scope.exprCodes es s = .ok codes s' → Q es s codes.flatten s' := by
  apply Scope.exprCode.mutual_induct
    (fun e => ∀ s code s', scope.exprCode e s = .ok code s' → P e s code s')
    (fun es => ∀ s codes s', scope.exprCodes es s = .ok codes s' → Q es s codes.flatten s')
  · intro id type s code s' h
    rw [Scope.exprCode, run_bind_eq_ok] at h
    obtain ⟨slot, t, hrun, hcode⟩ := h
    obtain ⟨hslot, rfl⟩ := ofExcept_eq_ok.mp hrun
    obtain ⟨rfl, rfl⟩ := run_pure_eq_ok.mp hcode
    exact var id type slot s (slot_eq_ok.mp hslot)
  · intro value target type ih s code s' h
    rw [Scope.exprCode, run_bind_eq_ok] at h
    obtain ⟨valueCode, t, hvalue, h⟩ := h
    obtain ⟨conversion, u, hconversion, hcode⟩ := run_bind_eq_ok.mp h
    obtain ⟨rfl, rfl⟩ := run_pure_eq_ok.mp hcode
    obtain ⟨hobject, hfits, rfl, rfl⟩ | ⟨hobject, name, hname, rfl, rfl⟩ :=
      conversion_eq_ok.mp hconversion
    · exact object value target type s valueCode t (ih s valueCode t hvalue) hobject hfits
    · exact typed value target type s valueCode t name (ih s valueCode t hvalue) hobject hname
  · intro template arguments type ih s code s' h
    rw [Scope.exprCode, run_bind_eq_ok] at h
    obtain ⟨codes, t, hcodes, h⟩ := h
    obtain ⟨resolved, u, hrun, h⟩ := run_bind_eq_ok.mp h
    obtain ⟨hresolved, rfl⟩ := ofExcept_eq_ok.mp hrun
    obtain ⟨_, v, hrun, hcode⟩ := run_bind_eq_ok.mp h
    obtain ⟨hcheck, rfl⟩ := ofExcept_eq_ok.mp hrun
    obtain ⟨rfl, rfl⟩ := run_pure_eq_ok.mp hcode
    exact plain template arguments type _ s codes.flatten t resolved (ih s codes t hcodes)
      hresolved hcheck
  · intro template argument update type ih s code s' h
    rw [Scope.exprCode, run_bind_eq_ok] at h
    obtain ⟨resolved, t, hrun, h⟩ := h
    obtain ⟨hresolved, rfl⟩ := ofExcept_eq_ok.mp hrun
    obtain ⟨argumentCode, t, hargument, h⟩ := run_bind_eq_ok.mp h
    cases h
    exact unary template argument update type _ s argumentCode t resolved
      (ih s argumentCode t hargument) hresolved _ _ rfl
  · intro template left right update type ihl ihr s code s' h
    rw [Scope.exprCode, run_bind_eq_ok] at h
    obtain ⟨resolved, t, hrun, h⟩ := h
    obtain ⟨hresolved, rfl⟩ := ofExcept_eq_ok.mp hrun
    obtain ⟨leftCode, t, hleft, h⟩ := run_bind_eq_ok.mp h
    obtain ⟨rightCode, u, hright, h⟩ := run_bind_eq_ok.mp h
    cases h
    exact binary template left right update type _ s leftCode t rightCode u resolved
      (ihl s leftCode t hleft) (ihr t rightCode u hright) hresolved _ _ rfl
  · intro template arguments update type hone htwo s code s' h
    rw [Scope.exprCode, run_bind_eq_ok] at h
    · obtain ⟨resolved, t, -, h⟩ := h
      cases h
    · exact hone
    · exact htwo
  · intro s codes s' h
    rw [Scope.exprCodes] at h
    obtain ⟨rfl, rfl⟩ := run_pure_eq_ok.mp h
    exact nil s
  · intro e rest ihe ihrest s codes s' h
    rw [Scope.exprCodes, run_bind_eq_ok] at h
    obtain ⟨code, t, hcode, h⟩ := h
    obtain ⟨restCodes, u, hrest, h⟩ := run_bind_eq_ok.mp h
    obtain ⟨rfl, rfl⟩ := run_pure_eq_ok.mp h
    rw [List.flatten_cons]
    exact cons e rest s code t restCodes.flatten u (ihe s code t hcode)
      (ihrest t restCodes u hrest)

end Scope

end CilBackend
