import CilBackend.Proofs.ControlFlow
import CilBackend.Proofs.RelocatedRoutines
import CilBackend.Proofs.Resolution

/-!
# Where operands come from

Every instruction of a compiled routine comes from one place in the routine. The origins are listed
here in the order of the code, read off the routine without lowering it. Compiled code has one
instruction for each of them, and the operand of the instruction is what its origin names: a slot
where it names a variable, header labels where it names blocks, and neither of them anywhere else.
-/

namespace CilBackend

variable {σ : Type}

lemma forall₂_replicate {α β : Type} {R : α → β → Prop} {a : α} {ys : List β}
    (h : ∀ y ∈ ys, R a y) : List.Forall₂ R (List.replicate ys.length a) ys := by
  induction ys with
  | nil => exact List.Forall₂.nil
  | cons y rest ih =>
    rw [List.forall_mem_cons] at h
    exact List.Forall₂.cons h.1 (ih h.2)

lemma forall₂_imp_mem {α β : Type} {R S : α → β → Prop} {xs : List α} {ys : List β}
    (h : List.Forall₂ R xs ys) (himp : ∀ x, ∀ y ∈ ys, R x y → S x y) : List.Forall₂ S xs ys := by
  induction h with
  | nil => exact List.Forall₂.nil
  | cons hhead _ ih =>
    refine List.Forall₂.cons (himp _ _ List.mem_cons_self hhead) (ih ?_)
    intro x y hy
    exact himp x y (List.mem_cons_of_mem _ hy)

/-! ## Origins -/

/-- What an instruction of a compiled routine comes from: the start of a block, an instruction of a
template, a variable that is read or assigned, a step of a conversion, or an edge along which
control falls through to a block that does not follow. -/
inductive Origin where
  | header (block : BlockId)
  | template (i : Instruction)
  | load (id : VarId)
  | store (id : VarId)
  | conversion
  | jump (target : BlockId)

namespace Origin

/-- The blocks that are named at the origin, those of a jump table in their order. -/
def blocks : Origin → List BlockId
  | template i => i.operand.blocks
  | jump target => [target]
  | _ => []

/-- The variable that is named at the origin. -/
def varId? : Origin → Option VarId
  | template i => i.operand.varId?
  | load id => some id
  | store id => some id
  | _ => none

/-- The opcodes that an instruction with this origin can have. -/
def Runs : Origin → Opcode → Prop
  | header _, opcode => opcode = .nop
  | template i, opcode => opcode = i.opcode
  | load _, opcode => opcode = .ldloc
  | store _, opcode => opcode = .stloc
  | conversion, _ => True
  | jump _, opcode => opcode = .br ∨ opcode = .leave

end Origin

/-- The number of instructions that convert an unboxed value. -/
def Signature.conversionLength (target : Signature) : Nat :=
  if target.isObject then 9 else 3

mutual

/-- The origins of the code of an expression. Arguments come before the template. -/
def Expr.origins : Expr → List Origin
  | .var id _ => [.load id]
  | .unbox value target _ =>
    value.origins ++ List.replicate target.conversionLength .conversion
  | .instruction template arguments _ _ => Expr.originsOfAll arguments ++ template.map .template

def Expr.originsOfAll : List Expr → List Origin
  | [] => []
  | e :: rest => e.origins ++ Expr.originsOfAll rest

end

def Statement.origins : Statement → List Origin
  | .expression value => value.origins
  | .assignment target value => value.origins ++ [.store target]

/-- The origins of the code of a block that is placed before the block `next`. -/
def Routine.blockOrigins (r : Routine) (n : BlockId) (next : Option BlockId) : List Origin :=
  .header n :: ((r.graph.blocks.getD n []).flatMap Statement.origins ++
    ((r.graph.fallThroughs n).filter fun t => next ≠ some t).map .jump)

/-- The origins of the code of a routine whose blocks are placed in the given order. -/
def Routine.origins (r : Routine) : List BlockId → List Origin
  | [] => []
  | n :: rest => r.blockOrigins n rest.head? ++ r.origins rest

/-- The expression itself meets what `Routine.Relocatable` asks of all expressions. -/
def Expr.Relocatable (e : Expr) : Prop :=
  e.flags = none ∧ ∀ i ∈ e.template, i.label = none ∧ i.operand.isNumbered = false

/-! ## Resolved operands -/

/-- The operand is a block, a table of blocks or a variable. -/
def Operand.isSymbolic : Operand → Bool
  | .block _ => true
  | .blockTable _ => true
  | .var _ => true
  | _ => false

lemma Operand.labels_of_not_isNumbered {o : Operand} (h : o.isNumbered = false) :
    o.labels = [] := by
  cases o with
  | label target => cases h
  | labelTable targets => cases h
  | _ => rfl

lemma label?_eq_iff {headers : Headers} {m n : BlockId} {l l' : Label}
    (hm : headers.label? m = some l') (hn : headers.label? n = some l) : l' = l ↔ m = n := by
  constructor
  · rintro rfl
    exact label?_injective hm hn
  · rintro rfl
    exact Option.some.inj (hm.symm.trans hn)

/-- In a table of header labels, that of a block stands where the block stood. -/
lemma getElem?_label_iff {headers : Headers} {n : BlockId} {l : Label}
    (hl : headers.label? n = some l) {ms : List BlockId} {ls : List Label}
    (hall : List.Forall₂ (fun m l => headers.label? m = some l) ms ls) (k : Nat) :
    ls[k]? = some l ↔ ms[k]? = some n := by
  induction hall generalizing k with
  | nil => simp
  | cons hm _ ih =>
    cases k with
    | zero => simp [label?_eq_iff hm hl]
    | succ k => exact ih k

namespace Scope

variable {scope : Scope σ}

namespace Resolves

variable {o o' : Operand}

/-- An opcode takes a label wherever it takes a block, and a slot wherever it takes a variable. -/
lemma accepts_eq (h : scope.Resolves o o') (kind : OperandKind) :
    kind.accepts o' = kind.accepts o := by
  cases o with
  | block m =>
    obtain ⟨l, -, rfl⟩ := h
    cases kind <;> rfl
  | blockTable ms =>
    obtain ⟨ls, -, rfl⟩ := h
    cases kind <;> rfl
  | var id =>
    obtain ⟨slot, -, rfl⟩ := h
    cases kind <;> rfl
  | _ =>
    cases h
    rfl

lemma not_isSymbolic (h : scope.Resolves o o') : o'.isSymbolic = false := by
  cases o with
  | block m =>
    obtain ⟨l, -, rfl⟩ := h
    rfl
  | blockTable ms =>
    obtain ⟨ls, -, rfl⟩ := h
    rfl
  | var id =>
    obtain ⟨slot, -, rfl⟩ := h
    rfl
  | _ =>
    cases h
    rfl

lemma eq_of_not_isSymbolic (h : scope.Resolves o o') (ho : o.isSymbolic = false) : o' = o := by
  cases o with
  | block m => cases ho
  | blockTable ms => cases ho
  | var id => cases ho
  | _ => exact h

lemma exists_varId (h : scope.Resolves o o') (ho : o.isNumbered = false) {slot : Nat}
    (hslot : o' = .slot slot) :
    ∃ id, o.varId? = some id ∧ scope.locals.slot? id = some slot := by
  cases o with
  | block m =>
    obtain ⟨l, -, rfl⟩ := h
    cases hslot
  | blockTable ms =>
    obtain ⟨ls, -, rfl⟩ := h
    cases hslot
  | var id =>
    obtain ⟨found, hfound, rfl⟩ := h
    cases hslot
    exact ⟨id, rfl, hfound⟩
  | slot index => cases ho
  | _ =>
    cases h
    cases hslot

lemma exists_slot (h : scope.Resolves o o') {id : VarId} (hid : o.varId? = some id) :
    ∃ slot, o' = .slot slot := by
  cases o with
  | var id =>
    obtain ⟨slot, -, rfl⟩ := h
    exact ⟨slot, rfl⟩
  | _ => cases hid

/-- A header label stands where its block was named. -/
lemma label_iff (h : scope.Resolves o o') (ho : o.isNumbered = false) {n : BlockId} {l : Label}
    (hl : scope.headers.label? n = some l) (k : Nat) :
    o'.labels[k]? = some l ↔ o.blocks[k]? = some n := by
  cases o with
  | block m =>
    obtain ⟨l', hm, rfl⟩ := h
    exact getElem?_label_iff hl (.cons hm .nil) k
  | blockTable ms =>
    obtain ⟨ls, hall, rfl⟩ := h
    exact getElem?_label_iff hl hall k
  | var id =>
    obtain ⟨slot, -, rfl⟩ := h
    simp [Operand.labels, Operand.blocks]
  | label target => cases ho
  | labelTable targets => cases ho
  | _ =>
    cases h
    simp [Operand.labels, Operand.blocks]

end Resolves

/-! ## Lowered code -/

/-- All unused labels are behind those of the headers. -/
def BehindHeaders (scope : Scope σ) (s : CodeState σ) : Prop :=
  scope.headers.first.toNat + scope.headers.count ≤ s.supply.next.toNat

/-- An instruction of lowered code is what its origin asks for. -/
inductive Realizes (scope : Scope σ) : Origin → Instruction → Prop
  | header {n : BlockId} {l : Label} : scope.headers.label? n = some l →
      Realizes scope (.header n) (Instruction.header l)
  | template {i : Instruction} {operand : Operand} : i.label = none →
      i.operand.isNumbered = false → i.opcode.operandKind.accepts i.operand = true →
      scope.Resolves i.operand operand → Realizes scope (.template i) { i with operand }
  | load {id : VarId} {slot : Nat} : scope.locals.slot? id = some slot →
      Realizes scope (.load id) { opcode := .ldloc, operand := .slot slot }
  | store {id : VarId} {slot : Nat} : scope.locals.slot? id = some slot →
      Realizes scope (.store id) { opcode := .stloc, operand := .slot slot }
  | conversion {i : Instruction} : i.opcode.operandKind.accepts i.operand = true →
      i.operand.isSymbolic = false → (∀ slot, i.operand ≠ .slot slot) →
      (∀ l ∈ i.mentionedLabels,
        scope.headers.first.toNat + scope.headers.count ≤ l.index.toNat) →
      Realizes scope .conversion i
  | jump {target : BlockId} {opcode : Opcode} {l : Label} : opcode = .br ∨ opcode = .leave →
      scope.headers.label? target = some l →
      Realizes scope (.jump target) { opcode, operand := .label l }

namespace Realizes

variable {origin : Origin} {i : Instruction}

lemma runs (h : scope.Realizes origin i) : origin.Runs i.opcode := by
  cases h with
  | conversion => trivial
  | jump hopcode => exact hopcode
  | _ => rfl

lemma accepted (h : scope.Realizes origin i) :
    i.opcode.operandKind.accepts i.operand = true := by
  cases h with
  | template _ _ haccepts hresolves => exact (hresolves.accepts_eq _).trans haccepts
  | conversion haccepts => exact haccepts
  | jump hopcode =>
    rcases hopcode with rfl | rfl
    · rfl
    · rfl
  | _ => rfl

lemma concrete (h : scope.Realizes origin i) : i.operand.isSymbolic = false := by
  cases h with
  | template _ _ _ hresolves => exact hresolves.not_isSymbolic
  | conversion _ hconcrete => exact hconcrete
  | _ => rfl

lemma kept {j : Instruction} (h : scope.Realizes (.template j) i)
    (hj : j.operand.isSymbolic = false) : i.operand = j.operand := by
  cases h with
  | template _ _ _ hresolves => exact hresolves.eq_of_not_isSymbolic hj

lemma exists_varId (h : scope.Realizes origin i) {slot : Nat} (hslot : i.operand = .slot slot) :
    ∃ id, origin.varId? = some id ∧ scope.locals.slot? id = some slot := by
  cases h with
  | header _ => cases hslot
  | template _ hnumbered _ hresolves => exact hresolves.exists_varId hnumbered hslot
  | load hfound =>
    cases hslot
    exact ⟨_, rfl, hfound⟩
  | store hfound =>
    cases hslot
    exact ⟨_, rfl, hfound⟩
  | conversion _ _ hnoslot => exact absurd hslot (hnoslot slot)
  | jump _ _ => cases hslot

lemma exists_slot (h : scope.Realizes origin i) {id : VarId} (hid : origin.varId? = some id) :
    ∃ slot, i.operand = .slot slot := by
  cases h with
  | template _ _ _ hresolves => exact hresolves.exists_slot hid
  | load _ => exact ⟨_, rfl⟩
  | store _ => exact ⟨_, rfl⟩
  | _ => cases hid

lemma binds_iff (h : scope.Realizes origin i) {n : BlockId} {l : Label}
    (hl : scope.headers.label? n = some l) : i.label = some l ↔ origin = .header n := by
  cases h with
  | @header m l' hm =>
    rw [Origin.header.injEq]
    exact Option.some_inj.trans (label?_eq_iff hm hl)
  | template hlabel => simp [hlabel]
  | conversion _ _ _ hbehind =>
    have hlt := (label?_eq_some.mp hl).2
    constructor
    · intro hlabel
      have hge := hbehind l (by simp [Instruction.mentionedLabels, hlabel])
      omega
    · intro horigin
      cases horigin
  | _ => simp

lemma refers_iff (h : scope.Realizes origin i) {n : BlockId} {l : Label}
    (hl : scope.headers.label? n = some l) (k : Nat) :
    i.operand.labels[k]? = some l ↔ origin.blocks[k]? = some n := by
  cases h with
  | template _ hnumbered _ hresolves => exact hresolves.label_iff hnumbered hl k
  | conversion _ _ _ hbehind =>
    have hlt := (label?_eq_some.mp hl).2
    constructor
    · intro hlabel
      have hge := hbehind l (List.mem_append_right _ (List.mem_of_getElem? hlabel))
      omega
    · intro hblock
      cases hblock
  | jump _ htarget => exact getElem?_label_iff hl (.cons htarget .nil) k
  | _ => simp [Operand.labels, Origin.blocks, Instruction.header]

end Realizes

lemma realizes_objectCode {t : CodeState σ} (ht : scope.BehindHeaders t)
    (hfits : t.supply.next.toNat + 2 < UInt32.size) :
    ∀ i ∈ scope.objectCode t, scope.Realizes .conversion i := by
  have haccepts : ∀ i ∈ scope.objectCode t,
      i.opcode.operandKind.accepts i.operand = true := by
    simp [objectCode, objectConversion, Opcode.operandKind, OperandKind.accepts]
  have hconcrete : ∀ i ∈ scope.objectCode t,
      i.operand.isSymbolic = false ∧ ∀ slot, i.operand ≠ .slot slot := by
    simp [objectCode, objectConversion, Operand.isSymbolic]
  have hlabels : ∀ i ∈ scope.objectCode t, ∀ l ∈ i.mentionedLabels,
      l.index = t.supply.next ∨ l.index = t.supply.next + 1 := by
    simp [objectCode, objectConversion, Instruction.mentionedLabels, Operand.labels]
  have hsecond := toNat_add_one (Nat.lt_of_succ_lt hfits)
  intro i hi
  refine .conversion (haccepts i hi) (hconcrete i hi).1 (hconcrete i hi).2 ?_
  intro l hl
  unfold BehindHeaders at ht
  rcases hlabels i hi l hl with hindex | hindex
  · rw [hindex]
    exact ht
  · rw [hindex, hsecond]
    exact Nat.le_succ_of_le ht

lemma realizes_typedCode (name : TypeName) (t : CodeState σ) :
    ∀ i ∈ scope.typedCode name t, scope.Realizes .conversion i := by
  have haccepts : ∀ i ∈ scope.typedCode name t,
      i.opcode.operandKind.accepts i.operand = true := by
    simp [typedCode, typedConversion, Opcode.operandKind, OperandKind.accepts]
  have hconcrete : ∀ i ∈ scope.typedCode name t,
      i.operand.isSymbolic = false ∧ ∀ slot, i.operand ≠ .slot slot := by
    simp [typedCode, typedConversion, Operand.isSymbolic]
  have hlabels : ∀ i ∈ scope.typedCode name t, i.mentionedLabels = [] := by
    simp [typedCode, typedConversion, Instruction.mentionedLabels, Operand.labels]
  intro i hi
  refine .conversion (haccepts i hi) (hconcrete i hi).1 (hconcrete i hi).2 ?_
  rw [hlabels i hi]
  exact List.forall_mem_nil _

lemma realizes_resolveTemplate {node : SyntaxNode} {template resolved : List Instruction}
    (h : scope.resolveTemplate node template = .ok resolved)
    (htemplate : ∀ i ∈ template, i.label = none ∧ i.operand.isNumbered = false) :
    List.Forall₂ scope.Realizes (template.map .template) resolved := by
  rw [List.forall₂_map_left_iff]
  have hall := (except_mapM_eq_ok _ _ _).mp h
  clear h
  induction hall with
  | nil => exact List.Forall₂.nil
  | cons hresolve _ ih =>
    rw [List.forall_mem_cons] at htemplate
    obtain ⟨hcheck, operand, hoperand, rfl⟩ := resolve_eq_ok.mp hresolve
    obtain ⟨haccepts, -⟩ := Instruction.checkOperand_eq_ok.mp hcheck
    exact List.Forall₂.cons (.template htemplate.1.1 htemplate.1.2 haccepts
      (resolveOperand_eq_ok.mp hoperand)) (ih htemplate.2)

/-- The code of an expression realizes its origins. -/
theorem exprCode_realizes (scope : Scope σ) :
    (∀ e s code s', scope.exprCode e s = .ok code s' →
      (∀ x ∈ e.parts, x.Relocatable) → scope.BehindHeaders s →
      List.Forall₂ scope.Realizes e.origins code ∧ scope.BehindHeaders s') ∧
    ∀ es s codes s', scope.exprCodes es s = .ok codes s' →
      (∀ x ∈ Expr.partsOfAll es, x.Relocatable) → scope.BehindHeaders s →
      List.Forall₂ scope.Realizes (Expr.originsOfAll es) codes.flatten ∧
        scope.BehindHeaders s' := by
  apply scope.exprCode_induction
    (fun e s code s' => (∀ x ∈ e.parts, x.Relocatable) → scope.BehindHeaders s →
      List.Forall₂ scope.Realizes e.origins code ∧ scope.BehindHeaders s')
    (fun es s code s' => (∀ x ∈ Expr.partsOfAll es, x.Relocatable) → scope.BehindHeaders s →
      List.Forall₂ scope.Realizes (Expr.originsOfAll es) code ∧ scope.BehindHeaders s')
  case var =>
    intro id type slot s hslot _ hs
    rw [Expr.origins]
    exact ⟨List.Forall₂.cons (.load hslot) List.Forall₂.nil, hs⟩
  case object =>
    -- The supply is behind the headers, so the labels of the conversion are none of theirs.
    intro value target type s code t ih hobject hfits hparts hs
    obtain ⟨hvalue, ht⟩ := ih (fun x hx => hparts x (List.mem_cons_of_mem _ hx)) hs
    have hlength : target.conversionLength = (scope.objectCode t).length := by
      unfold Signature.conversionLength
      rw [hobject]
      rfl
    rw [Expr.origins, hlength]
    refine ⟨List.rel_append hvalue (forall₂_replicate (realizes_objectCode ht hfits)), ?_⟩
    unfold BehindHeaders at *
    rw [afterObject_next hfits]
    exact Nat.le_add_right_of_le ht
  case typed =>
    intro value target type s code t name ih hobject _ hparts hs
    obtain ⟨hvalue, ht⟩ := ih (fun x hx => hparts x (List.mem_cons_of_mem _ hx)) hs
    have hlength : target.conversionLength = (scope.typedCode name t).length := by
      unfold Signature.conversionLength
      rw [hobject]
      rfl
    rw [Expr.origins, hlength]
    exact ⟨List.rel_append hvalue (forall₂_replicate (realizes_typedCode name t)), ht⟩
  case plain =>
    intro template arguments type node s code t resolved ih hresolved _ hparts hs
    obtain ⟨harguments, ht⟩ := ih (fun x hx => hparts x (List.mem_cons_of_mem _ hx)) hs
    have hself := hparts _ (Expr.self_mem_parts _)
    rw [Expr.origins]
    exact ⟨List.rel_append harguments (realizes_resolveTemplate hresolved hself.2), ht⟩
  case unary =>
    intro template argument update type node s code t resolved _ _ result services _ hparts
    exact absurd (hparts _ (Expr.self_mem_parts _)).1 (Option.some_ne_none update)
  case binary =>
    intro template left right update type node s code t code' u resolved _ _ _ result services _
      hparts
    exact absurd (hparts _ (Expr.self_mem_parts _)).1 (Option.some_ne_none update)
  case nil =>
    intro s _ hs
    rw [Expr.originsOfAll]
    exact ⟨List.Forall₂.nil, hs⟩
  case cons =>
    intro e rest s code t codes u ihe ihrest hparts hs
    rw [Expr.partsOfAll_cons, List.forall_mem_append] at hparts
    obtain ⟨hfirst, ht⟩ := ihe hparts.1 hs
    obtain ⟨hrest, hu⟩ := ihrest hparts.2 ht
    rw [Expr.originsOfAll]
    exact ⟨List.rel_append hfirst hrest, hu⟩

lemma Stores.realizes {st : Statement} {store : List Instruction} (h : scope.Stores st store) :
    ∃ origins, st.origins = st.value.origins ++ origins ∧
      List.Forall₂ scope.Realizes origins store := by
  cases st with
  | expression value =>
    cases h
    exact ⟨[], (List.append_nil _).symm, List.Forall₂.nil⟩
  | assignment target value =>
    obtain ⟨slot, hslot, rfl⟩ := h
    exact ⟨[.store target], rfl, List.Forall₂.cons (.store hslot) List.Forall₂.nil⟩

lemma statementCodes_realizes {b : Block} {s s' : CodeState σ} {codes : List (List Instruction)}
    (h : scope.statementCodes b s = .ok codes s') (hparts : ∀ x ∈ Block.parts b, x.Relocatable)
    (hs : scope.BehindHeaders s) :
    List.Forall₂ scope.Realizes (b.flatMap Statement.origins) codes.flatten ∧
      scope.BehindHeaders s' := by
  induction b generalizing s codes with
  | nil =>
    rw [Scope.statementCodes] at h
    obtain ⟨rfl, rfl⟩ := run_pure_eq_ok.mp h
    exact ⟨List.Forall₂.nil, hs⟩
  | cons st rest ih =>
    obtain ⟨code, t, following, hcode, hrest, rfl⟩ := statementCodes_cons_eq_ok h
    obtain ⟨value, store, hvalue, hstore, rfl⟩ := statementCode_eq_ok hcode
    unfold Block.parts at hparts ih
    rw [List.flatMap_cons, List.forall_mem_append] at hparts
    obtain ⟨hrealizes, ht⟩ := scope.exprCode_realizes.1 _ _ _ _ hvalue hparts.1 hs
    obtain ⟨hfollowing, hs'⟩ := ih hrest hparts.2 ht
    obtain ⟨origins, horigins, hstored⟩ := hstore.realizes
    rw [List.flatMap_cons, horigins, List.flatten_cons]
    exact ⟨List.rel_append (List.rel_append hrealizes hstored) hfollowing, hs'⟩

variable {r : Routine}

lemma fallThroughJump_realizes {n : BlockId} {next : Option BlockId} {jump : Option Instruction}
    (h : scope.fallThroughJump r n next = .ok jump) :
    List.Forall₂ scope.Realizes
      (((r.graph.fallThroughs n).filter fun t => next ≠ some t).map .jump) jump.toList := by
  obtain ⟨hnone, rfl⟩ | ⟨target, htarget, ⟨hnext, rfl⟩ | ⟨hnext, label, hlabel, rfl⟩⟩ :=
    fallThroughJump_eq_ok h
  · rw [hnone]
    exact List.Forall₂.nil
  · simp [htarget, hnext]
  · have hopcode : (if r.frames.any fun f => f.isLeftBy n target then Opcode.leave else .br) =
        .br ∨ (if r.frames.any fun f => f.isLeftBy n target then Opcode.leave else .br) =
        .leave := by
      split_ifs <;> simp
    have horigins : ((r.graph.fallThroughs n).filter fun t => next ≠ some t) = [target] := by
      simp [htarget, hnext]
    rw [horigins]
    exact List.Forall₂.cons (.jump hopcode hlabel) List.Forall₂.nil

lemma blockCode_realizes {n : BlockId} {next : Option BlockId} {s s' : CodeState σ}
    {code : BlockCode} (h : scope.blockCode r n next s = .ok code s') (hr : r.Relocatable)
    (hs : scope.BehindHeaders s) :
    List.Forall₂ scope.Realizes (r.blockOrigins n next) code.instructions ∧
      scope.BehindHeaders s' := by
  obtain ⟨statements, hblock, hheader, hcodes, hjump⟩ := blockCode_eq_ok h
  obtain ⟨hstatements, hs'⟩ := statementCodes_realizes hcodes
    (fun x hx => hr x (Routine.mem_parts_of_block hblock hx)) hs
  have hgetD : r.graph.blocks.getD n [] = statements := by
    rw [List.getD_eq_getElem?_getD, hblock, Option.getD_some]
  unfold Routine.blockOrigins
  rw [hgetD]
  have hrest := List.rel_append hstatements (fallThroughJump_realizes hjump)
  exact ⟨List.Forall₂.cons (.header hheader) hrest, hs'⟩

/-- The code of placed blocks realizes the origins of the routine. -/
lemma place_realizes {order : List BlockId} {position : Nat} {start : UInt32}
    {s s' : CodeState σ} {placement : Placement}
    (h : scope.place r order position start s = .ok placement s')
    (hr : r.Relocatable) (hs : scope.BehindHeaders s) :
    List.Forall₂ scope.Realizes (r.origins order) placement.rawCode := by
  induction order generalizing position start s placement with
  | nil =>
    obtain ⟨rfl, -⟩ := place_nil_eq_ok h
    exact List.Forall₂.nil
  | cons n rest ih =>
    obtain ⟨p, t, following, -, -, -, hcode, hrest, rfl⟩ := place_cons_eq_ok h
    obtain ⟨hblock, ht⟩ := blockCode_realizes hcode hr hs
    rw [Routine.origins, Placement.rawCode_cons]
    exact List.rel_append hblock (ih hrest ht)

end Scope

/-! ## Routines -/

/-- In a finished body, an instruction is what its origin asks for: it has an operand that its
opcode accepts, the slot of the variable that is named, the header labels of the blocks that are
named, each in its place, and no other slot or header label; all labels that it refers to are bound
once. -/
structure Instruction.Resolved (body : MethodBody) (placement : Placement) (origin : Origin)
    (i : Instruction) : Prop where
  runs : origin.Runs i.opcode
  accepted : i.opcode.operandKind.accepts i.operand = true
  concrete : i.operand.isSymbolic = false
  kept : ∀ j, origin = .template j → j.operand.isSymbolic = false → i.operand = j.operand
  slot : ∀ index, i.operand = .slot index →
    ∃ v, body.locals.entries[index]? = some v ∧ origin.varId? = some v.id
  named : ∀ id, origin.varId? = some id → ∃ index, i.operand = .slot index
  binds : ∀ q ∈ placement, i.label = some q.code.header ↔ origin = .header q.block
  refers : ∀ q ∈ placement, ∀ k : Nat,
    i.operand.labels[k]? = some q.code.header ↔ origin.blocks[k]? = some q.block
  bound : ∀ l ∈ i.operand.labels, ∃! place, BoundAt body.instructions l place

lemma Instruction.Resolved.withOffset {body : MethodBody} {placement : Placement} {origin : Origin}
    {i : Instruction} (h : i.Resolved body placement origin) (offset : UInt32) :
    Instruction.Resolved body placement origin { i with offset } :=
  ⟨h.runs, h.accepted, h.concrete, h.kept, h.slot, h.named, h.binds, h.refers, h.bound⟩

lemma forall₂_placeFrom {α : Type} {R : α → Instruction → Prop}
    (hoffset : ∀ x i offset, R x i → R x { i with offset }) {xs : List α} {code : List Instruction}
    (h : List.Forall₂ R xs code) (start : UInt32) : List.Forall₂ R xs (placeFrom start code) := by
  induction h generalizing start with
  | nil => exact List.Forall₂.nil
  | cons hhead _ ih => exact List.Forall₂.cons (hoffset _ _ start hhead) (ih _)

lemma LocalTable.exists_entry {t : LocalTable} {id : VarId} {slot : Nat}
    (h : t.slot? id = some slot) : ∃ v, t.entries[slot]? = some v ∧ v.id = id :=
  Option.map_eq_some_iff.mp ((t.slots_iff id slot).mp h)

/-- Every label to which placed code jumps is bound once in the body behind which it is placed. -/
lemma Scope.place_bound {scope : Scope σ} {r : Routine} {order : List BlockId} {position : Nat}
    {start : UInt32} {s s' : CodeState σ} {placement : Placement} {old code : List Instruction}
    (h : scope.place r order position start s = .ok placement s') (hr : r.Relocatable)
    (hfresh : FreshlyLabelled old scope.headers placement)
    (hunplaced : code.map Instruction.unplaced =
      (old ++ placement.rawCode).map Instruction.unplaced) :
    ∀ i ∈ placement.rawCode, ∀ l ∈ i.operand.labels, ∃! place, BoundAt code l place := by
  intro i hi l hl
  obtain ⟨k, hk⟩ := List.mem_iff_getElem?.mp hi
  obtain ⟨before, p, after, j, hsplit, -, hj⟩ := Placement.rawCode_getElem? hk
  obtain ⟨t, t', hblock⟩ := Scope.place_split (hsplit ▸ h)
  have houter : ∀ m l, scope.headers.label? m = some l →
      ∃ m < scope.headers.count, scope.headers.label? m = some l :=
    fun m l hm => ⟨m, exists_label?_iff.mp ⟨l, hm⟩, hm⟩
  have hforward : JumpsForward (fun l => ∃ m < scope.headers.count,
      scope.headers.label? m = some l) p.code.instructions := by
    apply blockCode_jumpsInto hblock
    · intro b hb e he
      obtain ⟨hflags, htemplate⟩ := hr e (Routine.mem_parts_of_block hb he)
      refine ⟨hflags, fun i hi => ⟨Operand.labels_of_not_isNumbered (htemplate i hi).2, ?_⟩⟩
      intro m _ l hm
      exact houter m l hm
    · intro m _ l hm
      exact houter m l hm
  exact exists_unique_binding_of_unplaced hfresh hunplaced (fun _ hm => hm) hsplit hforward hj hl

lemma Scope.Realizes.resolved {scope : Scope σ} {origin : Origin} {i : Instruction}
    (h : scope.Realizes origin i) {body : MethodBody} {placement : Placement}
    (hlocals : body.locals = scope.locals)
    (hheaders : ∀ q ∈ placement, scope.headers.label? q.block = some q.code.header)
    (hbound : ∀ l ∈ i.operand.labels, ∃! place, BoundAt body.instructions l place) :
    i.Resolved body placement origin := by
  refine ⟨h.runs, h.accepted, h.concrete, ?_, ?_, fun _ => h.exists_slot,
    fun q hq => h.binds_iff (hheaders q hq), fun q hq => h.refers_iff (hheaders q hq), hbound⟩
  · rintro j rfl
    exact h.kept
  · intro index hslot
    obtain ⟨id, hid, hfound⟩ := h.exists_varId hslot
    obtain ⟨v, hv, rfl⟩ := LocalTable.exists_entry hfound
    rw [hlocals]
    exact ⟨v, hv, hid⟩

/-- The code that compilation appends has one instruction for each origin of the routine, and its
operands are resolved. -/
theorem compile_resolved {services : Services σ} {options : Options} {r : Routine}
    {w w' : Workspace σ} (hr : r.Relocatable)
    (hcompile : compile services options r w = .ok () w') :
    ∃ placement, compiledPlacement services options r w = some placement ∧
      (placement.map PlacedBlock.block).Perm r.graph.nodes ∧
      w'.body.instructions = w.body.instructions ++ placement.instructions ∧
      List.Forall₂ (Instruction.Resolved w'.body placement)
        (r.origins (placement.map PlacedBlock.block)) placement.instructions := by
  obtain ⟨locals, placement, _, hdeclare, hrun, -, hbody⟩ := compile_eq_ok hcompile
  obtain ⟨headers, start, order, t, hsite, horder, hplace, -⟩ := placeRoutine_eq_ok.mp hrun
  have hfresh := place_freshlyLabelled hsite horder hplace (fun e he =>
    Expr.labelSafe_of_no_flags (hr e he).1 (fun i hi => ((hr e he).2 i hi).1) services)
  have hbound : ∀ i ∈ placement.rawCode, ∀ l ∈ i.operand.labels,
      ∃! place, BoundAt w'.body.instructions l place := by
    apply Scope.place_bound hplace hr hfresh
    rw [hbody]
    exact Scope.place_unplaced hplace _
  refine ⟨placement, compiledPlacement_eq_some hdeclare hrun, ?_, by rw [hbody], ?_⟩
  · rw [Scope.place_blocks hplace]
    exact Graph.order_perm horder
  · rw [Scope.place_blocks hplace, Scope.place_instructions hplace]
    apply forall₂_placeFrom fun _ _ offset h => h.withOffset offset
    apply forall₂_imp_mem (Scope.place_realizes hplace hr (Nat.le_of_eq headers.toNat_rest.symm))
    intro origin i hi h
    exact h.resolved (by rw [hbody]; rfl) hfresh.header (hbound i hi)

/-- Unboxes a null and then leaves a loop through a jump table. -/
def tableLoop : Routine where
  declarations := [.unnamed ⟨0⟩ .object]
  graph := {
    blocks := [
      [.assignment ⟨0⟩
        (.unbox (.instruction [{ opcode := .ldnull }] [] none .object) .object .object)],
      [.expression (.instruction [
        { opcode := .ldloc, operand := .var ⟨0⟩ },
        { opcode := .switch, operand := .blockTable [3, 1, 3] }] [] none .void)],
      [],
      [.expression (.instruction [{ opcode := .ret }] [] none .void)]]
    edges := [⟨0, 1, .fallThrough⟩, ⟨1, 3, .branch⟩, ⟨1, 1, .branch⟩, ⟨1, 2, .fallThrough⟩,
      ⟨2, 1, .fallThrough⟩]
    edges_inside := by decide }
  entry := 0
  frames := []
  returnsValue := false

theorem tableLoop_resolved : tableLoop.Relocatable ∧ ∃ w' placement,
    compile plainServices {} tableLoop ⟨jumpingBody, ()⟩ = .ok () w' ∧
      compiledPlacement plainServices {} tableLoop ⟨jumpingBody, ()⟩ = some placement ∧
      placement.map (fun q => (q.block, q.code.header)) = [(0, ⟨5⟩), (1, ⟨6⟩), (2, ⟨7⟩), (3, ⟨8⟩)] ∧
      w'.body.instructions[16]?.map Instruction.operand = some (.labelTable [⟨8⟩, ⟨6⟩, ⟨8⟩]) ∧
      List.Forall₂ (Instruction.Resolved w'.body placement) (tableLoop.origins [0, 1, 2, 3])
        placement.instructions := by
  have hr : tableLoop.Relocatable := by decide
  obtain ⟨w', hcompile, htable⟩ : ∃ w',
      compile plainServices {} tableLoop ⟨jumpingBody, ()⟩ = .ok () w' ∧
        w'.body.instructions[16]?.map Instruction.operand =
          some (.labelTable [⟨8⟩, ⟨6⟩, ⟨8⟩]) := ⟨_, rfl, rfl⟩
  obtain ⟨known, hknown, hblocks, hheaders⟩ : ∃ known,
      compiledPlacement plainServices {} tableLoop ⟨jumpingBody, ()⟩ = some known ∧
        known.map PlacedBlock.block = [0, 1, 2, 3] ∧
        known.map (fun q => (q.block, q.code.header)) =
          [(0, ⟨5⟩), (1, ⟨6⟩), (2, ⟨7⟩), (3, ⟨8⟩)] := ⟨_, rfl, rfl, rfl⟩
  obtain ⟨placement, hplacement, -, -, hresolved⟩ := compile_resolved hr hcompile
  obtain rfl : known = placement := Option.some.inj (hknown.symm.trans hplacement)
  rw [hblocks] at hresolved
  exact ⟨hr, w', known, hcompile, hknown, hheaders, htable, hresolved⟩

end CilBackend
