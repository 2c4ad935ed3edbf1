import CilBackend.Proofs.ControlFlow
import CilBackend.Proofs.Emission
import CilBackend.Proofs.FallThrough
import CilBackend.Proofs.LabelUse
import CilBackend.Proofs.OrderedGraphs
import CilBackend.Proofs.Resolution
import CilBackend.Proofs.StackGauge

/-!
# Accepted routines

What is asked of a routine is said here without lowering: of its declarations, of its graph and of
each expression for itself. A routine without exception frames that meets these rules is lowered,
whatever the services answer and whatever the body holds, and it is compiled exactly when there is
room behind the body for its labels and its code. Without the room compilation overflows.
-/

namespace CilBackend

variable {σ : Type}

/-! ## Rules -/

/-- What an expression may refer to, and how its template is checked. -/
structure Rules where
  blockCount : Nat
  declared : List VarId
  checkNet : Bool
  returnsValue : Bool

/-- The operand has the shape that the opcode asks for and names only blocks and variables that are
there. -/
structure Instruction.Valid (rules : Rules) (i : Instruction) : Prop where
  accepted : i.opcode.operandKind.accepts i.operand = true
  blocks : ∀ m ∈ i.operand.blocks, m < rules.blockCount
  declared : ∀ id, i.operand.varId? = some id → id ∈ rules.declared

/-- The template never takes more values than there are, and if the rules ask for it, it leaves
what the expression declares. All depths can be counted. -/
structure Rules.Balanced (rules : Rules) (initial final : Int) (template : List Instruction) :
    Prop where
  countable : ∃ depth : Int64, depth.toInt = initial
  sustains : Sustains initial (stackEffects rules.returnsValue template)
  holds : Holds initial (stackEffects rules.returnsValue template)
  net : rules.checkNet = true →
    initial + netSum (stackEffects rules.returnsValue template) = final

/-- Everything but `void` and arrays can be the target of unboxing. -/
def Signature.Unboxable (s : Signature) : Prop :=
  s ≠ .void ∧ ∀ element, s ≠ .array element

/-- What is asked of an expression itself, apart from the expressions inside it. -/
def Expr.Valid (rules : Rules) : Expr → Prop
  | .var id _ => id ∈ rules.declared
  | .unbox _ target _ => target.Unboxable
  | .instruction template arguments (some _) _ =>
    (∀ i ∈ template, i.Valid rules) ∧ (arguments.length = 1 ∨ arguments.length = 2)
  | .instruction template arguments none type =>
    (∀ i ∈ template, i.Valid rules) ∧ rules.Balanced (Expr.netEffects arguments)
      (Expr.instruction template arguments none type).netEffect template

/-- The variable that a statement assigns to. -/
def Statement.target? : Statement → Option VarId
  | .expression _ => none
  | .assignment target _ => some target

structure Statement.Valid (rules : Rules) (st : Statement) : Prop where
  target : ∀ id, st.target? = some id → id ∈ rules.declared
  value : ∀ e ∈ st.value.parts, e.Valid rules

/-- The rules for the statements of a routine whose variables are declared in a table. -/
def Routine.rules (r : Routine) (options : Options) (locals : LocalTable) : Rules where
  blockCount := r.graph.size
  declared := locals.ids ++ r.declarations.map Variable.id
  checkNet := options.checkNet
  returnsValue := r.returnsValue

/-- All edges along which control falls through from a block lead to the same one. -/
def Graph.FallsToOne (g : Graph) (n : BlockId) : Prop :=
  ∀ t t', ⟨n, t, .fallThrough⟩ ∈ g.edges → ⟨n, t', .fallThrough⟩ ∈ g.edges → t = t'

/-- What is asked of a routine that is compiled into a body with the variables of `locals`. -/
structure Routine.Acceptable (r : Routine) (options : Options) (locals : LocalTable) : Prop where
  distinct : (r.declarations.map Variable.id).Nodup
  fresh : ∀ v ∈ r.declarations, v.id ∉ locals.ids
  room : locals.size + r.declarations.length ≤ slotLimit
  entry : r.entry < r.graph.size
  reachable : ∀ n < r.graph.size, ∃ blocks, r.graph.Path r.entry n blocks
  fallThrough : ∀ n, r.graph.FallsToOne n
  statements : ∀ b ∈ r.graph.blocks, ∀ st ∈ b, st.Valid (r.rules options locals)

/-! ## Templates -/

/-- Only the targets of unboxing are the object type or have a name. -/
lemma Signature.unboxable_iff {s : Signature} :
    s.Unboxable ↔ s.isObject = true ∨ ∃ name, s.typeName? = some name := by
  cases s <;> simp [Signature.Unboxable, Signature.isObject, Signature.typeName?]

namespace Scope

variable {scope : Scope σ} {node : SyntaxNode}

def rules (scope : Scope σ) : Rules where
  blockCount := scope.headers.count
  declared := scope.locals.ids
  checkNet := scope.checkNet
  returnsValue := scope.returnsValue

lemma exists_slot_iff {id : VarId} :
    (∃ slot, scope.slot node id = .ok slot) ↔ id ∈ scope.rules.declared := by
  simp only [slot_eq_ok]
  exact LocalTable.exists_slot?_iff

lemma exists_resolve_iff {i : Instruction} :
    (∃ j, scope.resolve node i = .ok j) ↔ i.Valid scope.rules := by
  simp only [resolve_eq_ok, resolveOperand_eq_ok, Instruction.checkOperand_eq_ok]
  constructor
  · rintro ⟨_, ⟨haccepted, hblocks⟩, operand, hoperand, -⟩
    exact ⟨haccepted, hblocks, (exists_resolves_iff.mp ⟨operand, hoperand⟩).2⟩
  · rintro ⟨haccepted, hblocks, hvariables⟩
    obtain ⟨operand, hoperand⟩ := exists_resolves_iff.mpr ⟨hblocks, hvariables⟩
    exact ⟨_, ⟨haccepted, hblocks⟩, operand, hoperand, rfl⟩

lemma exists_resolveTemplate_iff {template : List Instruction} :
    (∃ resolved, scope.resolveTemplate node template = .ok resolved) ↔
      ∀ i ∈ template, i.Valid scope.rules := by
  unfold resolveTemplate
  rw [exists_mapM_iff]
  simp only [exists_resolve_iff]

/-- The check of a resolved template is one of the template itself. -/
lemma checkTemplate_eq_ok_iff {initial expected : Int} {template resolved : List Instruction}
    (hresolved : scope.resolveTemplate node template = .ok resolved) :
    scope.checkTemplate node initial expected resolved = .ok () ↔
      scope.rules.Balanced initial expected template := by
  have heffects := resolveTemplate_stackEffects hresolved scope.returnsValue
  rw [checkTemplate_eq_ok]
  constructor
  · rintro ⟨depth, g, rfl, hrun, hnet⟩
    obtain ⟨hsustains, hholds, hdepth⟩ := StackGauge.runFrom_eq_ok hrun
    rw [heffects] at hsustains hholds hdepth
    exact ⟨⟨depth, rfl⟩, hsustains, hholds, fun hcheck => hdepth.symm.trans (hnet hcheck)⟩
  · rintro ⟨⟨depth, rfl⟩, hsustains, hholds, hnet⟩
    dsimp only [Scope.rules] at hsustains hholds hnet
    rw [← heffects] at hsustains hholds hnet
    obtain ⟨g, hrun⟩ := StackGauge.exists_runFrom (g := .startingAt depth) hsustains hholds 0
    obtain ⟨-, -, hdepth⟩ := StackGauge.runFrom_eq_ok hrun
    exact ⟨depth, g, rfl, hrun, fun hcheck => hdepth.trans (hnet hcheck)⟩

/-! ## Expressions -/

/-- All parts of an expression that gets code are valid. -/
lemma valid_of_exprCode (scope : Scope σ) :
    (∀ e s code s', scope.exprCode e s = .ok code s' → ∀ x ∈ e.parts, x.Valid scope.rules) ∧
    ∀ es s codes s', scope.exprCodes es s = .ok codes s' →
      ∀ x ∈ Expr.partsOfAll es, x.Valid scope.rules := by
  apply scope.exprCode_induction
    (fun e _ _ _ => ∀ x ∈ e.parts, x.Valid scope.rules)
    (fun es _ _ _ => ∀ x ∈ Expr.partsOfAll es, x.Valid scope.rules)
  case var =>
    intro id type slot s hslot x hx
    rw [Expr.parts, Expr.inner, List.mem_singleton] at hx
    subst hx
    exact LocalTable.exists_slot?_iff.mp ⟨slot, hslot⟩
  case object =>
    intro value target type s code t ih hobject _
    rw [Expr.parts, Expr.inner, List.forall_mem_cons]
    exact ⟨Signature.unboxable_iff.mpr (Or.inl hobject), ih⟩
  case typed =>
    intro value target type s code t name ih _ hname
    rw [Expr.parts, Expr.inner, List.forall_mem_cons]
    exact ⟨Signature.unboxable_iff.mpr (Or.inr ⟨name, hname⟩), ih⟩
  case plain =>
    intro template arguments type node s code t resolved ih hresolved hcheck
    rw [Expr.parts, Expr.inner, List.forall_mem_cons]
    exact ⟨⟨exists_resolveTemplate_iff.mp ⟨_, hresolved⟩,
      (checkTemplate_eq_ok_iff hresolved).mp hcheck⟩, ih⟩
  case unary =>
    intro template argument update type node s code t resolved ih hresolved result services _
    rw [Expr.parts, Expr.inner, List.forall_mem_cons, Expr.partsOfAll_cons, List.forall_mem_append]
    exact ⟨⟨exists_resolveTemplate_iff.mp ⟨_, hresolved⟩, Or.inl rfl⟩, ih, List.forall_mem_nil _⟩
  case binary =>
    intro template left right update type node s code t code' u resolved ihl ihr hresolved result
      services _
    rw [Expr.parts, Expr.inner, List.forall_mem_cons, Expr.partsOfAll_cons, List.forall_mem_append,
      Expr.partsOfAll_cons, List.forall_mem_append]
    exact ⟨⟨exists_resolveTemplate_iff.mp ⟨_, hresolved⟩, Or.inr rfl⟩, ihl, ihr,
      List.forall_mem_nil _⟩
  case nil =>
    intro s x hx
    cases hx
  case cons =>
    intro e rest s code t codes u ihe ihrest
    rw [Expr.partsOfAll_cons, List.forall_mem_append]
    exact ⟨ihe, ihrest⟩

/-- An expression with valid parts gets code as long as there are labels for it. -/
lemma exprCode_takes (scope : Scope σ) :
    (∀ e, (∀ x ∈ e.parts, x.Valid scope.rules) → (scope.exprCode e).Takes (labelSum e.parts)) ∧
    ∀ es, (∀ x ∈ Expr.partsOfAll es, x.Valid scope.rules) →
      (scope.exprCodes es).Takes (labelSum (Expr.partsOfAll es)) := by
  apply Scope.exprCode.mutual_induct
    (fun e => (∀ x ∈ e.parts, x.Valid scope.rules) →
      (scope.exprCode e).Takes (labelSum e.parts))
    (fun es => (∀ x ∈ Expr.partsOfAll es, x.Valid scope.rules) →
      (scope.exprCodes es).Takes (labelSum (Expr.partsOfAll es)))
  · intro id type hvalid
    obtain ⟨slot, hslot⟩ := exists_slot_iff.mpr (hvalid _ (Expr.self_mem_parts _))
    rw [Scope.exprCode]
    exact (CodeM.Takes.ofExcept hslot).map _
  · intro value target type ih hvalid
    rw [Expr.parts, Expr.inner, List.forall_mem_cons] at hvalid
    rw [Scope.exprCode, Expr.parts, Expr.inner, labelSum_cons, Nat.add_comm]
    exact (ih hvalid.2).bind fun _ code _ _ =>
      (scope.conversion_takes (Signature.unboxable_iff.mp hvalid.1) _).map _
  · intro template arguments type ih hvalid
    rw [Expr.parts, Expr.inner, List.forall_mem_cons] at hvalid
    obtain ⟨resolved, hresolved⟩ := exists_resolveTemplate_iff.mpr hvalid.1.1
    have hcheck := (checkTemplate_eq_ok_iff hresolved).mpr hvalid.1.2
    rw [Scope.exprCode, Expr.parts, Expr.inner, labelSum_cons, Nat.add_comm]
    refine (ih hvalid.2).bind fun _ codes _ _ => ?_
    refine (CodeM.Takes.ofExcept hresolved).bind (n := 0) fun s found s' hfound => ?_
    obtain ⟨hfound, -⟩ := ofExcept_eq_ok.mp hfound
    rw [hresolved, Except.ok.injEq] at hfound
    subst hfound
    exact (CodeM.Takes.ofExcept hcheck).map fun _ => codes.flatten ++ resolved
  · intro template argument update type ih hvalid
    rw [Expr.parts, Expr.inner, List.forall_mem_cons, Expr.partsOfAll_cons,
      List.forall_mem_append] at hvalid
    obtain ⟨resolved, hresolved⟩ := exists_resolveTemplate_iff.mpr hvalid.1.1
    rw [Scope.exprCode, Expr.parts, Expr.inner, labelSum_cons, Expr.partsOfAll_cons,
      labelSum_append]
    exact (CodeM.Takes.ofExcept hresolved).bind fun _ found _ _ =>
      (ih hvalid.2.1).bind fun _ code _ _ => scope.expandFlags_takes _
  · intro template left right update type ihl ihr hvalid
    rw [Expr.parts, Expr.inner, List.forall_mem_cons, Expr.partsOfAll_cons, List.forall_mem_append,
      Expr.partsOfAll_cons, List.forall_mem_append] at hvalid
    obtain ⟨resolved, hresolved⟩ := exists_resolveTemplate_iff.mpr hvalid.1.1
    rw [Scope.exprCode, Expr.parts, Expr.inner, labelSum_cons, Expr.partsOfAll_cons,
      labelSum_append, Expr.partsOfAll_cons, labelSum_append]
    exact (CodeM.Takes.ofExcept hresolved).bind fun _ found _ _ =>
      (ihl hvalid.2.1).bind fun _ code _ _ =>
        (ihr hvalid.2.2.1).bind fun _ code' _ _ => scope.expandFlags_takes _
  · intro template arguments update type hone htwo hvalid
    -- The number of arguments is neither one nor two, and such an expression is not valid.
    rcases (hvalid _ (Expr.self_mem_parts _)).2 with hlength | hlength
    · obtain ⟨argument, harguments⟩ := List.length_eq_one_iff.mp hlength
      exact (hone argument harguments).elim
    · obtain ⟨left, right, harguments⟩ := List.length_eq_two.mp hlength
      exact (htwo left right harguments).elim
  · intro _
    rw [Scope.exprCodes]
    exact CodeM.Takes.pure []
  · intro e rest ihe ihrest hvalid
    rw [Expr.partsOfAll_cons, List.forall_mem_append] at hvalid
    rw [Scope.exprCodes, Expr.partsOfAll_cons, labelSum_append]
    exact (ihe hvalid.1).bind fun _ code _ _ => (ihrest hvalid.2).map _

/-! ## Blocks -/

lemma valid_of_statementCode {st : Statement} {s s' : CodeState σ} {code : List Instruction}
    (h : scope.statementCode st s = .ok code s') : st.Valid scope.rules := by
  obtain ⟨value, store, hvalue, hstore, -⟩ := statementCode_eq_ok h
  refine ⟨?_, scope.valid_of_exprCode.1 _ _ _ _ hvalue⟩
  intro id hid
  cases st with
  | expression value => cases hid
  | assignment target value =>
    cases hid
    obtain ⟨slot, hslot, -⟩ := hstore
    exact LocalTable.exists_slot?_iff.mp ⟨slot, hslot⟩

lemma valid_of_statementCodes {b : Block} {s s' : CodeState σ} {codes : List (List Instruction)}
    (h : scope.statementCodes b s = .ok codes s') : ∀ st ∈ b, st.Valid scope.rules := by
  induction b generalizing s codes with
  | nil => exact List.forall_mem_nil _
  | cons st rest ih =>
    obtain ⟨code, t, following, hcode, hrest, rfl⟩ := statementCodes_cons_eq_ok h
    rw [List.forall_mem_cons]
    exact ⟨valid_of_statementCode hcode, ih hrest⟩

lemma statementCode_takes {st : Statement} (h : st.Valid scope.rules) :
    (scope.statementCode st).Takes (labelSum st.value.parts) := by
  cases st with
  | expression value => exact scope.exprCode_takes.1 value h.value
  | assignment target value =>
    obtain ⟨slot, hslot⟩ := exists_slot_iff.mpr (h.target target rfl)
    rw [Scope.statementCode, ← Nat.zero_add (labelSum _)]
    exact (CodeM.Takes.ofExcept hslot).bind fun _ slot _ _ =>
      (scope.exprCode_takes.1 value h.value).map _

lemma statementCodes_takes {b : Block} (h : ∀ st ∈ b, st.Valid scope.rules) :
    (scope.statementCodes b).Takes (labelSum (Block.parts b)) := by
  induction b with
  | nil => exact CodeM.Takes.pure []
  | cons st rest ih =>
    rw [List.forall_mem_cons] at h
    unfold Block.parts at ih ⊢
    rw [Scope.statementCodes, List.flatMap_cons, labelSum_append]
    exact (statementCode_takes h.1).bind fun _ code _ _ => (ih h.2).map _

variable {r : Routine}

lemma exists_fallThroughJump_iff (hcount : scope.headers.count = r.graph.size) {n : BlockId}
    {next : Option BlockId} :
    (∃ jump, scope.fallThroughJump r n next = .ok jump) ↔ r.graph.FallsToOne n := by
  unfold Scope.fallThroughJump Graph.FallsToOne
  simp only [← Graph.mem_fallThroughs]
  match htargets : r.graph.fallThroughs n with
  | [] => simp
  | [target] =>
    constructor
    · rintro - t t' ht ht'
      rw [List.mem_singleton] at ht ht'
      rw [ht, ht']
    · intro _
      dsimp only
      by_cases hnext : next = some target
      · rw [if_pos hnext]
        exact ⟨none, rfl⟩
      · have hedge : target ∈ r.graph.fallThroughs n := by simp [htargets]
        have hlt := (r.graph.edges_inside _ (Graph.mem_fallThroughs.mp hedge)).2
        obtain ⟨l, hl⟩ := exists_label?_iff.mpr (Nat.lt_of_lt_of_eq hlt hcount.symm)
        rw [if_neg hnext]
        exact ⟨_, except_bind_eq_ok.mpr ⟨l, header_eq_ok.mpr hl, rfl⟩⟩
  | first :: second :: rest =>
    have hnodup := r.graph.nodup_fallThroughs n
    rw [htargets, List.nodup_cons] at hnodup
    constructor
    · rintro ⟨jump, hjump⟩
      cases hjump
    · intro hsame
      have heq := hsame first second List.mem_cons_self
        (List.mem_cons_of_mem _ List.mem_cons_self)
      rw [heq] at hnodup
      exact absurd List.mem_cons_self hnodup.1

/-- What is asked of a single block. -/
def AcceptsBlock (scope : Scope σ) (r : Routine) (n : BlockId) : Prop :=
  (∀ b, r.graph.blocks[n]? = some b → ∀ st ∈ b, st.Valid scope.rules) ∧ r.graph.FallsToOne n

lemma acceptsBlock_of_blockCode (hcount : scope.headers.count = r.graph.size) {n : BlockId}
    {next : Option BlockId} {s s' : CodeState σ} {code : BlockCode}
    (h : scope.blockCode r n next s = .ok code s') : scope.AcceptsBlock r n := by
  obtain ⟨statements, hblock, -, hcodes, hjump⟩ := blockCode_eq_ok h
  refine ⟨?_, (exists_fallThroughJump_iff hcount).mp ⟨code.jump, hjump⟩⟩
  intro b hb
  rw [hblock, Option.some.injEq] at hb
  exact hb ▸ valid_of_statementCodes hcodes

lemma blockCode_takes (hcount : scope.headers.count = r.graph.size) {n : BlockId}
    (hn : n < r.graph.size) (h : scope.AcceptsBlock r n) (next : Option BlockId) :
    (scope.blockCode r n next).Takes (r.graph.labelsInside n) := by
  obtain ⟨hstatements, hfalls⟩ := h
  obtain ⟨header, hheader⟩ := exists_label?_iff.mpr (Nat.lt_of_lt_of_eq hn hcount.symm)
  obtain ⟨b, hb⟩ : ∃ b, r.graph.blocks[n]? = some b := ⟨_, List.getElem?_eq_getElem hn⟩
  obtain ⟨jump, hjump⟩ : ∃ jump, scope.fallThroughJump r n next = .ok jump :=
    (exists_fallThroughJump_iff hcount).mpr hfalls
  rw [Graph.labelsInside_eq hb, Scope.blockCode, hb, ← Nat.zero_add (labelSum _)]
  refine (CodeM.Takes.ofExcept (header_eq_ok.mpr hheader)).bind fun _ header _ _ => ?_
  exact (statementCodes_takes (hstatements b hb)).bind fun _ codes _ _ =>
    (CodeM.Takes.ofExcept hjump).map _

lemma acceptsBlocks_of_lower (hcount : scope.headers.count = r.graph.size) {order : List BlockId}
    {s s' : CodeState σ} {codes : List BlockCode} (h : scope.lower r order s = .ok codes s') :
    ∀ n ∈ order, scope.AcceptsBlock r n := by
  induction order generalizing s codes with
  | nil => exact List.forall_mem_nil _
  | cons n rest ih =>
    obtain ⟨code, t, following, hcode, hrest, rfl⟩ := lower_cons_eq_ok.mp h
    rw [List.forall_mem_cons]
    exact ⟨acceptsBlock_of_blockCode hcount hcode, ih hrest⟩

lemma lower_takes (hcount : scope.headers.count = r.graph.size) {order : List BlockId}
    (horder : ∀ n ∈ order, n < r.graph.size) (h : ∀ n ∈ order, scope.AcceptsBlock r n) :
    (scope.lower r order).Takes (order.map r.graph.labelsInside).sum := by
  induction order with
  | nil => exact CodeM.Takes.pure []
  | cons n rest ih =>
    rw [List.forall_mem_cons] at horder h
    rw [Scope.lower, List.map_cons, List.sum_cons]
    exact (blockCode_takes hcount horder.1 h.1 _).bind fun _ code _ _ => (ih horder.2 h.2).map _

end Scope

/-! ## Routines -/

variable {services : Services σ} {options : Options} {r : Routine}

/-- There is room behind the body for the labels of the routine and for its code. -/
def Routine.FitsBehind (services : Services σ) (options : Options) (r : Routine)
    (w : Workspace σ) : Prop :=
  (∃ supply, LabelSupply.continuing w.body.instructions = some supply ∧
      supply.next.toNat + r.labelCount < UInt32.size) ∧
    ∀ order codes, r.LowersTo services options w order codes → w.body.HasRoomFor codes

/-- The blocks of an acceptable routine take the labels that are left to them. -/
lemma lower_takes_labels {locals : LocalTable} {headers : Headers} {order : List BlockId}
    (hcount : headers.count = r.graph.size) (horder : r.graph.order r.entry = .ok order)
    (h : ∀ n ∈ order, (routineScope services options r locals headers).AcceptsBlock r n) :
    ((routineScope services options r locals headers).lower r order).Takes (labelSum r.parts) := by
  rw [← sum_labelsInside (Graph.order_perm horder)]
  exact Scope.lower_takes hcount (fun n hn => (Graph.mem_order horder).mp hn) h

lemma Headers.toNat_rest_add (headers : Headers) (hcount : headers.count = r.graph.size) :
    headers.rest.next.toNat + labelSum r.parts = headers.first.toNat + r.labelCount := by
  rw [Headers.toNat_rest, hcount, Routine.labelCount, Nat.add_assoc]

/-- Without exception frames nothing is asked once the blocks are placed. -/
lemma exists_compile_iff_placed (hframes : r.frames = []) {w : Workspace σ} :
    (∃ w', compile services options r w = .ok () w') ↔
      ∃ placement, compiledPlacement services options r w = some placement := by
  constructor
  · rintro ⟨w', h⟩
    obtain ⟨locals, placement, _, hdeclare, hplace, -, -⟩ := compile_eq_ok h
    exact ⟨placement, compiledPlacement_eq_some hdeclare hplace⟩
  · rintro ⟨placement, h⟩
    obtain ⟨locals, s, hdeclare, hplace⟩ := phases_of_compiledPlacement h
    have hhandlers : FrameScope.handlers ⟨r, placement, services.describe, options.tryEnd⟩ =
        .ok [] := by
      unfold FrameScope.handlers
      rw [hframes]
      rfl
    exact ⟨_, compile_of_phases hdeclare hplace hhandlers⟩

namespace Routine

lemma declarable_iff {locals : LocalTable} :
    (∃ locals', LocalTable.declareAll r.declarations locals = .ok () locals') ↔
      (r.declarations.map Variable.id).Nodup ∧ (∀ v ∈ r.declarations, v.id ∉ locals.ids) ∧
        locals.size + r.declarations.length ≤ slotLimit := by
  rw [LocalTable.exists_declareAll_iff, List.nodup_append']
  constructor
  · rintro ⟨⟨-, hdistinct, hfresh⟩, hroom⟩
    refine ⟨hdistinct, ?_, hroom⟩
    intro v hv hold
    exact hfresh hold (List.mem_map_of_mem hv)
  · rintro ⟨hdistinct, hfresh, hroom⟩
    refine ⟨⟨locals.ids_nodup, hdistinct, ?_⟩, hroom⟩
    intro id hold hnew
    obtain ⟨v, hv, rfl⟩ := List.mem_map.mp hnew
    exact hfresh v hv hold

/-- The rules of the scope are those of the table from before the declarations. -/
lemma rules_of_declareAll {body : MethodBody} {locals : LocalTable} {headers : Headers}
    (hcount : headers.count = r.graph.size)
    (h : LocalTable.declareAll r.declarations body.locals = .ok () locals) :
    (routineScope services options r locals headers).rules = r.rules options body.locals := by
  unfold Routine.rules Scope.rules routineScope
  rw [← LocalTable.declareAll_ids h, hcount]

lemma acceptsBlocks_iff {scope : Scope σ} :
    (∀ n < r.graph.size, scope.AcceptsBlock r n) ↔
      (∀ n, r.graph.FallsToOne n) ∧ ∀ b ∈ r.graph.blocks, ∀ st ∈ b, st.Valid scope.rules := by
  constructor
  · intro h
    constructor
    · intro n t t' ht ht'
      exact (h n (r.graph.edges_inside _ ht).1).2 t t' ht ht'
    · intro b hb
      obtain ⟨n, hn⟩ := List.mem_iff_getElem?.mp hb
      obtain ⟨hlt, -⟩ := List.getElem?_eq_some_iff.mp hn
      exact (h n hlt).1 b hn
  · rintro ⟨hfalls, hstatements⟩ n -
    refine ⟨?_, hfalls n⟩
    intro b hb
    exact hstatements b (List.mem_of_getElem? hb)

/-- A routine that is placed meets the rules. -/
lemma acceptable_of_placed {w : Workspace σ} {placement : Placement}
    (h : compiledPlacement services options r w = some placement) :
    r.Acceptable options w.body.locals := by
  obtain ⟨order, ⟨locals, headers, t, hdeclare, -, hcount, horder, hlower⟩, -⟩ :=
    lowersTo_of_placed h
  obtain ⟨hdistinct, hfresh, hroom⟩ := declarable_iff.mp ⟨locals, hdeclare⟩
  obtain ⟨hentry, hreachable⟩ := Graph.exists_order_iff.mp ⟨order, horder⟩
  obtain ⟨hfalls, hstatements⟩ := acceptsBlocks_iff.mp fun n hn =>
    Scope.acceptsBlocks_of_lower hcount hlower n ((Graph.mem_order horder).mpr hn)
  rw [rules_of_declareAll hcount hdeclare] at hstatements
  exact ⟨hdistinct, hfresh, hroom, hentry, hreachable, hfalls, hstatements⟩

namespace Acceptable

/-- The blocks of an acceptable routine can be ordered, and lowering them fails for lack of labels
only. -/
lemma lower_takes {w : Workspace σ} (h : r.Acceptable options w.body.locals)
    (services : Services σ) :
    ∃ locals order, LocalTable.declareAll r.declarations w.body.locals = .ok () locals ∧
      r.graph.order r.entry = .ok order ∧ ∀ headers : Headers, headers.count = r.graph.size →
        ((routineScope services options r locals headers).lower r order).Takes
          (labelSum r.parts) := by
  obtain ⟨locals, hdeclare⟩ := declarable_iff.mpr ⟨h.distinct, h.fresh, h.room⟩
  obtain ⟨order, horder⟩ := Graph.exists_order_iff.mpr ⟨h.entry, h.reachable⟩
  refine ⟨locals, order, hdeclare, horder, fun headers hcount => ?_⟩
  apply lower_takes_labels hcount horder
  have hrules : (routineScope services options r locals headers).rules =
      r.rules options w.body.locals := rules_of_declareAll hcount hdeclare
  intro n hn
  exact acceptsBlocks_iff.mpr ⟨h.fallThrough, hrules ▸ h.statements⟩ n
    ((Graph.mem_order horder).mp hn)

/-- The labels behind those of an acceptable routine that is lowered. -/
lemma next_eq {w : Workspace σ} (h : r.Acceptable options w.body.locals) {locals : LocalTable}
    {headers : Headers} {order : List BlockId} {codes : List BlockCode} {t : CodeState σ}
    (hdeclare : LocalTable.declareAll r.declarations w.body.locals = .ok () locals)
    (hcount : headers.count = r.graph.size) (horder : r.graph.order r.entry = .ok order)
    (hlower : (routineScope services options r locals headers).lower r order
      ⟨headers.rest, w.services⟩ = .ok codes t) :
    t.supply.next.toNat = headers.first.toNat + r.labelCount := by
  obtain ⟨_, _, hdeclare', horder', htakes⟩ := h.lower_takes services
  cases hdeclare.symm.trans hdeclare'
  cases horder.symm.trans horder'
  rw [(htakes headers hcount).next_eq hlower, headers.toNat_rest_add hcount]

lemma exists_placement_iff {w : Workspace σ} (h : r.Acceptable options w.body.locals) :
    (∃ placement, compiledPlacement services options r w = some placement) ↔
      r.FitsBehind services options w := by
  constructor
  · rintro ⟨placement, hplaced⟩
    refine ⟨?_, fun order codes hcodes => hcodes.exists_placement_iff.mp ⟨placement, hplaced⟩⟩
    obtain ⟨order, ⟨locals, headers, t, hdeclare, hlabels, hcount, horder, hlower⟩, -⟩ :=
      lowersTo_of_placed hplaced
    refine ⟨⟨headers.first⟩, hlabels, ?_⟩
    rw [← h.next_eq hdeclare hcount horder hlower]
    exact t.supply.next.toNat_lt
  · rintro ⟨⟨supply, hsupply, hlabels⟩, hroom⟩
    obtain ⟨locals, order, hdeclare, horder, htakes⟩ := h.lower_takes services
    have hfits : supply.next.toNat + r.graph.size < UInt32.size := by
      unfold labelCount at hlabels
      omega
    let headers : Headers := ⟨supply.next, r.graph.size, hfits⟩
    rw [← Headers.toNat_rest_add headers rfl] at hlabels
    obtain ⟨codes, t, hlower, -⟩ := (htakes headers rfl ⟨headers.rest, w.services⟩).1 hlabels
    have hlowers : r.LowersTo services options w order codes :=
      ⟨locals, headers, t, hdeclare, hsupply, rfl, horder, hlower⟩
    exact hlowers.exists_placement_iff.mpr (hroom order codes hlowers)

lemma overflows {w : Workspace σ} (h : r.Acceptable options w.body.locals)
    (hfits : ¬ r.FitsBehind services options w) :
    ∃ w', compile services options r w = .error .overflow w' := by
  obtain ⟨locals, order, hdeclare, horder, htakes⟩ := h.lower_takes services
  refine compile_overflows hdeclare horder ?_ (mt h.exists_placement_iff.mp hfits)
  intro headers hcount _ f t herror
  exact (htakes headers hcount).error_eq_overflow herror

end Acceptable

end Routine

/-- A routine without exception frames is compiled exactly when it is acceptable and fits behind the
body. An acceptable one that does not fit overflows. -/
theorem exists_compile_iff_acceptable (services : Services σ) (options : Options) (r : Routine)
    (hframes : r.frames = []) (w : Workspace σ) :
    ((∃ w', compile services options r w = .ok () w') ↔
      r.Acceptable options w.body.locals ∧ r.FitsBehind services options w) ∧
    (r.Acceptable options w.body.locals → ¬ r.FitsBehind services options w →
      ∃ w', compile services options r w = .error .overflow w') := by
  refine ⟨?_, Routine.Acceptable.overflows⟩
  rw [exists_compile_iff_placed hframes]
  constructor
  · rintro ⟨placement, hplaced⟩
    have hacceptable := Routine.acceptable_of_placed hplaced
    exact ⟨hacceptable, hacceptable.exists_placement_iff.mp ⟨placement, hplaced⟩⟩
  · rintro ⟨hacceptable, hfits⟩
    exact hacceptable.exists_placement_iff.mpr hfits

/-- The loop is acceptable, and no longer so when the variable that it assigns is not declared. -/
theorem unboxLoop_acceptable : unboxLoop.frames = [] ∧
    (unboxLoop.Acceptable {} .empty ∧ unboxLoop.FitsBehind plainServices {} ⟨{}, ()⟩) ∧
    ¬ ∃ w', compile plainServices {} { unboxLoop with declarations := [] } ⟨{}, ()⟩ =
      .ok () w' := by
  refine ⟨rfl, (exists_compile_iff_acceptable plainServices {} unboxLoop rfl ⟨{}, ()⟩).1.mp
    ⟨_, rfl⟩, ?_⟩
  rw [(exists_compile_iff_acceptable plainServices {} _ rfl _).1]
  rintro ⟨h, -⟩
  have hassigned := (h.statements _ List.mem_cons_self _ List.mem_cons_self).target ⟨0⟩ rfl
  cases hassigned

/-- One block that returns. -/
def plainReturn : Routine where
  declarations := []
  graph := {
    blocks := [[.expression (.instruction [{ opcode := .ret }] [] none .void)]]
    edges := []
    edges_inside := by decide }
  entry := 0
  frames := []
  returnsValue := false

/-- A body that is used up to an offset. -/
def bodyUpTo (offset : UInt32) : MethodBody where
  instructions := [{ opcode := .nop, offset }]

/-- The offset behind the two instructions of the routine does not exist. -/
theorem plainReturn_overflows : plainReturn.frames = [] ∧
    plainReturn.Acceptable {} (bodyUpTo 4294967293).locals ∧
    ∃ w', compile plainServices {} plainReturn ⟨bodyUpTo 4294967293, ()⟩ = .error .overflow w' := by
  refine ⟨rfl, ?_, _, rfl⟩
  obtain ⟨placement, hplaced⟩ :
      ∃ placement, compiledPlacement plainServices {} plainReturn ⟨{}, ()⟩ = some placement :=
    ⟨_, rfl⟩
  exact Routine.acceptable_of_placed hplaced

end CilBackend
