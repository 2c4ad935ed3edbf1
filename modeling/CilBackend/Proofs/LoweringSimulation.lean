import CilBackend.Proofs.Relocation

/-!
# Simulation of lowering

One run of lowering can follow another one in a different scope. The code that it makes is the code
of the other run with labels and slots moved, provided that the scopes agree up to this shift, that
the services answer alike and that the moved labels and offsets exist. Where they do not, it
overflows. `CodeM.Follows` says so of a step, and its rules carry it from expressions up to whole
placements.
-/

namespace CilBackend

variable {σ τ : Type}

/-- The request with the code in it renamed. -/
def FlagRequest.rename (d : Shift) : FlagRequest → FlagRequest
  | unary argument template mask hasResult =>
    unary (argument.map (Instruction.rename d)) (template.map (Instruction.rename d)) mask hasResult
  | binary left right template mask inverted hasResult =>
    binary (left.map (Instruction.rename d)) (right.map (Instruction.rename d))
      (template.map (Instruction.rename d)) mask inverted hasResult

@[simp] lemma FlagRequest.rename_zero (request : FlagRequest) : request.rename .zero = request := by
  have hrename : Instruction.rename .zero = id := funext Instruction.rename_zero
  cases request with
  | unary argument template mask hasResult =>
    rw [FlagRequest.rename, hrename, List.map_id, List.map_id]
  | binary left right template mask inverted hasResult =>
    rw [FlagRequest.rename, hrename, List.map_id, List.map_id, List.map_id]

/-- Importing gives the same method in states that agree, and states that agree again. -/
def Services.ImportAlike (services : Services σ) (services' : Services τ)
    (Agree : σ → τ → Prop) : Prop :=
  ∀ m s t, Agree s t → (services'.importMethod m t).1 = (services.importMethod m s).1 ∧
    Agree (services.importMethod m s).2 (services'.importMethod m t).2

/-- Renaming the code in a request renames the code in the answer, in states that agree, and the
states agree again. -/
def Services.ExpandAlike (d : Shift) (services : Services σ) (services' : Services τ)
    (Agree : σ → τ → Prop) : Prop :=
  services'.flagMask = services.flagMask ∧ ∀ request s t, Agree s t →
    (services'.expandFlags (request.rename d) t).1 =
        (services.expandFlags request s).1.map (Instruction.rename d) ∧
      Agree (services.expandFlags request s).2 (services'.expandFlags (request.rename d) t).2

/-- The second scope is the first one with its header labels and slots moved by `d`, and it makes no
check that the first one leaves out. -/
structure Scope.Simulates (d : Shift) (scope : Scope σ) (scope' : Scope τ)
    (Agree : σ → τ → Prop) : Prop where
  first : scope'.headers.first = scope.headers.first + d.label
  count : scope'.headers.count = scope.headers.count
  slot : ∀ id slot, scope.locals.slot? id = some slot →
    scope'.locals.slot? id = some (slot + d.slot)
  checkNet : scope'.checkNet = true → scope.checkNet = true
  returnsValue : scope'.returnsValue = scope.returnsValue
  imports : scope.services.ImportAlike scope'.services Agree

/-- The template of the expression stays as it is when code is renamed, and its flags, if it updates
any, are expanded alike. -/
def Expr.Movable (d : Shift) (services : Services σ) (services' : Services τ)
    (Agree : σ → τ → Prop) (e : Expr) : Prop :=
  (∀ i ∈ e.template, i.rename d = i) ∧
    (e.flags ≠ none → services.ExpandAlike d services' Agree)

/-- The unused labels are moved by `d`, and the services agree. -/
structure CodeState.Moved (d : Shift) (Agree : σ → τ → Prop) (s : CodeState σ)
    (t : CodeState τ) : Prop where
  supply : t.supply.next.toNat = s.supply.next.toNat + d.label.toNat
  services : Agree s.services t.services

/-- Moved by `d`, the unused labels would start beyond the last one. -/
def CodeState.Exceeds (d : Shift) (s : CodeState σ) : Prop :=
  UInt32.size ≤ s.supply.next.toNat + d.label.toNat

/-! ## Steps that follow each other -/

/-- Where the first computation succeeds, the second one does so from moved states, with the moved
result, unless the labels for it do not exist. -/
def CodeM.Follows {α β : Type} (d : Shift) (Agree : σ → τ → Prop) (move : α → β) (x : CodeM σ α)
    (y : CodeM τ β) : Prop :=
  ∀ s a s', x s = .ok a s' → s.supply.next ≤ s'.supply.next ∧ ∀ t, s.Moved d Agree t →
    (∃ t', y t = .ok (move a) t' ∧ s'.Moved d Agree t') ∨
      (s'.Exceeds d ∧ ∃ t', y t = .error .overflow t')

namespace CodeM.Follows

variable {α β γ δ : Type} {d : Shift} {Agree : σ → τ → Prop}

lemma pure (move : α → β) (a : α) : Follows d Agree move (Pure.pure a) (Pure.pure (move a)) := by
  intro s b s' h
  obtain ⟨rfl, rfl⟩ := run_pure_eq_ok.mp h
  exact ⟨UInt32.le_refl _, fun t hst => Or.inl ⟨t, rfl, hst⟩⟩

lemma bind {move : α → β} {move' : γ → δ} {x : CodeM σ α} {y : CodeM τ β} {f : α → CodeM σ γ}
    {g : β → CodeM τ δ} (hx : Follows d Agree move x y)
    (hf : ∀ a, Follows d Agree move' (f a) (g (move a))) :
    Follows d Agree move' (x >>= f) (y >>= g) := by
  intro s c s'' h
  obtain ⟨a, s', ha, hc⟩ := run_bind_eq_ok.mp h
  obtain ⟨hle, hfollow⟩ := hx s a s' ha
  obtain ⟨hle', hfollow'⟩ := hf a s' c s'' hc
  refine ⟨UInt32.le_trans hle hle', fun t hst => ?_⟩
  rcases hfollow t hst with ⟨t', hy, hst'⟩ | ⟨hexceeds, t', hy⟩
  · rcases hfollow' t' hst' with ⟨t'', hg, hst''⟩ | ⟨hexceeds, t'', hg⟩
    · exact Or.inl ⟨t'', run_bind_eq_ok.mpr ⟨_, t', hy, hg⟩, hst''⟩
    · exact Or.inr ⟨hexceeds, t'', run_bind_eq_error.mpr (Or.inr ⟨_, t', hy, hg⟩)⟩
  · -- Once the labels are used up, those that follow do not exist either.
    refine Or.inr ⟨?_, t', run_bind_eq_error.mpr (Or.inl hy)⟩
    rw [UInt32.le_iff_toNat_le] at hle'
    unfold CodeState.Exceeds at hexceeds ⊢
    omega

lemma ofExcept (move : α → β) {x : Except Failure α} {y : Except Failure β}
    (h : ∀ a, x = .ok a → y = .ok (move a)) :
    Follows d Agree move (CodeM.ofExcept x) (CodeM.ofExcept y) := by
  intro s a s' hrun
  obtain ⟨ha, rfl⟩ := ofExcept_eq_ok.mp hrun
  exact ⟨UInt32.le_refl _, fun t hst => Or.inl ⟨t, ofExcept_eq_ok.mpr ⟨h a ha, rfl⟩, hst⟩⟩

/-- Nothing has to follow a step that fails. -/
lemma throw (move : α → β) (f : Failure) (y : CodeM τ β) :
    Follows d Agree move (MonadExcept.throw f) y := by
  intro s a s' h
  cases h

lemma freshLabel :
    Follows d Agree (Label.shift d) (CodeM.freshLabel (σ := σ)) (CodeM.freshLabel (σ := τ)) := by
  rintro ⟨⟨next⟩, state⟩ l s' h
  obtain ⟨hfits, rfl, rfl⟩ := Scope.freshLabel_eq_ok.mp h
  have hnext := Scope.toNat_add_one hfits
  refine ⟨UInt32.le_iff_toNat_le.mpr (by dsimp only; omega), ?_⟩
  rintro ⟨⟨next'⟩, state'⟩ ⟨hsupply, hagree⟩
  dsimp only at hsupply
  have hlabel : next' = next + d.label := eq_add_of_toNat_eq hsupply
  rw [Scope.freshLabel_eq]
  by_cases hroom : next'.toNat + 1 < UInt32.size
  · have hnext' := Scope.toNat_add_one hroom
    have hshift : Label.shift d ⟨next⟩ = ⟨next'⟩ := by rw [Label.shift, hlabel]
    rw [if_pos hroom, hshift]
    refine Or.inl ⟨_, rfl, ?_, hagree⟩
    dsimp only
    omega
  · refine Or.inr ⟨?_, _, if_neg hroom⟩
    unfold CodeState.Exceeds
    dsimp only
    omega

end CodeM.Follows

namespace Scope

variable {d : Shift} {scope : Scope σ} {scope' : Scope τ} {Agree : σ → τ → Prop}

/-! ## Templates -/

lemma Simulates.label? (h : scope.Simulates d scope' Agree) {n : BlockId} {l : Label}
    (hl : scope.headers.label? n = some l) : scope'.headers.label? n = some (l.shift d) := by
  unfold Headers.label? at hl ⊢
  rw [h.count, h.first]
  split_ifs at hl ⊢ with hn
  · cases hl
    unfold Label.shift
    rw [UInt32.add_assoc, UInt32.add_comm d.label, ← UInt32.add_assoc]

lemma Simulates.header (h : scope.Simulates d scope' Agree) {n : BlockId} {l : Label}
    (hl : scope.header n = .ok l) : scope'.header n = .ok (l.shift d) := by
  rw [header_eq_ok] at hl ⊢
  exact h.label? hl

lemma Simulates.resolve (h : scope.Simulates d scope' Agree) {node node' : SyntaxNode}
    {i j : Instruction} (hj : scope.resolve node i = .ok j) (hi : i.rename d = i) :
    scope'.resolve node' i = .ok (j.rename d) := by
  obtain ⟨hcheck, operand, hoperand, rfl⟩ := resolve_eq_ok.mp hj
  have hlabel : i.label.map (Label.shift d) = i.label := congrArg Instruction.label hi
  have hshift : i.operand.shift d = i.operand := congrArg Instruction.operand hi
  refine resolve_eq_ok.mpr ⟨by rw [h.count, hcheck], operand.shift d, ?_, ?_⟩
  · cases hcase : i.operand with
    | block target =>
      rw [hcase] at hoperand
      obtain ⟨l, hl, heq⟩ := except_bind_eq_ok.mp hoperand
      cases heq
      exact except_bind_eq_ok.mpr ⟨l.shift d, h.header hl, rfl⟩
    | blockTable targets =>
      rw [hcase] at hoperand
      obtain ⟨labels, hlabels, heq⟩ := except_bind_eq_ok.mp hoperand
      cases heq
      refine except_bind_eq_ok.mpr ⟨labels.map (Label.shift d), ?_, rfl⟩
      rw [except_mapM_eq_ok] at hlabels ⊢
      rw [List.forall₂_map_right_iff]
      exact hlabels.imp fun _ _ hl => h.header hl
    | var id =>
      rw [hcase] at hoperand
      obtain ⟨slot, hslot, heq⟩ := except_bind_eq_ok.mp hoperand
      cases heq
      have hmoved := h.slot id slot (slot_eq_ok.mp hslot)
      exact except_bind_eq_ok.mpr ⟨slot + d.slot, slot_eq_ok.mpr hmoved, rfl⟩
    | _ =>
      rw [hcase] at hoperand hshift
      cases hoperand
      rw [hshift]
      rfl
  · unfold Instruction.rename
    rw [hlabel]

lemma Simulates.resolveTemplate (h : scope.Simulates d scope' Agree) {node node' : SyntaxNode}
    {template resolved : List Instruction}
    (hresolved : scope.resolveTemplate node template = .ok resolved)
    (htemplate : ∀ i ∈ template, i.rename d = i) :
    scope'.resolveTemplate node' template = .ok (resolved.map (Instruction.rename d)) := by
  unfold Scope.resolveTemplate at hresolved ⊢
  rw [except_mapM_eq_ok] at hresolved ⊢
  rw [List.forall₂_map_right_iff]
  induction hresolved with
  | nil => exact List.Forall₂.nil
  | cons hhead _ ih =>
    rw [List.forall_mem_cons] at htemplate
    exact List.Forall₂.cons (h.resolve hhead htemplate.1) (ih htemplate.2)

lemma Simulates.checkTemplate (h : scope.Simulates d scope' Agree) {node node' : SyntaxNode}
    {initial expected : Int} {template : List Instruction}
    (hcheck : scope.checkTemplate node initial expected template = .ok ()) :
    scope'.checkTemplate node' initial expected (template.map (Instruction.rename d)) = .ok () := by
  rw [checkTemplate_eq_ok] at hcheck ⊢
  obtain ⟨depth, g, hdepth, hrun, hnet⟩ := hcheck
  refine ⟨depth, g, hdepth, ?_, fun hcheck' => hnet (h.checkNet hcheck')⟩
  rw [h.returnsValue]
  unfold StackGauge.run at hrun ⊢
  rw [StackGauge.runFrom_rename]
  exact hrun

/-! ## Expressions -/

lemma Simulates.importHelper (h : scope.Simulates d scope' Agree) (helper : HelperMethod) :
    CodeM.Follows d Agree id (scope.importHelper helper) (scope'.importHelper helper) := by
  rintro ⟨supply, state⟩ method s' hrun
  cases hrun
  refine ⟨UInt32.le_refl _, ?_⟩
  rintro ⟨supply', state'⟩ ⟨hsupply, hagree⟩
  obtain ⟨hmethod, hagree'⟩ := h.imports helper.reference state state' hagree
  refine Or.inl ⟨⟨supply', (scope'.services.importMethod helper.reference state').2⟩, ?_,
    hsupply, hagree'⟩
  unfold Scope.importHelper
  dsimp only
  rw [hmethod]
  rfl

lemma expandFlags_follows (h : scope.services.ExpandAlike d scope'.services Agree)
    (request : FlagRequest) :
    CodeM.Follows d Agree (List.map (Instruction.rename d)) (scope.expandFlags request)
      (scope'.expandFlags (request.rename d)) := by
  rintro ⟨supply, state⟩ code s' hrun
  cases hrun
  refine ⟨UInt32.le_refl _, ?_⟩
  rintro ⟨supply', state'⟩ ⟨hsupply, hagree⟩
  obtain ⟨hcode, hagree'⟩ := h.2 request state state' hagree
  refine Or.inl ⟨⟨supply', (scope'.services.expandFlags (request.rename d) state').2⟩, ?_,
    hsupply, hagree'⟩
  unfold Scope.expandFlags
  dsimp only
  rw [hcode]

lemma Simulates.conversion (h : scope.Simulates d scope' Agree) (node node' : SyntaxNode)
    (target : Signature) :
    CodeM.Follows d Agree (List.map (Instruction.rename d)) (scope.conversion node target)
      (scope'.conversion node' target) := by
  unfold Scope.conversion
  refine (h.importHelper _).bind fun convert => ?_
  split_ifs
  · refine CodeM.Follows.freshLabel.bind fun nonNull => CodeM.Follows.freshLabel.bind fun done =>
      (h.importHelper _).bind fun getType => ?_
    exact CodeM.Follows.pure (List.map (Instruction.rename d)) _
  · cases target.typeName? with
    | none => exact CodeM.Follows.throw _ _ _
    | some type =>
      refine (h.importHelper _).bind fun fromHandle => ?_
      exact CodeM.Follows.pure (List.map (Instruction.rename d)) _

/-- Lowering an expression, or a list of them, is followed in the second scope. -/
theorem exprCode_follows (h : scope.Simulates d scope' Agree) :
    (∀ e, (∀ x ∈ e.parts, x.Movable d scope.services scope'.services Agree) →
      CodeM.Follows d Agree (List.map (Instruction.rename d)) (scope.exprCode e)
        (scope'.exprCode e)) ∧
    ∀ es, (∀ x ∈ Expr.partsOfAll es, x.Movable d scope.services scope'.services Agree) →
      CodeM.Follows d Agree (List.map (List.map (Instruction.rename d))) (scope.exprCodes es)
        (scope'.exprCodes es) := by
  apply Scope.exprCode.mutual_induct
    (fun e => (∀ x ∈ e.parts, x.Movable d scope.services scope'.services Agree) →
      CodeM.Follows d Agree (List.map (Instruction.rename d)) (scope.exprCode e)
        (scope'.exprCode e))
    (fun es => (∀ x ∈ Expr.partsOfAll es, x.Movable d scope.services scope'.services Agree) →
      CodeM.Follows d Agree (List.map (List.map (Instruction.rename d))) (scope.exprCodes es)
        (scope'.exprCodes es))
  · -- a variable
    intro id type _
    rw [Scope.exprCode, Scope.exprCode]
    refine (CodeM.Follows.ofExcept (· + d.slot) fun slot hslot => ?_).bind fun slot => ?_
    · exact slot_eq_ok.mpr (h.slot id slot (slot_eq_ok.mp hslot))
    · exact CodeM.Follows.pure (List.map (Instruction.rename d)) _
  · -- an unboxed value
    intro value target type ih hparts
    rw [Scope.exprCode, Scope.exprCode]
    refine (ih fun x hx => hparts x (List.mem_cons_of_mem _ hx)).bind fun code =>
      (h.conversion _ _ target).bind fun conversion => ?_
    rw [← List.map_append]
    exact CodeM.Follows.pure (List.map (Instruction.rename d)) _
  · -- a template on its arguments
    intro template arguments type ih hparts
    have hself := hparts _ (Expr.self_mem_parts _)
    rw [Scope.exprCode, Scope.exprCode]
    refine (ih fun x hx => hparts x (List.mem_cons_of_mem _ hx)).bind fun codes => ?_
    refine (CodeM.Follows.ofExcept _ fun resolved hresolved =>
      h.resolveTemplate hresolved hself.1).bind fun resolved => ?_
    refine (CodeM.Follows.ofExcept id fun _ hcheck =>
      h.checkTemplate hcheck).bind fun _ => ?_
    rw [← List.map_flatten, ← List.map_append]
    exact CodeM.Follows.pure (List.map (Instruction.rename d)) _
  · -- a flag update with one argument
    intro template argument update type ih hparts
    have hself := hparts _ (Expr.self_mem_parts _)
    have hexpand := hself.2 (Option.some_ne_none update)
    rw [Scope.exprCode, Scope.exprCode, hexpand.1]
    refine (CodeM.Follows.ofExcept _ fun resolved hresolved =>
      h.resolveTemplate hresolved hself.1).bind fun resolved => ?_
    refine (ih fun x hx => hparts x (List.mem_cons_of_mem _ ?_)).bind fun code =>
      expandFlags_follows hexpand (.unary code resolved _ _)
    rw [Expr.inner, Expr.partsOfAll_cons]
    exact List.mem_append_left _ hx
  · -- a flag update with two arguments
    intro template left right update type ihl ihr hparts
    have hself := hparts _ (Expr.self_mem_parts _)
    have hexpand := hself.2 (Option.some_ne_none update)
    have hinner : ∀ x, x ∈ left.parts ∨ x ∈ right.parts →
        x.Movable d scope.services scope'.services Agree := by
      intro x hx
      apply hparts x (List.mem_cons_of_mem _ _)
      rw [Expr.inner, Expr.partsOfAll_cons, Expr.partsOfAll_cons, List.mem_append,
        List.mem_append]
      tauto
    rw [Scope.exprCode, Scope.exprCode, hexpand.1]
    refine (CodeM.Follows.ofExcept _ fun resolved hresolved =>
      h.resolveTemplate hresolved hself.1).bind fun resolved => ?_
    exact (ihl fun x hx => hinner x (Or.inl hx)).bind fun code =>
      (ihr fun x hx => hinner x (Or.inr hx)).bind fun code' =>
        expandFlags_follows hexpand (.binary code code' resolved _ _ _)
  · -- a flag update with any other number of arguments fails
    intro template arguments update type hone htwo _ s code s' hrun
    rw [Scope.exprCode, run_bind_eq_ok] at hrun
    · obtain ⟨resolved, t, -, hrun⟩ := hrun
      cases hrun
    · exact hone
    · exact htwo
  · intro _
    rw [Scope.exprCodes, Scope.exprCodes]
    exact CodeM.Follows.pure (List.map (List.map (Instruction.rename d))) _
  · intro e rest ihe ihrest hparts
    rw [Expr.partsOfAll_cons] at hparts
    rw [Scope.exprCodes, Scope.exprCodes]
    refine (ihe fun x hx => hparts x (List.mem_append_left _ hx)).bind fun code =>
      (ihrest fun x hx => hparts x (List.mem_append_right _ hx)).bind fun codes => ?_
    exact CodeM.Follows.pure (List.map (List.map (Instruction.rename d))) _

/-! ## Blocks and placements -/

lemma statementCode_follows (h : scope.Simulates d scope' Agree) (st : Statement)
    (hparts : ∀ x ∈ st.value.parts, x.Movable d scope.services scope'.services Agree) :
    CodeM.Follows d Agree (List.map (Instruction.rename d)) (scope.statementCode st)
      (scope'.statementCode st) := by
  cases st with
  | expression value => exact (exprCode_follows h).1 value hparts
  | assignment target value =>
    unfold Scope.statementCode
    refine (CodeM.Follows.ofExcept (· + d.slot) fun slot hslot => ?_).bind fun slot => ?_
    · exact slot_eq_ok.mpr (h.slot target slot (slot_eq_ok.mp hslot))
    · refine ((exprCode_follows h).1 value hparts).bind fun code => ?_
      have hmoved : CodeM.Follows d Agree (List.map (Instruction.rename d))
          (pure (code ++ [{ opcode := .stloc, operand := .slot slot }])) _ :=
        CodeM.Follows.pure _ _
      rw [List.map_append] at hmoved
      exact hmoved

lemma statementCodes_follows (h : scope.Simulates d scope' Agree) {b : Block}
    (hparts : ∀ x ∈ Block.parts b, x.Movable d scope.services scope'.services Agree) :
    CodeM.Follows d Agree (List.map (List.map (Instruction.rename d))) (scope.statementCodes b)
      (scope'.statementCodes b) := by
  induction b with
  | nil => exact CodeM.Follows.pure (List.map (List.map (Instruction.rename d))) _
  | cons st rest ih =>
    unfold Block.parts at hparts ih
    rw [List.flatMap_cons, List.forall_mem_append] at hparts
    refine (statementCode_follows h st hparts.1).bind fun code =>
      (ih hparts.2).bind fun codes => ?_
    exact CodeM.Follows.pure (List.map (List.map (Instruction.rename d))) _

variable {r : Routine}

lemma Simulates.fallThroughJump (h : scope.Simulates d scope' Agree) {n : BlockId}
    {next : Option BlockId} {jump : Option Instruction}
    (hrun : scope.fallThroughJump r n next = .ok jump) :
    scope'.fallThroughJump r n next = .ok (jump.map (Instruction.rename d)) := by
  unfold Scope.fallThroughJump
  obtain ⟨hnone, rfl⟩ | ⟨target, htarget, ⟨hnext, rfl⟩ | ⟨hnext, label, hlabel, rfl⟩⟩ :=
    fallThroughJump_eq_ok hrun
  · rw [hnone]
    rfl
  · rw [htarget]
    dsimp only
    rw [if_pos hnext]
    rfl
  · rw [htarget]
    dsimp only
    rw [if_neg hnext]
    exact except_bind_eq_ok.mpr ⟨label.shift d, h.header (header_eq_ok.mpr hlabel), rfl⟩

lemma blockCode_follows (h : scope.Simulates d scope' Agree) (n : BlockId) (next : Option BlockId)
    (hparts : ∀ x ∈ r.parts, x.Movable d scope.services scope'.services Agree) :
    CodeM.Follows d Agree (BlockCode.rename d) (scope.blockCode r n next)
      (scope'.blockCode r n next) := by
  unfold Scope.blockCode
  refine (CodeM.Follows.ofExcept _ fun header hheader => h.header hheader).bind fun header => ?_
  cases hblock : r.graph.blocks[n]? with
  | none => exact CodeM.Follows.throw _ _ _
  | some statements =>
    refine (statementCodes_follows h fun x hx =>
      hparts x (Routine.mem_parts_of_block hblock hx)).bind fun codes => ?_
    refine (CodeM.Follows.ofExcept _ fun jump hjump => h.fallThroughJump hjump).bind fun jump => ?_
    exact CodeM.Follows.pure (BlockCode.rename d) _

/-- Placing the blocks of a routine is followed in the second scope further on, unless the labels or
the offsets for it do not exist. -/
theorem place_follows (h : scope.Simulates d scope' Agree)
    (hparts : ∀ x ∈ r.parts, x.Movable d scope.services scope'.services Agree)
    {order : List BlockId} {position : Nat} {start : UInt32} {s s' : CodeState σ}
    {placement : Placement} (hrun : scope.place r order position start s = .ok placement s') :
    s.supply.next ≤ s'.supply.next ∧
      ∀ start' t, start'.toNat = start.toNat + d.offset.toNat → s.Moved d Agree t →
        (∃ placement' t', scope'.place r order position start' t = .ok placement' t' ∧
          placement.MovesTo d placement' ∧ s'.Moved d Agree t') ∨
        ((s'.Exceeds d ∨
            UInt32.size ≤ start.toNat + codeSize placement.rawCode + d.offset.toNat) ∧
          ∃ t', scope'.place r order position start' t = .error .overflow t') := by
  induction order generalizing position start s placement with
  | nil =>
    obtain ⟨rfl, rfl⟩ := place_nil_eq_ok hrun
    exact ⟨UInt32.le_refl _, fun start' t _ hst => Or.inl ⟨[], t, rfl, .nil, hst⟩⟩
  | cons n rest ih =>
    obtain ⟨p, u, following, rfl, rfl, rfl, hcode, hrest, rfl⟩ := place_cons_eq_ok hrun
    obtain ⟨hle, hfollow⟩ := blockCode_follows h p.block rest.head? hparts s p.code u hcode
    obtain ⟨hle', hfollow'⟩ := ih hrest
    have hstop := p.stop_eq
    refine ⟨UInt32.le_trans hle hle', fun start' t hstart hst => ?_⟩
    rw [Placement.rawCode_cons, codeSize_append, Scope.place]
    rcases hfollow t hst with ⟨t', hcode', hut⟩ | ⟨hexceeds, t', hcode'⟩
    · cases hemit : PlacedBlock.emit p.block p.position start' (p.code.rename d) with
      | none =>
        have hsize := PlacedBlock.emit_eq_none.mp hemit
        rw [BlockCode.instructions_rename, codeSize_rename] at hsize
        refine Or.inr ⟨Or.inr (by omega), t', run_bind_eq_error.mpr (Or.inr ⟨_, t', hcode', ?_⟩)⟩
        rw [hemit]
        rfl
      | some q =>
        obtain ⟨hblock, hposition, rfl, hmoved⟩ := PlacedBlock.emit_eq_some.mp hemit
        have hpq : p.MovesTo d q := ⟨hblock, hposition, hstart, hmoved⟩
        rcases hfollow' q.stop t' hpq.stop hut with ⟨placement', t'', hrest', hall, hlast⟩ |
          ⟨hexceeds, t'', hrest'⟩
        · refine Or.inl ⟨q :: placement', t'', run_bind_eq_ok.mpr ⟨_, t', hcode', ?_⟩,
            .cons hpq hall, hlast⟩
          rw [hemit]
          exact run_bind_eq_ok.mpr ⟨placement', t'', hrest', rfl⟩
        · refine Or.inr ⟨hexceeds.imp id (by omega), t'',
            run_bind_eq_error.mpr (Or.inr ⟨_, t', hcode', ?_⟩)⟩
          rw [hemit]
          exact run_bind_eq_error.mpr (Or.inl hrest')
    · refine Or.inr ⟨Or.inl ?_, t', run_bind_eq_error.mpr (Or.inl hcode')⟩
      rw [UInt32.le_iff_toNat_le] at hle'
      unfold CodeState.Exceeds at hexceeds ⊢
      omega

/-- Where nothing is moved, all labels and offsets exist and the placements are the same. -/
lemma place_of_simulates_zero (h : scope.Simulates .zero scope' Agree)
    (hparts : ∀ x ∈ r.parts, x.Movable .zero scope.services scope'.services Agree)
    {order : List BlockId} {position : Nat} {start : UInt32} {s s' : CodeState σ}
    {placement : Placement} (hrun : scope.place r order position start s = .ok placement s')
    {t : τ} (hagree : Agree s.services t) :
    ∃ t', scope'.place r order position start ⟨s.supply, t⟩ = .ok placement t' ∧
      Agree s'.services t'.services := by
  rcases (place_follows h hparts hrun).2 start ⟨s.supply, t⟩ rfl ⟨rfl, hagree⟩ with
    ⟨placement', t', hrun', hmoves, hlast⟩ | ⟨hlarge | hlarge, -⟩
  · rw [hmoves.zero] at hrun'
    exact ⟨t', hrun', hlast.services⟩
  · exact absurd s'.supply.next.toNat_lt (Nat.not_lt.mpr hlarge)
  · exact absurd (place_codeSize_lt hrun) (Nat.not_lt.mpr hlarge)

end Scope

end CilBackend
