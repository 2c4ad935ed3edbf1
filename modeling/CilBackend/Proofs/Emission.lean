import CilBackend.Proofs.Offsets

/-!
# Lowering and emission

Blocks are lowered and emitted one after the other. Lowering alone, without the offsets, gives the
same code: a placement comes about exactly when all blocks are lowered and the offset behind their
code exists. So a routine whose blocks are lowered is placed or overflows.
-/

namespace CilBackend

variable {σ : Type}

/-- The code of all blocks in order, without its offsets. -/
def Scope.lower (scope : Scope σ) (r : Routine) : List BlockId → CodeM σ (List BlockCode)
  | [] => pure []
  | block :: rest => do
    let code ← scope.blockCode r block rest.head?
    let following ← scope.lower r rest
    return code :: following

/-- The size of the code of all blocks. -/
def loweredSize (codes : List BlockCode) : Nat :=
  codeSize (codes.flatMap BlockCode.instructions)

@[simp] lemma loweredSize_cons (code : BlockCode) (rest : List BlockCode) :
    loweredSize (code :: rest) = codeSize code.instructions + loweredSize rest := by
  rw [loweredSize, List.flatMap_cons, codeSize_append, loweredSize]

lemma loweredSize_placed (placement : Placement) :
    loweredSize (placement.map PlacedBlock.code) = codeSize placement.rawCode := by
  rw [loweredSize, List.flatMap_map]
  rfl

namespace Scope

variable {scope : Scope σ} {r : Routine} {order : List BlockId} {position : Nat} {start : UInt32}
  {s s' : CodeState σ}

lemma lower_cons_eq_ok {n : BlockId} {codes : List BlockCode} :
    scope.lower r (n :: order) s = .ok codes s' ↔
      ∃ code t following, scope.blockCode r n order.head? s = .ok code t ∧
        scope.lower r order t = .ok following s' ∧ codes = code :: following := by
  rw [Scope.lower, run_bind_eq_ok]
  constructor
  · rintro ⟨code, t, hcode, h⟩
    obtain ⟨following, u, hrest, h⟩ := run_bind_eq_ok.mp h
    obtain ⟨rfl, rfl⟩ := run_pure_eq_ok.mp h
    exact ⟨code, t, following, hcode, hrest, rfl⟩
  · rintro ⟨code, t, following, hcode, hrest, rfl⟩
    exact ⟨code, t, hcode, run_bind_eq_ok.mpr ⟨following, s', hrest, rfl⟩⟩

/-- What is placed has been lowered. -/
lemma lower_of_place {placement : Placement}
    (h : scope.place r order position start s = .ok placement s') :
    scope.lower r order s = .ok (placement.map PlacedBlock.code) s' := by
  induction order generalizing position start s placement with
  | nil =>
    obtain ⟨rfl, rfl⟩ := place_nil_eq_ok h
    rfl
  | cons n rest ih =>
    obtain ⟨p, t, following, -, -, -, hcode, hrest, rfl⟩ := place_cons_eq_ok h
    exact lower_cons_eq_ok.mpr ⟨p.code, t, _, hcode, ih hrest, rfl⟩

/-- Lowered blocks are placed when the offset behind them exists. -/
lemma exists_place_of_lower {codes : List BlockCode}
    (h : scope.lower r order s = .ok codes s')
    (hfits : start.toNat + loweredSize codes < UInt32.size) :
    ∃ placement, scope.place r order position start s = .ok placement s' := by
  induction order generalizing position start s codes with
  | nil =>
    obtain ⟨-, rfl⟩ := run_pure_eq_ok.mp h
    exact ⟨[], rfl⟩
  | cons n rest ih =>
    obtain ⟨code, t, following, hcode, hrest, rfl⟩ := lower_cons_eq_ok.mp h
    rw [loweredSize_cons] at hfits
    cases hemit : PlacedBlock.emit n position start code with
    | none =>
      have hlarge := PlacedBlock.emit_eq_none.mp hemit
      omega
    | some p =>
      obtain ⟨-, -, hstart, hpcode⟩ := PlacedBlock.emit_eq_some.mp hemit
      have hstop := p.stop_eq
      rw [hstart, hpcode] at hstop
      obtain ⟨placement, hplace⟩ :
          ∃ placement, scope.place r rest (position + 1) p.stop t = .ok placement s' :=
        ih hrest (by omega)
      refine ⟨p :: placement, run_bind_eq_ok.mpr ⟨code, t, hcode, ?_⟩⟩
      rw [hemit]
      exact run_bind_eq_ok.mpr ⟨placement, s', hplace, rfl⟩

/-- Where lowering succeeds or overflows, placing can go wrong by an overflow only. -/
lemma place_overflows (hlower : ∀ f s', scope.lower r order s = .error f s' → f = .overflow)
    (hnone : ¬ ∃ placement s', scope.place r order position start s = .ok placement s') :
    ∃ s', scope.place r order position start s = .error .overflow s' := by
  induction order generalizing position start s with
  | nil => exact absurd ⟨[], s, rfl⟩ hnone
  | cons n rest ih =>
    cases hcode : scope.blockCode r n rest.head? s with
    | error f t =>
      have herror := hlower f t (run_bind_eq_error.mpr (Or.inl hcode))
      exact ⟨t, run_bind_eq_error.mpr (Or.inl (herror ▸ hcode))⟩
    | ok code t =>
      cases hemit : PlacedBlock.emit n position start code with
      | none =>
        refine ⟨t, run_bind_eq_error.mpr (Or.inr ⟨code, t, hcode, ?_⟩)⟩
        rw [hemit]
        rfl
      | some p =>
        have hrest : ¬ ∃ placement s',
            scope.place r rest (position + 1) p.stop t = .ok placement s' := by
          rintro ⟨placement, s', hplace⟩
          apply hnone
          refine ⟨p :: placement, s', run_bind_eq_ok.mpr ⟨code, t, hcode, ?_⟩⟩
          rw [hemit]
          exact run_bind_eq_ok.mpr ⟨placement, s', hplace, rfl⟩
        obtain ⟨s', herror⟩ := ih (fun f s' hf => hlower f s' (run_bind_eq_error.mpr
          (Or.inr ⟨code, t, hcode, run_bind_eq_error.mpr (Or.inl hf)⟩))) hrest
        refine ⟨s', run_bind_eq_error.mpr (Or.inr ⟨code, t, hcode, ?_⟩)⟩
        rw [hemit]
        exact run_bind_eq_error.mpr (Or.inl herror)

end Scope

/-! ## Routines -/

/-- The variables of the routine can be declared, and its blocks, in this order, are lowered to this
code. -/
def Routine.LowersTo (services : Services σ) (options : Options) (r : Routine) (w : Workspace σ)
    (order : List BlockId) (codes : List BlockCode) : Prop :=
  ∃ locals headers t, LocalTable.declareAll r.declarations w.body.locals = .ok () locals ∧
    LabelSupply.continuing w.body.instructions = some ⟨headers.first⟩ ∧
    headers.count = r.graph.size ∧ r.graph.order r.entry = .ok order ∧
    (routineScope services options r locals headers).lower r order ⟨headers.rest, w.services⟩ =
      .ok codes t

/-- The offset behind the code, appended to the body, exists. -/
def MethodBody.HasRoomFor (b : MethodBody) (codes : List BlockCode) : Prop :=
  ∃ start, b.codeSize? = some start ∧ start.toNat + loweredSize codes < UInt32.size

variable {services : Services σ} {options : Options} {r : Routine} {w : Workspace σ}
  {order : List BlockId} {codes : List BlockCode}

lemma Routine.lowersTo_of_placed {placement : Placement}
    (h : compiledPlacement services options r w = some placement) :
    ∃ order, r.LowersTo services options w order (placement.map PlacedBlock.code) ∧
      w.body.HasRoomFor (placement.map PlacedBlock.code) := by
  obtain ⟨locals, s, hdeclare, hplace⟩ := phases_of_compiledPlacement h
  obtain ⟨headers, start, order, t, hsite, horder, hrun, -⟩ := placeRoutine_eq_ok.mp hplace
  refine ⟨order, ⟨locals, headers, t, hdeclare, hsite.labels, hsite.count, horder,
    Scope.lower_of_place hrun⟩, start, hsite.offset, ?_⟩
  rw [loweredSize_placed]
  exact Scope.place_codeSize_lt hrun

namespace Routine.LowersTo

lemma unique (h : r.LowersTo services options w order codes) {order' : List BlockId}
    {codes' : List BlockCode} (h' : r.LowersTo services options w order' codes') :
    order' = order ∧ codes' = codes := by
  obtain ⟨locals, headers, t, hdeclare, hlabels, hcount, horder, hlower⟩ := h
  obtain ⟨locals', headers', t', hdeclare', hlabels', hcount', horder', hlower'⟩ := h'
  have hallocate := allocate_continuing_eq_some.mpr ⟨hlabels, hcount, rfl⟩
  have hallocate' := allocate_continuing_eq_some.mpr ⟨hlabels', hcount', rfl⟩
  cases hallocate.symm.trans hallocate'
  cases hdeclare.symm.trans hdeclare'
  cases horder.symm.trans horder'
  cases hlower.symm.trans hlower'
  exact ⟨rfl, rfl⟩

lemma order_eq (h : r.LowersTo services options w order codes) :
    r.graph.order r.entry = .ok order := by
  obtain ⟨_, _, _, -, -, -, horder, -⟩ := h
  exact horder

lemma exists_placement_iff (h : r.LowersTo services options w order codes) :
    (∃ placement, compiledPlacement services options r w = some placement) ↔
      w.body.HasRoomFor codes := by
  constructor
  · rintro ⟨placement, hplaced⟩
    obtain ⟨order', hlowers, hroom⟩ := Routine.lowersTo_of_placed hplaced
    rwa [(h.unique hlowers).2] at hroom
  · rintro ⟨start, hoffset, hfits⟩
    obtain ⟨locals, headers, t, hdeclare, hlabels, hcount, horder, hlower⟩ := h
    obtain ⟨placement, hrun⟩ := Scope.exists_place_of_lower hlower hfits
    have hplace : placeRoutine services options r { w.body with locals } w.services =
        .ok placement t.services := placeRoutine_eq_ok.mpr
      ⟨headers, start, order, t, ⟨hlabels, hcount, hoffset⟩, horder, hrun, rfl⟩
    exact ⟨placement, compiledPlacement_eq_some hdeclare hplace⟩

end Routine.LowersTo

/-- Where the blocks are lowered or overflow, a routine that is not placed overflows. -/
lemma compile_overflows {locals : LocalTable}
    (hdeclare : LocalTable.declareAll r.declarations w.body.locals = .ok () locals)
    (horder : r.graph.order r.entry = .ok order)
    (hlower : ∀ headers : Headers, headers.count = r.graph.size →
      LabelSupply.continuing w.body.instructions = some ⟨headers.first⟩ → ∀ f t,
        (routineScope services options r locals headers).lower r order
          ⟨headers.rest, w.services⟩ = .error f t → f = .overflow)
    (hnone : ¬ ∃ placement, compiledPlacement services options r w = some placement) :
    ∃ w', compile services options r w = .error .overflow w' := by
  obtain ⟨s, herror⟩ : ∃ s, placeRoutine services options r { w.body with locals } w.services =
      .error .overflow s := by
    apply placeRoutine_overflows horder
    intro headers start hsite
    apply Scope.place_overflows (hlower headers hsite.count hsite.labels)
    rintro ⟨placement, t, hrun⟩
    have hplace := placeRoutine_eq_ok.mpr ⟨headers, start, order, t, hsite, horder, hrun, rfl⟩
    exact hnone ⟨placement, compiledPlacement_eq_some hdeclare hplace⟩
  exact ⟨_, compile_of_placeRoutine_error hdeclare herror⟩

lemma Routine.LowersTo.overflows (h : r.LowersTo services options w order codes)
    (hroom : ¬ w.body.HasRoomFor codes) :
    ∃ w', compile services options r w = .error .overflow w' := by
  obtain ⟨locals, headers, t, hdeclare, hlabels, hcount, horder, hlower⟩ := id h
  refine compile_overflows hdeclare horder ?_ (mt h.exists_placement_iff.mp hroom)
  intro headers' hcount' hlabels' f t' herror
  have hallocate := allocate_continuing_eq_some.mpr ⟨hlabels, hcount, rfl⟩
  have hallocate' := allocate_continuing_eq_some.mpr ⟨hlabels', hcount', rfl⟩
  cases hallocate.symm.trans hallocate'
  cases hlower.symm.trans herror

end CilBackend
