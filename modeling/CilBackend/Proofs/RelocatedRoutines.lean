import CilBackend.Proofs.Acceptance
import CilBackend.Proofs.LoweringSimulation

/-!
# Relocated routines

A routine that compiles into an empty body compiles into every body that has room for its variables,
its labels and its code, and what it appends there is what it gave before, moved behind the code,
the labels and the locals of the body. So compilations into one body do not depend on each other.
Where the room for labels or code is missing, compilation overflows.
-/

namespace CilBackend

variable {σ : Type} {d : Shift}

/-! ## Handlers in moved code -/

structure RegionBlocks.MovesTo (d : Shift) (r r' : RegionBlocks) : Prop where
  blocks : List.Forall₂ (PlacedBlock.MovesTo d) r.blocks r'.blocks
  lowest : r.lowest.MovesTo d r'.lowest
  highest : r.highest.MovesTo d r'.highest

lemma forall_mem_of_forall₂ {α β : Type} {R : α → β → Prop} {P : α → Prop} {Q : β → Prop}
    (himp : ∀ a b, R a b → P a → Q b) {as : List α} {bs : List β} (h : List.Forall₂ R as bs)
    (has : ∀ a ∈ as, P a) : ∀ b ∈ bs, Q b := by
  induction h with
  | nil => exact List.forall_mem_nil _
  | cons hhead _ ih =>
    rw [List.forall_mem_cons] at has ⊢
    exact ⟨himp _ _ hhead has.1, ih has.2⟩

/-- A choice that only depends on the order of offsets is the same among moved blocks. -/
lemma foldl_choice_moves {before : PlacedBlock → PlacedBlock → Prop} [DecidableRel before]
    (hbefore : ∀ {a a' c c' : PlacedBlock}, a.MovesTo d a' → c.MovesTo d c' →
      (before c' a' ↔ before c a)) {b b' : PlacedBlock} {rest rest' : List PlacedBlock}
    (hb : b.MovesTo d b') (hrest : List.Forall₂ (PlacedBlock.MovesTo d) rest rest') :
    (rest.foldl (fun a c => if before c a then c else a) b).MovesTo d
      (rest'.foldl (fun a c => if before c a then c else a) b') := by
  apply List.rel_foldl _ hb hrest
  intro a a' ha c c' hc
  dsimp only
  by_cases hchosen : before c a
  · rw [if_pos hchosen, if_pos ((hbefore ha hc).mpr hchosen)]
    exact hc
  · rw [if_neg hchosen, if_neg (mt (hbefore ha hc).mp hchosen)]
    exact ha

namespace FrameScope

variable {s : FrameScope} {placement' : Placement} {index : Nat} {region : Region}

lemma mapM_regionBlock_moves (hmoves : s.placement.MovesTo d placement') {blocks : List BlockId}
    {found : List PlacedBlock} (h : blocks.mapM (s.regionBlock index region) = .ok found) :
    ∃ found', blocks.mapM ({ s with placement := placement' }.regionBlock index region) =
      .ok found' ∧ List.Forall₂ (PlacedBlock.MovesTo d) found found' := by
  simp only [except_mapM_eq_ok, regionBlock_eq_ok] at h ⊢
  induction h with
  | nil => exact ⟨[], .nil, .nil⟩
  | cons hhead _ ih =>
    obtain ⟨q, hq, hmoved⟩ := hmoves.get?_eq_some hhead
    obtain ⟨found', hfound, hall⟩ := ih
    exact ⟨q :: found', .cons hq hfound, .cons hmoved hall⟩

lemma regionBlocks_moves (hmoves : s.placement.MovesTo d placement') {blocks : List BlockId}
    {r : RegionBlocks} (h : s.regionBlocks index region blocks = .ok r) :
    ∃ r', { s with placement := placement' }.regionBlocks index region blocks = .ok r' ∧
      r.MovesTo d r' := by
  obtain ⟨found, hfound, h⟩ := except_bind_eq_ok.mp h
  obtain ⟨found', hfound', hall⟩ := mapM_regionBlock_moves hmoves hfound
  cases hall with
  | nil => cases h
  | @cons b b' rest rest' hb hrest =>
    cases h
    exact ⟨_, except_bind_eq_ok.mpr ⟨b' :: rest', hfound', rfl⟩, .cons hb hrest,
      foldl_choice_moves (fun ha hc => hc.start_lt_iff ha) hb hrest,
      foldl_choice_moves (fun ha hc => ha.start_lt_iff hc) hb hrest⟩

lemma tryEndAnchor_moves (hmoves : s.placement.MovesTo d placement')
    {tryBlocks tryBlocks' handlerBlocks handlerBlocks' : RegionBlocks}
    (htry : tryBlocks.MovesTo d tryBlocks') (hhandler : handlerBlocks.MovesTo d handlerBlocks')
    {a : Anchor} (h : s.tryEndAnchor tryBlocks handlerBlocks = .ok a) :
    ∃ p q : PlacedBlock, p.MovesTo d q ∧ a = p.header ∧
      { s with placement := placement' }.tryEndAnchor tryBlocks' handlerBlocks' =
        .ok q.header := by
  unfold tryEndAnchor
  rcases tryEndAnchor_eq_ok h with ⟨hend, rfl⟩ | ⟨hend, next, hnext, rfl⟩
  · simp only [hend]
    exact ⟨_, _, hhandler.lowest, rfl, rfl⟩
  · obtain ⟨q, hq, hmoved⟩ := hmoves.after?_eq_some hnext
    simp only [hend, htry.highest.block, hq]
    exact ⟨next, q, hmoved, rfl, rfl⟩

lemma handlerEndAnchor_moves (hmoves : s.placement.MovesTo d placement')
    {handlerBlocks handlerBlocks' : RegionBlocks}
    (hhandler : handlerBlocks.MovesTo d handlerBlocks') {a : Anchor}
    (h : s.handlerEndAnchor handlerBlocks = .ok a) :
    ∃ p q : PlacedBlock, p.MovesTo d q ∧ a = p.header ∧
      { s with placement := placement' }.handlerEndAnchor handlerBlocks' = .ok q.header := by
  obtain ⟨successor, p, hsuccessors, hp, rfl⟩ := handlerEndAnchor_eq_ok h
  obtain ⟨q, hq, hmoved⟩ := hmoves.get?_eq_some hp
  refine ⟨p, q, hmoved, rfl, ?_⟩
  unfold handlerEndAnchor
  simp only [hhandler.highest.block, hsuccessors, hq]

lemma checkInside_moves {r r' : RegionBlocks} (hr : r.MovesTo d r') {first first' : PlacedBlock}
    (hfirst : first.MovesTo d first') {behind behind' : PlacedBlock}
    (hbehind : behind.MovesTo d behind')
    (h : s.checkInside index region r first.header behind.header = .ok ()) :
    { s with placement := placement' }.checkInside index region r' first'.header
      behind'.header = .ok () := by
  rw [checkInside_eq_ok] at h ⊢
  refine forall_mem_of_forall₂ (fun p q hmoved hinside => ?_) hr.blocks h
  have hstop := hmoved.stop
  have hstart := hmoved.start
  have hlow := hfirst.start
  have hhigh := hbehind.start
  simp only [PlacedBlock.header, UInt32.le_iff_toNat_le] at hinside ⊢
  omega

lemma row_moves (f : Frame) (kind : HandlerKind)
    {tryBlocks tryBlocks' handlerBlocks handlerBlocks' : RegionBlocks}
    (htry : tryBlocks.MovesTo d tryBlocks') (hhandler : handlerBlocks.MovesTo d handlerBlocks')
    (tryEnd handlerEnd : Anchor) :
    row f kind tryBlocks' handlerBlocks' (tryEnd.shift d) (handlerEnd.shift d) =
      (row f kind tryBlocks handlerBlocks tryEnd handlerEnd).shift d := by
  unfold row Handler.shift
  dsimp only
  rw [htry.lowest.header, hhandler.lowest.header]
  split_ifs
  all_goals rfl

/-- A frame that is accepted is accepted in moved code too, and its handler is moved. -/
lemma handler_moves (hmoves : s.placement.MovesTo d placement') {f : Frame} {h : Handler}
    (hrun : s.handler index f = .ok h) :
    { s with placement := placement' }.handler index f = .ok (h.shift d) := by
  obtain ⟨tryBlocks, handlerBlocks, kind, _, _, htry, hhandler, hkind, htryEnd, hhandlerEnd,
    horder, hinsideTry, hinsideHandler, rfl⟩ := handler_eq_ok.mp hrun
  obtain ⟨tryBlocks', htry', hmovedTry⟩ := regionBlocks_moves hmoves htry
  obtain ⟨handlerBlocks', hhandler', hmovedHandler⟩ := regionBlocks_moves hmoves hhandler
  obtain ⟨p, p', hp, rfl, htryEnd'⟩ := tryEndAnchor_moves hmoves hmovedTry hmovedHandler htryEnd
  obtain ⟨q, q', hq, rfl, hhandlerEnd'⟩ := handlerEndAnchor_moves hmoves hmovedHandler hhandlerEnd
  have hkind' : { s with placement := placement' }.handlerKind f tryBlocks' = .ok kind :=
    handlerKind_eq_ok.mpr (handlerKind_eq_ok.mp hkind)
  have horder' : tryBlocks'.lowest.start < p'.start ∧ p'.start ≤ handlerBlocks'.lowest.start ∧
      handlerBlocks'.lowest.start < q'.start := by
    rw [hmovedTry.lowest.start_lt_iff hp, hmovedHandler.lowest.start_lt_iff hq, ← UInt32.not_lt,
      hmovedHandler.lowest.start_lt_iff hp, UInt32.not_lt]
    exact horder
  refine handler_eq_ok.mpr ⟨_, _, kind, _, _, htry', hhandler', hkind', htryEnd', hhandlerEnd',
    horder', checkInside_moves hmovedTry hmovedTry.lowest hp hinsideTry,
    checkInside_moves hmovedHandler hmovedHandler.lowest hq hinsideHandler, ?_⟩
  rw [hp.header, hq.header, row_moves f kind hmovedTry hmovedHandler]

lemma handlersFrom_moves (hmoves : s.placement.MovesTo d placement') {frames : List Frame}
    {hs : List Handler} (hrun : s.handlersFrom index frames = .ok hs) :
    { s with placement := placement' }.handlersFrom index frames =
      .ok (hs.map (Handler.shift d)) := by
  induction frames generalizing index hs with
  | nil =>
    cases hrun
    rfl
  | cons f rest ih =>
    obtain ⟨first, following, hfirst, hrest, rfl⟩ := handlersFrom_cons_eq_ok.mp hrun
    exact handlersFrom_cons_eq_ok.mpr ⟨_, _, handler_moves hmoves hfirst, ih hrest, rfl⟩

end FrameScope

/-! ## Routines in a used body -/

/-- How far code is moved that is made for an empty body and goes behind this one: its labels start
at the first unused one, its slots behind the locals and its offsets behind the code. -/
def MethodBody.frontier? (b : MethodBody) : Option Shift := do
  let supply ← LabelSupply.continuing b.instructions
  let offset ← b.codeSize?
  return ⟨supply.next, b.locals.size, offset⟩

/-- Moved by `d`, so many labels and so much code fit behind the body. -/
structure MethodBody.RoomBehind (b : MethodBody) (d : Shift) (labels size : Nat) : Prop where
  frontier : b.frontier? = some d
  labels_fit : d.label.toNat + labels < UInt32.size
  code_fits : d.offset.toNat + size < UInt32.size

/-- The operand is a label, a table of labels or a slot. -/
def Operand.isNumbered : Operand → Bool
  | .label _ => true
  | .labelTable _ => true
  | .slot _ => true
  | _ => false

/-- No expression affects flags, and the templates bind no label and refer to code and locals only
through blocks and variables. -/
def Routine.Relocatable (r : Routine) : Prop :=
  ∀ e ∈ r.parts, e.flags = none ∧
    ∀ i ∈ e.template, i.label = none ∧ i.operand.isNumbered = false

instance (r : Routine) : Decidable r.Relocatable :=
  inferInstanceAs (Decidable (∀ e ∈ r.parts, e.flags = none ∧
    ∀ i ∈ e.template, i.label = none ∧ i.operand.isNumbered = false))

/-- What a method is imported as does not depend on the state. -/
def Services.StatelessImports (services : Services σ) : Prop :=
  ∀ m s t, (services.importMethod m s).1 = (services.importMethod m t).1

lemma Instruction.rename_of_not_numbered {i : Instruction} (hlabel : i.label = none)
    (hoperand : i.operand.isNumbered = false) : i.rename d = i := by
  have hshift : i.operand.shift d = i.operand := by
    cases hcase : i.operand with
    | label target => simp [hcase, Operand.isNumbered] at hoperand
    | labelTable targets => simp [hcase, Operand.isNumbered] at hoperand
    | slot index => simp [hcase, Operand.isNumbered] at hoperand
    | _ => rfl
  unfold Instruction.rename
  rw [hshift, hlabel, Option.map_none, ← hlabel]

lemma Routine.Relocatable.movable {r : Routine} (h : r.Relocatable) (services : Services σ)
    {e : Expr} (he : e ∈ r.parts) : e.Movable d services services fun _ _ => True := by
  obtain ⟨hflags, htemplate⟩ := h e he
  constructor
  · intro i hi
    obtain ⟨hlabel, hoperand⟩ := htemplate i hi
    exact Instruction.rename_of_not_numbered hlabel hoperand
  · intro hsome
    exact absurd hflags hsome

/-- Variables that can be declared in an empty table can be declared in every one that holds none of
them and has room, and their slots follow those of the table. -/
lemma LocalTable.declareAll_relocates {vs : List Variable} {alone : LocalTable}
    (halone : declareAll vs .empty = .ok () alone) {t : LocalTable}
    (hfresh : ∀ v ∈ vs, v.id ∉ t.ids) (hroom : t.size + vs.length ≤ slotLimit) :
    ∃ t', declareAll vs t = .ok () t' ∧
      ∀ id slot, alone.slot? id = some slot → t'.slot? id = some (slot + t.size) := by
  have hids := declareAll_ids halone
  obtain ⟨hdistinct, -⟩ := (exists_declareAll_iff vs .empty).mp ⟨alone, halone⟩
  have hnodup : (t.ids ++ vs.map Variable.id).Nodup := by
    rw [List.nodup_append]
    refine ⟨t.ids_nodup, hdistinct, ?_⟩
    rintro id hold _ hnew rfl
    obtain ⟨v, hv, rfl⟩ := List.mem_map.mp hnew
    exact hfresh v hv hold
  obtain ⟨t', ht'⟩ := (exists_declareAll_iff vs t).mpr ⟨hnodup, hroom⟩
  have hsize : t.ids.length = t.size := by
    unfold LocalTable.ids LocalTable.size
    rw [List.length_map, Array.length_toList]
  -- The slot of a variable is its place among the ids, and those of the table come first.
  refine ⟨t', ht', ?_⟩
  intro id slot hslot
  rw [slot?_eq_some, hids] at hslot
  rw [slot?_eq_some, declareAll_ids ht', List.getElem?_append_right (by omega), hsize,
    Nat.add_sub_cancel]
  exact hslot

lemma MethodBody.frontier?_eq_some {b : MethodBody} :
    b.frontier? = some d ↔ LabelSupply.continuing b.instructions = some ⟨d.label⟩ ∧
      b.codeSize? = some d.offset ∧ b.locals.size = d.slot := by
  constructor
  · intro h
    obtain ⟨supply, hsupply, h⟩ := Option.bind_eq_some_iff.mp h
    obtain ⟨offset, hoffset, h⟩ := Option.bind_eq_some_iff.mp h
    cases h
    exact ⟨hsupply, hoffset, rfl⟩
  · rintro ⟨hsupply, hoffset, hslot⟩
    refine Option.bind_eq_some_iff.mpr ⟨⟨d.label⟩, hsupply,
      Option.bind_eq_some_iff.mpr ⟨d.offset, hoffset, ?_⟩⟩
    rw [hslot]
    rfl

lemma MethodBody.RoomBehind.exists_site {body : MethodBody} {r : Routine} {size : Nat}
    (h : body.RoomBehind d r.labelCount size) :
    ∃ headers : Headers, headers.first = d.label ∧ Site r body headers d.offset := by
  obtain ⟨hlabels, hoffset, -⟩ := MethodBody.frontier?_eq_some.mp h.frontier
  have hfits : d.label.toNat + r.graph.size < UInt32.size := by
    have hall := h.labels_fit
    unfold Routine.labelCount at hall
    omega
  exact ⟨⟨d.label, r.graph.size, hfits⟩, rfl, hlabels, rfl, hoffset⟩

/-- Lowering behind a used body follows lowering into an empty one. -/
lemma routineScope_simulates {services : Services σ} (hservices : services.StatelessImports)
    (options : Options) (r : Routine) {headers headers' : Headers} {alone locals : LocalTable}
    (hfirst : headers'.first = headers.first + d.label) (hcount : headers'.count = headers.count)
    (hslots : ∀ id slot, alone.slot? id = some slot → locals.slot? id = some (slot + d.slot)) :
    (routineScope services options r alone headers).Simulates d
      (routineScope services options r locals headers') fun _ _ => True where
  first := hfirst
  count := hcount
  slot := hslots
  checkNet := id
  returnsValue := rfl
  imports := fun m s t _ => ⟨hservices m t s, trivial⟩

section

variable {services : Services σ} {options : Options} {r : Routine} {s : σ} {alone : LocalTable}
  {first : Headers} {order : List BlockId} {placement : Placement} {u : CodeState σ}

/-- The labels of a routine in an empty body are the first ones. -/
lemma supply_of_place_alone (hdeclare : LocalTable.declareAll r.declarations .empty = .ok () alone)
    (hsite : Site r {} first 0) (horder : r.graph.order r.entry = .ok order)
    (hrun : (routineScope services options r alone first).place r order 0 0 ⟨first.rest, s⟩ =
      .ok placement u) : u.supply.next.toNat = r.labelCount := by
  have hplace : placeRoutine services options r { locals := alone } s =
      .ok placement u.services :=
    placeRoutine_eq_ok.mpr ⟨first, 0, order, u, site_withLocals_iff.mpr hsite, horder, hrun, rfl⟩
  have hplaced : compiledPlacement services options r ⟨{}, s⟩ = some placement :=
    compiledPlacement_eq_some hdeclare hplace
  rw [(Routine.acceptable_of_placed hplaced).next_eq hdeclare hsite.count horder
    (Scope.lower_of_place hrun), hsite.first_of_empty]
  exact Nat.zero_add _

/-- Behind a used body the blocks are placed as in an empty one if there is room for them. If there
is none, placing them overflows. -/
lemma place_relocates (hservices : services.StatelessImports) (hr : r.Relocatable)
    (hsite : Site r {} first 0)
    (hrun : (routineScope services options r alone first).place r order 0 0 ⟨first.rest, s⟩ =
      .ok placement u) (hlabels : u.supply.next.toNat = r.labelCount)
    {body : MethodBody} {locals : LocalTable} {headers : Headers}
    (hslots : ∀ id slot, alone.slot? id = some slot → locals.slot? id = some (slot + d.slot))
    (hsite' : Site r body headers d.offset) (hfirst : headers.first = d.label)
    (hfrontier : body.frontier? = some d) (t : σ) :
    (∃ placement' t', (routineScope services options r locals headers).place r order 0 d.offset
        ⟨headers.rest, t⟩ = .ok placement' t' ∧ placement.MovesTo d placement' ∧
        body.RoomBehind d r.labelCount (codeSize placement.instructions)) ∨
      ((∃ t', (routineScope services options r locals headers).place r order 0 d.offset
        ⟨headers.rest, t⟩ = .error .overflow t') ∧
        ¬ body.RoomBehind d r.labelCount (codeSize placement.instructions)) := by
  have hzero := hsite.first_of_empty
  have hcount : headers.count = first.count := hsite'.count.trans hsite.count.symm
  have hmoved : CodeState.Moved d (fun _ _ => True) ⟨first.rest, s⟩ ⟨headers.rest, t⟩ := by
    refine ⟨?_, trivial⟩
    dsimp only
    rw [Headers.toNat_rest, Headers.toNat_rest, hcount, hfirst, hzero, UInt32.toNat_zero]
    omega
  have hsimulates := routineScope_simulates hservices options r
    (by rw [hfirst, hzero, UInt32.zero_add]) hcount hslots
  have hsize : codeSize placement.instructions = codeSize placement.rawCode := by
    rw [Scope.place_instructions hrun, codeSize_placeFrom]
  rw [hsize]
  rcases (Scope.place_follows hsimulates (fun e he => hr.movable services he) hrun).2 d.offset
    ⟨headers.rest, t⟩ (by rw [UInt32.toNat_zero, Nat.zero_add]) hmoved with
    ⟨placement', t', hrun', hmoves, hlast⟩ | ⟨hlarge, hoverflow⟩
  · refine Or.inl ⟨placement', t', hrun', hmoves, hfrontier, ?_, ?_⟩
    · have hnext : t'.supply.next.toNat < UInt32.size := t'.supply.next.toNat_lt
      have hsupply := hlast.supply
      omega
    · rw [← hmoves.codeSize_rawCode]
      exact Scope.place_codeSize_lt hrun'
  · refine Or.inr ⟨hoverflow, fun hroom => ?_⟩
    have hlabelsFit := hroom.labels_fit
    have hcodeFits := hroom.code_fits
    unfold CodeState.Exceeds at hlarge
    rw [UInt32.toNat_zero] at hlarge
    omega

end

/-- A routine that compiles into an empty body compiles into every body that declares none of its
variables and has room for them, for its labels and for its code. What it appends is what it gave
alone, moved behind the body. If there are not enough labels or offsets, compilation overflows. -/
theorem compile_relocates {services : Services σ} (hservices : services.StatelessImports)
    {options : Options} {r : Routine} (hr : r.Relocatable) {s s' : σ} {alone : MethodBody}
    (halone : compile services options r ⟨{}, s⟩ = .ok () ⟨alone, s'⟩) (body : MethodBody) (t : σ)
    (hfresh : ∀ v ∈ r.declarations, v.id ∉ body.locals.ids)
    (hroom : body.locals.size + r.declarations.length ≤ slotLimit) :
    (∀ d, body.RoomBehind d r.labelCount (codeSize alone.instructions) →
      ∃ body' t', compile services options r ⟨body, t⟩ = .ok () ⟨body', t'⟩ ∧
        body'.instructions = body.instructions ++ alone.instructions.map (Instruction.shift d) ∧
        body'.handlers = body.handlers ++ alone.handlers.map (Handler.shift d) ∧
        body'.locals.entries.toList = body.locals.entries.toList ++ r.declarations ∧
        body'.maxStack = max body.maxStack alone.maxStack) ∧
    ((¬ ∃ d, body.RoomBehind d r.labelCount (codeSize alone.instructions)) →
      ∃ w, compile services options r ⟨body, t⟩ = .error .overflow w) := by
  obtain ⟨aloneLocals, placement, handlers, hdeclare, hplace, hhandlers, rfl⟩ :=
    compile_eq_ok halone
  obtain ⟨first, start, order, u, hsite, horder, hrun, -⟩ := placeRoutine_eq_ok.mp hplace
  obtain rfl : 0 = start := Option.some.inj hsite.offset
  have hsite₀ : Site r {} first 0 := site_withLocals_iff.mp hsite
  have hlabels := supply_of_place_alone hdeclare hsite₀ horder hrun
  obtain ⟨locals, hdeclare', hslots⟩ :=
    LocalTable.declareAll_relocates hdeclare hfresh hroom
  constructor
  · intro d hbehind
    obtain ⟨headers, hfirst, hsite'⟩ := hbehind.exists_site
    obtain ⟨-, -, hslot⟩ := MethodBody.frontier?_eq_some.mp hbehind.frontier
    rw [hslot] at hslots
    rcases place_relocates hservices hr hsite₀ hrun hlabels hslots hsite' hfirst hbehind.frontier t
      with ⟨placement', t', hrun', hmoves, -⟩ | ⟨-, hnone⟩
    · have hplace' : placeRoutine services options r { body with locals } t =
          .ok placement' t'.services := placeRoutine_eq_ok.mpr
        ⟨headers, d.offset, order, t', site_withLocals_iff.mpr hsite', horder, hrun', rfl⟩
      refine ⟨_, _, compile_of_phases hdeclare' hplace'
        (FrameScope.handlersFrom_moves hmoves hhandlers), ?_, ?_, ?_, ?_⟩
      · simp [hmoves.instructions]
      · simp
      · exact LocalTable.declareAll_entries hdeclare'
      · simp [hmoves.peak]
    · exact absurd hbehind hnone
  · intro hnone
    obtain ⟨t', herror⟩ : ∃ t', placeRoutine services options r { body with locals } t =
        .error .overflow t' := by
      apply placeRoutine_overflows horder
      intro headers start hsite'
      have hfrontier : body.frontier? = some ⟨headers.first, body.locals.size, start⟩ :=
        MethodBody.frontier?_eq_some.mpr ⟨hsite'.labels, hsite'.offset, rfl⟩
      rcases place_relocates hservices hr hsite₀ hrun hlabels hslots
        (site_withLocals_iff.mp hsite') rfl hfrontier t with
        ⟨-, -, -, -, hbehind⟩ | ⟨hoverflow, -⟩
      · exact absurd ⟨_, hbehind⟩ hnone
      · exact hoverflow
    exact ⟨_, compile_of_placeRoutine_error hdeclare' herror⟩

/-- An unboxed variable in front of a guarded block and its handler. -/
def guardedUnbox : Routine where
  declarations := [.unnamed ⟨0⟩ .object, .unnamed ⟨1⟩ .object]
  graph := {
    blocks := [
      [.assignment ⟨1⟩ (.unbox (.var ⟨0⟩ .object) .object .object)],
      [.expression (.instruction [{ opcode := .leave, operand := .block 3 }] [] none .void)],
      [.expression (.instruction [{ opcode := .leave, operand := .block 3 }] [] none .void)],
      [.expression (.instruction [{ opcode := .ret }] [] none .void)]]
    edges := [⟨0, 1, .fallThrough⟩, ⟨1, 2, .exceptional⟩, ⟨1, 3, .branch⟩, ⟨2, 3, .branch⟩]
    edges_inside := by decide }
  entry := 0
  frames := [⟨1, [1], [2], none⟩]
  returnsValue := false

/-- A body with a local and a label of its own. -/
def jumpingBody : MethodBody where
  locals :=
    match LocalTable.declareAll [.unnamed ⟨5⟩ .object] .empty with
    | .ok _ table => table
    | .error _ table => table
  instructions := [
    { opcode := .br, operand := .label ⟨4⟩ },
    { opcode := .ret, offset := 5, label := some ⟨4⟩ }]
  maxStack := 9

theorem guardedUnbox_relocates : ∃ alone body' : MethodBody,
    compile plainServices {} guardedUnbox ⟨{}, ()⟩ = .ok () ⟨alone, ()⟩ ∧
      compile plainServices {} guardedUnbox ⟨jumpingBody, ()⟩ = .ok () ⟨body', ()⟩ ∧
      alone.instructions.length = 18 ∧ alone.handlers.length = 1 ∧
      body'.instructions =
        jumpingBody.instructions ++ alone.instructions.map (Instruction.shift ⟨5, 1, 6⟩) ∧
      body'.handlers = alone.handlers.map (Handler.shift ⟨5, 1, 6⟩) ∧
      body'.locals.ids = [⟨5⟩, ⟨0⟩, ⟨1⟩] ∧ body'.maxStack = 9 := by
  obtain ⟨alone, halone, hlength, hhandlers, hsize, hpeak⟩ : ∃ alone,
      compile plainServices {} guardedUnbox ⟨{}, ()⟩ = .ok () ⟨alone, ()⟩ ∧
        alone.instructions.length = 18 ∧ alone.handlers.length = 1 ∧
        codeSize alone.instructions = 48 ∧
        max jumpingBody.maxStack alone.maxStack = 9 := ⟨_, rfl, rfl, rfl, rfl, rfl⟩
  have hbehind : jumpingBody.RoomBehind ⟨5, 1, 6⟩ guardedUnbox.labelCount
      (codeSize alone.instructions) := ⟨rfl, by decide, hsize ▸ by decide⟩
  obtain ⟨body', u, hcompile, hcode, hrows, hlocals, hmaxStack⟩ :=
    (compile_relocates (fun _ _ _ => rfl) (by decide) halone jumpingBody () (by decide)
      (by decide)).1 ⟨5, 1, 6⟩ hbehind
  refine ⟨alone, body', halone, hcompile, hlength, hhandlers, hcode, hrows, ?_, ?_⟩
  · rw [LocalTable.ids, hlocals]
    rfl
  · rw [hmaxStack, hpeak]

/-- The return may be moved behind any body, but in an almost full one the offset behind it does not
exist. -/
theorem plainReturn_not_relocated : plainServices.StatelessImports ∧ plainReturn.Relocatable ∧
    (∃ alone, compile plainServices {} plainReturn ⟨{}, ()⟩ = .ok () ⟨alone, ()⟩) ∧
    (∀ v ∈ plainReturn.declarations, v.id ∉ (bodyUpTo 4294967293).locals.ids) ∧
    (bodyUpTo 4294967293).locals.size + plainReturn.declarations.length ≤ slotLimit ∧
    ∃ w, compile plainServices {} plainReturn ⟨bodyUpTo 4294967293, ()⟩ = .error .overflow w :=
  ⟨fun _ _ _ => rfl, by decide, ⟨_, rfl⟩, by decide, by decide, _, rfl⟩

end CilBackend
