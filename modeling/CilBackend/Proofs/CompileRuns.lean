import CilBackend.Proofs.LoweringRuns

/-!
# Successful runs of compilation

The blocks that a successful run has placed and the body that it leaves.
-/

namespace CilBackend

variable {σ : Type}

namespace Scope

variable {scope : Scope σ}

/-- What a statement adds to the code of its value: an assignment stores it. -/
def Stores (scope : Scope σ) : Statement → List Instruction → Prop
  | .expression _, store => store = []
  | .assignment target _, store =>
    ∃ slot, scope.locals.slot? target = some slot ∧
      store = [{ opcode := .stloc, operand := .slot slot }]

lemma statementCode_eq_ok {st : Statement} {s s' : CodeState σ} {code : List Instruction}
    (h : scope.statementCode st s = .ok code s') :
    ∃ value store, scope.exprCode st.value s = .ok value s' ∧ scope.Stores st store ∧
      code = value ++ store := by
  cases st with
  | expression value => exact ⟨code, [], h, rfl, (List.append_nil code).symm⟩
  | assignment target value =>
    rw [Scope.statementCode, run_bind_eq_ok] at h
    obtain ⟨slot, t, hrun, h⟩ := h
    obtain ⟨hslot, rfl⟩ := ofExcept_eq_ok.mp hrun
    obtain ⟨valueCode, t, hvalue, h⟩ := run_bind_eq_ok.mp h
    obtain ⟨rfl, rfl⟩ := run_pure_eq_ok.mp h
    exact ⟨valueCode, _, hvalue, ⟨slot, slot_eq_ok.mp hslot, rfl⟩, rfl⟩

lemma statementCodes_cons_eq_ok {st : Statement} {rest : Block} {s s' : CodeState σ}
    {codes : List (List Instruction)} (h : scope.statementCodes (st :: rest) s = .ok codes s') :
    ∃ code t following, scope.statementCode st s = .ok code t ∧
      scope.statementCodes rest t = .ok following s' ∧ codes = code :: following := by
  rw [Scope.statementCodes, run_bind_eq_ok] at h
  obtain ⟨code, t, hcode, h⟩ := h
  obtain ⟨following, u, hrest, h⟩ := run_bind_eq_ok.mp h
  obtain ⟨rfl, rfl⟩ := run_pure_eq_ok.mp h
  exact ⟨code, t, following, hcode, hrest, rfl⟩

/-- Every piece of a block's code is the code of one of its statements. -/
lemma statementCodes_mem {b : Block} {s s' : CodeState σ} {codes : List (List Instruction)}
    (h : scope.statementCodes b s = .ok codes s') {code : List Instruction} (hcode : code ∈ codes) :
    ∃ st ∈ b, ∃ t t', scope.statementCode st t = .ok code t' := by
  induction b generalizing s codes with
  | nil =>
    rw [Scope.statementCodes] at h
    obtain ⟨rfl, rfl⟩ := run_pure_eq_ok.mp h
    cases hcode
  | cons st rest ih =>
    obtain ⟨first, t, following, hfirst, hrest, rfl⟩ := statementCodes_cons_eq_ok h
    rcases List.mem_cons.mp hcode with rfl | hmem
    · exact ⟨st, List.mem_cons_self, s, t, hfirst⟩
    · obtain ⟨found, hfound, hrun⟩ := ih hrest hmem
      exact ⟨found, List.mem_cons_of_mem st hfound, hrun⟩

variable {r : Routine}

lemma blockCode_eq_ok {n : BlockId} {next : Option BlockId} {s s' : CodeState σ} {code : BlockCode}
    (h : scope.blockCode r n next s = .ok code s') :
    ∃ statements, r.graph.blocks[n]? = some statements ∧
      scope.headers.label? n = some code.header ∧
      scope.statementCodes statements s = .ok code.statements s' ∧
      scope.fallThroughJump r n next = .ok code.jump := by
  rw [Scope.blockCode, run_bind_eq_ok] at h
  obtain ⟨header, t, hrun, h⟩ := h
  obtain ⟨hheader, rfl⟩ := ofExcept_eq_ok.mp hrun
  cases hblock : r.graph.blocks[n]? with
  | none =>
    rw [hblock] at h
    cases h
  | some statements =>
    rw [hblock] at h
    obtain ⟨codes, t, hcodes, h⟩ := run_bind_eq_ok.mp h
    obtain ⟨jump, u, hrun, h⟩ := run_bind_eq_ok.mp h
    obtain ⟨hjump, rfl⟩ := ofExcept_eq_ok.mp hrun
    obtain ⟨rfl, rfl⟩ := run_pure_eq_ok.mp h
    exact ⟨statements, rfl, header_eq_ok.mp hheader, hcodes, hjump⟩

/-- A block that falls through nowhere, or into the block that follows, ends as it is; any other
one ends with a jump to the header of its fall-through successor. -/
lemma fallThroughJump_eq_ok {n : BlockId} {next : Option BlockId} {jump : Option Instruction}
    (h : scope.fallThroughJump r n next = .ok jump) :
    (r.graph.fallThroughs n = [] ∧ jump = none) ∨
      ∃ target, r.graph.fallThroughs n = [target] ∧
        ((next = some target ∧ jump = none) ∨
          (next ≠ some target ∧ ∃ label, scope.headers.label? target = some label ∧
            jump = some {
              opcode := if r.frames.any fun f => f.isLeftBy n target then .leave else .br
              operand := .label label })) := by
  unfold Scope.fallThroughJump at h
  match htargets : r.graph.fallThroughs n with
  | [] =>
    rw [htargets] at h
    cases h
    exact Or.inl ⟨rfl, rfl⟩
  | [target] =>
    rw [htargets] at h
    dsimp only at h
    refine Or.inr ⟨target, rfl, ?_⟩
    by_cases hnext : next = some target
    · rw [if_pos hnext] at h
      cases h
      exact Or.inl ⟨hnext, rfl⟩
    · rw [if_neg hnext] at h
      obtain ⟨label, hlabel, heq⟩ := except_bind_eq_ok.mp h
      cases heq
      exact Or.inr ⟨hnext, label, header_eq_ok.mp hlabel, rfl⟩
  | first :: second :: rest =>
    rw [htargets] at h
    cases h

end Scope

namespace PlacedBlock

lemma stop_eq_add (p : PlacedBlock) : p.stop = p.start + .ofNat (codeSize p.code.instructions) := by
  have hlt : p.start.toNat + codeSize p.code.instructions < UInt32.size :=
    p.stop_eq ▸ p.stop.toNat_lt
  rw [← UInt32.toNat_inj, p.stop_eq, toNat_add_ofNat hlt]

lemma emit_eq_some {n : BlockId} {position : Nat} {start : UInt32} {code : BlockCode}
    {p : PlacedBlock} : emit n position start code = some p ↔
      p.block = n ∧ p.position = position ∧ p.start = start ∧ p.code = code := by
  unfold emit
  split
  case h_1 stop hstop =>
    constructor
    · intro h
      cases h
      exact ⟨rfl, rfl, rfl, rfl⟩
    · rintro ⟨rfl, rfl, rfl, rfl⟩
      obtain ⟨block, position, start, stop', code, hstop'⟩ := p
      obtain rfl : stop' = stop :=
        Option.some.inj ((offsetBehind_eq_some.mpr hstop').symm.trans hstop)
      rfl
  case h_2 hnone =>
    constructor
    · intro h
      cases h
    · rintro ⟨rfl, rfl, rfl, rfl⟩
      rw [offsetBehind_eq_some.mpr p.stop_eq] at hnone
      cases hnone

lemma emit_eq_none {n : BlockId} {position : Nat} {start : UInt32} {code : BlockCode} :
    emit n position start code = none ↔
      UInt32.size ≤ start.toNat + codeSize code.instructions := by
  constructor
  · intro hnone
    by_contra hfits
    have hstop := toNat_add_ofNat (Nat.not_le.mp hfits)
    have hsome : emit n position start code = some ⟨n, position, start, _, code, hstop⟩ :=
      emit_eq_some.mpr ⟨rfl, rfl, rfl, rfl⟩
    rw [hnone] at hsome
    cases hsome
  · intro hlarge
    cases hemit : emit n position start code with
    | none => rfl
    | some p =>
      obtain ⟨-, -, rfl, rfl⟩ := emit_eq_some.mp hemit
      exact absurd (p.stop_eq ▸ p.stop.toNat_lt) (Nat.not_lt.mpr hlarge)

end PlacedBlock

namespace Scope

variable {scope : Scope σ} {r : Routine}

lemma place_cons_eq_ok {n : BlockId} {rest : List BlockId} {position : Nat} {start : UInt32}
    {s s' : CodeState σ} {placement : Placement}
    (h : scope.place r (n :: rest) position start s = .ok placement s') :
    ∃ p t following, p.block = n ∧ p.position = position ∧ p.start = start ∧
      scope.blockCode r n rest.head? s = .ok p.code t ∧
      scope.place r rest (position + 1) p.stop t = .ok following s' ∧
      placement = p :: following := by
  rw [Scope.place, run_bind_eq_ok] at h
  obtain ⟨code, t, hcode, h⟩ := h
  cases hemit : PlacedBlock.emit n position start code with
  | none =>
    rw [hemit] at h
    cases h
  | some p =>
    rw [hemit] at h
    obtain ⟨following, u, hrest, h⟩ := run_bind_eq_ok.mp h
    obtain ⟨rfl, rfl⟩ := run_pure_eq_ok.mp h
    obtain ⟨hblock, hposition, hstart, rfl⟩ := PlacedBlock.emit_eq_some.mp hemit
    exact ⟨p, t, following, hblock, hposition, hstart, hcode, hrest, rfl⟩

lemma place_nil_eq_ok {position : Nat} {start : UInt32} {s s' : CodeState σ}
    {placement : Placement} (h : scope.place r [] position start s = .ok placement s') :
    placement = [] ∧ s' = s := by
  rw [Scope.place] at h
  obtain ⟨rfl, rfl⟩ := run_pure_eq_ok.mp h
  exact ⟨rfl, rfl⟩

variable {order : List BlockId} {position : Nat} {start : UInt32} {s s' : CodeState σ}

/-- Blocks are placed in the given order. -/
lemma place_blocks {placement : Placement}
    (h : scope.place r order position start s = .ok placement s') :
    placement.map PlacedBlock.block = order := by
  induction order generalizing position start s placement with
  | nil =>
    obtain ⟨rfl, -⟩ := place_nil_eq_ok h
    rfl
  | cons n rest ih =>
    obtain ⟨p, t, following, rfl, -, -, -, hrest, rfl⟩ := place_cons_eq_ok h
    rw [List.map_cons, ih hrest]

/-- Positions count the blocks. -/
lemma place_positions {placement : Placement}
    (h : scope.place r order position start s = .ok placement s') {k : Nat} {p : PlacedBlock}
    (hp : placement[k]? = some p) : p.position = position + k := by
  induction order generalizing position start s placement k with
  | nil =>
    obtain ⟨rfl, -⟩ := place_nil_eq_ok h
    simp at hp
  | cons n rest ih =>
    obtain ⟨first, t, following, -, hposition, -, -, hrest, rfl⟩ := place_cons_eq_ok h
    cases k with
    | zero =>
      cases hp
      exact hposition
    | succ k =>
      rw [List.getElem?_cons_succ] at hp
      rw [ih hrest hp]
      omega

/-- The code of a placed block was made for the block that follows it. -/
lemma place_split {before after : Placement} {p : PlacedBlock}
    (h : scope.place r order position start s = .ok (before ++ p :: after) s') :
    ∃ t t', scope.blockCode r p.block (after.head?.map PlacedBlock.block) t = .ok p.code t' := by
  induction order generalizing position start s before with
  | nil =>
    obtain ⟨hempty, -⟩ := place_nil_eq_ok h
    simp at hempty
  | cons n rest ih =>
    obtain ⟨first, t, following, rfl, -, -, hcode, hrest, heq⟩ := place_cons_eq_ok h
    cases before with
    | nil =>
      obtain ⟨rfl, rfl⟩ := List.cons.inj heq
      have hblocks := place_blocks hrest
      refine ⟨s, t, ?_⟩
      rw [← List.head?_map, hblocks]
      exact hcode
    | cons _ before =>
      obtain ⟨-, rfl⟩ := List.cons.inj heq
      exact ih hrest

/-- Placing looks at the blocks of a routine and at the jumps between them only. -/
lemma place_congr {r' : Routine} (hblocks : r'.graph.blocks = r.graph.blocks)
    (hjump : scope.fallThroughJump r' = scope.fallThroughJump r) :
    scope.place r' = scope.place r := by
  have hcode : scope.blockCode r' = scope.blockCode r := by
    funext block next
    unfold Scope.blockCode
    rw [hblocks, hjump]
  funext order
  induction order with
  | nil => rfl
  | cons block rest ih =>
    funext position start
    rw [Scope.place, Scope.place, hcode, ih]

end Scope

/-! ## Routines -/

/-- The labels behind those of the headers. -/
def Headers.rest (h : Headers) : LabelSupply :=
  ⟨h.first + .ofNat h.count⟩

lemma Headers.toNat_rest (h : Headers) : h.rest.next.toNat = h.first.toNat + h.count :=
  toNat_add_ofNat h.fits

lemma Headers.allocate_eq_some {count : Nat} {supply rest : LabelSupply} {headers : Headers} :
    Headers.allocate count supply = some (headers, rest) ↔
      supply = ⟨headers.first⟩ ∧ headers.count = count ∧ rest = headers.rest := by
  unfold Headers.allocate
  by_cases hfits : supply.next.toNat + count < UInt32.size
  · rw [dif_pos hfits, Option.some.injEq, Prod.mk.injEq]
    constructor
    · rintro ⟨rfl, rfl⟩
      exact ⟨rfl, rfl, rfl⟩
    · rintro ⟨rfl, rfl, rfl⟩
      exact ⟨rfl, rfl⟩
  · rw [dif_neg hfits]
    constructor
    · intro hnone
      cases hnone
    · rintro ⟨rfl, rfl, -⟩
      exact absurd headers.fits hfits

/-- Where the code of a routine goes: its headers have the first labels that the body does not use,
and it starts behind the code of the body. -/
structure Site (r : Routine) (body : MethodBody) (headers : Headers) (start : UInt32) : Prop where
  labels : LabelSupply.continuing body.instructions = some ⟨headers.first⟩
  count : headers.count = r.graph.size
  offset : body.codeSize? = some start

/-- The place of the code does not depend on the locals. -/
lemma site_withLocals_iff {r : Routine} {body : MethodBody} {locals : LocalTable}
    {headers : Headers} {start : UInt32} :
    Site r { body with locals } headers start ↔ Site r body headers start :=
  ⟨fun h => ⟨h.labels, h.count, h.offset⟩, fun h => ⟨h.labels, h.count, h.offset⟩⟩

lemma Site.first_of_empty {r : Routine} {headers : Headers} {start : UInt32}
    (h : Site r {} headers start) : headers.first = 0 :=
  congrArg LabelSupply.next (Option.some.inj h.labels).symm

lemma allocate_continuing_eq_some {r : Routine} {body : MethodBody} {headers : Headers}
    {rest : LabelSupply} :
    (LabelSupply.continuing body.instructions).bind (Headers.allocate r.graph.size) =
        some (headers, rest) ↔
      LabelSupply.continuing body.instructions = some ⟨headers.first⟩ ∧
        headers.count = r.graph.size ∧ rest = headers.rest := by
  rw [Option.bind_eq_some_iff]
  constructor
  · rintro ⟨supply, hsupply, hallocate⟩
    obtain ⟨rfl, hcount, hrest⟩ := Headers.allocate_eq_some.mp hallocate
    exact ⟨hsupply, hcount, hrest⟩
  · rintro ⟨hsupply, hcount, hrest⟩
    exact ⟨_, hsupply, Headers.allocate_eq_some.mpr ⟨rfl, hcount, hrest⟩⟩

/-- The scope in which a routine is lowered. -/
def routineScope (services : Services σ) (options : Options) (r : Routine) (locals : LocalTable)
    (headers : Headers) : Scope σ :=
  { services, headers, locals, checkNet := options.checkNet, returnsValue := r.returnsValue }

variable {services : Services σ} {options : Options} {r : Routine}

/-- A routine is placed in the order of its blocks, behind the labels and the code of the body. -/
lemma placeRoutine_eq_ok {body : MethodBody} {s s' : σ} {placement : Placement} :
    placeRoutine services options r body s = .ok placement s' ↔
      ∃ headers start order t, Site r body headers start ∧ r.graph.order r.entry = .ok order ∧
        (routineScope services options r body.locals headers).place r order 0 start
          ⟨headers.rest, s⟩ = .ok placement t ∧ s' = t.services := by
  unfold placeRoutine
  constructor
  · intro h
    dsimp only at h
    split at h
    case h_1 => cases h
    case h_2 headers supply hallocate =>
      obtain ⟨hlabels, hcount, rfl⟩ := allocate_continuing_eq_some.mp hallocate
      split at h
      case h_1 => cases h
      case h_2 order horder =>
        split at h
        case h_1 => cases h
        case h_2 start hoffset =>
          split at h
          case h_1 found t hplace =>
            cases h
            exact ⟨headers, start, order, t, ⟨hlabels, hcount, hoffset⟩, horder, hplace, rfl⟩
          case h_2 => cases h
  · rintro ⟨headers, start, order, t, hsite, horder, hplace, rfl⟩
    have hallocate := allocate_continuing_eq_some.mpr ⟨hsite.labels, hsite.count, rfl⟩
    unfold routineScope at hplace
    simp only [hallocate, horder, hsite.offset, hplace]

/-- An ordered routine overflows when its blocks do so wherever they go. -/
lemma placeRoutine_overflows {body : MethodBody} {s : σ} {order : List BlockId}
    (horder : r.graph.order r.entry = .ok order)
    (hplace : ∀ headers start, Site r body headers start → ∃ t,
      (routineScope services options r body.locals headers).place r order 0 start
        ⟨headers.rest, s⟩ = .error .overflow t) :
    ∃ s', placeRoutine services options r body s = .error .overflow s' := by
  unfold placeRoutine
  dsimp only
  cases hallocate :
      (LabelSupply.continuing body.instructions).bind (Headers.allocate r.graph.size) with
  | none => exact ⟨s, rfl⟩
  | some allocated =>
    obtain ⟨headers, supply⟩ := allocated
    obtain ⟨hlabels, hcount, rfl⟩ := allocate_continuing_eq_some.mp hallocate
    simp only [horder]
    cases hoffset : body.codeSize? with
    | none => exact ⟨s, rfl⟩
    | some start =>
      obtain ⟨t, herror⟩ := hplace headers start ⟨hlabels, hcount, hoffset⟩
      unfold routineScope at herror
      simp only [herror]
      exact ⟨t.services, rfl⟩

lemma Routine.blockText_congr {r' : Routine} (hblocks : r'.graph.blocks = r.graph.blocks) :
    r'.blockText = r.blockText := by
  funext describe block
  unfold Routine.blockText
  rw [hblocks]

/-- Routines with the same blocks in the same order and the same jumps between them are placed
alike. -/
lemma placeRoutine_congr {r' : Routine} (hblocks : r'.graph.blocks = r.graph.blocks)
    (horder : r'.graph.order r'.entry = r.graph.order r.entry)
    (hreturns : r'.returnsValue = r.returnsValue)
    (hjump : ∀ scope : Scope σ, scope.fallThroughJump r' = scope.fallThroughJump r) :
    placeRoutine services options r' = placeRoutine services options r := by
  have hsize : r'.graph.size = r.graph.size := by
    unfold Graph.size
    rw [hblocks]
  have hplace : ∀ scope : Scope σ, scope.place r' = scope.place r :=
    fun scope => Scope.place_congr hblocks (hjump scope)
  funext body s
  unfold placeRoutine
  rw [hsize, horder, Routine.blockText_congr hblocks, hreturns]
  simp only [hplace]

/-- The blocks that compilation places behind the body of the workspace. -/
def compiledPlacement (services : Services σ) (options : Options) (r : Routine)
    (w : Workspace σ) : Option Placement :=
  match LocalTable.declareAll r.declarations w.body.locals with
  | .error _ _ => none
  | .ok () locals =>
    match placeRoutine services options r { w.body with locals } w.services with
    | .error _ _ => none
    | .ok placement _ => some placement

lemma compiledPlacement_eq_some {w : Workspace σ} {locals : LocalTable} {placement : Placement}
    {s : σ} (hdeclare : LocalTable.declareAll r.declarations w.body.locals = .ok () locals)
    (hplace : placeRoutine services options r { w.body with locals } w.services =
      .ok placement s) :
    compiledPlacement services options r w = some placement := by
  unfold compiledPlacement
  rw [hdeclare]
  dsimp only
  rw [hplace]

lemma phases_of_compiledPlacement {w : Workspace σ} {placement : Placement}
    (h : compiledPlacement services options r w = some placement) :
    ∃ locals s, LocalTable.declareAll r.declarations w.body.locals = .ok () locals ∧
      placeRoutine services options r { w.body with locals } w.services = .ok placement s := by
  unfold compiledPlacement at h
  cases hdeclare : LocalTable.declareAll r.declarations w.body.locals with
  | error f locals =>
    rw [hdeclare] at h
    cases h
  | ok u locals =>
    rw [hdeclare] at h
    dsimp only at h
    cases hplace : placeRoutine services options r { w.body with locals } w.services with
    | error f s =>
      rw [hplace] at h
      cases h
    | ok found s =>
      rw [hplace, Option.some.injEq] at h
      subst h
      exact ⟨locals, s, rfl, hplace⟩

lemma compile_eq_ok {w w' : Workspace σ} (h : compile services options r w = .ok () w') :
    ∃ locals placement handlers,
      LocalTable.declareAll r.declarations w.body.locals = .ok () locals ∧
      placeRoutine services options r { w.body with locals } w.services =
        .ok placement w'.services ∧
      FrameScope.handlers ⟨r, placement, services.describe, options.tryEnd⟩ = .ok handlers ∧
      w'.body = {
        locals
        instructions := w.body.instructions ++ placement.instructions
        handlers := w.body.handlers ++ handlers
        maxStack := max w.body.maxStack (placement.peak r.returnsValue) } := by
  cases hdeclare : LocalTable.declareAll r.declarations w.body.locals with
  | error f locals =>
    simp only [compile, hdeclare] at h
    cases h
  | ok u locals =>
    cases hplace : placeRoutine services options r { w.body with locals } w.services with
    | error f s =>
      simp only [compile, hdeclare, hplace] at h
      cases h
    | ok placement s =>
      cases hhandlers : FrameScope.handlers ⟨r, placement, services.describe, options.tryEnd⟩ with
      | error d =>
        simp only [compile, hdeclare, hplace, hhandlers] at h
        cases h
      | ok handlers =>
        simp only [compile, hdeclare, hplace, hhandlers] at h
        cases h
        exact ⟨locals, placement, handlers, rfl, hplace, hhandlers, rfl⟩

lemma compile_of_phases {w : Workspace σ} {locals : LocalTable} {placement : Placement}
    {handlers : List Handler} {s : σ}
    (hdeclare : LocalTable.declareAll r.declarations w.body.locals = .ok () locals)
    (hplace : placeRoutine services options r { w.body with locals } w.services =
      .ok placement s)
    (hhandlers : FrameScope.handlers ⟨r, placement, services.describe, options.tryEnd⟩ =
      .ok handlers) :
    compile services options r w = .ok () ⟨{
      locals
      instructions := w.body.instructions ++ placement.instructions
      handlers := w.body.handlers ++ handlers
      maxStack := max w.body.maxStack (placement.peak r.returnsValue) }, s⟩ := by
  simp only [compile, hdeclare, hplace, hhandlers]

lemma compile_of_placeRoutine_error {w : Workspace σ} {locals : LocalTable} {f : Failure} {s : σ}
    (hdeclare : LocalTable.declareAll r.declarations w.body.locals = .ok () locals)
    (herror : placeRoutine services options r { w.body with locals } w.services = .error f s) :
    compile services options r w = .error f ⟨{ w.body with locals }, s⟩ := by
  simp only [compile, hdeclare, herror]

/-- A successful run has placed the blocks of the routine in their order, and its code is theirs. -/
lemma compile_placement {w w' : Workspace σ} (h : compile services options r w = .ok () w') :
    ∃ placement headers start order locals t,
      compiledPlacement services options r w = some placement ∧
      Site r w.body headers start ∧ r.graph.order r.entry = .ok order ∧
      (routineScope services options r locals headers).place r order 0 start
        ⟨headers.rest, w.services⟩ = .ok placement t ∧
      w'.body.instructions = w.body.instructions ++ placement.instructions ∧
      w'.body.maxStack = max w.body.maxStack (placement.peak r.returnsValue) := by
  obtain ⟨locals, placement, handlers, hdeclare, hplace, -, hbody⟩ := compile_eq_ok h
  obtain ⟨headers, start, order, t, hsite, horder, hrun, -⟩ := placeRoutine_eq_ok.mp hplace
  exact ⟨placement, headers, start, order, locals, t, compiledPlacement_eq_some hdeclare hplace,
    site_withLocals_iff.mp hsite, horder, hrun, by rw [hbody], by rw [hbody]⟩

end CilBackend
