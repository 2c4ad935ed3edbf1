import CilBackend.Proofs.Declarations
import CilBackend.Proofs.RelocatedRoutines

/-!
# Failed runs of compilation

A failed run never touches the handlers or the stack size of the body. It leaves the variables that
it could declare, and either no code at all or, when only the handler table could not be built, the
code of all blocks.
-/

namespace CilBackend

variable {σ : Type}

/-! ## Variables -/

namespace LocalTable

/-- `t'` holds the variables of `t` and then those of `vs` up to the first one that cannot be
registered, or all of them. -/
def ExtendedUntilRefused (t : LocalTable) (vs : List Variable) (t' : LocalTable) : Prop :=
  ∃ accepted rest, vs = accepted ++ rest ∧
    t'.entries.toList = t.entries.toList ++ accepted ∧
    ∀ v following, rest = v :: following → ∃ e, register v t' = .error e t'

lemma extendedUntilRefused_of_ok {vs : List Variable} {t t' : LocalTable}
    (h : declareAll vs t = .ok () t') : t.ExtendedUntilRefused vs t' := by
  refine ⟨vs, [], (List.append_nil vs).symm, declareAll_entries h, ?_⟩
  intro v following hnil
  cases hnil

/-- A variable that is refused leaves the table as it was. -/
lemma declare_eq_error {v : Variable} {t t' : LocalTable} {f : Failure}
    (h : declare v t = .error f t') : t' = t ∧ ∃ e, register v t = .error e t := by
  obtain ⟨-, hrun⟩ | ⟨-, -, hrun⟩ | ⟨-, -, found, hrun, -⟩ := register_cases v t
  · simp only [declare, hrun] at h
    cases h
    exact ⟨rfl, _, hrun⟩
  · simp only [declare, hrun] at h
    cases h
    exact ⟨rfl, _, hrun⟩
  · simp only [declare, hrun] at h
    cases h

lemma extendedUntilRefused_of_error {vs : List Variable} {t t' : LocalTable} {f : Failure}
    (h : declareAll vs t = .error f t') : t.ExtendedUntilRefused vs t' := by
  induction vs generalizing t with
  | nil => cases h
  | cons v rest ih =>
    rcases run_bind_eq_error.mp h with hfirst | ⟨_, middle, hfirst, hrest⟩
    · obtain ⟨rfl, e, hregister⟩ := declare_eq_error hfirst
      refine ⟨[], v :: rest, rfl, (List.append_nil _).symm, ?_⟩
      rintro _ _ ⟨⟩
      exact ⟨e, hregister⟩
    · obtain ⟨accepted, left, rfl, hentries, hrefused⟩ := ih hrest
      obtain ⟨-, -, hpush⟩ := declare_eq_ok hfirst
      refine ⟨v :: accepted, left, rfl, ?_, hrefused⟩
      rw [hentries, hpush, Array.toList_push, List.append_assoc, List.singleton_append]

end LocalTable

/-! ## Code -/

namespace Scope

variable {scope : Scope σ} {r : Routine}

/-- The code of a placed block is whole: it has the header of the block, the code of each of its
statements and the jump that it needs in front of the block `next`. -/
structure Lowers (scope : Scope σ) (r : Routine) (next : Option BlockId) (p : PlacedBlock)
    (statements : Block) : Prop where
  block : r.graph.blocks[p.block]? = some statements
  header : scope.headers.label? p.block = some p.code.header
  code : List.Forall₂ (fun st piece => ∃ s s', scope.statementCode st s = .ok piece s') statements
    p.code.statements
  jump : scope.fallThroughJump r p.block next = .ok p.code.jump

lemma statementCodes_forall₂ {b : Block} {s s' : CodeState σ} {codes : List (List Instruction)}
    (h : scope.statementCodes b s = .ok codes s') :
    List.Forall₂ (fun st piece => ∃ t t', scope.statementCode st t = .ok piece t') b codes := by
  induction b generalizing s codes with
  | nil =>
    rw [Scope.statementCodes] at h
    obtain ⟨rfl, -⟩ := run_pure_eq_ok.mp h
    exact List.Forall₂.nil
  | cons st rest ih =>
    obtain ⟨code, t, following, hcode, hrest, rfl⟩ := statementCodes_cons_eq_ok h
    exact List.Forall₂.cons ⟨s, t, hcode⟩ (ih hrest)

lemma place_lowers {order : List BlockId} {position : Nat} {start : UInt32} {s s' : CodeState σ}
    {before after : Placement} {p : PlacedBlock}
    (h : scope.place r order position start s = .ok (before ++ p :: after) s') :
    ∃ statements, scope.Lowers r (after.head?.map PlacedBlock.block) p statements := by
  obtain ⟨t, t', hcode⟩ := place_split h
  obtain ⟨statements, hblock, hheader, hcodes, hjump⟩ := blockCode_eq_ok hcode
  exact ⟨statements, hblock, hheader, statementCodes_forall₂ hcodes, hjump⟩

end Scope

/-! ## Runs -/

variable {services : Services σ} {options : Options} {r : Routine} {w w' : Workspace σ}
  {f : Failure}

lemma compiledPlacement_eq_none_of_declareAll {locals : LocalTable}
    (h : LocalTable.declareAll r.declarations w.body.locals = .error f locals) :
    compiledPlacement services options r w = none := by
  unfold compiledPlacement
  rw [h]

lemma compiledPlacement_eq_none_of_placeRoutine {locals : LocalTable} {s : σ}
    (hdeclare : LocalTable.declareAll r.declarations w.body.locals = .ok () locals)
    (h : placeRoutine services options r { w.body with locals } w.services = .error f s) :
    compiledPlacement services options r w = none := by
  unfold compiledPlacement
  rw [hdeclare]
  dsimp only
  rw [h]

/-- The three ways in which a run can fail. -/
lemma compile_eq_error (h : compile services options r w = .error f w') :
    (∃ locals, LocalTable.declareAll r.declarations w.body.locals = .error f locals ∧
      w'.body = { w.body with locals }) ∨
    ∃ locals, LocalTable.declareAll r.declarations w.body.locals = .ok () locals ∧
      ((placeRoutine services options r { w.body with locals } w.services = .error f w'.services ∧
        w'.body = { w.body with locals }) ∨
      ∃ placement d, placeRoutine services options r { w.body with locals } w.services =
          .ok placement w'.services ∧
        FrameScope.handlers ⟨r, placement, services.describe, options.tryEnd⟩ = .error d ∧
        f = .rejected d ∧ w'.body = { w.body with
          locals
          instructions := w.body.instructions ++ placement.instructions }) := by
  cases hdeclare : LocalTable.declareAll r.declarations w.body.locals with
  | error f' locals =>
    simp only [compile, hdeclare] at h
    cases h
    exact Or.inl ⟨locals, rfl, rfl⟩
  | ok u locals =>
    refine Or.inr ⟨locals, rfl, ?_⟩
    cases hplace : placeRoutine services options r { w.body with locals } w.services with
    | error f' s =>
      simp only [compile, hdeclare, hplace] at h
      cases h
      exact Or.inl ⟨rfl, rfl⟩
    | ok placement s =>
      cases hhandlers : FrameScope.handlers ⟨r, placement, services.describe, options.tryEnd⟩ with
      | error d =>
        simp only [compile, hdeclare, hplace, hhandlers] at h
        cases h
        exact Or.inr ⟨placement, d, rfl, hhandlers, rfl, rfl⟩
      | ok handlers =>
        simp only [compile, hdeclare, hplace, hhandlers] at h
        cases h

/-- Only the handler table could not be built: every block of the routine has been placed with all
its code, and the code of the blocks has been appended in their order. -/
structure FailedAtHandlers (services : Services σ) (options : Options) (r : Routine)
    (w : Workspace σ) (f : Failure) (w' : Workspace σ) (placement : Placement) (headers : Headers)
    (start : UInt32) : Prop where
  site : Site r w.body headers start
  placed : compiledPlacement services options r w = some placement
  ordered : r.graph.order r.entry = .ok (placement.map PlacedBlock.block)
  lowered : ∀ before p after, placement = before ++ p :: after → ∃ statements,
    (routineScope services options r w'.body.locals headers).Lowers r
      (after.head?.map PlacedBlock.block) p statements
  appended : w'.body.instructions = w.body.instructions ++ placeFrom start placement.rawCode
  fits : start.toNat + codeSize placement.rawCode < UInt32.size
  refused : ∃ d, f = .rejected d ∧
    FrameScope.handlers ⟨r, placement, services.describe, options.tryEnd⟩ = .error d

lemma failedAtHandlers {locals : LocalTable} {placement : Placement} {d : Diagnostic}
    (hdeclare : LocalTable.declareAll r.declarations w.body.locals = .ok () locals)
    (hplace : placeRoutine services options r { w.body with locals } w.services =
      .ok placement w'.services)
    (hhandlers : FrameScope.handlers ⟨r, placement, services.describe, options.tryEnd⟩ = .error d)
    (hbody : w'.body = { w.body with
      locals
      instructions := w.body.instructions ++ placement.instructions }) :
    ∃ headers start,
      FailedAtHandlers services options r w (.rejected d) w' placement headers start := by
  obtain ⟨headers, start, order, t, hsite, horder, hrun, -⟩ := placeRoutine_eq_ok.mp hplace
  refine ⟨headers, start, site_withLocals_iff.mp hsite, compiledPlacement_eq_some hdeclare hplace,
    ?_, ?_, ?_, Scope.place_codeSize_lt hrun, d, rfl, hhandlers⟩
  · rw [Scope.place_blocks hrun]
    exact horder
  · rintro before p after rfl
    rw [hbody]
    exact Scope.place_lowers hrun
  · rw [hbody]
    dsimp only
    rw [Scope.place_instructions hrun]

/-- A failed run leaves handlers and stack size as they were, declares the variables up to the first
one that is refused, and appends no code or, if only the handler table fails, the code of all
blocks. -/
theorem compile_error_leaves (h : compile services options r w = .error f w') :
    w'.body.handlers = w.body.handlers ∧ w'.body.maxStack = w.body.maxStack ∧
      w.body.locals.ExtendedUntilRefused r.declarations w'.body.locals ∧
      ((compiledPlacement services options r w = none ∧
          w'.body.instructions = w.body.instructions) ∨
        ∃ placement headers start,
          FailedAtHandlers services options r w f w' placement headers start) := by
  obtain ⟨locals, hdeclare, hbody⟩ | ⟨locals, hdeclare, ⟨hplace, hbody⟩ |
    ⟨placement, d, hplace, hhandlers, rfl, hbody⟩⟩ := compile_eq_error h
  · have hlocals := LocalTable.extendedUntilRefused_of_error hdeclare
    rw [hbody]
    exact ⟨rfl, rfl, hlocals, Or.inl ⟨compiledPlacement_eq_none_of_declareAll hdeclare, rfl⟩⟩
  · have hlocals := LocalTable.extendedUntilRefused_of_ok hdeclare
    rw [hbody]
    exact ⟨rfl, rfl, hlocals,
      Or.inl ⟨compiledPlacement_eq_none_of_placeRoutine hdeclare hplace, rfl⟩⟩
  · have hlocals := LocalTable.extendedUntilRefused_of_ok hdeclare
    obtain ⟨headers, start, hfailed⟩ := failedAtHandlers hdeclare hplace hhandlers hbody
    rw [hbody]
    exact ⟨rfl, rfl, hlocals, Or.inr ⟨placement, headers, start, hfailed⟩⟩

/-- Declares a variable that `jumpingBody` has already between two others. -/
def redeclaringReturn : Routine :=
  { filteredReturn with
    declarations := [.unnamed ⟨0⟩ .object, .unnamed ⟨5⟩ .object, .unnamed ⟨1⟩ .object] }

/-- The filter with a frame of an unknown kind. -/
def misframedReturn : Routine :=
  { filteredReturn with frames := [⟨4, [0], [1], none⟩] }

theorem filteredReturn_error_leaves : ∃ f₁ f₂ w₁ w₂ placement headers,
    compile plainServices {} redeclaringReturn ⟨jumpingBody, ()⟩ = .error f₁ w₁ ∧
      w₁.body.locals.ids = [⟨5⟩, ⟨0⟩] ∧ w₁.body.instructions = jumpingBody.instructions ∧
      w₁.body.handlers = [] ∧ w₁.body.maxStack = 9 ∧
      compile plainServices {} misframedReturn ⟨jumpingBody, ()⟩ = .error f₂ w₂ ∧
      w₂.body.locals.ids = [⟨5⟩, ⟨0⟩] ∧ w₂.body.handlers = [] ∧ w₂.body.maxStack = 9 ∧
      FailedAtHandlers plainServices {} misframedReturn ⟨jumpingBody, ()⟩ f₂ w₂ placement headers
        6 := by
  obtain ⟨f₁, w₁, h₁, hids₁, hplacement⟩ : ∃ f₁ w₁,
      compile plainServices {} redeclaringReturn ⟨jumpingBody, ()⟩ = .error f₁ w₁ ∧
        w₁.body.locals.ids = [⟨5⟩, ⟨0⟩] ∧
        compiledPlacement plainServices {} redeclaringReturn ⟨jumpingBody, ()⟩ = none :=
    ⟨_, _, rfl, rfl, rfl⟩
  obtain ⟨f₂, w₂, h₂, hids₂, hlength⟩ : ∃ f₂ w₂,
      compile plainServices {} misframedReturn ⟨jumpingBody, ()⟩ = .error f₂ w₂ ∧
        w₂.body.locals.ids = [⟨5⟩, ⟨0⟩] ∧ w₂.body.instructions.length = 8 :=
    ⟨_, _, rfl, rfl, rfl⟩
  obtain ⟨hhandlers₁, hstack₁, -, ⟨-, hcode₁⟩ | ⟨_, _, _, hfailed⟩⟩ := compile_error_leaves h₁
  · obtain ⟨hhandlers₂, hstack₂, -, ⟨-, hcode₂⟩ | ⟨placement, headers, start, hfailed⟩⟩ :=
      compile_error_leaves h₂
    · rw [hcode₂] at hlength
      cases hlength
    · obtain rfl : 6 = start := Option.some.inj hfailed.site.offset
      exact ⟨f₁, f₂, w₁, w₂, placement, headers, h₁, hids₁, hcode₁, hhandlers₁, hstack₁, h₂, hids₂,
        hhandlers₂, hstack₂, hfailed⟩
  · rw [hfailed.placed] at hplacement
    cases hplacement

end CilBackend
