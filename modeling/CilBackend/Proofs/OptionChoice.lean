import CilBackend.Proofs.FrameAcceptance
import CilBackend.Proofs.LoweringSimulation
import CilBackend.Proofs.RegionPieces

/-!
# The choice of options

Options do not change the code of a routine. Compilations that end protected ranges in different
ways accept the same routines and differ in these ends only, and the check of net stack effects can
only refuse a routine.
-/

namespace CilBackend

variable {σ : Type} {services : Services σ} {options options' : Options} {r : Routine}

/-! ## Code -/

/-- Services answer like themselves. -/
lemma Services.expandAlike_self (services : Services σ) :
    services.ExpandAlike .zero services Eq := by
  refine ⟨rfl, ?_⟩
  rintro request s _ rfl
  have hrename : Instruction.rename .zero = id := funext Instruction.rename_zero
  rw [FlagRequest.rename_zero, hrename, List.map_id]
  exact ⟨rfl, rfl⟩

/-- Lowering with fewer checks follows lowering with more of them. -/
lemma routineScope_simulates_self (hchecks : options'.checkNet = true → options.checkNet = true)
    (locals : LocalTable) (headers : Headers) :
    (routineScope services options r locals headers).Simulates .zero
      (routineScope services options' r locals headers) Eq where
  first := (UInt32.add_zero _).symm
  count := rfl
  slot := fun _ _ hslot => hslot
  checkNet := hchecks
  returnsValue := rfl
  imports := by
    rintro m s _ rfl
    exact ⟨rfl, rfl⟩

/-- The same blocks are placed whatever the options are, if no check is added. -/
lemma placeRoutine_of_checkNet {body : MethodBody} {s s' : σ} {placement : Placement}
    (h : placeRoutine services options r body s = .ok placement s')
    (hchecks : options'.checkNet = true → options.checkNet = true) :
    placeRoutine services options' r body s = .ok placement s' := by
  obtain ⟨headers, start, order, u, hsite, horder, hrun, rfl⟩ := placeRoutine_eq_ok.mp h
  have hsimulates : (routineScope services options r body.locals headers).Simulates .zero
      (routineScope services options' r body.locals headers) Eq :=
    routineScope_simulates_self hchecks body.locals headers
  obtain ⟨u', hrun', hservices⟩ := Scope.place_of_simulates_zero hsimulates
    (fun e _ => ⟨fun i _ => i.rename_zero, fun _ => services.expandAlike_self⟩) hrun rfl
  exact placeRoutine_eq_ok.mpr ⟨headers, start, order, u', hsite, horder, hrun', hservices⟩

/-! ## Compiled routines -/

/-- A routine that compiles does so with all other options that add no check. -/
lemma exists_compile_of_checkNet {w w' : Workspace σ}
    (h : compile services options r w = .ok () w')
    (hchecks : options'.checkNet = true → options.checkNet = true) :
    ∃ w'', compile services options' r w = .ok () w'' := by
  obtain ⟨locals, placement, handlers, hdeclare, hplace, hhandlers, -⟩ := compile_eq_ok h
  obtain ⟨headers, start, order, t, -, horder, hrun, -⟩ := placeRoutine_eq_ok.mp hplace
  obtain ⟨handlers', hhandlers'⟩ := FrameScope.exists_handlersFrom_withEnd
    (Scope.place_laidOut horder hrun) hhandlers options'.tryEnd
  exact ⟨_, compile_of_phases hdeclare (placeRoutine_of_checkNet hplace hchecks) hhandlers'⟩

/-- Two compilations of a routine that differ in the end of protected ranges only. -/
lemma compile_endsEarlier {checkNet : Bool} {w w₁ w₂ : Workspace σ}
    (h₁ : compile services ⟨.handlerStart, checkNet⟩ r w = .ok () w₁)
    (h₂ : compile services ⟨.tryBodyEnd, checkNet⟩ r w = .ok () w₂) :
    ∃ placement pairs,
      compiledPlacement services ⟨.handlerStart, checkNet⟩ r w = some placement ∧
      w₁.body.instructions = w.body.instructions ++ placement.instructions ∧
      w₁.body.handlers = w.body.handlers ++ pairs.map Prod.fst ∧
      w₂ = { w₁ with body :=
        { w₁.body with handlers := w.body.handlers ++ pairs.map Prod.snd } } ∧
      List.Forall₂ (fun f pair => pair.2.EndsEarlier pair.1 f placement) r.frames pairs := by
  obtain ⟨locals, placement, handlers, hdeclare, hplace, hhandlers, hbody⟩ := compile_eq_ok h₁
  obtain ⟨headers, start, order, t, -, horder, hrun, -⟩ := placeRoutine_eq_ok.mp hplace
  have hlaid := Scope.place_laidOut horder hrun
  obtain ⟨handlers', hhandlers'⟩ :=
    FrameScope.exists_handlersFrom_withEnd hlaid hhandlers .tryBodyEnd
  -- The phases of the first run, with the other handlers, are those of the second one.
  have hsecond : compile services ⟨.tryBodyEnd, checkNet⟩ r w = _ :=
    compile_of_phases hdeclare (placeRoutine_of_checkNet hplace id) hhandlers'
  obtain ⟨pairs, rfl, rfl, hpairs⟩ := FrameScope.endsEarlier_of_handlersFrom
    (s := ⟨r, placement, services.describe, .handlerStart⟩) hlaid hhandlers hhandlers'
  cases h₂.symm.trans hsecond
  refine ⟨placement, pairs, compiledPlacement_eq_some hdeclare hplace, ?_, ?_, ?_, hpairs⟩
  · rw [hbody]
  · rw [hbody]
  · rw [hbody]

lemma compile_of_checkNet (tryEnd : TryEnd) {w w' : Workspace σ}
    (h : compile services ⟨tryEnd, true⟩ r w = .ok () w') :
    compile services ⟨tryEnd, false⟩ r w = .ok () w' := by
  obtain ⟨locals, placement, handlers, hdeclare, hplace, hhandlers, hbody⟩ := compile_eq_ok h
  have hplace' : placeRoutine services ⟨tryEnd, false⟩ r _ w.services = _ :=
    placeRoutine_of_checkNet hplace (fun _ => rfl)
  rw [compile_of_phases hdeclare hplace' hhandlers, ← hbody]

/-- Options never change the code. A routine compiles with protected ranges that end at the handler
exactly when it does with ranges that end behind the last protected block, and the results agree but
for these ends. A routine that passes the check of net stack effects gives the same without it. -/
theorem compile_options_agree (services : Services σ) (r : Routine) (w : Workspace σ) :
    (∀ checkNet,
      ((∃ w', compile services ⟨.handlerStart, checkNet⟩ r w = .ok () w') ↔
        ∃ w', compile services ⟨.tryBodyEnd, checkNet⟩ r w = .ok () w') ∧
      ∀ w₁ w₂, compile services ⟨.handlerStart, checkNet⟩ r w = .ok () w₁ →
        compile services ⟨.tryBodyEnd, checkNet⟩ r w = .ok () w₂ →
        ∃ placement pairs,
          compiledPlacement services ⟨.handlerStart, checkNet⟩ r w = some placement ∧
          w₁.body.instructions = w.body.instructions ++ placement.instructions ∧
          w₁.body.handlers = w.body.handlers ++ pairs.map Prod.fst ∧
          w₂ = { w₁ with body :=
            { w₁.body with handlers := w.body.handlers ++ pairs.map Prod.snd } } ∧
          List.Forall₂ (fun f pair => pair.2.EndsEarlier pair.1 f placement) r.frames pairs) ∧
    ∀ tryEnd w', compile services ⟨tryEnd, true⟩ r w = .ok () w' →
      compile services ⟨tryEnd, false⟩ r w = .ok () w' := by
  refine ⟨fun checkNet => ⟨⟨?_, ?_⟩, ?_⟩, ?_⟩
  · rintro ⟨w', h⟩
    exact exists_compile_of_checkNet h id
  · rintro ⟨w', h⟩
    exact exists_compile_of_checkNet h id
  · intro w₁ w₂ h₁ h₂
    exact compile_endsEarlier h₁ h₂
  · intro tryEnd w' h
    exact compile_of_checkNet tryEnd h

/-- A block that is not guarded lies between the last guarded block and the handler. -/
theorem splitGuard_options_agree : ∃ w₁ w₂ h h',
    compile plainServices ⟨.handlerStart, true⟩ splitGuard ⟨usedBody, ()⟩ = .ok () w₁ ∧
      compile plainServices ⟨.tryBodyEnd, true⟩ splitGuard ⟨usedBody, ()⟩ = .ok () w₂ ∧
      compile plainServices ⟨.tryBodyEnd, false⟩ splitGuard ⟨usedBody, ()⟩ = .ok () w₂ ∧
      w₁.body.handlers = [h] ∧ w₂.body.handlers = [h'] ∧
      w₂.body.instructions = w₁.body.instructions ∧ h' = { h with tryEnd := h'.tryEnd } ∧
      (h'.tryEnd.offset, h.tryEnd.offset) = (12, 14) := by
  obtain ⟨w₁, w₂, h, h', h₁, h₂, hrow, hrow', hoffsets⟩ : ∃ w₁ w₂ h h',
      compile plainServices ⟨.handlerStart, true⟩ splitGuard ⟨usedBody, ()⟩ = .ok () w₁ ∧
        compile plainServices ⟨.tryBodyEnd, true⟩ splitGuard ⟨usedBody, ()⟩ = .ok () w₂ ∧
        w₁.body.handlers = [h] ∧ w₂.body.handlers = [h'] ∧
        (h'.tryEnd.offset, h.tryEnd.offset) = (12, 14) :=
    ⟨_, _, _, _, rfl, rfl, rfl, rfl, rfl⟩
  obtain ⟨hends, hchecks⟩ := compile_options_agree plainServices splitGuard ⟨usedBody, ()⟩
  obtain ⟨placement, pairs, -, -, hfirst, hsecond, hpairs⟩ := (hends true).2 w₁ w₂ h₁ h₂
  refine ⟨w₁, w₂, h, h', h₁, h₂, hchecks _ _ h₂, hrow, hrow', by rw [hsecond], ?_, hoffsets⟩
  cases hpairs with
  | @cons _ pair _ _ hpair hrest =>
    cases hrest
    have heq : w₁.body.handlers = [pair.1] := hfirst
    have heq' : w₂.body.handlers = [pair.2] := by
      rw [hsecond]
      rfl
    rw [hrow, List.cons.injEq] at heq
    rw [hrow', List.cons.injEq] at heq'
    rw [heq.1, heq'.1]
    exact hpair.same

end CilBackend
