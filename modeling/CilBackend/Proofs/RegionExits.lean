import CilBackend.Proofs.FallThrough

/-!
# Leaving regions

Control that falls out of a region of a frame has to go by a `leave`. The code of a block ends with
one when the block that it falls into is placed elsewhere. When that block comes next, nothing is
appended, and control runs over the end of the region unless the last statement has left it already.
-/

namespace CilBackend

variable {σ : Type}

/-- The last instruction of the code is a `leave` to the label. -/
def EndsWithLeave (code : List Instruction) (target : Label) : Prop :=
  ∃ i, code.getLast? = some i ∧ i.opcode = .leave ∧ i.operand = .label target

lemma endsWithLeave_placeFrom {start : UInt32} {code : List Instruction} {target : Label} :
    EndsWithLeave (placeFrom start code) target ↔ EndsWithLeave code target := by
  unfold EndsWithLeave
  rcases List.eq_nil_or_concat code with rfl | ⟨init, last, rfl⟩
  · rfl
  · rw [List.concat_eq_append, placeFrom_append]
    simp [placeFrom]

namespace BlockCode

variable {c : BlockCode} {target : Label}

/-- Without a jump at the end, the statements decide. The header alone is no `leave`. -/
lemma endsWithLeave_of_no_jump (h : c.jump = none) :
    EndsWithLeave c.instructions target ↔ EndsWithLeave c.statements.flatten target := by
  unfold EndsWithLeave BlockCode.instructions
  rw [h, Option.toList_none, List.append_nil]
  cases hcode : c.statements.flatten with
  | nil => simp [Instruction.header]
  | cons i rest => rw [List.getLast?_cons_cons]

lemma endsWithLeave_of_jump {jump : Instruction} (h : c.jump = some jump) :
    EndsWithLeave c.instructions target ↔ jump.opcode = .leave ∧ jump.operand = .label target := by
  unfold EndsWithLeave BlockCode.instructions
  rw [h, Option.toList_some, List.getLast?_concat]
  simp

end BlockCode

/-- A block that falls out of a region into `q` ends with a `leave` to it unless `q` comes next and
the statements of the block do not end with one. -/
lemma Placement.FallsInto.endsWithLeave_iff {placement : Placement} {r : Routine}
    {p q : PlacedBlock} {start stop : UInt32} (h : placement.FallsInto r p q) (hlaid : placement.LaidOut start stop)
    (hq : q ∈ placement) (hleaves : r.Leaves p.block q.block) :
    EndsWithLeave p.instructions q.code.header ↔
      placement.after? p.block ≠ some q ∨
        EndsWithLeave p.code.statements.flatten q.code.header := by
  obtain ⟨before, after, hsplit, hway⟩ := h
  have hbehind : placement = (before ++ [p]) ++ after := by
    rw [hsplit, List.append_assoc, List.singleton_append]
  unfold PlacedBlock.instructions
  rw [endsWithLeave_placeFrom, hlaid.after?_eq hsplit]
  rcases hway with ⟨hnext, hnone⟩ | ⟨hapart, jump, offset, hjump, -, hoperand, hopcode⟩
  · have hhead := hlaid.head?_block hbehind hq hnext
    rw [BlockCode.endsWithLeave_of_no_jump hnone]
    simp [hhead]
  · have hleave : jump.opcode = .leave := by
      rcases hopcode with ⟨-, hleave⟩ | ⟨hstays, -⟩
      · exact hleave
      · exact absurd hleaves hstays
    have hother : after.head? ≠ some q := by
      intro hhead
      obtain ⟨rest, rfl⟩ := List.head?_eq_some_iff.mp hhead
      exact hapart rfl
    rw [BlockCode.endsWithLeave_of_jump hjump]
    exact ⟨fun _ => Or.inl hother, fun _ => ⟨hleave, hoperand⟩⟩

/-- Where control falls out of a region of a compiled routine, the code of the block ends with a
`leave` to the header of the block it goes to exactly when that block is not placed next or the
statements of the first one end with such a `leave`. -/
theorem compile_endsWithLeave_iff {services : Services σ} {options : Options} {r : Routine}
    {w w' : Workspace σ} (hcompile : compile services options r w = .ok () w') :
    ∃ placement, compiledPlacement services options r w = some placement ∧
      w'.body.instructions = w.body.instructions ++ placement.instructions ∧
      r.graph.order r.entry = .ok (placement.map PlacedBlock.block) ∧
      ∀ n t, ⟨n, t, .fallThrough⟩ ∈ r.graph.edges → r.Leaves n t →
        ∃ p ∈ placement, ∃ q ∈ placement, p.block = n ∧ q.block = t ∧
          (EndsWithLeave p.instructions q.code.header ↔
            placement.after? n ≠ some q ∨
              EndsWithLeave p.code.statements.flatten q.code.header) := by
  obtain ⟨placement, headers, start, order, locals, t, hplacement, -, horder, hplace, hcode, -⟩ :=
    compile_placement hcompile
  have hblocks := Scope.place_blocks hplace
  have hlaid := Scope.place_laidOut horder hplace
  refine ⟨placement, hplacement, hcode, by rw [hblocks, horder], ?_⟩
  intro n t hedge hleaves
  obtain ⟨p, hp, q, hq, rfl, rfl, hfalls⟩ := Scope.place_edge_fallsInto horder hplace hedge
  exact ⟨p, hp, q, hq, rfl, rfl, hfalls.endsWithLeave_iff hlaid hq hleaves⟩

/-- The last guarded block falls through over the handler. -/
theorem nestedGuards_endsWithLeave : ∃ w' placement,
    compile plainServices {} nestedGuards ⟨usedBody, ()⟩ = .ok () w' ∧
      compiledPlacement plainServices {} nestedGuards ⟨usedBody, ()⟩ = some placement ∧
      nestedGuards.Leaves 4 6 ∧
      ∃ p ∈ placement, ∃ q ∈ placement, p.block = 4 ∧ q.block = 6 ∧
        EndsWithLeave p.instructions q.code.header := by
  obtain ⟨w', placement, hcompile, hplacement, hnext⟩ : ∃ w' placement,
      compile plainServices {} nestedGuards ⟨usedBody, ()⟩ = .ok () w' ∧
        compiledPlacement plainServices {} nestedGuards ⟨usedBody, ()⟩ = some placement ∧
        (placement.after? 4).map PlacedBlock.block = some 5 := ⟨_, _, rfl, rfl, rfl⟩
  have hleaves : nestedGuards.Leaves 4 6 := Routine.any_isLeftBy.mp rfl
  obtain ⟨found, hfound, -, -, hexits⟩ := compile_endsWithLeave_iff hcompile
  rw [hplacement, Option.some.injEq] at hfound
  subst hfound
  obtain ⟨p, hp, q, hq, hpblock, hqblock, hends⟩ := hexits 4 6 (by decide) hleaves
  refine ⟨w', placement, hcompile, hplacement, hleaves, p, hp, q, hq, hpblock, hqblock, ?_⟩
  apply hends.mpr
  left
  intro hafter
  rw [hafter, Option.map_some, hqblock] at hnext
  exact absurd hnext (by decide)

/-- A guarded block and its handler, which falls through into the block behind it. -/
def fallingHandler : Routine where
  declarations := []
  graph := {
    blocks := [
      [],
      [.expression (.instruction [{ opcode := .leave, operand := .block 3 }] [] none .void)],
      [],
      [.expression (.instruction [{ opcode := .ret }] [] none .void)]]
    edges := [⟨0, 1, .fallThrough⟩, ⟨1, 2, .exceptional⟩, ⟨1, 3, .branch⟩, ⟨2, 3, .fallThrough⟩]
    edges_inside := by decide }
  entry := 0
  frames := [⟨0, [1], [2], none⟩]
  returnsValue := false

/-- The frame is accepted, and control runs over the end of the handler without a `leave`. -/
theorem fallingHandler_falls_out_of_handler : ∃ w' placement h p q,
    compile plainServices {} fallingHandler ⟨{}, ()⟩ = .ok () w' ∧
      compiledPlacement plainServices {} fallingHandler ⟨{}, ()⟩ = some placement ∧
      ⟨2, 3, .fallThrough⟩ ∈ fallingHandler.graph.edges ∧ fallingHandler.Leaves 2 3 ∧
      w'.body.handlers = [h] ∧ p ∈ placement ∧ q ∈ placement ∧ p.block = 2 ∧ q.block = 3 ∧
      h.handlerStart = p.header ∧ h.handlerEnd = q.header ∧
      ¬ EndsWithLeave p.instructions q.code.header := by
  obtain ⟨w', before, p, q, h, hcompile, hplacement, hhandlers, hp, hq, hstart, hend, hlast⟩ :
      ∃ w' before p q h, compile plainServices {} fallingHandler ⟨{}, ()⟩ = .ok () w' ∧
        compiledPlacement plainServices {} fallingHandler ⟨{}, ()⟩ = some (before ++ [p, q]) ∧
        w'.body.handlers = [h] ∧ p.block = 2 ∧ q.block = 3 ∧
        h.handlerStart = p.header ∧ h.handlerEnd = q.header ∧
        p.instructions.getLast?.map Instruction.opcode = some .nop :=
    ⟨_, [_, _], _, _, _, rfl, rfl, rfl, rfl, rfl, rfl, rfl, rfl⟩
  refine ⟨w', _, h, p, q, hcompile, hplacement, by decide, Routine.any_isLeftBy.mp rfl, hhandlers,
    by simp, by simp, hp, hq, hstart, hend, ?_⟩
  rintro ⟨i, hi, hopcode, -⟩
  rw [hi, Option.map_some, hopcode] at hlast
  exact absurd hlast (by decide)

end CilBackend
