import CilBackend.Proofs.FailedRuns
import CilBackend.Proofs.Regions

/-!
# Ranges of placed blocks

The range of a block runs from the offset of its header up to the offset behind its last
instruction. The ranges of all blocks tile the appended code in the order of the blocks, so the
block that follows another one is the one whose header stands where the range of the other ends.
This holds as soon as the blocks are placed, whether or not the handler table can be built.
-/

namespace CilBackend

variable {σ : Type}

/-- The code of a block fills its range: the header stands at the start, every other instruction
right behind the one above it, and the last one ends where the range ends. -/
structure PlacedBlock.FillsRange (p : PlacedBlock) : Prop where
  nonempty : p.header.offset < p.stop
  starts : p.instructions.head? = some p.header.blockHeader
  gapless : ∀ k i j, p.instructions[k]? = some i → p.instructions[k + 1]? = some j →
    j.offset.toNat = i.offset.toNat + i.size
  ends : ∀ i, p.instructions.getLast? = some i → i.offset.toNat + i.size = p.stop.toNat

/-- The ranges of the blocks stand in the given order and without gaps between two offsets, and
every block knows its place in the order. -/
structure Placement.Tiling (placement : Placement) (order : List BlockId)
    (first behind : UInt32) : Prop where
  blocks : placement.map PlacedBlock.block = order
  filled : ∀ p ∈ placement, p.FillsRange
  start : ∃ p, placement.head? = some p ∧ p.header.offset = first
  next : ∀ (k : Nat) (p q : PlacedBlock), placement[k]? = some p → placement[k + 1]? = some q →
    p.stop = q.header.offset
  stop : ∃ p, placement.getLast? = some p ∧ p.stop = behind
  position : ∀ p ∈ placement, order[p.position]? = some p.block
  follows : ∀ n q, placement.after? n = some q ↔
    ∃ p, placement.get? n = some p ∧ q ∈ placement ∧ p.stop = q.header.offset
  last : ∀ n ∈ order, placement.after? n = none ↔ order.getLast? = some n

/-! ## Single blocks -/

/-- The instructions above one of them take up the bytes between the start and its offset. -/
lemma PlacedBlock.offset_eq (p : PlacedBlock) {k : Nat} {i : Instruction}
    (hi : p.instructions[k]? = some i) :
    i.offset.toNat = p.start.toNat + codeSize (p.instructions.take k) := by
  have hplaced : p.instructions = placeFrom p.start p.instructions :=
    (placeFrom_placeFrom p.start p.start p.code.instructions).symm
  have hfits : p.start.toNat + codeSize p.instructions < UInt32.size := by
    unfold PlacedBlock.instructions
    rw [codeSize_placeFrom, ← p.stop_eq]
    exact p.stop.toNat_lt
  have hle := codeSize_take_le k p.instructions
  rw [hplaced] at hi
  rw [offset_placeFrom hi, toNat_add_ofNat (by omega)]

lemma PlacedBlock.fillsRange (p : PlacedBlock) : p.FillsRange where
  nonempty := p.start_lt_stop
  starts := rfl
  gapless := by
    intro k i j hi hj
    rw [p.offset_eq hi, p.offset_eq hj, List.take_add_one, hi, codeSize_append, Nat.add_assoc]
    rfl
  ends := by
    intro i hi
    obtain ⟨init, hinit⟩ := List.getLast?_eq_some_iff.mp hi
    have hlast : p.instructions[init.length]? = some i := by simp [hinit]
    have htake : p.instructions.take init.length = init := by simp [hinit]
    have hsize : codeSize init + i.size = codeSize p.code.instructions := by
      have hcode : codeSize p.instructions = codeSize p.code.instructions :=
        codeSize_placeFrom p.start _
      rw [← hcode, hinit, codeSize_append]
      rfl
    rw [p.offset_eq hlast, htake, p.stop_eq, Nat.add_assoc, hsize]

/-! ## All blocks -/

namespace Placement

variable {placement : Placement} {first behind : UInt32}

lemma Tiles.start_next (h : Tiles first placement behind) {k : Nat} {p q : PlacedBlock}
    (hp : placement[k]? = some p) (hq : placement[k + 1]? = some q) : p.stop = q.start := by
  induction placement generalizing first k with
  | nil => simp at hp
  | cons b rest ih =>
    rw [List.getElem?_cons_succ] at hq
    cases k with
    | zero =>
      cases rest with
      | nil => simp at hq
      | cons c rest =>
        rw [List.getElem?_cons_zero, Option.some.injEq] at hp hq
        subst hp hq
        exact h.2.1.symm
    | succ k => exact ih h.2 hp hq

lemma Tiles.stop_last (h : Tiles first placement behind) {p : PlacedBlock}
    (hp : placement.getLast? = some p) : p.stop = behind := by
  obtain ⟨init, rfl⟩ := List.getLast?_eq_some_iff.mp hp
  exact h.split.2

namespace LaidOut

lemma after?_eq_some (h : placement.LaidOut first behind) {n : BlockId} {q : PlacedBlock} :
    placement.after? n = some q ↔
      ∃ p, placement.get? n = some p ∧ q ∈ placement ∧ p.stop = q.start := by
  constructor
  · intro hafter
    obtain ⟨p, hget, -⟩ := Placement.after?_eq_some.mp hafter
    obtain ⟨hp, rfl⟩ := h.get?_eq_some.mp hget
    exact ⟨p, hget, mem_of_after? hafter, (h.start_of_after? hp hafter).symm⟩
  · rintro ⟨p, hget, hq, hstop⟩
    obtain ⟨hp, rfl⟩ := h.get?_eq_some.mp hget
    obtain ⟨next, hnext⟩ := h.exists_after? hp hq (UInt32.le_of_eq hstop)
    have hstart := h.start_of_after? hp hnext
    rw [hnext, h.eq_of_start (mem_of_after? hnext) hq (hstart.trans hstop)]

/-- Nothing follows the last block, and something follows every other one. -/
lemma after?_eq_none (h : placement.LaidOut first behind) {p : PlacedBlock} (hp : p ∈ placement) :
    placement.after? p.block = none ↔
      (placement.map PlacedBlock.block).getLast? = some p.block := by
  obtain ⟨before, after, hsplit⟩ := List.append_of_mem hp
  rw [h.after?_eq hsplit]
  have hnodup := h.nodup
  subst hsplit
  cases after with
  | nil => simp
  | cons q rest =>
    rw [List.map_append, List.map_cons, List.nodup_append, List.nodup_cons] at hnodup
    have hbehind : p.block ∉ (q :: rest).map PlacedBlock.block := hnodup.2.1.1
    have hsplit : (before ++ p :: q :: rest).map PlacedBlock.block =
        (before ++ [p]).map PlacedBlock.block ++ (q :: rest).map PlacedBlock.block := by simp
    rw [hsplit, List.getLast?_append_of_ne_nil _ (by simp)]
    constructor
    · intro hnone
      cases hnone
    · intro hlast
      exact absurd (List.mem_of_getLast? hlast) hbehind

/-- Blocks that are laid out tile the code from its start to its end. -/
lemma tiling (h : placement.LaidOut first behind) (hne : placement ≠ []) :
    placement.Tiling (placement.map PlacedBlock.block) first behind where
  blocks := rfl
  filled := fun p _ => p.fillsRange
  start := by
    obtain ⟨p, rest, rfl⟩ := List.exists_cons_of_ne_nil hne
    exact ⟨p, rfl, h.tiles.1⟩
  next := fun _ _ _ => h.tiles.start_next
  stop := by
    refine ⟨placement.getLast hne, List.getLast?_eq_getLast_of_ne_nil hne, ?_⟩
    exact h.tiles.stop_last (List.getLast?_eq_getLast_of_ne_nil hne)
  position := by
    intro p hp
    obtain ⟨k, hk⟩ := List.mem_iff_getElem?.mp hp
    rw [h.position k p hk, List.getElem?_map, hk, Option.map_some]
  follows := fun _ _ => h.after?_eq_some
  last := by
    intro n hn
    obtain ⟨p, hp, rfl⟩ := List.mem_map.mp hn
    exact h.after?_eq_none hp

end LaidOut

end Placement

/-! ## Compiled routines -/

variable {services : Services σ} {options : Options} {r : Routine} {w : Workspace σ}
  {placement : Placement}

/-- Once the blocks are placed their code is appended, whatever becomes of the handlers. -/
lemma instructions_of_compiledPlacement
    (h : compiledPlacement services options r w = some placement) :
    (finalState (compile services options r w)).body.instructions =
      w.body.instructions ++ placement.instructions := by
  obtain ⟨locals, s, hdeclare, hplace⟩ := phases_of_compiledPlacement h
  cases hhandlers : FrameScope.handlers ⟨r, placement, services.describe, options.tryEnd⟩ with
  | error d => simp only [compile, hdeclare, hplace, hhandlers, finalState]
  | ok handlers => simp only [compile, hdeclare, hplace, hhandlers, finalState]

/-- The blocks of a routine that were placed tile the code that is appended to the body, from the
end of the old code to the end of the new one. -/
theorem compiledPlacement_tiling (h : compiledPlacement services options r w = some placement) :
    ∃ order first behind, r.graph.order r.entry = .ok order ∧
      (finalState (compile services options r w)).body.instructions =
        w.body.instructions ++ placement.flatMap PlacedBlock.instructions ∧
      w.body.codeSize? = some first ∧
      (finalState (compile services options r w)).body.codeSize? = some behind ∧
      placement.Tiling order first behind := by
  obtain ⟨locals, s, -, hplace⟩ := phases_of_compiledPlacement h
  obtain ⟨headers, first, order, t, hsite, horder, hrun, -⟩ := placeRoutine_eq_ok.mp hplace
  have hcode := instructions_of_compiledPlacement h
  have hlaid := Scope.place_laidOut horder hrun
  have hblocks := Scope.place_blocks hrun
  have hne : placement ≠ [] := by
    rintro rfl
    obtain ⟨rest, hhead⟩ := Graph.order_head horder
    rw [hhead] at hblocks
    cases hblocks
  have hraw : placement.rawCode ≠ [] := by
    obtain ⟨p, rest, rfl⟩ := List.exists_cons_of_ne_nil hne
    simp [BlockCode.instructions]
  have hplaced := hcode
  rw [Scope.place_instructions hrun] at hplaced
  refine ⟨order, first, first + .ofNat (codeSize placement.rawCode), horder, hcode, hsite.offset,
    codeSize?_of_placeFrom hplaced hraw (toNat_add_ofNat (Scope.place_codeSize_lt hrun)), ?_⟩
  rw [← hblocks]
  exact hlaid.tiling hne

/-- The frame is refused behind a body of six bytes, and yet the three blocks stand behind these. -/
theorem misframedReturn_tiling : ∃ placement f w',
    compiledPlacement plainServices {} misframedReturn ⟨jumpingBody, ()⟩ = some placement ∧
      compile plainServices {} misframedReturn ⟨jumpingBody, ()⟩ = .error f w' ∧
      placement.map (fun p => (p.header.offset, p.stop)) = [(6, 12), (12, 18), (18, 20)] ∧
      w'.body.codeSize? = some 20 ∧ placement.Tiling [0, 1, 2] 6 20 := by
  obtain ⟨placement, hplacement, hranges⟩ : ∃ placement,
      compiledPlacement plainServices {} misframedReturn ⟨jumpingBody, ()⟩ = some placement ∧
        placement.map (fun p => (p.header.offset, p.stop)) = [(6, 12), (12, 18), (18, 20)] :=
    ⟨_, rfl, by decide⟩
  obtain ⟨f, w', hcompile, hsize⟩ : ∃ f w',
      compile plainServices {} misframedReturn ⟨jumpingBody, ()⟩ = .error f w' ∧
        w'.body.codeSize? = some 20 := ⟨_, _, rfl, rfl⟩
  obtain ⟨order, first, behind, horder, -, hfirst, hbehind, htiling⟩ :=
    compiledPlacement_tiling hplacement
  have hblocks : misframedReturn.graph.order misframedReturn.entry = .ok [0, 1, 2] := by decide
  rw [hcompile] at hbehind
  cases hblocks.symm.trans horder
  cases hsize.symm.trans hbehind
  obtain rfl : 6 = first := Option.some.inj hfirst
  exact ⟨placement, f, w', hplacement, hcompile, hranges, hsize, htiling⟩

end CilBackend
