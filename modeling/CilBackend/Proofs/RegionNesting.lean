import CilBackend.Proofs.RegionPieces
import Mathlib.Data.Set.Disjoint
import Mathlib.Order.CompletePartialOrder

/-!
# Nesting of ranges

Ranges of handlers run from block to block, so two of them lie to each other as the sets of blocks
that start in them do. When the order keeps the regions of all frames in one piece, these sets are
the regions themselves, and ranges nest as their regions do.
-/

namespace CilBackend

variable {σ : Type}

/-- The sets have nothing in common, or one of them lies in the other. -/
def NonCrossing {α : Type} (s t : Set α) : Prop :=
  Disjoint s t ∨ s ⊆ t ∨ t ⊆ s

/-- The set of blocks that a list names. -/
def blockSet (blocks : List BlockId) : Set BlockId :=
  {n | n ∈ blocks}

def Frame.regions (f : Frame) : List (List BlockId) :=
  [f.tryBody, f.handlerBody]

def Handler.ranges (h : Handler) : List (Set UInt32) :=
  [h.tryRange, h.handlerRange]

namespace Placement

/-- The blocks that start in the range. -/
def covered (placement : Placement) (range : Set UInt32) : Set BlockId :=
  {n | ∃ p ∈ placement, p.block = n ∧ p.start ∈ range}

/-- The range runs from the start of a block to the start of a block. -/
def IsRange (placement : Placement) (range : Set UInt32) : Prop :=
  ∃ p ∈ placement, ∃ q ∈ placement, range = offsetRange p.start q.start

end Placement

/-! ## Ranges and the blocks in them -/

section Ranges

variable {placement : Placement} {start stop : UInt32} {range s t : Set UInt32}

/-- A range holds a byte exactly when it holds the block of the byte. -/
lemma mem_range_iff (hlaid : placement.LaidOut start stop) (hrange : placement.IsRange range)
    {x : UInt32} :
    x ∈ range ↔ ∃ p ∈ placement, p.start ∈ range ∧ p.start ≤ x ∧ x < p.stop := by
  obtain ⟨first, hfirst, behind, hbehind, rfl⟩ := hrange
  constructor
  · rintro ⟨hlow, hhigh⟩
    have hstart := (hlaid.tiles.bounds hfirst).1
    have hstop := (hlaid.tiles.bounds hbehind).2
    have hlt := behind.start_lt_stop
    obtain ⟨p, hp, hxlow, hxhigh⟩ := hlaid.tiles.cover (x := x) (by grind) (by grind)
    have hge : first.start ≤ p.start := by
      by_contra hbefore
      have hle := hlaid.stop_le_of_start_lt hp hfirst (by grind)
      grind
    exact ⟨p, hp, ⟨hge, by grind⟩, hxlow, hxhigh⟩
  · rintro ⟨p, hp, ⟨hlow, hhigh⟩, hxlow, hxhigh⟩
    have hle := hlaid.stop_le_of_start_lt hp hbehind hhigh
    exact ⟨UInt32.le_trans hlow hxlow, UInt32.lt_of_lt_of_le hxhigh hle⟩

lemma start_mem_of_covered (hlaid : placement.LaidOut start stop) {p : PlacedBlock}
    (hp : p ∈ placement) (h : p.block ∈ placement.covered s) : p.start ∈ s := by
  obtain ⟨q, hq, hblock, hstart⟩ := h
  rw [← hlaid.eq_of_block hq hp hblock]
  exact hstart

lemma covered_subset_iff (hlaid : placement.LaidOut start stop) (hs : placement.IsRange s)
    (ht : placement.IsRange t) : placement.covered s ⊆ placement.covered t ↔ s ⊆ t := by
  constructor
  · intro hsub x hx
    obtain ⟨p, hp, hstart, hinside⟩ := (mem_range_iff hlaid hs).mp hx
    have hcovered : p.block ∈ placement.covered t := hsub ⟨p, hp, rfl, hstart⟩
    exact (mem_range_iff hlaid ht).mpr ⟨p, hp, start_mem_of_covered hlaid hp hcovered, hinside⟩
  · rintro hsub n ⟨p, hp, hblock, hstart⟩
    exact ⟨p, hp, hblock, hsub hstart⟩

lemma covered_disjoint_iff (hlaid : placement.LaidOut start stop) (hs : placement.IsRange s)
    (ht : placement.IsRange t) :
    Disjoint (placement.covered s) (placement.covered t) ↔ Disjoint s t := by
  simp only [Set.disjoint_left]
  constructor
  · intro hdisjoint x hxs hxt
    obtain ⟨p, hp, hps, hinside⟩ := (mem_range_iff hlaid hs).mp hxs
    obtain ⟨q, hq, hqt, hinside'⟩ := (mem_range_iff hlaid ht).mp hxt
    have heq := hlaid.eq_of_byte hp hq hinside hinside'
    exact hdisjoint ⟨p, hp, rfl, hps⟩ ⟨q, hq, by rw [heq], hqt⟩
  · rintro hdisjoint n ⟨p, hp, rfl, hps⟩ hcovered
    exact hdisjoint hps (start_mem_of_covered hlaid hp hcovered)

/-- Two ranges cross exactly when the blocks in them do. -/
lemma nonCrossing_iff_covered (hlaid : placement.LaidOut start stop) (hs : placement.IsRange s)
    (ht : placement.IsRange t) :
    NonCrossing s t ↔ NonCrossing (placement.covered s) (placement.covered t) := by
  unfold NonCrossing
  rw [covered_disjoint_iff hlaid hs ht, covered_subset_iff hlaid hs ht,
    covered_subset_iff hlaid ht hs]

/-- A range that holds only blocks of its region covers the region. -/
lemma covered_eq_blockSet {region : List BlockId} {first last behind : PlacedBlock}
    (h : placement.Encloses region first last behind)
    (honly : placement.HoldsOnly (offsetRange first.start behind.start) region) :
    placement.covered (offsetRange first.start behind.start) = blockSet region := by
  ext n
  constructor
  · rintro ⟨p, hp, rfl, hstart⟩
    exact honly p hp hstart
  · intro hn
    obtain ⟨p, hp, rfl⟩ := h.placed n hn
    have hbounds := h.bounds p hp hn
    have hlt := p.start_lt_stop
    exact ⟨p, hp, rfl, by grind, by grind⟩

end Ranges

/-! ## Frames -/

section Frames

variable {s : FrameScope} {f : Frame} {h : Handler} {b : AnchorBlocks} {range : Set UInt32}

lemma isRange_of_mem_ranges (hb : s.Anchored f h b) (hrange : range ∈ h.ranges) :
    s.placement.IsRange range := by
  unfold Handler.ranges at hrange
  rw [hb.tryRange_eq, hb.handlerRange_eq, List.mem_pair] at hrange
  rcases hrange with rfl | rfl
  · exact ⟨_, hb.tryBody.first_mem, _, hb.tryBody.behind_mem, rfl⟩
  · exact ⟨_, hb.handlerBody.first_mem, _, hb.handlerBody.behind_mem, rfl⟩

/-- When the order keeps the regions of a frame in one piece, they are what its ranges cover. -/
lemma exists_region_of_mem_ranges {start stop : UInt32} (hlaid : s.placement.LaidOut start stop)
    (hb : s.Anchored f h b)
    (htry : f.TryInOnePiece (s.placement.map PlacedBlock.block) s.tryEnd)
    (hhandler : f.HandlerInOnePiece (s.placement.map PlacedBlock.block) s.routine.graph)
    (hrange : range ∈ h.ranges) :
    ∃ region ∈ f.regions, s.placement.covered range = blockSet region := by
  have htryOnly := (holdsOnly_tryRange_iff hlaid hb).mpr htry
  have hhandlerOnly := (holdsOnly_handlerRange_iff hlaid hb).mpr hhandler
  unfold Handler.ranges at hrange
  rw [hb.tryRange_eq] at htryOnly hrange
  rw [hb.handlerRange_eq] at hhandlerOnly hrange
  rw [List.mem_pair] at hrange
  rcases hrange with rfl | rfl
  · exact ⟨f.tryBody, List.mem_cons_self, covered_eq_blockSet hb.tryBody htryOnly⟩
  · exact ⟨f.handlerBody, by simp [Frame.regions], covered_eq_blockSet hb.handlerBody hhandlerOnly⟩

end Frames

/-- The ranges of the handlers that compilation appends cross exactly where the blocks in them do.
So when no two regions of the frames cross and the block order keeps every region in one piece, no
two ranges cross. -/
theorem compile_ranges_nonCrossing {services : Services σ} {options : Options} {r : Routine}
    {w w' : Workspace σ} (hcompile : compile services options r w = .ok () w') :
    ∃ placement order handlers, compiledPlacement services options r w = some placement ∧
      r.graph.order r.entry = .ok order ∧ w'.body.handlers = w.body.handlers ++ handlers ∧
      handlers.length = r.frames.length ∧
      (∀ s ∈ handlers.flatMap Handler.ranges, ∀ t ∈ handlers.flatMap Handler.ranges,
        NonCrossing s t ↔ NonCrossing (placement.covered s) (placement.covered t)) ∧
      ((∀ a ∈ r.frames.flatMap Frame.regions, ∀ b ∈ r.frames.flatMap Frame.regions,
          NonCrossing (blockSet a) (blockSet b)) →
        (∀ f ∈ r.frames,
          f.TryInOnePiece order options.tryEnd ∧ f.HandlerInOnePiece order r.graph) →
        ∀ s ∈ handlers.flatMap Handler.ranges, ∀ t ∈ handlers.flatMap Handler.ranges,
          NonCrossing s t) := by
  obtain ⟨placement, order, handlers, first, behind, hplacement, horder, hblocks, hlaid, -, hrun,
    hhandlers⟩ := compile_laidOut hcompile
  have hanchored := FrameScope.forall₂_of_handlersFrom hlaid hrun
  have hcross : ∀ s ∈ handlers.flatMap Handler.ranges, ∀ t ∈ handlers.flatMap Handler.ranges,
      NonCrossing s t ↔ NonCrossing (placement.covered s) (placement.covered t) := by
    have hisRange : ∀ s ∈ handlers.flatMap Handler.ranges, placement.IsRange s := by
      intro s hs
      obtain ⟨h, hh, hs⟩ := List.mem_flatMap.mp hs
      obtain ⟨f, -, b, hb⟩ := forall₂_mem_right hanchored hh
      exact isRange_of_mem_ranges hb hs
    intro s hs t ht
    exact nonCrossing_iff_covered hlaid (hisRange s hs) (hisRange t ht)
  refine ⟨placement, order, handlers, hplacement, horder, hhandlers, hanchored.length_eq.symm,
    hcross, ?_⟩
  intro hregions hpieces s hs t ht
  rw [← hblocks] at hpieces
  have hregion : ∀ s ∈ handlers.flatMap Handler.ranges,
      ∃ a ∈ r.frames.flatMap Frame.regions, placement.covered s = blockSet a := by
    intro s hs
    obtain ⟨h, hh, hs⟩ := List.mem_flatMap.mp hs
    obtain ⟨f, hf, b, hb⟩ := forall₂_mem_right hanchored hh
    obtain ⟨a, ha, hcovered⟩ :=
      exists_region_of_mem_ranges hlaid hb (hpieces f hf).1 (hpieces f hf).2 hs
    exact ⟨a, List.mem_flatMap.mpr ⟨f, hf, ha⟩, hcovered⟩
  obtain ⟨a, ha, hsa⟩ := hregion s hs
  obtain ⟨b, hb, htb⟩ := hregion t ht
  rw [hcross s hs t ht, hsa, htb]
  exact hregions a ha b hb

lemma nonCrossing_blockSet {a b : List BlockId}
    (h : (∀ n ∈ a, n ∉ b) ∨ (∀ n ∈ a, n ∈ b) ∨ ∀ n ∈ b, n ∈ a) :
    NonCrossing (blockSet a) (blockSet b) := by
  rcases h with hdisjoint | hsub | hsub
  · exact Or.inl (Set.disjoint_left.mpr hdisjoint)
  · exact Or.inr (Or.inl hsub)
  · exact Or.inr (Or.inr hsub)

theorem nestedGuards_ranges_nonCrossing : ∃ w' inner outer,
    compile plainServices {} nestedGuards ⟨usedBody, ()⟩ = .ok () w' ∧
      w'.body.handlers = [inner, outer] ∧ NonCrossing inner.handlerRange outer.tryRange := by
  obtain ⟨w', inner, outer, hcompile, hboth⟩ : ∃ w' inner outer,
      compile plainServices {} nestedGuards ⟨usedBody, ()⟩ = .ok () w' ∧
        w'.body.handlers = [inner, outer] := ⟨_, _, _, rfl, rfl⟩
  obtain ⟨placement, order, handlers, -, horder, hhandlers, -, -, hnested⟩ :=
    compile_ranges_nonCrossing hcompile
  rw [nestedGuards_order, Except.ok.injEq] at horder
  subst horder
  have hboth' : handlers = [inner, outer] := hhandlers.symm.trans hboth
  subst hboth'
  have hregions : ∀ a ∈ nestedGuards.frames.flatMap Frame.regions,
      ∀ b ∈ nestedGuards.frames.flatMap Frame.regions,
      (∀ n ∈ a, n ∉ b) ∨ (∀ n ∈ a, n ∈ b) ∨ ∀ n ∈ b, n ∈ a := by decide
  refine ⟨w', inner, outer, hcompile, hboth, ?_⟩
  apply hnested (fun a ha b hb => nonCrossing_blockSet (hregions a ha b hb))
    nestedGuards_inOnePiece
  · simp [Handler.ranges]
  · simp [Handler.ranges]

/-- A guarded block inside a guarded stretch of code, where the inner handler leaves the stretch.
The order puts the outer handler between the inner one and the block that it goes to. -/
def crossedGuards : Routine where
  declarations := []
  graph := {
    blocks := [
      [],
      [],
      [.expression (.instruction [{ opcode := .leave, operand := .block 5 }] [] none .void)],
      [.expression (.instruction [{ opcode := .leave, operand := .block 5 }] [] none .void)],
      [.expression (.instruction [{ opcode := .leave, operand := .block 5 }] [] none .void)],
      [.expression (.instruction [{ opcode := .ret }] [] none .void)]]
    edges := [⟨0, 1, .fallThrough⟩, ⟨1, 2, .fallThrough⟩, ⟨1, 4, .exceptional⟩,
      ⟨2, 3, .exceptional⟩, ⟨2, 5, .branch⟩, ⟨3, 5, .branch⟩, ⟨4, 5, .branch⟩]
    edges_inside := by decide }
  entry := 0
  frames := [⟨0, [2], [3], none⟩, ⟨0, [1, 2, 3], [4], none⟩]
  returnsValue := false

/-- Both frames are accepted, and the range of the inner handler runs over the end of what the
outer one guards. -/
theorem crossedGuards_ranges_cross : ∃ w' inner outer,
    compile plainServices {} crossedGuards ⟨{}, ()⟩ = .ok () w' ∧
      (∀ a ∈ crossedGuards.frames.flatMap Frame.regions,
        ∀ b ∈ crossedGuards.frames.flatMap Frame.regions,
          NonCrossing (blockSet a) (blockSet b)) ∧
      w'.body.handlers = [inner, outer] ∧
      ¬ NonCrossing inner.handlerRange outer.tryRange := by
  obtain ⟨w', inner, outer, hcompile, hboth, hinner, houter⟩ : ∃ w' inner outer,
      compile plainServices {} crossedGuards ⟨{}, ()⟩ = .ok () w' ∧
        w'.body.handlers = [inner, outer] ∧
        (inner.handlerStart.offset, inner.handlerEnd.offset) = (8, 20) ∧
        (outer.tryStart.offset, outer.tryEnd.offset) = (1, 14) := ⟨_, _, _, rfl, rfl, rfl, rfl⟩
  have hregions : ∀ a ∈ crossedGuards.frames.flatMap Frame.regions,
      ∀ b ∈ crossedGuards.frames.flatMap Frame.regions,
      (∀ n ∈ a, n ∉ b) ∨ (∀ n ∈ a, n ∈ b) ∨ ∀ n ∈ b, n ∈ a := by decide
  refine ⟨w', inner, outer, hcompile,
    fun a ha b hb => nonCrossing_blockSet (hregions a ha b hb), hboth, ?_⟩
  rw [Prod.mk.injEq] at hinner houter
  have hinnerRange : inner.handlerRange = offsetRange 8 20 := by
    rw [Handler.handlerRange, hinner.1, hinner.2]
  have houterRange : outer.tryRange = offsetRange 1 14 := by
    rw [Handler.tryRange, houter.1, houter.2]
  rw [hinnerRange, houterRange]
  rintro (hdisjoint | hsub | hsub)
  · have hinner : 8 ∈ offsetRange 8 20 := ⟨by decide, by decide⟩
    have houter : 8 ∈ offsetRange 1 14 := ⟨by decide, by decide⟩
    exact Set.disjoint_left.mp hdisjoint hinner houter
  · have hmem : 14 ∈ offsetRange 1 14 := hsub ⟨by decide, by decide⟩
    exact absurd hmem.2 (by decide)
  · have hmem : 1 ∈ offsetRange 8 20 := hsub ⟨by decide, by decide⟩
    exact absurd hmem.1 (by decide)

end CilBackend
