import CilBackend.Proofs.Regions
import Mathlib.Data.Set.Defs

/-!
# Regions in one piece

A range of a handler holds all blocks of its region, but it also holds whatever else the order of
the blocks puts between them. It holds the blocks of the region alone exactly when the order keeps
them in one piece that the end of the range follows.
-/

namespace CilBackend

variable {σ : Type}

/-- The blocks of the region are a stretch of the order. The stretch ends with `last`, and `next`
follows it. -/
def InOnePiece (order region : List BlockId) (last next : BlockId) : Prop :=
  ∃ before part after, order = before ++ part ++ last :: next :: after ∧
    ∀ n, n ∈ region ↔ n ∈ part ∨ n = last

/-- The offsets from `first` on that come before `behind`. -/
def offsetRange (first behind : UInt32) : Set UInt32 :=
  {x | first ≤ x ∧ x < behind}

namespace Handler

/-- The offsets of the protected code. -/
def tryRange (h : Handler) : Set UInt32 :=
  offsetRange h.tryStart.offset h.tryEnd.offset

/-- The offsets of the code of the handler itself. -/
def handlerRange (h : Handler) : Set UInt32 :=
  offsetRange h.handlerStart.offset h.handlerEnd.offset

end Handler

namespace Frame

/-- The order keeps the protected blocks in one piece. When their range ends at the handler, the
handler follows. -/
def TryInOnePiece (f : Frame) (order : List BlockId) (tryEnd : TryEnd) : Prop :=
  ∃ last next, InOnePiece order f.tryBody last next ∧
    (tryEnd = .handlerStart → next ∈ f.handlerBody)

/-- The order keeps the blocks of the handler in one piece, and the block to which the last of them
goes follows. -/
def HandlerInOnePiece (f : Frame) (order : List BlockId) (g : Graph) : Prop :=
  ∃ last next, InOnePiece order f.handlerBody last next ∧ next ∈ g.successors last

end Frame

/-- Every block that starts in the range belongs to the region. -/
def Placement.HoldsOnly (placement : Placement) (range : Set UInt32) (region : List BlockId) :
    Prop :=
  ∀ p ∈ placement, p.start ∈ range → p.block ∈ region

/-! ## Stretches of a placement -/

section Stretch

variable {placement before part after : Placement} {start stop : UInt32} {region : List BlockId}
  {first last behind p q : PlacedBlock}

/-- A placement can be cut at every offset. -/
lemma exists_cut {blocks : List PlacedBlock} (h : blocks.Pairwise fun p q => p.stop ≤ q.start)
    (offset : UInt32) : ∃ before after, blocks = before ++ after ∧
      (∀ p ∈ before, p.start < offset) ∧ ∀ p ∈ after, offset ≤ p.start := by
  induction blocks with
  | nil => exact ⟨[], [], by simp⟩
  | cons b rest ih =>
    rw [List.pairwise_cons] at h
    by_cases hb : b.start < offset
    · obtain ⟨before, after, hrest, hlow, hhigh⟩ := ih h.2
      refine ⟨b :: before, after, by rw [hrest, List.cons_append], ?_, hhigh⟩
      rw [List.forall_mem_cons]
      exact ⟨hb, hlow⟩
    · refine ⟨[], b :: rest, rfl, by simp, ?_⟩
      rw [List.forall_mem_cons]
      refine ⟨by grind, ?_⟩
      intro p hp
      have hstop := h.1 p hp
      have hlt := b.start_lt_stop
      grind

/-- A stretch of the order is one of the placement. -/
lemma inOnePiece_blocks {l n : BlockId} :
    InOnePiece (placement.map PlacedBlock.block) region l n ↔
      ∃ (before part : Placement) (p q : PlacedBlock) (after : Placement),
        placement = before ++ part ++ p :: q :: after ∧ p.block = l ∧ q.block = n ∧
        ∀ m, m ∈ region ↔ m ∈ (part ++ [p]).map PlacedBlock.block := by
  have hmembers : ∀ (part : Placement) (p : PlacedBlock) (m : BlockId),
      m ∈ (part ++ [p]).map PlacedBlock.block ↔
        m ∈ part.map PlacedBlock.block ∨ m = p.block := by
    intro part p m
    simp
  unfold InOnePiece
  constructor
  · rintro ⟨before, part, after, hsplit, hregion⟩
    obtain ⟨left, right, hplacement, hleft, hright⟩ := List.map_eq_append_iff.mp hsplit
    obtain ⟨before', part', rfl, rfl, rfl⟩ := List.map_eq_append_iff.mp hleft
    obtain ⟨p, rest, rfl, rfl, hrest⟩ := List.map_eq_cons_iff.mp hright
    obtain ⟨q, after', rfl, rfl, rfl⟩ := List.map_eq_cons_iff.mp hrest
    refine ⟨before', part', p, q, after', hplacement, rfl, rfl, ?_⟩
    intro m
    rw [hregion m, hmembers]
  · rintro ⟨before, part, p, q, after, rfl, rfl, rfl, hregion⟩
    refine ⟨before.map PlacedBlock.block, part.map PlacedBlock.block,
      after.map PlacedBlock.block, by simp, ?_⟩
    intro m
    rw [hregion m, hmembers]

/-- Where the blocks around and inside a stretch start and stop. -/
lemma stops_of_stretch (hlaid : placement.LaidOut start stop)
    (hsplit : placement = before ++ part ++ p :: q :: after) :
    (∀ x ∈ before, ∀ y ∈ part ++ [p], x.stop ≤ y.start) ∧ (∀ x ∈ part, x.stop ≤ p.start) ∧
      q.start = p.stop ∧ ∀ x ∈ after, q.stop ≤ x.start := by
  have htiles := hlaid.tiles
  rw [hsplit] at htiles
  have hfront := htiles.split.1.ordered
  have hbefore := (List.pairwise_append.mp hfront).2.2
  have hlast := fun x hx => (htiles.split.1.bounds (p := x) hx).2
  refine ⟨?_, ?_, htiles.split.2.1, fun x hx => (htiles.split.2.2.bounds hx).1⟩
  · intro x hx y hy
    rcases List.mem_append.mp hy with hy | hy
    · exact hbefore x hx y hy
    · rw [List.mem_singleton.mp hy]
      exact hlast x (List.mem_append_left part hx)
  · intro x hx
    exact hlast x (List.mem_append_right before hx)

/-- The placed blocks of a region that is a stretch of the order are those of the stretch. -/
lemma mem_stretch_iff (hlaid : placement.LaidOut start stop)
    (hsplit : placement = before ++ part ++ p :: q :: after)
    (hregion : ∀ m, m ∈ region ↔ m ∈ (part ++ [p]).map PlacedBlock.block) {x : PlacedBlock}
    (hx : x ∈ placement) : x.block ∈ region ↔ x ∈ part ++ [p] := by
  rw [hregion, List.mem_map]
  constructor
  · rintro ⟨y, hy, hblock⟩
    have hymem : y ∈ placement := by
      rw [hsplit, List.append_assoc]
      apply List.mem_append_right before
      rw [List.append_cons]
      exact List.mem_append_left (q :: after) hy
    exact hlaid.eq_of_block hymem hx hblock ▸ hy
  · intro hmem
    exact ⟨x, hmem, rfl⟩

/-- A region in one piece ends with its last block, and the next block starts where that one
stops. -/
lemma last_of_inOnePiece (hlaid : placement.LaidOut start stop)
    (h : placement.Encloses region first last behind) {l n : BlockId}
    (hpiece : InOnePiece (placement.map PlacedBlock.block) region l n) :
    l = last.block ∧ ∃ q ∈ placement, q.block = n ∧ q.start = last.stop := by
  obtain ⟨before, part, p, q, after, hsplit, rfl, rfl, hregion⟩ := inOnePiece_blocks.mp hpiece
  obtain ⟨-, hpart, hq, -⟩ := stops_of_stretch hlaid hsplit
  have hmem : p ∈ placement ∧ q ∈ placement := by simp [hsplit]
  have hlast := (mem_stretch_iff hlaid hsplit hregion h.last_mem).mp h.last_region
  have hp := (mem_stretch_iff hlaid hsplit hregion hmem.1).mpr (by simp)
  have hle := (h.bounds p hmem.1 hp).2.1
  have heq : last = p := by
    rcases List.mem_append.mp hlast with hinside | hlast
    · have hstop := hpart last hinside
      have hlt := last.start_lt_stop
      grind
    · exact List.mem_singleton.mp hlast
  rw [heq]
  exact ⟨rfl, q, hmem.2, rfl, hq⟩

/-- When the range of a region holds no other block, the range ends right behind the last block of
the region. -/
lemma behind_follows_last (hlaid : placement.LaidOut start stop)
    (h : placement.Encloses region first last behind)
    (honly : placement.HoldsOnly (offsetRange first.start behind.start) region)
    {front back : Placement} (hsplit : placement = front ++ last :: back) :
    ∃ after, back = behind :: after := by
  have htiles := hlaid.tiles
  rw [hsplit] at htiles
  have hlast := h.bounds last h.last_mem h.last_region
  have hlastStop := last.start_lt_stop
  cases back with
  | nil =>
    have hend : last.stop = stop := htiles.split.2
    have hbehind := (hlaid.tiles.bounds h.behind_mem).2
    have hbehindStop := behind.start_lt_stop
    grind
  | cons y after =>
    have hy : y ∈ placement := by simp [hsplit]
    have hystart : y.start = last.stop := htiles.split.2.1
    -- Inside the range, `y` would belong to the region and stand behind its last block.
    have hnot : ¬ y.start < behind.start := by
      intro hlt
      have hle := (h.bounds y hy (honly y hy ⟨by grind, hlt⟩)).2.1
      grind
    rw [hlaid.eq_of_start hy h.behind_mem (by grind)]
    exact ⟨after, rfl⟩

lemma inOnePiece_of_holdsOnly (hlaid : placement.LaidOut start stop)
    (h : placement.Encloses region first last behind)
    (honly : placement.HoldsOnly (offsetRange first.start behind.start) region) :
    InOnePiece (placement.map PlacedBlock.block) region last.block behind.block := by
  obtain ⟨front, back, hcut⟩ := List.append_of_mem h.last_mem
  obtain ⟨after, rfl⟩ := behind_follows_last hlaid h honly hcut
  have hfront : front.Pairwise fun p q => p.stop ≤ q.start := by
    have hordered := hlaid.tiles.ordered
    rw [hcut] at hordered
    exact (List.pairwise_append.mp hordered).1
  obtain ⟨before, part, rfl, hbefore, hpart⟩ := exists_cut hfront first.start
  obtain ⟨-, hinside, hbehind, hafter⟩ := stops_of_stretch hlaid hcut
  have hlast := h.bounds last h.last_mem h.last_region
  have hlastStop := last.start_lt_stop
  refine inOnePiece_blocks.mpr ⟨before, part, last, behind, after, hcut, rfl, rfl, ?_⟩
  intro m
  rw [List.mem_map]
  constructor
  · intro hm
    obtain ⟨p, hp, rfl⟩ := h.placed m hm
    have hbounds := h.bounds p hp hm
    refine ⟨p, ?_, rfl⟩
    rw [hcut] at hp
    simp only [List.mem_append, List.mem_cons] at hp
    rcases hp with (hp | hp) | rfl | rfl | hp
    · have hlt := hbefore p hp
      grind
    · exact List.mem_append_left _ hp
    · simp
    · grind
    · have hle := hafter p hp
      have hlt := behind.start_lt_stop
      grind
  · rintro ⟨x, hx, rfl⟩
    rcases List.mem_append.mp hx with hx | hx
    · have hmem : x ∈ placement := by simp [hcut, hx]
      have hle := hinside x hx
      have hlt := x.start_lt_stop
      exact honly x hmem ⟨hpart x hx, by grind⟩
    · rw [List.mem_singleton.mp hx]
      exact h.last_region

lemma holdsOnly_of_inOnePiece (hlaid : placement.LaidOut start stop)
    (h : placement.Encloses region first last behind)
    (hpiece : InOnePiece (placement.map PlacedBlock.block) region last.block behind.block) :
    placement.HoldsOnly (offsetRange first.start behind.start) region := by
  intro p hp hrange
  obtain ⟨before, part, l, n, after, hsplit, hl, hn, hregion⟩ := inOnePiece_blocks.mp hpiece
  obtain ⟨hbefore, -, -, hafter⟩ := stops_of_stretch hlaid hsplit
  have hmem : l ∈ placement ∧ n ∈ placement := by simp [hsplit]
  obtain rfl := hlaid.eq_of_block hmem.2 h.behind_mem hn
  have hfirst := (mem_stretch_iff hlaid hsplit hregion h.first_mem).mp h.first_region
  apply (mem_stretch_iff hlaid hsplit hregion hp).mpr
  obtain ⟨hlow, hhigh⟩ := hrange
  rw [hsplit] at hp
  simp only [List.mem_append, List.mem_cons] at hp
  rcases hp with (hp | hp) | rfl | rfl | hp
  · have hle := hbefore p hp first hfirst
    have hlt := p.start_lt_stop
    grind
  · exact List.mem_append_left _ hp
  · simp
  · grind
  · have hle := hafter p hp
    have hlt := n.start_lt_stop
    grind

end Stretch

/-! ## Frames -/

section Frames

variable {s : FrameScope} {start stop : UInt32} {f : Frame} {h : Handler} {b : AnchorBlocks}

lemma FrameScope.Anchored.tryRange_eq (hb : s.Anchored f h b) :
    h.tryRange = offsetRange b.tryFirst.start b.tryBehind.start := by
  rw [Handler.tryRange, hb.tryStart, hb.tryEnd]
  rfl

lemma FrameScope.Anchored.handlerRange_eq (hb : s.Anchored f h b) :
    h.handlerRange = offsetRange b.handlerFirst.start b.handlerBehind.start := by
  rw [Handler.handlerRange, hb.handlerStart, hb.handlerEnd]
  rfl

lemma holdsOnly_tryRange_iff (hlaid : s.placement.LaidOut start stop) (hb : s.Anchored f h b) :
    s.placement.HoldsOnly h.tryRange f.tryBody ↔
      f.TryInOnePiece (s.placement.map PlacedBlock.block) s.tryEnd := by
  rw [hb.tryRange_eq]
  constructor
  · intro honly
    refine ⟨_, _, inOnePiece_of_holdsOnly hlaid hb.tryBody honly, ?_⟩
    intro hmode
    rw [hb.tryBehind_of_handlerStart hmode]
    exact hb.handlerBody.first_region
  · rintro ⟨l, n, hpiece, hmode⟩
    obtain ⟨rfl, q, hq, rfl, hstart⟩ := last_of_inOnePiece hlaid hb.tryBody hpiece
    have hbehind : q = b.tryBehind := by
      apply hlaid.eq_of_start hq hb.tryBody.behind_mem
      cases hend : s.tryEnd with
      | handlerStart =>
        -- The handler starts at `q` at the latest, and not before the last block stops.
        have hlow := (hb.handlerBody.bounds q hq (hmode hend)).1
        have hstops := (hb.tryBody.bounds _ hb.tryBody.last_mem hb.tryBody.last_region).2.2
        rw [hb.tryBehind_of_handlerStart hend] at hstops ⊢
        grind
      | tryBodyEnd =>
        rw [hstart, hlaid.start_of_after? hb.tryBody.last_mem (hb.tryBehind_of_tryBodyEnd hend)]
    rw [hbehind] at hpiece
    exact holdsOnly_of_inOnePiece hlaid hb.tryBody hpiece

lemma holdsOnly_handlerRange_iff (hlaid : s.placement.LaidOut start stop)
    (hb : s.Anchored f h b) :
    s.placement.HoldsOnly h.handlerRange f.handlerBody ↔
      f.HandlerInOnePiece (s.placement.map PlacedBlock.block) s.routine.graph := by
  rw [hb.handlerRange_eq]
  constructor
  · intro honly
    refine ⟨_, _, inOnePiece_of_holdsOnly hlaid hb.handlerBody honly, ?_⟩
    rw [hb.handlerBehind_successor]
    exact List.mem_singleton.mpr rfl
  · rintro ⟨l, n, hpiece, hnext⟩
    obtain ⟨rfl, -⟩ := last_of_inOnePiece hlaid hb.handlerBody hpiece
    rw [hb.handlerBehind_successor, List.mem_singleton] at hnext
    rw [hnext] at hpiece
    exact holdsOnly_of_inOnePiece hlaid hb.handlerBody hpiece

end Frames

/-- For every frame of a compiled routine: the protected range holds blocks of the frame alone
exactly when the block order keeps them in one piece, with the handler behind it if the range ends
there, and the range of the handler holds its blocks alone exactly when the order keeps them in one
piece, with the successor of the last of them behind it. -/
theorem compile_holdsOnly_iff_inOnePiece {services : Services σ} {options : Options} {r : Routine}
    {w w' : Workspace σ} (hcompile : compile services options r w = .ok () w') :
    ∃ placement order handlers, compiledPlacement services options r w = some placement ∧
      r.graph.order r.entry = .ok order ∧ order.Perm r.graph.nodes ∧
      placement.map PlacedBlock.block = order ∧
      w'.body.handlers = w.body.handlers ++ handlers ∧
      List.Forall₂ (fun f h =>
        (placement.HoldsOnly h.tryRange f.tryBody ↔ f.TryInOnePiece order options.tryEnd) ∧
        (placement.HoldsOnly h.handlerRange f.handlerBody ↔ f.HandlerInOnePiece order r.graph))
        r.frames handlers := by
  obtain ⟨placement, order, handlers, first, behind, hplacement, horder, hblocks, hlaid, -, hrun,
    hhandlers⟩ := compile_laidOut hcompile
  have hanchored := FrameScope.forall₂_of_handlersFrom hlaid hrun
  refine ⟨placement, order, handlers, hplacement, horder, Graph.order_perm horder, hblocks,
    hhandlers, hanchored.imp ?_⟩
  rintro f h ⟨b, hb⟩
  rw [← hblocks]
  exact ⟨holdsOnly_tryRange_iff hlaid hb, holdsOnly_handlerRange_iff hlaid hb⟩

lemma nestedGuards_inOnePiece : ∀ f ∈ nestedGuards.frames,
    f.TryInOnePiece [0, 1, 2, 3, 4, 5, 6] .handlerStart ∧
      f.HandlerInOnePiece [0, 1, 2, 3, 4, 5, 6] nestedGuards.graph := by
  intro f hf
  have hframes : nestedGuards.frames =
      [⟨0, [2], [3], none⟩, ⟨3, [4, 1, 3, 2, 1], [5], none⟩] := rfl
  rw [hframes, List.mem_pair] at hf
  rcases hf with rfl | rfl
  · exact ⟨⟨2, 3, ⟨[0, 1], [], [4, 5, 6], rfl, by simp⟩, by simp⟩,
      3, 4, ⟨[0, 1, 2], [], [5, 6], rfl, by simp⟩, by decide⟩
  · exact ⟨⟨4, 5, ⟨[0], [1, 2, 3], [6], rfl, by grind⟩, by simp⟩,
      5, 6, ⟨[0, 1, 2, 3, 4], [], [], rfl, by simp⟩, by decide⟩

theorem nestedGuards_holdsOnly : ∃ w' placement inner outer,
    compile plainServices {} nestedGuards ⟨usedBody, ()⟩ = .ok () w' ∧
      compiledPlacement plainServices {} nestedGuards ⟨usedBody, ()⟩ = some placement ∧
      w'.body.handlers = [inner, outer] ∧
      placement.HoldsOnly inner.handlerRange [3] ∧
      placement.HoldsOnly outer.tryRange [4, 1, 3, 2, 1] := by
  obtain ⟨w', hcompile⟩ : ∃ w', compile plainServices {} nestedGuards ⟨usedBody, ()⟩ = .ok () w' :=
    ⟨_, rfl⟩
  obtain ⟨placement, order, handlers, hplacement, horder, -, -, hhandlers, hranges⟩ :=
    compile_holdsOnly_iff_inOnePiece hcompile
  rw [nestedGuards_order, Except.ok.injEq] at horder
  subst horder
  cases hranges with
  | @cons _ inner _ _ hinner hrest =>
    cases hrest with
    | @cons _ outer _ _ houter hnil =>
      cases hnil
      have hpieces := nestedGuards_inOnePiece
      exact ⟨w', placement, inner, outer, hcompile, hplacement, hhandlers,
        hinner.2.mpr (hpieces _ List.mem_cons_self).2,
        houter.1.mpr (hpieces _ (List.mem_cons_of_mem _ List.mem_cons_self)).1⟩

/-- A guarded test, guarded work behind it and a handler. The routine returns when the test fails
and when the work is done, from blocks that are not guarded. The order puts the first of them
between the guarded blocks and the second one before the handler. -/
def splitGuard : Routine where
  declarations := []
  graph := {
    blocks := [
      [],
      [.expression (.instruction [{ opcode := .brtrue, operand := .block 3 }]
        [.instruction [{ opcode := .ldnull }] [] none .object] none .void)],
      [.expression (.instruction [{ opcode := .ret }] [] none .void)],
      [],
      [.expression (.instruction [{ opcode := .ret }] [] none .void)],
      [.expression (.instruction [{ opcode := .leave, operand := .block 6 }] [] none .void)],
      [.expression (.instruction [{ opcode := .ret }] [] none .void)]]
    edges := [⟨0, 1, .fallThrough⟩, ⟨1, 2, .fallThrough⟩, ⟨1, 3, .branch⟩, ⟨3, 4, .fallThrough⟩,
      ⟨3, 5, .exceptional⟩, ⟨5, 6, .branch⟩]
    edges_inside := by decide }
  entry := 0
  frames := [⟨0, [1, 3], [5], none⟩]
  returnsValue := false

/-- The frame is accepted, and both returning blocks lie in its protected range. -/
theorem splitGuard_holds_foreign_blocks : ∃ w' placement f h,
    compile plainServices {} splitGuard ⟨{}, ()⟩ = .ok () w' ∧
      compiledPlacement plainServices {} splitGuard ⟨{}, ()⟩ = some placement ∧
      splitGuard.frames = [f] ∧ w'.body.handlers = [h] ∧
      (∀ p ∈ placement, p.start ∈ h.tryRange ↔ p.block ∈ [1, 2, 3, 4]) ∧
      ¬ placement.HoldsOnly h.tryRange f.tryBody := by
  obtain ⟨w', placement, h, hcompile, hplacement, hhandlers, hblocks, hrange⟩ :
      ∃ w' placement h, compile plainServices {} splitGuard ⟨{}, ()⟩ = .ok () w' ∧
        compiledPlacement plainServices {} splitGuard ⟨{}, ()⟩ = some placement ∧
        w'.body.handlers = [h] ∧ placement.map PlacedBlock.block = [0, 1, 2, 3, 4, 5, 6] ∧
        ∀ p ∈ placement, (h.tryStart.offset ≤ p.start ∧ p.start < h.tryEnd.offset) ↔
          p.block ∈ [1, 2, 3, 4] :=
    ⟨_, _, _, rfl, rfl, rfl, rfl, by decide⟩
  refine ⟨w', placement, _, h, hcompile, hplacement, rfl, hhandlers, hrange, ?_⟩
  intro honly
  have hplaced : 2 ∈ placement.map PlacedBlock.block := by simp [hblocks]
  obtain ⟨p, hp, hblock⟩ := List.mem_map.mp hplaced
  have hinside := (hrange p hp).mpr (by simp [hblock])
  have hmember := honly p hp hinside
  rw [hblock] at hmember
  exact absurd hmember (by decide)

end CilBackend
