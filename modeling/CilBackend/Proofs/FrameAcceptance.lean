import CilBackend.Proofs.Regions

/-!
# Accepted frames

A frame is accepted when its blocks are placed, the last protected block ends before the handler and
the handler before the block that it goes to. Where the protected range ends has no part in this:
it can always end at the handler or right behind the last protected block.
-/

namespace CilBackend

/-- Two handlers of a frame that agree but for the end of the protected range: in the second one it
is the start of the handler, in the first one the stop of the last protected block. -/
structure Handler.EndsEarlier (h' h : Handler) (f : Frame) (placement : Placement) : Prop where
  same : h' = { h with tryEnd := h'.tryEnd }
  at_handler : h.tryEnd = h.handlerStart
  at_last_block : ∃ p ∈ placement, p.block ∈ f.tryBody ∧
    (∀ q ∈ placement, q.block ∈ f.tryBody → q.start ≤ p.start) ∧ h'.tryEnd.offset = p.stop
  le : h'.tryEnd.offset ≤ h.tryEnd.offset

namespace FrameScope

/-- What is asked of a frame. -/
structure Accepts (s : FrameScope) (index : Nat) (f : Frame)
    (tryBlocks handlerBlocks : RegionBlocks) (kind : HandlerKind) (handlerEnd : Anchor) : Prop where
  tryBody : s.regionBlocks index .tryBody f.tryBody = .ok tryBlocks
  handlerBody : s.regionBlocks index .handlerBody f.handlerBody = .ok handlerBlocks
  knownKind : s.handlerKind f tryBlocks = .ok kind
  behind : s.handlerEndAnchor handlerBlocks = .ok handlerEnd
  try_before_handler : tryBlocks.highest.stop ≤ handlerBlocks.lowest.start
  handler_inside : ∀ p ∈ handlerBlocks.blocks, p.stop ≤ handlerEnd.offset

/-- The same code with another choice for the end of protected ranges. -/
def withEnd (s : FrameScope) (tryEnd : TryEnd) : FrameScope :=
  { s with tryEnd }

variable {s : FrameScope} {index : Nat} {start stop : UInt32} {f : Frame}
  {tryBlocks handlerBlocks : RegionBlocks} {kind : HandlerKind} {handlerEnd : Anchor}

lemma Accepts.withEnd (h : s.Accepts index f tryBlocks handlerBlocks kind handlerEnd)
    (tryEnd : TryEnd) :
    (s.withEnd tryEnd).Accepts index f tryBlocks handlerBlocks kind handlerEnd :=
  ⟨h.tryBody, h.handlerBody, h.knownKind, h.behind, h.try_before_handler, h.handler_inside⟩

/-- No block of a region goes beyond the last one. -/
lemma stop_le_highest (hlaid : s.placement.LaidOut start stop) {region : Region}
    {blocks : List BlockId} {r : RegionBlocks} (h : s.regionBlocks index region blocks = .ok r)
    {p : PlacedBlock} (hp : p ∈ r.blocks) : p.stop ≤ r.highest.stop := by
  have hmem := mem_placement_of_regionBlocks h hp
  have hhighest := mem_placement_of_regionBlocks h (regionBlocks_eq_ok h).2.2
  have hle := (regionBlocks_bounds h hp).2
  have hlt := r.highest.start_lt_stop
  by_cases hstart : p.start = r.highest.start
  · rw [hlaid.eq_of_start hmem hhighest hstart]
    exact UInt32.le_refl _
  · have hstop := hlaid.stop_le_of_start_lt hmem hhighest (by grind)
    grind

/-- The protected range ends between the last protected block and the handler. -/
lemma Accepts.exists_tryEndAnchor (h : s.Accepts index f tryBlocks handlerBlocks kind handlerEnd)
    (hlaid : s.placement.LaidOut start stop) :
    ∃ tryEnd, s.tryEndAnchor tryBlocks handlerBlocks = .ok tryEnd ∧
      tryBlocks.highest.stop ≤ tryEnd.offset ∧ tryEnd.offset ≤ handlerBlocks.lowest.start := by
  have hlast := mem_placement_of_regionBlocks h.tryBody (regionBlocks_eq_ok h.tryBody).2.2
  have hfirst :=
    mem_placement_of_regionBlocks h.handlerBody (regionBlocks_eq_ok h.handlerBody).2.1
  have hle := h.try_before_handler
  unfold tryEndAnchor
  cases s.tryEnd with
  | handlerStart => exact ⟨_, rfl, hle, UInt32.le_refl _⟩
  | tryBodyEnd =>
    obtain ⟨next, hnext⟩ := hlaid.exists_after? hlast hfirst hle
    have hstart : next.header.offset = tryBlocks.highest.stop :=
      hlaid.start_of_after? hlast hnext
    dsimp only
    rw [hnext]
    exact ⟨next.header, rfl, by grind, by grind⟩

/-- The requirements do not depend on where the protected range ends, and they suffice. -/
lemma Accepts.handler (h : s.Accepts index f tryBlocks handlerBlocks kind handlerEnd)
    (hlaid : s.placement.LaidOut start stop) :
    ∃ tryEnd, s.tryEndAnchor tryBlocks handlerBlocks = .ok tryEnd ∧
      s.handler index f = .ok (row f kind tryBlocks handlerBlocks tryEnd handlerEnd) := by
  obtain ⟨tryEnd, htryEnd, hstop, hle⟩ := h.exists_tryEndAnchor hlaid
  have hlowest := (regionBlocks_bounds h.tryBody (regionBlocks_eq_ok h.tryBody).2.1).2
  have htry := tryBlocks.highest.start_lt_stop
  have hhandler := handlerBlocks.lowest.start_lt_stop
  have hend := h.handler_inside _ (regionBlocks_eq_ok h.handlerBody).2.1
  refine ⟨tryEnd, htryEnd, handler_eq_ok.mpr ⟨_, _, kind, tryEnd, handlerEnd, h.tryBody,
    h.handlerBody, h.knownKind, htryEnd, h.behind, ⟨by grind, hle, by grind⟩,
    checkInside_eq_ok.mpr ?_, checkInside_eq_ok.mpr ?_, rfl⟩⟩
  · intro p hp
    have hinside := stop_le_highest hlaid h.tryBody hp
    exact ⟨(regionBlocks_bounds h.tryBody hp).1, by grind⟩
  · intro p hp
    exact ⟨(regionBlocks_bounds h.handlerBody hp).1, h.handler_inside p hp⟩

lemma accepts_of_handler {h : Handler} (hrun : s.handler index f = .ok h) :
    ∃ tryBlocks handlerBlocks kind tryEnd handlerEnd,
      s.Accepts index f tryBlocks handlerBlocks kind handlerEnd ∧
      s.tryEndAnchor tryBlocks handlerBlocks = .ok tryEnd ∧
      h = row f kind tryBlocks handlerBlocks tryEnd handlerEnd := by
  obtain ⟨tryBlocks, handlerBlocks, kind, tryEnd, handlerEnd, htry, hhandler, hkind, htryEnd,
    hhandlerEnd, horder, hinsideTry, hinsideHandler, rfl⟩ := handler_eq_ok.mp hrun
  have hstop := (checkInside_eq_ok.mp hinsideTry _ (regionBlocks_eq_ok htry).2.2).2
  refine ⟨tryBlocks, handlerBlocks, kind, tryEnd, handlerEnd,
    ⟨htry, hhandler, hkind, hhandlerEnd, by grind, ?_⟩, htryEnd, rfl⟩
  intro p hp
  exact (checkInside_eq_ok.mp hinsideHandler p hp).2

/-! ## The end of the protected range -/

lemma exists_handler_withEnd (hlaid : s.placement.LaidOut start stop) {h : Handler}
    (hrun : s.handler index f = .ok h) (tryEnd : TryEnd) :
    ∃ h', (s.withEnd tryEnd).handler index f = .ok h' := by
  obtain ⟨tryBlocks, handlerBlocks, kind, -, handlerEnd, haccepts, -⟩ :=
    accepts_of_handler hrun
  obtain ⟨_, -, hrun'⟩ := (haccepts.withEnd tryEnd).handler hlaid
  exact ⟨_, hrun'⟩

lemma endsEarlier_of_handler (hlaid : s.placement.LaidOut start stop) {h h' : Handler}
    (hrun : (s.withEnd .handlerStart).handler index f = .ok h)
    (hrun' : (s.withEnd .tryBodyEnd).handler index f = .ok h') :
    h'.EndsEarlier h f s.placement := by
  obtain ⟨tryBlocks, handlerBlocks, kind, tryEnd, handlerEnd, haccepts, hend, rfl⟩ :=
    accepts_of_handler hrun
  obtain ⟨tryEnd', hend', hrow⟩ := (haccepts.withEnd .tryBodyEnd).handler hlaid
  -- Both runs accept the same blocks, so the rows can only differ in the anchor.
  have heq := hrun'.symm.trans hrow
  cases heq
  cases hend
  obtain ⟨hmode, -⟩ | ⟨-, next, hnext, rfl⟩ := tryEndAnchor_eq_ok hend'
  · cases hmode
  · have hblocks : s.regionBlocks index .tryBody f.tryBody = .ok tryBlocks := haccepts.tryBody
    have hlast := (regionBlocks_eq_ok hblocks).2.2
    obtain ⟨hmem, hregion⟩ := (mem_regionBlocks hlaid hblocks).mp hlast
    have hstart : next.header.offset = tryBlocks.highest.stop := hlaid.start_of_after? hmem hnext
    refine ⟨rfl, rfl, ⟨tryBlocks.highest, hmem, hregion, ?_, hstart⟩, ?_⟩
    · intro q hq hblock
      exact (regionBlocks_bounds hblocks ((mem_regionBlocks hlaid hblocks).mpr ⟨hq, hblock⟩)).2
    · exact UInt32.le_trans (UInt32.le_of_eq hstart) haccepts.try_before_handler

lemma exists_handlersFrom_withEnd (hlaid : s.placement.LaidOut start stop) {frames : List Frame}
    {hs : List Handler} (hrun : s.handlersFrom index frames = .ok hs) (tryEnd : TryEnd) :
    ∃ hs', (s.withEnd tryEnd).handlersFrom index frames = .ok hs' := by
  induction frames generalizing index hs with
  | nil => exact ⟨[], rfl⟩
  | cons f rest ih =>
    obtain ⟨first, following, hfirst, hrest, -⟩ := handlersFrom_cons_eq_ok.mp hrun
    obtain ⟨first', hfirst'⟩ := exists_handler_withEnd hlaid hfirst tryEnd
    obtain ⟨following', hrest'⟩ := ih hrest
    exact ⟨_, handlersFrom_cons_eq_ok.mpr ⟨first', following', hfirst', hrest', rfl⟩⟩

/-- The handlers of a table with both ends of the protected ranges, frame by frame. -/
lemma endsEarlier_of_handlersFrom (hlaid : s.placement.LaidOut start stop) {frames : List Frame}
    {hs hs' : List Handler} (hrun : (s.withEnd .handlerStart).handlersFrom index frames = .ok hs)
    (hrun' : (s.withEnd .tryBodyEnd).handlersFrom index frames = .ok hs') :
    ∃ pairs : List (Handler × Handler), hs = pairs.map Prod.fst ∧ hs' = pairs.map Prod.snd ∧
      List.Forall₂ (fun f pair => pair.2.EndsEarlier pair.1 f s.placement) frames pairs := by
  induction frames generalizing index hs hs' with
  | nil =>
    cases hrun
    cases hrun'
    exact ⟨[], rfl, rfl, List.Forall₂.nil⟩
  | cons f rest ih =>
    obtain ⟨first, following, hfirst, hrest, rfl⟩ := handlersFrom_cons_eq_ok.mp hrun
    obtain ⟨first', following', hfirst', hrest', rfl⟩ := handlersFrom_cons_eq_ok.mp hrun'
    obtain ⟨pairs, rfl, rfl, hpairs⟩ := ih hrest hrest'
    exact ⟨(first, first') :: pairs, rfl, rfl,
      List.Forall₂.cons (endsEarlier_of_handler hlaid hfirst hfirst') hpairs⟩

end FrameScope

end CilBackend
