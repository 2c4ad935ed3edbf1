import CilBackend.Proofs.LoweringRuns

/-!
# Successful runs of the handler table

What a frame that is accepted has gone through, and where the anchors of its handler come from.
-/

namespace CilBackend

/-- All places that a handler names. -/
def Handler.anchors (h : Handler) : List Anchor :=
  [h.tryStart, h.tryEnd, h.handlerStart, h.handlerEnd] ++ h.filterStart.toList

lemma Placement.mem_of_get? {placement : Placement} {n : BlockId} {p : PlacedBlock}
    (h : placement.get? n = some p) : p ∈ placement :=
  List.mem_of_find?_eq_some h

lemma Placement.after?_eq_some {placement : Placement} {n : BlockId} {p : PlacedBlock} :
    placement.after? n = some p ↔
      ∃ b, placement.get? n = some b ∧ placement[b.position + 1]? = some p :=
  Option.bind_eq_some_iff

lemma Placement.mem_of_after? {placement : Placement} {n : BlockId} {p : PlacedBlock}
    (h : placement.after? n = some p) : p ∈ placement := by
  obtain ⟨b, -, hp⟩ := Placement.after?_eq_some.mp h
  exact List.mem_of_getElem? hp

namespace FrameScope

variable {s : FrameScope} {index : Nat} {region : Region}

lemma regionBlock_eq_ok {n : BlockId} {p : PlacedBlock} :
    s.regionBlock index region n = .ok p ↔ s.placement.get? n = some p := by
  unfold regionBlock
  cases s.placement.get? n with
  | none => simp
  | some found => simp

/-- Choosing between two of them over and over gives one of the blocks. -/
lemma foldl_choice_mem {choose : PlacedBlock → PlacedBlock → PlacedBlock}
    (hchoose : ∀ a b, choose a b = a ∨ choose a b = b) (b : PlacedBlock) (rest : List PlacedBlock) :
    rest.foldl choose b ∈ b :: rest := by
  induction rest generalizing b with
  | nil => simp
  | cons c rest ih =>
    rw [List.foldl_cons]
    have hmem := ih (choose b c)
    rcases hchoose b c with hb | hc
    · rw [hb] at hmem ⊢
      rcases List.mem_cons.mp hmem with heq | hrest
      · exact List.mem_cons.mpr (Or.inl heq)
      · exact List.mem_cons_of_mem b (List.mem_cons_of_mem c hrest)
    · rw [hc] at hmem ⊢
      exact List.mem_cons_of_mem b hmem

lemma regionBlocks_eq_ok {blocks : List BlockId} {r : RegionBlocks}
    (h : s.regionBlocks index region blocks = .ok r) :
    blocks.mapM (s.regionBlock index region) = .ok r.blocks ∧
      r.lowest ∈ r.blocks ∧ r.highest ∈ r.blocks := by
  obtain ⟨found, hfound, h⟩ := except_bind_eq_ok.mp h
  cases found with
  | nil => cases h
  | cons b rest =>
    cases h
    refine ⟨hfound, ?_, ?_⟩
    · apply foldl_choice_mem
      intro a c
      split_ifs
      · exact Or.inr rfl
      · exact Or.inl rfl
    · apply foldl_choice_mem
      intro a c
      split_ifs
      · exact Or.inr rfl
      · exact Or.inl rfl

/-- The blocks of a region are placed. -/
lemma mem_placement_of_regionBlocks {blocks : List BlockId} {r : RegionBlocks}
    (h : s.regionBlocks index region blocks = .ok r) {p : PlacedBlock} (hp : p ∈ r.blocks) :
    p ∈ s.placement := by
  obtain ⟨n, -, hn⟩ := except_mapM_mem (regionBlocks_eq_ok h).1 hp
  exact Placement.mem_of_get? (regionBlock_eq_ok.mp hn)

lemma handlerKind_eq_ok {f : Frame} {tryBlocks : RegionBlocks} {kind : HandlerKind} :
    s.handlerKind f tryBlocks = .ok kind ↔ HandlerKind.ofFrameKind? f.kind = some kind := by
  unfold handlerKind
  cases HandlerKind.ofFrameKind? f.kind with
  | none => simp
  | some found => simp

lemma tryEndAnchor_eq_ok {tryBlocks handlerBlocks : RegionBlocks} {a : Anchor}
    (h : s.tryEndAnchor tryBlocks handlerBlocks = .ok a) :
    (s.tryEnd = .handlerStart ∧ a = handlerBlocks.lowest.header) ∨
      (s.tryEnd = .tryBodyEnd ∧ ∃ next, s.placement.after? tryBlocks.highest.block = some next ∧
        a = next.header) := by
  unfold tryEndAnchor at h
  cases hend : s.tryEnd with
  | handlerStart =>
    rw [hend] at h
    cases h
    exact Or.inl ⟨rfl, rfl⟩
  | tryBodyEnd =>
    rw [hend] at h
    cases hafter : s.placement.after? tryBlocks.highest.block with
    | none =>
      simp only [hafter] at h
      cases h
    | some next =>
      simp only [hafter] at h
      cases h
      exact Or.inr ⟨rfl, next, rfl, rfl⟩

lemma handlerEndAnchor_eq_ok {handlerBlocks : RegionBlocks} {a : Anchor}
    (h : s.handlerEndAnchor handlerBlocks = .ok a) :
    ∃ successor placed, s.routine.graph.successors handlerBlocks.highest.block = [successor] ∧
      s.placement.get? successor = some placed ∧ a = placed.header := by
  unfold handlerEndAnchor at h
  dsimp only at h
  match hsuccessors : s.routine.graph.successors handlerBlocks.highest.block with
  | [] =>
    rw [hsuccessors] at h
    cases h
  | [successor] =>
    rw [hsuccessors] at h
    cases hplaced : s.placement.get? successor with
    | none =>
      simp only [hplaced] at h
      cases h
    | some placed =>
      simp only [hplaced] at h
      cases h
      exact ⟨successor, placed, rfl, hplaced, rfl⟩
  | first :: second :: rest =>
    rw [hsuccessors] at h
    cases h

lemma checkInside_eq_ok {r : RegionBlocks} {first behind : Anchor} :
    s.checkInside index region r first behind = .ok () ↔
      ∀ p ∈ r.blocks, first.offset ≤ p.start ∧ p.stop ≤ behind.offset := by
  unfold checkInside
  cases hfind : r.blocks.find? fun b => b.start < first.offset || behind.offset < b.stop with
  | none =>
    simp only [true_iff]
    intro p hp
    have hnone := List.find?_eq_none.mp hfind p hp
    simpa [UInt32.not_lt] using hnone
  | some b =>
    simp only [reduceCtorEq, false_iff]
    intro hall
    have hinside := hall b (List.mem_of_find?_eq_some hfind)
    have hsome := List.find?_some hfind
    simp only [Bool.or_eq_true, decide_eq_true_eq] at hsome
    grind

variable {start stop : UInt32}

/-- The row of a frame whose regions and ends of ranges are known. -/
def row (f : Frame) (kind : HandlerKind) (tryBlocks handlerBlocks : RegionBlocks)
    (tryEnd handlerEnd : Anchor) : Handler where
  kind
  tryStart := tryBlocks.lowest.header
  tryEnd
  handlerStart := handlerBlocks.lowest.header
  handlerEnd
  catchType := if kind = .catch then f.catchType else none
  filterStart := if kind = .filter then some handlerBlocks.lowest.header else none

/-- What an accepted frame has gone through: its regions are placed, their ranges follow each other,
and every block lies inside the range of its region. -/
lemma handler_eq_ok {f : Frame} {h : Handler} :
    s.handler index f = .ok h ↔ ∃ tryBlocks handlerBlocks kind tryEnd handlerEnd,
      s.regionBlocks index .tryBody f.tryBody = .ok tryBlocks ∧
      s.regionBlocks index .handlerBody f.handlerBody = .ok handlerBlocks ∧
      s.handlerKind f tryBlocks = .ok kind ∧
      s.tryEndAnchor tryBlocks handlerBlocks = .ok tryEnd ∧
      s.handlerEndAnchor handlerBlocks = .ok handlerEnd ∧
      (tryBlocks.lowest.start < tryEnd.offset ∧ tryEnd.offset ≤ handlerBlocks.lowest.start ∧
        handlerBlocks.lowest.start < handlerEnd.offset) ∧
      s.checkInside index .tryBody tryBlocks tryBlocks.lowest.header tryEnd = .ok () ∧
      s.checkInside index .handlerBody handlerBlocks handlerBlocks.lowest.header handlerEnd =
        .ok () ∧
      h = row f kind tryBlocks handlerBlocks tryEnd handlerEnd := by
  constructor
  · intro hrun
    obtain ⟨tryBlocks, htry, hrun⟩ := except_bind_eq_ok.mp hrun
    obtain ⟨handlerBlocks, hhandler, hrun⟩ := except_bind_eq_ok.mp hrun
    obtain ⟨kind, hkind, hrun⟩ := except_bind_eq_ok.mp hrun
    obtain ⟨tryEnd, htryEnd, hrun⟩ := except_bind_eq_ok.mp hrun
    obtain ⟨handlerEnd, hhandlerEnd, hrun⟩ := except_bind_eq_ok.mp hrun
    by_cases horder : tryBlocks.lowest.header.offset < tryEnd.offset ∧
        tryEnd.offset ≤ handlerBlocks.lowest.header.offset ∧
        handlerBlocks.lowest.header.offset < handlerEnd.offset
    · rw [if_pos horder] at hrun
      obtain ⟨_, hinsideTry, hrun⟩ := except_bind_eq_ok.mp hrun
      obtain ⟨_, hinsideHandler, hrun⟩ := except_bind_eq_ok.mp hrun
      cases hrun
      exact ⟨tryBlocks, handlerBlocks, kind, tryEnd, handlerEnd, htry, hhandler, hkind, htryEnd,
        hhandlerEnd, horder, hinsideTry, hinsideHandler, rfl⟩
    · rw [if_neg horder] at hrun
      cases hrun
  · rintro ⟨tryBlocks, handlerBlocks, kind, tryEnd, handlerEnd, htry, hhandler, hkind, htryEnd,
      hhandlerEnd, horder, hinsideTry, hinsideHandler, rfl⟩
    refine except_bind_eq_ok.mpr ⟨tryBlocks, htry, except_bind_eq_ok.mpr ⟨handlerBlocks, hhandler,
      except_bind_eq_ok.mpr ⟨kind, hkind, except_bind_eq_ok.mpr ⟨tryEnd, htryEnd,
      except_bind_eq_ok.mpr ⟨handlerEnd, hhandlerEnd, ?_⟩⟩⟩⟩⟩
    apply (if_pos horder).trans
    exact except_bind_eq_ok.mpr ⟨(), hinsideTry, except_bind_eq_ok.mpr ⟨(), hinsideHandler, rfl⟩⟩

lemma handlersFrom_cons_eq_ok {f : Frame} {rest : List Frame} {hs : List Handler} :
    s.handlersFrom index (f :: rest) = .ok hs ↔
      ∃ first following, s.handler index f = .ok first ∧
        s.handlersFrom (index + 1) rest = .ok following ∧ hs = first :: following := by
  rw [handlersFrom, except_bind_eq_ok]
  constructor
  · rintro ⟨first, hfirst, hrun⟩
    obtain ⟨following, hrest, hrun⟩ := except_bind_eq_ok.mp hrun
    cases hrun
    exact ⟨first, following, hfirst, hrest, rfl⟩
  · rintro ⟨first, following, hfirst, hrest, rfl⟩
    exact ⟨first, hfirst, except_bind_eq_ok.mpr ⟨following, hrest, rfl⟩⟩

/-- Tables that find the same handler for every frame are the same. -/
lemma handlersFrom_congr {s' : FrameScope} (h : s'.handler = s.handler) :
    s'.handlersFrom = s.handlersFrom := by
  funext index frames
  induction frames generalizing index with
  | nil => rfl
  | cons f rest ih => rw [handlersFrom, handlersFrom, h, ih]

/-- Every anchor of a handler is the header of a placed block. -/
lemma handler_anchored {f : Frame} {h : Handler} (hrun : s.handler index f = .ok h) {a : Anchor}
    (ha : a ∈ h.anchors) : ∃ p ∈ s.placement, a = p.header := by
  obtain ⟨tryBlocks, handlerBlocks, kind, tryEnd, handlerEnd, htry, hhandler, -, htryEnd,
    hhandlerEnd, -, -, -, rfl⟩ := handler_eq_ok.mp hrun
  have htryStart := mem_placement_of_regionBlocks htry (regionBlocks_eq_ok htry).2.1
  have hhandlerStart := mem_placement_of_regionBlocks hhandler (regionBlocks_eq_ok hhandler).2.1
  have hend : ∃ p ∈ s.placement, tryEnd = p.header := by
    rcases tryEndAnchor_eq_ok htryEnd with ⟨-, rfl⟩ | ⟨-, next, hnext, rfl⟩
    · exact ⟨_, hhandlerStart, rfl⟩
    · exact ⟨next, Placement.mem_of_after? hnext, rfl⟩
  obtain ⟨successor, placed, -, hplaced, rfl⟩ := handlerEndAnchor_eq_ok hhandlerEnd
  simp only [Handler.anchors, row, List.cons_append, List.nil_append, List.mem_cons] at ha
  rcases ha with rfl | rfl | rfl | rfl | hfilter
  · exact ⟨_, htryStart, rfl⟩
  · exact hend
  · exact ⟨_, hhandlerStart, rfl⟩
  · exact ⟨placed, Placement.mem_of_get? hplaced, rfl⟩
  · split_ifs at hfilter
    · rw [Option.toList_some, List.mem_singleton] at hfilter
      exact ⟨_, hhandlerStart, hfilter⟩
    · cases hfilter

lemma handlersFrom_anchored {frames : List Frame} {hs : List Handler}
    (hrun : s.handlersFrom index frames = .ok hs) {h : Handler} (hh : h ∈ hs) {a : Anchor}
    (ha : a ∈ h.anchors) : ∃ p ∈ s.placement, a = p.header := by
  induction frames generalizing index hs with
  | nil =>
    cases hrun
    cases hh
  | cons f rest ih =>
    obtain ⟨first, following, hfirst, hrest, rfl⟩ := handlersFrom_cons_eq_ok.mp hrun
    rcases List.mem_cons.mp hh with rfl | hmem
    · exact handler_anchored hfirst ha
    · exact ih hrest hmem

end FrameScope

end CilBackend
