import CilBackend.Proofs.HandlerRuns
import CilBackend.Proofs.Tiling

/-!
# Regions of handlers

The handler of an accepted frame takes its anchors from six placed blocks: the first and the last
block of each region and the block at which the range of the region ends. Between these blocks lie
all blocks of the region, so the rows of a handler table hold what their frames ask for.
-/

namespace CilBackend

variable {σ : Type}

/-- All blocks of the region are placed from `first` to `last`, and they end before `behind`. -/
structure Placement.Encloses (placement : Placement) (region : List BlockId)
    (first last behind : PlacedBlock) : Prop where
  first_mem : first ∈ placement
  first_region : first.block ∈ region
  last_mem : last ∈ placement
  last_region : last.block ∈ region
  behind_mem : behind ∈ placement
  placed : ∀ n ∈ region, ∃ p ∈ placement, p.block = n
  bounds : ∀ p ∈ placement, p.block ∈ region →
    first.start ≤ p.start ∧ p.start ≤ last.start ∧ p.stop ≤ behind.start

/-- The blocks from which the anchors of a handler are taken. -/
structure AnchorBlocks where
  tryFirst : PlacedBlock
  tryLast : PlacedBlock
  tryBehind : PlacedBlock
  handlerFirst : PlacedBlock
  handlerLast : PlacedBlock
  handlerBehind : PlacedBlock

namespace FrameScope

/-- The handler `h` is that of the frame `f`, with anchors from the blocks `b`. -/
structure Anchored (s : FrameScope) (f : Frame) (h : Handler) (b : AnchorBlocks) : Prop where
  tryBody : s.placement.Encloses f.tryBody b.tryFirst b.tryLast b.tryBehind
  handlerBody : s.placement.Encloses f.handlerBody b.handlerFirst b.handlerLast b.handlerBehind
  tryStart : h.tryStart = b.tryFirst.header
  tryEnd : h.tryEnd = b.tryBehind.header
  handlerStart : h.handlerStart = b.handlerFirst.header
  handlerEnd : h.handlerEnd = b.handlerBehind.header
  try_before_handler : b.tryBehind.start ≤ b.handlerFirst.start
  tryBehind_of_handlerStart : s.tryEnd = .handlerStart → b.tryBehind = b.handlerFirst
  tryBehind_of_tryBodyEnd : s.tryEnd = .tryBodyEnd →
    s.placement.after? b.tryLast.block = some b.tryBehind
  handlerBehind_successor :
    s.routine.graph.successors b.handlerLast.block = [b.handlerBehind.block]

/-! ## Accepted frames -/

section

variable {s : FrameScope} {index : Nat} {region : Region} {blocks : List BlockId} {r : RegionBlocks}

/-- Choosing the better one of two over and over gives one that is better than all. -/
lemma foldl_choice_bound {R : PlacedBlock → PlacedBlock → Prop} (hrefl : ∀ a, R a a)
    (htrans : ∀ a b c, R a b → R b c → R a c) {choose : PlacedBlock → PlacedBlock → PlacedBlock}
    (hchoose : ∀ a b, R (choose a b) a ∧ R (choose a b) b) (b : PlacedBlock)
    (rest : List PlacedBlock) : ∀ c ∈ b :: rest, R (rest.foldl choose b) c := by
  induction rest generalizing b with
  | nil =>
    intro c hc
    rw [List.mem_singleton] at hc
    rw [hc]
    exact hrefl b
  | cons d rest ih =>
    intro c hc
    have hall := ih (choose b d)
    have hchosen := hall (choose b d) List.mem_cons_self
    rw [List.foldl_cons]
    rcases List.mem_cons.mp hc with rfl | hc
    · exact htrans _ _ _ hchosen (hchoose c d).1
    · rcases List.mem_cons.mp hc with rfl | hc
      · exact htrans _ _ _ hchosen (hchoose b c).2
      · exact hall c (List.mem_cons_of_mem _ hc)

lemma regionBlocks_bounds (h : s.regionBlocks index region blocks = .ok r) {p : PlacedBlock}
    (hp : p ∈ r.blocks) : r.lowest.start ≤ p.start ∧ p.start ≤ r.highest.start := by
  obtain ⟨found, -, h⟩ := except_bind_eq_ok.mp h
  cases found with
  | nil => cases h
  | cons b rest =>
    cases h
    constructor
    · apply foldl_choice_bound (R := fun p q => p.start ≤ q.start) _ _ _ b rest p hp
      · intro a
        exact UInt32.le_refl _
      · intro a b c
        exact UInt32.le_trans
      · intro a c
        split_ifs
        all_goals grind
    · apply foldl_choice_bound (R := fun p q => q.start ≤ p.start) _ _ _ b rest p hp
      · intro a
        exact UInt32.le_refl _
      · intro a b c hab hbc
        exact UInt32.le_trans hbc hab
      · intro a c
        split_ifs
        all_goals grind

lemma mem_regionBlocks (hlaid : s.placement.LaidOut start stop)
    (h : s.regionBlocks index region blocks = .ok r) {p : PlacedBlock} :
    p ∈ r.blocks ↔ p ∈ s.placement ∧ p.block ∈ blocks := by
  have hmapM := (regionBlocks_eq_ok h).1
  constructor
  · intro hp
    obtain ⟨n, hn, hfound⟩ := except_mapM_mem hmapM hp
    obtain ⟨hmem, rfl⟩ := hlaid.get?_eq_some.mp (regionBlock_eq_ok.mp hfound)
    exact ⟨hmem, hn⟩
  · rintro ⟨hmem, hblock⟩
    obtain ⟨q, hq, hfound⟩ := forall₂_mem_left ((except_mapM_eq_ok _ _ _).mp hmapM) hblock
    have hsome := hlaid.get?_eq_some.mpr ⟨hmem, rfl⟩
    rw [regionBlock_eq_ok, hsome, Option.some.injEq] at hfound
    exact hfound ▸ hq

/-- The range check of a region leaves no block of it outside. -/
lemma encloses_of_checkInside (hlaid : s.placement.LaidOut start stop)
    (h : s.regionBlocks index region blocks = .ok r) {behind : PlacedBlock}
    (hbehind : behind ∈ s.placement)
    (hinside : s.checkInside index region r r.lowest.header behind.header = .ok ()) :
    s.placement.Encloses blocks r.lowest r.highest behind := by
  have hblocks := (regionBlocks_eq_ok h).2
  have hlowest := (mem_regionBlocks hlaid h).mp hblocks.1
  have hhighest := (mem_regionBlocks hlaid h).mp hblocks.2
  refine ⟨hlowest.1, hlowest.2, hhighest.1, hhighest.2, hbehind, ?_, ?_⟩
  · intro n hn
    have hall := (except_mapM_eq_ok _ _ _).mp (regionBlocks_eq_ok h).1
    obtain ⟨p, -, hfound⟩ := forall₂_mem_left hall hn
    exact ⟨p, hlaid.get?_eq_some.mp (regionBlock_eq_ok.mp hfound)⟩
  · intro p hp hblock
    have hmem := (mem_regionBlocks hlaid h).mpr ⟨hp, hblock⟩
    have hstops := (checkInside_eq_ok.mp hinside p hmem).2
    exact ⟨(regionBlocks_bounds h hmem).1, (regionBlocks_bounds h hmem).2, hstops⟩

/-- The handler of an accepted frame has its anchors from placed blocks that enclose the regions of
the frame. -/
lemma anchored_of_handler (hlaid : s.placement.LaidOut start stop) {f : Frame} {h : Handler}
    (hrun : s.handler index f = .ok h) : ∃ b, s.Anchored f h b := by
  obtain ⟨tryBlocks, handlerBlocks, kind, tryEnd, handlerEnd, htry, hhandler, -, htryEnd,
    hhandlerEnd, ⟨-, horder, -⟩, hinsideTry, hinsideHandler, rfl⟩ := handler_eq_ok.mp hrun
  obtain ⟨successor, behind, hsuccessors, hbehind, rfl⟩ := handlerEndAnchor_eq_ok hhandlerEnd
  obtain ⟨hbehindMem, rfl⟩ := hlaid.get?_eq_some.mp hbehind
  have hhandlerBody := encloses_of_checkInside hlaid hhandler hbehindMem hinsideHandler
  rcases tryEndAnchor_eq_ok htryEnd with ⟨hmode, rfl⟩ | ⟨hmode, next, hnext, rfl⟩
  · have htryBody := encloses_of_checkInside hlaid htry hhandlerBody.first_mem hinsideTry
    exact ⟨⟨_, _, _, _, _, _⟩, htryBody, hhandlerBody, rfl, rfl, rfl, rfl, horder, fun _ => rfl,
      by simp [hmode], hsuccessors⟩
  · have htryBody := encloses_of_checkInside hlaid htry (Placement.mem_of_after? hnext) hinsideTry
    exact ⟨⟨_, _, _, _, _, _⟩, htryBody, hhandlerBody, rfl, rfl, rfl, rfl, horder, by simp [hmode],
      fun _ => hnext, hsuccessors⟩

/-- There is one handler for each frame, in the order of the frames. -/
lemma forall₂_of_handlersFrom (hlaid : s.placement.LaidOut start stop) {frames : List Frame}
    {hs : List Handler} (hrun : s.handlersFrom index frames = .ok hs) :
    List.Forall₂ (fun f h => ∃ b, s.Anchored f h b) frames hs := by
  induction frames generalizing index hs with
  | nil =>
    cases hrun
    exact List.Forall₂.nil
  | cons f rest ih =>
    obtain ⟨first, following, hfirst, hrest, rfl⟩ := handlersFrom_cons_eq_ok.mp hrun
    exact List.Forall₂.cons (anchored_of_handler hlaid hfirst) (ih hrest)

end

end FrameScope

/-! ## Compiled routines -/

/-- The block header that stands at an anchor. -/
def Anchor.blockHeader (a : Anchor) : Instruction :=
  { opcode := .nop, label := some a.label, offset := a.offset }

lemma Placement.Encloses.inside {placement : Placement} {region : List BlockId}
    {first last behind : PlacedBlock} (h : placement.Encloses region first last behind) :
    ∀ n ∈ region, ∃ p ∈ placement, p.block = n ∧ first.start ≤ p.start ∧ p.stop ≤ behind.start := by
  intro n hn
  obtain ⟨p, hp, rfl⟩ := h.placed n hn
  have hbounds := h.bounds p hp hn
  exact ⟨p, hp, rfl, hbounds.1, hbounds.2.2⟩

/-- A guarded block inside a guarded stretch of code. The inner handler and the stretch behind it
belong to what the outer handler guards, and the stretch ends with a jump over the outer handler. -/
def nestedGuards : Routine where
  declarations := []
  graph := {
    blocks := [
      [],
      [],
      [.expression (.instruction [{ opcode := .leave, operand := .block 4 }] [] none .void)],
      [.expression (.instruction [{ opcode := .leave, operand := .block 4 }] [] none .void)],
      [],
      [.expression (.instruction [{ opcode := .endfinally }] [] none .void)],
      [.expression (.instruction [{ opcode := .ret }] [] none .void)]]
    edges := [⟨0, 1, .fallThrough⟩, ⟨1, 2, .fallThrough⟩, ⟨1, 5, .exceptional⟩,
      ⟨2, 3, .exceptional⟩, ⟨2, 4, .branch⟩, ⟨3, 4, .branch⟩, ⟨4, 6, .fallThrough⟩,
      ⟨5, 6, .branch⟩]
    edges_inside := by decide }
  entry := 0
  frames := [⟨0, [2], [3], none⟩, ⟨3, [4, 1, 3, 2, 1], [5], none⟩]
  returnsValue := false

lemma nestedGuards_order :
    nestedGuards.graph.order nestedGuards.entry = .ok [0, 1, 2, 3, 4, 5, 6] :=
  rfl

/-- A body that holds code already. -/
def usedBody : MethodBody where
  instructions := [{ opcode := .ret }]

end CilBackend
