import CilBackend.Proofs.Acceptance
import CilBackend.Proofs.DominatorPreorder
import CilBackend.Proofs.FrameAcceptance

/-!
# Frames in the block order

Whether a frame is accepted can be seen from the order of the blocks: neither the size of their code
nor the end of the protected range has a part in it. What a frame becomes depends on the sets of
blocks that it names, and not on how it lists them.
-/

namespace CilBackend

variable {σ : Type}

/-- Control goes from `n` to `m` and nowhere else. -/
def Graph.SoleSuccessor (g : Graph) (n m : BlockId) : Prop :=
  ∀ c, (∃ e ∈ g.edges, e.source = n ∧ e.target = c) ↔ c = m

/-- Of the blocks of the region, `n` is the last one in the order. -/
def LastIn (order region : List BlockId) (n : BlockId) : Prop :=
  n ∈ region ∧ ∀ m ∈ region, m = n ∨ Precedes order m n

/-- What is asked of a frame when the blocks of the graph are laid out in the order. -/
structure Frame.Acceptable (f : Frame) (g : Graph) (order : List BlockId) : Prop where
  tryBody_nonempty : f.tryBody ≠ []
  handlerBody_nonempty : f.handlerBody ≠ []
  tryBody_blocks : ∀ n ∈ f.tryBody, n < g.size
  handlerBody_blocks : ∀ n ∈ f.handlerBody, n < g.size
  knownKind : f.kind < 4
  try_before_handler : ∀ n ∈ f.tryBody, ∀ m ∈ f.handlerBody, Precedes order n m
  goes_on_behind : ∃ last next, LastIn order f.handlerBody last ∧ g.SoleSuccessor last next ∧
    Precedes order last next

/-- The same routine with other frames. -/
def Routine.withFrames (r : Routine) (frames : List Frame) : Routine :=
  { r with frames }

/-- Frames that differ at most in how they list the blocks of their regions. -/
structure Frame.SameRegions (f f' : Frame) : Prop where
  kind : f'.kind = f.kind
  catchType : f'.catchType = f.catchType
  tryBody : ∀ n, n ∈ f'.tryBody ↔ n ∈ f.tryBody
  handlerBody : ∀ n, n ∈ f'.handlerBody ↔ n ∈ f.handlerBody

lemma Graph.successors_eq_singleton_iff {g : Graph} {n m : BlockId} :
    g.successors n = [m] ↔ g.SoleSuccessor n m := by
  unfold Graph.SoleSuccessor
  simp only [← mem_successors]
  constructor
  · intro h c
    rw [h, List.mem_singleton]
  · intro h
    have hnodup : (g.successors n).Nodup := g.nodup_successors n
    apply List.perm_singleton.mp
    apply (List.perm_ext_iff_of_nodup hnodup (List.nodup_singleton m)).mpr
    intro c
    rw [h c, List.mem_singleton]

/-! ## Order and offsets -/

namespace Placement.LaidOut

variable {placement : Placement} {start stop : UInt32} {p q : PlacedBlock}

/-- Blocks start in the order in which they are laid out. -/
lemma start_lt_of_precedes (hlaid : placement.LaidOut start stop) (hp : p ∈ placement)
    (hq : q ∈ placement) (h : Precedes (placement.map PlacedBlock.block) p.block q.block) :
    p.start < q.start := by
  obtain ⟨pair, hpair, hblocks⟩ := List.sublist_map_iff.mp h
  obtain ⟨x, rest, rfl, hx, hrest⟩ := List.map_eq_cons_iff.mp hblocks.symm
  obtain ⟨y, others, rfl, hy, hothers⟩ := List.map_eq_cons_iff.mp hrest
  rw [List.map_eq_nil_iff] at hothers
  subst hothers
  obtain ⟨hxmem, hymem⟩ : x ∈ placement ∧ y ∈ placement :=
    ⟨hpair.subset (by simp), hpair.subset (by simp)⟩
  obtain rfl := hlaid.eq_of_block hxmem hp hx
  obtain rfl := hlaid.eq_of_block hymem hq hy
  have hstop := List.pairwise_iff_forall_sublist.mp hlaid.tiles.ordered hpair
  have hlt := x.start_lt_stop
  grind

lemma precedes_iff (hlaid : placement.LaidOut start stop) (hp : p ∈ placement)
    (hq : q ∈ placement) :
    Precedes (placement.map PlacedBlock.block) p.block q.block ↔ p.start < q.start := by
  constructor
  · exact hlaid.start_lt_of_precedes hp hq
  · intro hlt
    have hne : p.block ≠ q.block := by
      intro hblock
      rw [hlaid.eq_of_block hp hq hblock] at hlt
      grind
    rcases Precedes.total (List.mem_map_of_mem hp) (List.mem_map_of_mem hq) hne with hpq | hqp
    · exact hpq
    · have hback := hlaid.start_lt_of_precedes hq hp hqp
      grind

end Placement.LaidOut

/-! ## Regions -/

namespace FrameScope

variable {s : FrameScope} {index : Nat} {start stop : UInt32} {region : Region}
  {blocks blocks' : List BlockId} {r : RegionBlocks} {f f' : Frame}

lemma exists_regionBlocks_iff (hlaid : s.placement.LaidOut start stop) :
    (∃ r, s.regionBlocks index region blocks = .ok r) ↔
      blocks ≠ [] ∧ ∀ n ∈ blocks, ∃ p ∈ s.placement, p.block = n := by
  have hplaced : (∃ found, blocks.mapM (s.regionBlock index region) = .ok found) ↔
      ∀ n ∈ blocks, ∃ p ∈ s.placement, p.block = n := by
    rw [exists_mapM_iff]
    simp only [regionBlock_eq_ok, hlaid.get?_eq_some]
  rw [← hplaced]
  constructor
  · rintro ⟨r, h⟩
    refine ⟨?_, r.blocks, (regionBlocks_eq_ok h).1⟩
    rintro rfl
    cases h
  · rintro ⟨hnonempty, found, hfound⟩
    cases found with
    | nil =>
      have hall := (except_mapM_eq_ok _ _ _).mp hfound
      cases hall
      exact absurd rfl hnonempty
    | cons b rest => exact ⟨_, except_bind_eq_ok.mpr ⟨b :: rest, hfound, rfl⟩⟩

/-- The block that is the last one of its region in the order is placed highest. -/
lemma block_highest_of_lastIn (hlaid : s.placement.LaidOut start stop)
    (h : s.regionBlocks index region blocks = .ok r) {last : BlockId}
    (hlast : LastIn (s.placement.map PlacedBlock.block) blocks last) :
    r.highest.block = last := by
  obtain ⟨hhighest, hregion⟩ := (mem_regionBlocks hlaid h).mp (regionBlocks_eq_ok h).2.2
  rcases hlast.2 _ hregion with heq | hprecedes
  · exact heq
  · obtain ⟨p, hp, rfl⟩ : ∃ p ∈ s.placement, p.block = last :=
      ((exists_regionBlocks_iff hlaid).mp ⟨r, h⟩).2 last hlast.1
    have hlt := (hlaid.precedes_iff hhighest hp).mp hprecedes
    have hle := (regionBlocks_bounds h ((mem_regionBlocks hlaid h).mpr ⟨hp, hlast.1⟩)).2
    grind

lemma lastIn_of_regionBlocks (hlaid : s.placement.LaidOut start stop)
    (h : s.regionBlocks index region blocks = .ok r) :
    LastIn (s.placement.map PlacedBlock.block) blocks r.highest.block := by
  obtain ⟨hhighest, hregion⟩ := (mem_regionBlocks hlaid h).mp (regionBlocks_eq_ok h).2.2
  refine ⟨hregion, ?_⟩
  intro m hm
  obtain ⟨p, hp, rfl⟩ := ((exists_regionBlocks_iff hlaid).mp ⟨r, h⟩).2 m hm
  have hle := (regionBlocks_bounds h ((mem_regionBlocks hlaid h).mpr ⟨hp, hm⟩)).2
  by_cases hstart : p.start = r.highest.start
  · rw [hlaid.eq_of_start hp hhighest hstart]
    exact Or.inl rfl
  · exact Or.inr ((hlaid.precedes_iff hp hhighest).mpr (by grind))

/-! ## Acceptance -/

lemma exists_ofFrameKind?_iff {number : Nat} :
    (∃ kind, HandlerKind.ofFrameKind? number = some kind) ↔ number < 4 := by
  match number with
  | 0 | 1 | 2 | 3 => simp [HandlerKind.ofFrameKind?]
  | n + 4 => simp [HandlerKind.ofFrameKind?]

lemma handlerEndAnchor_of_successor {handlerBlocks : RegionBlocks} {next : PlacedBlock}
    (hlaid : s.placement.LaidOut start stop) (hnext : next ∈ s.placement)
    (h : s.routine.graph.successors handlerBlocks.highest.block = [next.block]) :
    s.handlerEndAnchor handlerBlocks = .ok next.header := by
  unfold handlerEndAnchor
  dsimp only
  rw [h]
  dsimp only
  rw [hlaid.get?_eq_some.mpr ⟨hnext, rfl⟩]

variable {tryBlocks handlerBlocks : RegionBlocks} {kind : HandlerKind} {handlerEnd : Anchor}

lemma Accepts.acceptable (h : s.Accepts index f tryBlocks handlerBlocks kind handlerEnd)
    (hlaid : s.placement.LaidOut start stop)
    (hplaced : ∀ p ∈ s.placement, p.block < s.routine.graph.size) :
    f.Acceptable s.routine.graph (s.placement.map PlacedBlock.block) := by
  obtain ⟨htry, htryPlaced⟩ := (exists_regionBlocks_iff hlaid).mp ⟨_, h.tryBody⟩
  obtain ⟨hhandler, hhandlerPlaced⟩ := (exists_regionBlocks_iff hlaid).mp ⟨_, h.handlerBody⟩
  obtain ⟨successor, next, hsuccessors, hget, rfl⟩ := handlerEndAnchor_eq_ok h.behind
  obtain ⟨hnext, rfl⟩ := hlaid.get?_eq_some.mp hget
  refine ⟨htry, hhandler, ?_, ?_, ?_, ?_, ?_⟩
  · intro n hn
    obtain ⟨p, hp, rfl⟩ := htryPlaced n hn
    exact hplaced p hp
  · intro m hm
    obtain ⟨q, hq, rfl⟩ := hhandlerPlaced m hm
    exact hplaced q hq
  · exact exists_ofFrameKind?_iff.mp ⟨kind, handlerKind_eq_ok.mp h.knownKind⟩
  · intro n hn m hm
    obtain ⟨p, hp, rfl⟩ := htryPlaced n hn
    obtain ⟨q, hq, rfl⟩ := hhandlerPlaced m hm
    have hstop := stop_le_highest hlaid h.tryBody ((mem_regionBlocks hlaid h.tryBody).mpr ⟨hp, hn⟩)
    have hlow :=
      (regionBlocks_bounds h.handlerBody ((mem_regionBlocks hlaid h.handlerBody).mpr ⟨hq, hm⟩)).1
    have hbetween := h.try_before_handler
    have hlt := p.start_lt_stop
    exact (hlaid.precedes_iff hp hq).mpr (by grind)
  · have hlast := (regionBlocks_eq_ok h.handlerBody).2.2
    have hstop : handlerBlocks.highest.stop ≤ next.start := h.handler_inside _ hlast
    have hlt := handlerBlocks.highest.start_lt_stop
    have hmem := mem_placement_of_regionBlocks h.handlerBody hlast
    exact ⟨_, _, lastIn_of_regionBlocks hlaid h.handlerBody,
      Graph.successors_eq_singleton_iff.mp hsuccessors,
      (hlaid.precedes_iff hmem hnext).mpr (by grind)⟩

lemma accepts_of_acceptable (hlaid : s.placement.LaidOut start stop)
    (hplaced : ∀ n < s.routine.graph.size, ∃ p ∈ s.placement, p.block = n)
    (h : f.Acceptable s.routine.graph (s.placement.map PlacedBlock.block)) (index : Nat) :
    ∃ tryBlocks handlerBlocks kind handlerEnd,
      s.Accepts index f tryBlocks handlerBlocks kind handlerEnd := by
  obtain ⟨tryBlocks, htry⟩ : ∃ b, s.regionBlocks index .tryBody f.tryBody = .ok b :=
    (exists_regionBlocks_iff hlaid).mpr
      ⟨h.tryBody_nonempty, fun n hn => hplaced n (h.tryBody_blocks n hn)⟩
  obtain ⟨handlerBlocks, hhandler⟩ :
      ∃ b, s.regionBlocks index .handlerBody f.handlerBody = .ok b :=
    (exists_regionBlocks_iff hlaid).mpr
      ⟨h.handlerBody_nonempty, fun n hn => hplaced n (h.handlerBody_blocks n hn)⟩
  obtain ⟨kind, hkind⟩ := exists_ofFrameKind?_iff.mpr h.knownKind
  obtain ⟨last, next, hlast, hsole, hbehind⟩ := h.goes_on_behind
  have hsuccessors := Graph.successors_eq_singleton_iff.mpr hsole
  have hnextBlock : next < s.routine.graph.size :=
    (s.routine.graph.successor_lt (n := last) (by simp [hsuccessors])).2
  obtain ⟨q, hq, rfl⟩ := hplaced next hnextBlock
  obtain rfl := block_highest_of_lastIn hlaid hhandler hlast
  obtain ⟨htryMem, htryRegion⟩ := (mem_regionBlocks hlaid htry).mp (regionBlocks_eq_ok htry).2.2
  obtain ⟨hlowMem, hlowRegion⟩ :=
    (mem_regionBlocks hlaid hhandler).mp (regionBlocks_eq_ok hhandler).2.1
  have hhighMem := mem_placement_of_regionBlocks hhandler (regionBlocks_eq_ok hhandler).2.2
  have hbetween := (hlaid.precedes_iff htryMem hlowMem).mp
    (h.try_before_handler _ htryRegion _ hlowRegion)
  have hstop := hlaid.stop_le_of_start_lt hhighMem hq ((hlaid.precedes_iff hhighMem hq).mp hbehind)
  refine ⟨tryBlocks, handlerBlocks, kind, q.header, htry, hhandler, handlerKind_eq_ok.mpr hkind,
    handlerEndAnchor_of_successor hlaid hq hsuccessors,
    hlaid.stop_le_of_start_lt htryMem hlowMem hbetween, ?_⟩
  intro p hp
  exact UInt32.le_trans (stop_le_highest hlaid hhandler hp) hstop

/-- A frame is accepted for its place in the order alone. -/
lemma exists_handler_iff (hlaid : s.placement.LaidOut start stop)
    (hplaced : ∀ n, n ∈ s.placement.map PlacedBlock.block ↔ n < s.routine.graph.size)
    (index : Nat) :
    (∃ h, s.handler index f = .ok h) ↔
      f.Acceptable s.routine.graph (s.placement.map PlacedBlock.block) := by
  constructor
  · rintro ⟨h, hrun⟩
    obtain ⟨_, _, _, _, _, haccepts, -, -⟩ := accepts_of_handler hrun
    apply haccepts.acceptable hlaid
    intro p hp
    exact (hplaced p.block).mp (List.mem_map_of_mem hp)
  · intro hacceptable
    obtain ⟨_, _, _, _, haccepts⟩ := accepts_of_acceptable hlaid
      (fun n hn => List.mem_map.mp ((hplaced n).mpr hn)) hacceptable index
    obtain ⟨_, -, hrun⟩ := haccepts.handler hlaid
    exact ⟨_, hrun⟩

lemma exists_handlersFrom_iff (hlaid : s.placement.LaidOut start stop)
    (hplaced : ∀ n, n ∈ s.placement.map PlacedBlock.block ↔ n < s.routine.graph.size)
    (index : Nat) {frames : List Frame} :
    (∃ hs, s.handlersFrom index frames = .ok hs) ↔
      ∀ f ∈ frames, f.Acceptable s.routine.graph (s.placement.map PlacedBlock.block) := by
  induction frames generalizing index with
  | nil => exact ⟨fun _ => List.forall_mem_nil _, fun _ => ⟨[], rfl⟩⟩
  | cons f rest ih =>
    rw [List.forall_mem_cons, ← exists_handler_iff hlaid hplaced index, ← ih (index + 1)]
    simp only [handlersFrom_cons_eq_ok]
    constructor
    · rintro ⟨_, first, following, hfirst, hrest, -⟩
      exact ⟨⟨first, hfirst⟩, following, hrest⟩
    · rintro ⟨⟨first, hfirst⟩, following, hrest⟩
      exact ⟨_, first, following, hfirst, hrest, rfl⟩

/-! ## Sets of blocks -/

/-- Two lists of the same blocks have the same first and the same last block. -/
lemma regionBlocks_of_same (hlaid : s.placement.LaidOut start stop)
    (h : s.regionBlocks index region blocks = .ok r) (hsame : ∀ n, n ∈ blocks' ↔ n ∈ blocks)
    (index' : Nat) :
    ∃ r', s.regionBlocks index' region blocks' = .ok r' ∧ (∀ p, p ∈ r'.blocks ↔ p ∈ r.blocks) ∧
      r'.lowest = r.lowest ∧ r'.highest = r.highest := by
  obtain ⟨hnonempty, hplaced⟩ := (exists_regionBlocks_iff hlaid).mp ⟨r, h⟩
  have hnonempty' : blocks' ≠ [] := by
    obtain ⟨n, hn⟩ := List.exists_mem_of_ne_nil _ hnonempty
    exact List.ne_nil_of_mem ((hsame n).mpr hn)
  obtain ⟨r', h'⟩ : ∃ r', s.regionBlocks index' region blocks' = .ok r' :=
    (exists_regionBlocks_iff hlaid).mpr ⟨hnonempty', fun n hn => hplaced n ((hsame n).mp hn)⟩
  have hmem : ∀ p, p ∈ r'.blocks ↔ p ∈ r.blocks := by
    intro p
    rw [mem_regionBlocks hlaid h', mem_regionBlocks hlaid h, hsame]
  obtain ⟨-, hlow, hhigh⟩ := regionBlocks_eq_ok h
  obtain ⟨-, hlow', hhigh'⟩ := regionBlocks_eq_ok h'
  have hplacement : ∀ p ∈ r.blocks, p ∈ s.placement :=
    fun p hp => mem_placement_of_regionBlocks h hp
  refine ⟨r', h', hmem, ?_, ?_⟩
  · apply hlaid.eq_of_start (hplacement _ ((hmem _).mp hlow')) (hplacement _ hlow)
    have hle := (regionBlocks_bounds h ((hmem _).mp hlow')).1
    have hle' := (regionBlocks_bounds h' ((hmem _).mpr hlow)).1
    grind
  · apply hlaid.eq_of_start (hplacement _ ((hmem _).mp hhigh')) (hplacement _ hhigh)
    have hle := (regionBlocks_bounds h ((hmem _).mp hhigh')).2
    have hle' := (regionBlocks_bounds h' ((hmem _).mpr hhigh)).2
    grind

/-- The handler of a frame depends on the sets of blocks that the frame names. -/
lemma handler_of_sameRegions (hlaid : s.placement.LaidOut start stop) (hsame : f.SameRegions f')
    {h : Handler} (hrun : s.handler index f = .ok h) (index' : Nat) :
    s.handler index' f' = .ok h := by
  obtain ⟨tryBlocks, handlerBlocks, kind, tryEnd, handlerEnd, haccepts, htryEnd, rfl⟩ :=
    accepts_of_handler hrun
  obtain ⟨tryBlocks', htry, -, htryLow, htryHigh⟩ :=
    regionBlocks_of_same hlaid haccepts.tryBody hsame.tryBody index'
  obtain ⟨handlerBlocks', hhandler, hhandlerMem, hhandlerLow, hhandlerHigh⟩ :=
    regionBlocks_of_same hlaid haccepts.handlerBody hsame.handlerBody index'
  have hkind : s.handlerKind f' tryBlocks' = .ok kind := by
    rw [handlerKind_eq_ok, hsame.kind]
    exact handlerKind_eq_ok.mp haccepts.knownKind
  have hbehind : s.handlerEndAnchor handlerBlocks' = .ok handlerEnd := by
    rw [← haccepts.behind]
    unfold handlerEndAnchor
    rw [hhandlerHigh]
  have haccepts' : s.Accepts index' f' tryBlocks' handlerBlocks' kind handlerEnd := by
    refine ⟨htry, hhandler, hkind, hbehind, ?_, ?_⟩
    · rw [htryHigh, hhandlerLow]
      exact haccepts.try_before_handler
    · intro p hp
      exact haccepts.handler_inside p ((hhandlerMem p).mp hp)
  obtain ⟨tryEnd', htryEnd', hrun'⟩ := haccepts'.handler hlaid
  have hends : tryEnd' = tryEnd := by
    unfold tryEndAnchor at htryEnd htryEnd'
    rw [htryHigh, hhandlerLow, htryEnd] at htryEnd'
    exact (Except.ok.inj htryEnd').symm
  rw [hrun', hends]
  unfold row
  rw [htryLow, hhandlerLow, hsame.catchType]

lemma handlersFrom_of_sameRegions (hlaid : s.placement.LaidOut start stop)
    {frames frames' : List Frame} (hsame : List.Forall₂ Frame.SameRegions frames frames')
    {hs : List Handler} (hrun : s.handlersFrom index frames = .ok hs) :
    s.handlersFrom index frames' = .ok hs := by
  induction hsame generalizing index hs with
  | nil => exact hrun
  | cons hfirst _ ih =>
    obtain ⟨first, following, hhandler, hrest, rfl⟩ := handlersFrom_cons_eq_ok.mp hrun
    exact handlersFrom_cons_eq_ok.mpr
      ⟨first, following, handler_of_sameRegions hlaid hfirst hhandler index, ih hrest, rfl⟩

end FrameScope

/-! ## Compiled routines -/

lemma Frame.SameRegions.isLeftBy {f f' : Frame} (h : f.SameRegions f') (n t : BlockId) :
    f'.isLeftBy n t = f.isLeftBy n t := by
  rw [Bool.eq_iff_iff]
  simp [Frame.isLeftBy, h.tryBody, h.handlerBody]

lemma any_isLeftBy_of_sameRegions {frames frames' : List Frame}
    (h : List.Forall₂ Frame.SameRegions frames frames') (n t : BlockId) :
    (frames'.any fun f => f.isLeftBy n t) = frames.any fun f => f.isLeftBy n t := by
  induction h with
  | nil => rfl
  | cons hfirst _ ih => rw [List.any_cons, List.any_cons, hfirst.isLeftBy, ih]

variable {services : Services σ} {options : Options} {r : Routine} {w w' : Workspace σ}
  {placement : Placement}

/-- Frames decide with their sets of blocks which jumps are a `leave`. -/
lemma placeRoutine_of_sameRegions {frames' : List Frame}
    (h : List.Forall₂ Frame.SameRegions r.frames frames') :
    placeRoutine services options (r.withFrames frames') =
      placeRoutine services options r := by
  refine placeRoutine_congr rfl rfl rfl ?_
  intro scope
  funext block next
  unfold Scope.fallThroughJump
  simp only [Routine.withFrames, any_isLeftBy_of_sameRegions h]
  rfl

lemma compile_of_sameRegions {frames' : List Frame}
    (h : List.Forall₂ Frame.SameRegions r.frames frames')
    (hcompile : compile services options r w = .ok () w') :
    compile services options (r.withFrames frames') w = .ok () w' := by
  obtain ⟨locals, placement, handlers, hdeclare, hplace, hhandlers, hbody⟩ := compile_eq_ok hcompile
  obtain ⟨headers, start, order, t, -, horder, hrun, -⟩ := placeRoutine_eq_ok.mp hplace
  have hscope : FrameScope.handlersFrom
      ⟨r.withFrames frames', placement, services.describe, options.tryEnd⟩ =
        FrameScope.handlersFrom ⟨r, placement, services.describe, options.tryEnd⟩ :=
    FrameScope.handlersFrom_congr rfl
  have hplace' : placeRoutine services options (r.withFrames frames')
      { w.body with locals } w.services = .ok placement w'.services := by
    rw [placeRoutine_of_sameRegions h]
    exact hplace
  have hhandlers' : FrameScope.handlers
      ⟨r.withFrames frames', placement, services.describe, options.tryEnd⟩ =
        .ok handlers := by
    unfold FrameScope.handlers
    rw [hscope]
    exact FrameScope.handlersFrom_of_sameRegions (Scope.place_laidOut horder hrun) h hhandlers
  have hphases : compile services options (r.withFrames frames') w =
      .ok () ⟨w'.body, w'.services⟩ := by
    rw [hbody]
    exact compile_of_phases hdeclare hplace' hhandlers'
  exact hphases

/-- A placed routine compiles exactly when its frames are acceptable. -/
lemma exists_compile_iff_of_placed
    (hplaced : compiledPlacement services options r w = some placement)
    {order : List BlockId} (horder : r.graph.order r.entry = .ok order) :
    (∃ w', compile services options r w = .ok () w') ↔
      ∀ f ∈ r.frames, f.Acceptable r.graph order := by
  obtain ⟨locals, t, hdeclare, hplace⟩ := phases_of_compiledPlacement hplaced
  obtain ⟨headers, start, _, u, -, horder', hrun, -⟩ := placeRoutine_eq_ok.mp hplace
  cases horder.symm.trans horder'
  have hblocks := Scope.place_blocks hrun
  have hmem : ∀ n, n ∈ placement.map PlacedBlock.block ↔ n < r.graph.size := by
    intro n
    rw [hblocks]
    exact Graph.mem_order horder
  rw [← hblocks, ← FrameScope.exists_handlersFrom_iff
    (s := ⟨r, placement, services.describe, options.tryEnd⟩) (Scope.place_laidOut horder hrun)
    hmem 0]
  constructor
  · rintro ⟨w', hcompile⟩
    obtain ⟨_, found, handlers, hdeclare', hplace', hhandlers, -⟩ := compile_eq_ok hcompile
    cases hdeclare.symm.trans hdeclare'
    cases hplace.symm.trans hplace'
    exact ⟨handlers, hhandlers⟩
  · rintro ⟨handlers, hhandlers⟩
    exact ⟨_, compile_of_phases hdeclare hplace hhandlers⟩

/-- A routine whose blocks are lowered compiles exactly when all its frames are acceptable in the
block order and the offset behind its code exists; without that offset it overflows. The handler of
a frame, and the whole result, depend on the sets of blocks that frames name and not on how they
list them. -/
theorem exists_compile_iff_frames_acceptable {order : List BlockId} {codes : List BlockCode}
    (hlowers : r.LowersTo services options w order codes) :
    ((∃ w', compile services options r w = .ok () w') ↔
      w.body.HasRoomFor codes ∧ ∀ f ∈ r.frames, f.Acceptable r.graph order) ∧
    (¬ w.body.HasRoomFor codes → ∃ w', compile services options r w = .error .overflow w') ∧
    (∀ placement, compiledPlacement services options r w = some placement →
      ∀ f f' h index index', f.SameRegions f' →
        FrameScope.handler ⟨r, placement, services.describe, options.tryEnd⟩ index f = .ok h →
        FrameScope.handler ⟨r, placement, services.describe, options.tryEnd⟩ index' f' = .ok h) ∧
    ∀ frames' w', List.Forall₂ Frame.SameRegions r.frames frames' →
      compile services options r w = .ok () w' →
      compile services options (r.withFrames frames') w = .ok () w' := by
  have horder : r.graph.order r.entry = .ok order := hlowers.order_eq
  refine ⟨?_, hlowers.overflows, ?_, fun _ _ => compile_of_sameRegions⟩
  · constructor
    · rintro ⟨w', hcompile⟩
      obtain ⟨placement, _, _, _, _, _, hplaced, -⟩ := compile_placement hcompile
      exact ⟨hlowers.exists_placement_iff.mp ⟨placement, hplaced⟩,
        (exists_compile_iff_of_placed hplaced horder).mp ⟨w', hcompile⟩⟩
    · rintro ⟨hroom, hacceptable⟩
      obtain ⟨placement, hplaced⟩ := hlowers.exists_placement_iff.mpr hroom
      exact (exists_compile_iff_of_placed hplaced horder).mpr hacceptable
  · intro placement hplaced f f' h index index' hsame hhandler
    obtain ⟨locals, t, -, hplace⟩ := phases_of_compiledPlacement hplaced
    obtain ⟨headers, start, _, u, -, horder', hrun, -⟩ := placeRoutine_eq_ok.mp hplace
    exact FrameScope.handler_of_sameRegions (Scope.place_laidOut horder' hrun) hsame hhandler index'

/-- The nested guards are acceptable and may list their blocks in any way. With the inner guard and
its handler swapped the handler comes first in the order, and the routine is refused. -/
theorem nestedGuards_frames_acceptable : ∃ w',
    compile plainServices {} nestedGuards ⟨usedBody, ()⟩ = .ok () w' ∧
      (∀ f ∈ nestedGuards.frames, f.Acceptable nestedGuards.graph [0, 1, 2, 3, 4, 5, 6]) ∧
      compile plainServices {} (nestedGuards.withFrames
        [⟨0, [2, 2], [3], none⟩, ⟨3, [1, 2, 3, 4], [5, 5], none⟩]) ⟨usedBody, ()⟩ = .ok () w' ∧
      ¬ ∃ w'', compile plainServices {} (nestedGuards.withFrames [⟨0, [3], [2], none⟩])
        ⟨usedBody, ()⟩ = .ok () w'' := by
  obtain ⟨w', placement, hcompile, hplacement⟩ : ∃ w' placement,
      compile plainServices {} nestedGuards ⟨usedBody, ()⟩ = .ok () w' ∧
        compiledPlacement plainServices {} nestedGuards ⟨usedBody, ()⟩ = some placement :=
    ⟨_, _, rfl, rfl⟩
  obtain ⟨order, hlowers, -⟩ := Routine.lowersTo_of_placed hplacement
  obtain ⟨hiff, -, -, hsame⟩ := exists_compile_iff_frames_acceptable hlowers
  cases nestedGuards_order.symm.trans hlowers.order_eq
  refine ⟨w', hcompile, (hiff.mp ⟨w', hcompile⟩).2, ?_, ?_⟩
  · apply hsame _ _ _ hcompile
    exact List.Forall₂.cons ⟨rfl, rfl, by simp, by simp⟩
      (List.Forall₂.cons ⟨rfl, rfl, by grind, by simp⟩ List.Forall₂.nil)
  · obtain ⟨swapped, hswapped⟩ : ∃ placement, compiledPlacement plainServices {}
        (nestedGuards.withFrames [⟨0, [3], [2], none⟩]) ⟨usedBody, ()⟩ = some placement := ⟨_, rfl⟩
    obtain ⟨order, hlowers, -⟩ := Routine.lowersTo_of_placed hswapped
    cases nestedGuards_order.symm.trans hlowers.order_eq
    rw [(exists_compile_iff_frames_acceptable hlowers).1]
    rintro ⟨-, hacceptable⟩
    have hprecedes := (hacceptable _ List.mem_cons_self).try_before_handler 3 (by simp) 2 (by simp)
    exact absurd hprecedes (by unfold Precedes; decide)

/-- The nested guards are lowered and acceptable, but the offset behind their last instruction does
not exist. -/
theorem nestedGuards_overflows :
    (∃ codes, nestedGuards.LowersTo plainServices {} ⟨bodyUpTo 4294967271, ()⟩
      [0, 1, 2, 3, 4, 5, 6] codes) ∧
    (∀ f ∈ nestedGuards.frames, f.Acceptable nestedGuards.graph [0, 1, 2, 3, 4, 5, 6]) ∧
    ∃ w', compile plainServices {} nestedGuards ⟨bodyUpTo 4294967271, ()⟩ =
      .error .overflow w' := by
  refine ⟨⟨_, _, ⟨0, 7, by decide⟩, _, rfl, rfl, rfl, nestedGuards_order, rfl⟩, ?_, _, rfl⟩
  obtain ⟨w', placement, hcompile, hplaced⟩ : ∃ w' placement,
      compile plainServices {} nestedGuards ⟨{}, ()⟩ = .ok () w' ∧
        compiledPlacement plainServices {} nestedGuards ⟨{}, ()⟩ = some placement :=
    ⟨_, _, rfl, rfl⟩
  exact (exists_compile_iff_of_placed hplaced nestedGuards_order).mp ⟨w', hcompile⟩

end CilBackend
