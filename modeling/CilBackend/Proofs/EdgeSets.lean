import CilBackend.Proofs.Dominance
import CilBackend.Proofs.Regions

/-!
# Sets of edges

Compilation looks at the edges of a graph as a set. Neither the order in which they are listed nor
how often one of them is listed can be seen in a result, be it code or a failure.
-/

namespace CilBackend

/-- The same blocks and the same set of edges. -/
structure Graph.SameEdges (g g' : Graph) : Prop where
  blocks : g'.blocks = g.blocks
  edges : ∀ e, e ∈ g'.edges ↔ e ∈ g.edges

/-! ## Graphs -/

namespace Graph.SameEdges

variable {g g' : Graph}

lemma size (h : g.SameEdges g') : g'.size = g.size := by
  unfold Graph.size
  rw [h.blocks]

lemma nodes (h : g.SameEdges g') : g'.nodes = g.nodes := by
  unfold Graph.nodes
  rw [h.size]

lemma mem_neighbours (h : g.SameEdges g') (n m : BlockId) :
    m ∈ g'.neighbours n ↔ m ∈ g.neighbours n := by
  simp only [Graph.mem_neighbours, h.edges]

lemma successors (h : g.SameEdges g') : g'.successors = g.successors := by
  funext n
  simp only [Graph.successors_eq_filter, h.nodes, h.edges]

lemma fallThroughs (h : g.SameEdges g') : g'.fallThroughs = g.fallThroughs := by
  funext n
  simp only [Graph.fallThroughs_eq_filter, h.nodes, h.edges]

lemma approach (h : g.SameEdges g') : g'.approach = g.approach := by
  funext parent child
  simp only [Graph.approach_eq_rank, Graph.rank, h.edges]

lemma children (h : g.SameEdges g') : g'.children = g.children := by
  have hmay : g'.MayPrecede = g.MayPrecede := by
    unfold Graph.MayPrecede
    rw [h.approach]
  funext tree parent
  unfold Graph.children Graph.byApproach
  simp only [h.nodes, hmay]

lemma unstack (h : g.SameEdges g') (tree : DominatorTree) (steps : Nat) :
    g'.unstack tree steps = g.unstack tree steps := by
  funext stack
  induction steps generalizing stack with
  | zero => rfl
  | succ steps ih =>
    cases stack with
    | nil => rfl
    | cons block stack => rw [Graph.unstack, Graph.unstack, ih, h.children]

/-- The search meets the neighbours of a block in another order, but it comes to the same blocks. -/
lemma unseenFrom (h : g.SameEdges g') (entry : BlockId) (marked : BlockId → Bool) :
    g'.unseenFrom g'.neighbours entry marked = g.unseenFrom g.neighbours entry marked := by
  rw [Graph.unseenFrom_congr h.mem_neighbours]
  unfold Graph.unseenFrom
  rw [h.size, h.nodes]

lemma unreachable (h : g.SameEdges g') : g'.unreachable = g.unreachable := by
  funext entry
  unfold Graph.unreachable
  rw [h.nodes, h.unseenFrom]

lemma dominatorTree (h : g.SameEdges g') (entry : BlockId) :
    DominatorTree.ofGraph g' entry = DominatorTree.ofGraph g entry := by
  unfold DominatorTree.ofGraph
  simp only [Graph.cached_neighbours, h.unseenFrom]
  rw [h.nodes]

/-- The blocks are laid out in the same order, or they have none for the same reason. -/
lemma order (h : g.SameEdges g') : g'.order = g.order := by
  funext entry
  unfold Graph.order
  rw [h.size, h.unreachable, h.dominatorTree, h.unstack]

end Graph.SameEdges

/-! ## Routines -/

/-- Routines that differ at most in how their edges are listed. -/
structure Routine.SameEdges (r r' : Routine) : Prop where
  declarations : r'.declarations = r.declarations
  graph : r.graph.SameEdges r'.graph
  entry : r'.entry = r.entry
  frames : r'.frames = r.frames
  returnsValue : r'.returnsValue = r.returnsValue

namespace Routine.SameEdges

variable {σ : Type} {r r' : Routine}

lemma blockText (h : r.SameEdges r') : r'.blockText = r.blockText :=
  Routine.blockText_congr h.graph.blocks

lemma fallThroughJump (h : r.SameEdges r') (scope : Scope σ) :
    scope.fallThroughJump r' = scope.fallThroughJump r := by
  funext block next
  unfold Scope.fallThroughJump
  rw [h.graph.fallThroughs, h.frames, h.blockText]

lemma placeRoutine (h : r.SameEdges r') (services : Services σ) (options : Options) :
    placeRoutine services options r' = placeRoutine services options r := by
  apply placeRoutine_congr h.graph.blocks _ h.returnsValue h.fallThroughJump
  rw [h.graph.order, h.entry]

variable {placement : Placement} {describe : SyntaxNode → String} {tryEnd : TryEnd}

lemma reject (h : r.SameEdges r') :
    FrameScope.reject ⟨r', placement, describe, tryEnd⟩ =
      FrameScope.reject ⟨r, placement, describe, tryEnd⟩ := by
  funext area block cause
  unfold FrameScope.reject
  rw [h.blockText]

lemma handler (h : r.SameEdges r') :
    FrameScope.handler ⟨r', placement, describe, tryEnd⟩ =
      FrameScope.handler ⟨r, placement, describe, tryEnd⟩ := by
  have hkind : FrameScope.handlerKind ⟨r', placement, describe, tryEnd⟩ =
      FrameScope.handlerKind ⟨r, placement, describe, tryEnd⟩ := by
    funext f tryBlocks
    unfold FrameScope.handlerKind
    rw [h.reject]
  have htryEnd : FrameScope.tryEndAnchor ⟨r', placement, describe, tryEnd⟩ =
      FrameScope.tryEndAnchor ⟨r, placement, describe, tryEnd⟩ := by
    funext tryBlocks handlerBlocks
    unfold FrameScope.tryEndAnchor
    rw [h.reject]
  have hhandlerEnd : FrameScope.handlerEndAnchor ⟨r', placement, describe, tryEnd⟩ =
      FrameScope.handlerEndAnchor ⟨r, placement, describe, tryEnd⟩ := by
    funext handlerBlocks
    unfold FrameScope.handlerEndAnchor
    rw [h.reject, h.graph.successors]
  have hinside : FrameScope.checkInside ⟨r', placement, describe, tryEnd⟩ =
      FrameScope.checkInside ⟨r, placement, describe, tryEnd⟩ := by
    funext index region blocks first behind
    unfold FrameScope.checkInside
    rw [h.reject]
  funext index f
  unfold FrameScope.handler
  rw [hkind, htryEnd, hhandlerEnd, hinside, h.reject]
  rfl

lemma handlers (h : r.SameEdges r') :
    FrameScope.handlers ⟨r', placement, describe, tryEnd⟩ =
      FrameScope.handlers ⟨r, placement, describe, tryEnd⟩ := by
  unfold FrameScope.handlers
  rw [FrameScope.handlersFrom_congr h.handler, h.frames]

end Routine.SameEdges

/-- How edges are listed has no effect on compilation: the outcome, the diagnostic of a failure, the
body and the state of the services are the same from every start. -/
theorem compile_eq_of_sameEdges {σ : Type} (services : Services σ) (options : Options)
    {r r' : Routine} (h : r.SameEdges r') (w : Workspace σ) :
    compile services options r' w = compile services options r w := by
  unfold compile
  rw [h.declarations, h.placeRoutine, h.returnsValue]
  simp only [h.handlers]

/-- The nested guards with every edge listed twice, once from the last to the first. -/
def relistedGuards : Routine :=
  { nestedGuards with graph := {
      blocks := nestedGuards.graph.blocks
      edges := nestedGuards.graph.edges.reverse ++ nestedGuards.graph.edges
      edges_inside := by decide } }

/-- From the first block the routine compiles, and from the last one it fails. -/
theorem relistedGuards_eq_nestedGuards : ∃ w' f w'',
    compile plainServices {} nestedGuards ⟨usedBody, ()⟩ = .ok () w' ∧
      compile plainServices {} relistedGuards ⟨usedBody, ()⟩ = .ok () w' ∧
      compile plainServices {} { nestedGuards with entry := 6 } ⟨usedBody, ()⟩ = .error f w'' ∧
      compile plainServices {} { relistedGuards with entry := 6 } ⟨usedBody, ()⟩ =
        .error f w'' := by
  have hsame : ∀ entry, Routine.SameEdges { nestedGuards with entry }
      { relistedGuards with entry } := by
    intro entry
    refine ⟨rfl, ⟨rfl, ?_⟩, rfl, rfl, rfl⟩
    intro e
    simp [relistedGuards]
  obtain ⟨w', f, w'', hok, herror⟩ : ∃ w' f w'',
      compile plainServices {} nestedGuards ⟨usedBody, ()⟩ = .ok () w' ∧
        compile plainServices {} { nestedGuards with entry := 6 } ⟨usedBody, ()⟩ =
          .error f w'' := ⟨_, _, _, rfl, rfl⟩
  refine ⟨w', f, w'', hok, ?_, herror, ?_⟩
  · rw [← hok]
    exact compile_eq_of_sameEdges plainServices {} (hsame 0) ⟨usedBody, ()⟩
  · rw [← herror]
    exact compile_eq_of_sameEdges plainServices {} (hsame 6) ⟨usedBody, ()⟩

end CilBackend
