import CilBackend.Routine.Expr
import CilBackend.Routine.Sorting

/-!
# Control-flow graphs

The blocks of a routine and the edges along which control goes between them. Edges are kept in the
order in which they were added, an edge that was added twice is kept twice, and the edges of a block
are gone through from the last one to the first. Lists of neighbours are sorted where a rule asks
for the blocks themselves and not for the edges.
-/

namespace CilBackend

inductive EdgeKind where
  | fallThrough
  | branch
  | exceptional
deriving DecidableEq

structure Edge where
  source : BlockId
  target : BlockId
  kind : EdgeKind
deriving DecidableEq

structure Graph where
  blocks : List Block
  edges : List Edge
  edges_inside : ∀ e ∈ edges, e.source < blocks.length ∧ e.target < blocks.length

namespace Graph

/-- An edge can only join blocks that are there. -/
def ofEdges (blocks : List Block) (edges : List Edge) : Except RoutineError Graph :=
  if h : ∀ e ∈ edges, e.source < blocks.length ∧ e.target < blocks.length then
    .ok ⟨blocks, edges, h⟩
  else
    .error .edgeOutsideGraph

def size (g : Graph) : Nat :=
  g.blocks.length

def nodes (g : Graph) : List BlockId :=
  List.range g.size

/-- The edges that leave `block`, the one that was added last coming first. -/
def edgesFrom (g : Graph) (block : BlockId) : List Edge :=
  (g.edges.filter fun e => e.source = block).reverse

/-- Where the edges that leave `block` lead to, once for each edge. -/
def neighbours (g : Graph) (block : BlockId) : List BlockId :=
  (g.edgesFrom block).map Edge.target

/-- The blocks of a list, each once and in ascending order. -/
def distinctBlocks (blocks : List BlockId) : List BlockId :=
  dropRepeats (sortBy (· ≤ ·) blocks)

/-- The blocks that control can go to from `block`. -/
def successors (g : Graph) (block : BlockId) : List BlockId :=
  distinctBlocks (g.neighbours block)

/-- The blocks that control can fall through to from `block`. -/
def fallThroughs (g : Graph) (block : BlockId) : List BlockId :=
  distinctBlocks (((g.edgesFrom block).filter fun e => e.kind = .fallThrough).map Edge.target)

end Graph

end CilBackend
