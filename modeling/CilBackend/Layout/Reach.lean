import CilBackend.Routine.Graph

/-!
# Reachability

A depth-first search over the blocks of a graph. The blocks not seen yet are marked in an array,
and the search takes the mark from every block that it comes to.
-/

namespace CilBackend

/-- Takes the marks from `block` and from all that can be reached from it through marked blocks, on
paths of at most `depth` blocks. Every step takes away a mark, so that as many as there are marks
are enough. -/
def unmark (successors : BlockId → List BlockId) :
    (depth : Nat) → (block : BlockId) → (marks : Array Bool) → Array Bool
  | 0, _, marks => marks
  | depth + 1, block, marks =>
    if marks.getD block false then
      (successors block).foldl (fun marks next => unmark successors depth next marks)
        (marks.setIfInBounds block false)
    else marks

/-- The marks that a search from `entry` leaves when the blocks of `marked` are marked before it. -/
def Graph.unseenFrom (g : Graph) (successors : BlockId → List BlockId) (entry : BlockId)
    (marked : BlockId → Bool) : Array Bool :=
  unmark successors g.size entry (g.nodes.map marked).toArray

/-- The blocks that control cannot come to from `entry`, in ascending order. -/
def Graph.unreachable (g : Graph) (entry : BlockId) : List BlockId :=
  let unseen := g.unseenFrom g.neighbours entry fun _ => true
  g.nodes.filter fun b => unseen.getD b false

end CilBackend
